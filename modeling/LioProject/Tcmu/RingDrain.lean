import LioProject.Tcmu.RingSafety
import Mathlib.Data.List.Induction

/-!
# Draining the ring

`tcmu_flush_device` waits until the mailbox tail has caught up with the head. With no new entries
from the kernel, and with the last entry a command, that happens once every command entry has been
answered; a trailing padding entry would never be skipped.

The fetch loop and the completion loop disagree about which entries need an answer. The completion
loop counts every command entry. The fetch loop drops a command whose CDB has no known length, so
nobody will ever answer it, and the answers to later commands go into the dropped entry instead.
`ring_drained_iff` is the exact condition under which the ring does drain.
-/

namespace LioProject

namespace Tcmu

/-! ### Entries that the fetch loop turns into commands -/

/-- The CDB of the request has a length that `tcmu_get_cdb_length` knows. -/
def CmdEntry.cdbSupported (e : CmdEntry) : Bool :=
  match e.body with
  | .req _ cdb => (tcmuGetCdbLength cdb).isSome
  | .rsp _ _ => false

/-- A command entry that a fetch returns as a command. -/
def CmdEntry.isTaken (e : CmdEntry) : Bool := e.isCmd && e.cdbSupported

theorem CmdEntry.isTaken_of_command {e : CmdEntry} {iov : List Iovec} {cdb : Cdb} {cdbLen : ℕ}
    (h : e.look = .command iov cdb cdbLen) : e.isTaken = true := by
  obtain ⟨hop, hbody, hlen⟩ := CmdEntry.look_command h
  simp [CmdEntry.isTaken, CmdEntry.isCmd, CmdEntry.cdbSupported, hop, hbody, hlen]

theorem CmdEntry.not_isTaken_of_skip {e e' : CmdEntry} (h : e.look = .skip e') :
    e.isTaken = false := by
  rw [CmdEntry.look] at h
  split at h
  · rename_i hbody
    split at h
    · rename_i hlen
      simp [CmdEntry.isTaken, CmdEntry.cdbSupported, hbody, hlen]
    · exact absurd h (by simp)
  · rename_i hop
    simp [CmdEntry.isTaken, CmdEntry.isCmd, hop]
  · rename_i hunknown hcmd
    cases hop : e.op with
    | pad => simp [CmdEntry.isTaken, CmdEntry.isCmd, hop]
    | unknown => exact absurd hop hunknown
    | cmd =>
      cases hbody : e.body with
      | rsp status sense => simp [CmdEntry.isTaken, CmdEntry.cdbSupported, hbody]
      | req iov cdb => exact absurd hbody (hcmd iov cdb hop)

theorem CmdEntry.isCmd_of_skip {e e' : CmdEntry} (h : e.look = .skip e') : e'.isCmd = e.isCmd := by
  rcases CmdEntry.look_skip h with rfl | ⟨-, rfl⟩ <;> rfl

/-- What a fetch consumes is a prefix of the fresh entries, up to flags, and the command it
returns is the one taken entry in that prefix. -/
theorem fetchQueue_prefix (map : ℕ) (malloc : Option Sense) (es : List CmdEntry) :
    ∃ seen, es = seen ++ (fetchQueue map malloc es).2.1 ∧
      (fetchQueue map malloc es).1.map CmdEntry.isCmd = seen.map CmdEntry.isCmd ∧
      (fetchQueue map malloc es).2.2.toList.map TcmulibCmd.cmdId
        = (seen.filter CmdEntry.isTaken).map CmdEntry.cmdId := by
  induction es with
  | nil => exact ⟨[], rfl, rfl, rfl⟩
  | cons e es ih =>
    cases hlook : e.look with
    | skip e' =>
      obtain ⟨seen, hes, hkinds, hids⟩ := ih
      have hq : fetchQueue map malloc (e :: es)
          = (e' :: (fetchQueue map malloc es).1, (fetchQueue map malloc es).2.1,
              (fetchQueue map malloc es).2.2) := by
        rw [fetchQueue, hlook]
      rw [hq]
      refine ⟨e :: seen, by rw [List.cons_append, ← hes], ?_, ?_⟩
      · rw [List.map_cons, List.map_cons, hkinds, CmdEntry.isCmd_of_skip hlook]
      · rw [List.filter_cons_of_neg (by simp [CmdEntry.not_isTaken_of_skip hlook])]
        exact hids
    | command iov cdb cdbLen =>
      rw [fetchQueue, hlook]
      cases malloc with
      | none => exact ⟨[], rfl, rfl, rfl⟩
      | some junk =>
        refine ⟨[e], rfl, rfl, ?_⟩
        rw [List.filter_cons_of_pos (CmdEntry.isTaken_of_command hlook)]
        rfl

/-- A fetch that returns nothing has looked at every entry, unless an allocation failed at one that
it would have taken. -/
theorem fetchQueue_rest_eq_nil {map : ℕ} {malloc : Option Sense} {es : List CmdEntry}
    (hnull : (fetchQueue map malloc es).2.2 = none)
    (hok : malloc = none → ∀ e ∈ es, e.isTaken = false) :
    (fetchQueue map malloc es).2.1 = [] := by
  induction es with
  | nil => rfl
  | cons e es ih =>
    cases hlook : e.look with
    | skip e' =>
      rw [fetchQueue, hlook] at hnull ⊢
      exact ih hnull fun hm s hs => hok hm s (List.mem_cons_of_mem _ hs)
    | command iov cdb cdbLen =>
      cases malloc with
      | none =>
        have hnot := hok rfl e (List.mem_cons_self ..)
        rw [CmdEntry.isTaken_of_command hlook] at hnot
        exact absurd hnot (by simp)
      | some junk =>
        rw [fetchQueue, hlook] at hnull
        exact absurd hnull (by simp)

/-! ### The invariant -/

/-- The entries that the kernel appends in a run. -/
def appended (es : List Event) : List CmdEntry :=
  es.filterMap fun
    | .append e => some e
    | _ => none

theorem appended_concat_append (es : List Event) (e : CmdEntry) :
    appended (es ++ [.append e]) = appended es ++ [e] := by
  simp [appended]

theorem appended_concat_fetch (es : List Event) (malloc : Option Sense) :
    appended (es ++ [.fetch malloc]) = appended es := by
  simp [appended]

theorem appended_concat_complete (es : List Event) (i : ℕ) (result : TcmuSts) (sense : Sense) :
    appended (es ++ [.complete i result sense]) = appended es := by
  simp [appended]

/-- Completions. -/
def Event.isCompletion : Event → Bool
  | .complete _ _ _ => true
  | _ => false

/-- The number of commands that have been fetched so far. -/
def Sys.fetched (s : Sys) : ℕ := s.completed.length + s.outstanding.length

/-- The invariant of a daemon that works off the entries `seen ++ fresh`. -/
structure Draining (s : Sys) (consumed seen fresh : List CmdEntry) : Prop where
  /-- The safety invariant. -/
  safe : Safe s consumed fresh
  /-- The entries given back and those consumed are the ones that have been seen. -/
  kinds : (s.passed ++ consumed).map CmdEntry.isCmd = seen.map CmdEntry.isCmd
  /-- The taken entries among them are the commands that have been fetched. -/
  taken : (s.completed.map Completion.cmdId ++ s.outstanding.map TcmulibCmd.cmdId).Perm
    ((seen.filter CmdEntry.isTaken).map CmdEntry.cmdId)

/-- The state in which the daemon finds `entries` in the ring and has done nothing yet. -/
structure Loaded (s : Sys) (entries : List CmdEntry) : Prop where
  /-- The ring holds exactly these entries. -/
  rep : Rep s.ring [] entries
  /-- Nothing has been fetched. -/
  outstanding : s.outstanding = []
  /-- Nothing has been given back. -/
  passed : s.passed = []
  /-- Nothing has been completed. -/
  completed : s.completed = []

theorem Loaded.draining {s : Sys} {entries : List CmdEntry} (h : Loaded s entries) :
    Draining s [] [] entries where
  safe := ⟨h.rep, by simp [h.outstanding], by simp [h.passed, h.completed, responses]⟩
  kinds := by simp [h.passed]
  taken := by simp [h.completed, h.outstanding]

theorem map_cmdId_eraseIdx_perm {cmds : List TcmulibCmd} {i : ℕ} {cmd : TcmulibCmd}
    (h : cmds[i]? = some cmd) :
    ([cmd.cmdId] ++ (cmds.eraseIdx i).map TcmulibCmd.cmdId).Perm (cmds.map TcmulibCmd.cmdId) := by
  obtain ⟨hi, rfl⟩ := List.getElem?_eq_some_iff.mp h
  exact (List.getElem_cons_eraseIdx_perm hi).map TcmulibCmd.cmdId

/-- What one completion does to the lists. -/
theorem Draining.complete {s t : Sys} {consumed seen fresh : List CmdEntry} {i : ℕ}
    {result : TcmuSts} {sense : Sense} (h : Draining s consumed seen fresh)
    (hstep : step s (.complete i result sense) = some t) :
    ∃ consumed', Draining t consumed' seen fresh ∧ t.fetched = s.fetched := by
  rw [step] at hstep
  cases hcmd : s.outstanding[i]? with
  | none =>
    rw [hcmd] at hstep
    exact absurd hstep (by simp)
  | some cmd =>
    obtain ⟨hi, -⟩ := List.getElem?_eq_some_iff.mp hcmd
    have henough := h.safe.enough
    obtain ⟨skipped, e, rest, rfl, hskipped, he⟩ := exists_first_cmd consumed (by omega)
    obtain ⟨r', hrun, hrep⟩ :=
      tcmulibCommandComplete_sim { cmd with sense := sense } result h.safe.rep hskipped he
    rw [hcmd] at hstep
    simp only [hrun, Option.map_some, Option.some.injEq] at hstep
    subst hstep
    refine ⟨rest, ⟨⟨hrep, ?_, ?_⟩, ?_, ?_⟩, ?_⟩
    · rw [List.countP_append, countP_eq_zero_of_skipped hskipped,
        List.countP_cons_of_pos (CmdEntry.isCmd_iff.mpr he)] at henough
      change (s.outstanding.eraseIdx i).length ≤ _
      rw [List.length_eraseIdx_of_lt hi]
      omega
    · change responses (s.passed ++ _) = (s.completed ++ _).map _
      rw [responses_append, responses_append, responses_skipped hskipped, h.safe.answered,
        List.map_append, responses_respond he]
      rfl
    · rw [← h.kinds]
      simp
    · refine List.Perm.trans ?_ h.taken
      rw [List.map_append, List.append_assoc]
      exact (map_cmdId_eraseIdx_perm hcmd).append_left _
    · simp only [Sys.fetched, List.length_append, List.length_singleton,
        List.length_eraseIdx_of_lt hi]
      omega

/-- What one fetch does to the lists. -/
theorem Draining.fetch {s t : Sys} {consumed seen fresh : List CmdEntry} {malloc : Option Sense}
    (h : Draining s consumed seen fresh) (hstep : step s (.fetch malloc) = some t) :
    ∃ more, fresh = more ++ (fetchQueue s.ring.map malloc fresh).2.1 ∧
      Draining t (consumed ++ (fetchQueue s.ring.map malloc fresh).1) (seen ++ more)
        (fetchQueue s.ring.map malloc fresh).2.1 := by
  obtain ⟨r', hrun, hrep, -, -⟩ := tcmulibGetNextCommand_sim malloc h.safe.rep
  obtain ⟨more, hfresh, hkinds, hids⟩ := fetchQueue_prefix s.ring.map malloc fresh
  rw [step, hrun] at hstep
  obtain rfl := (Option.some.inj hstep).symm
  refine ⟨more, hfresh, ⟨hrep, ?_, h.safe.answered⟩, ?_, ?_⟩
  · have hcount := fetchQueue_count s.ring.map malloc fresh
    change (s.outstanding ++ _).length ≤ _
    rw [List.length_append, List.countP_append]
    exact Nat.add_le_add h.safe.enough hcount
  · rw [← List.append_assoc, List.map_append, h.kinds, hkinds, List.map_append]
  · rw [List.map_append, ← List.append_assoc, List.filter_append, List.map_append, hids]
    exact h.taken.append_right _

/-- The kernel only adds to the fresh entries. -/
theorem Draining.append {s t : Sys} {consumed seen fresh : List CmdEntry} {e : CmdEntry}
    (h : Draining s consumed seen fresh) (hstep : step s (.append e) = some t) :
    Draining t consumed seen (fresh ++ [e]) := by
  rw [step] at hstep
  split at hstep
  · rename_i hok
    obtain rfl := (Option.some.inj hstep).symm
    exact ⟨⟨h.safe.rep.append hok.1 hok.2, h.safe.enough, h.safe.answered⟩, h.kinds, h.taken⟩
  · exact absurd hstep (by simp)

/-- A run keeps the invariant, and works the entries off in the order in which they came. -/
theorem draining_of_run {entries : List CmdEntry} {es : List Event} {s₀ s : Sys}
    (h₀ : Loaded s₀ entries) (hrun : run step s₀ es = some s) :
    ∃ consumed seen fresh, entries ++ appended es = seen ++ fresh ∧
      Draining s consumed seen fresh := by
  induction es using List.reverseRecOn generalizing s with
  | nil =>
    rw [run_nil, Option.some.injEq] at hrun
    subst hrun
    exact ⟨[], [], entries, by simp [appended], h₀.draining⟩
  | append_singleton es ev ih =>
    obtain ⟨u, hu, hstep⟩ := run_concat.mp hrun
    obtain ⟨consumed, seen, fresh, heq, h⟩ := ih hu
    cases ev with
    | append e =>
      refine ⟨consumed, seen, fresh ++ [e], ?_, h.append hstep⟩
      rw [appended_concat_append, ← List.append_assoc, heq, List.append_assoc]
    | fetch malloc =>
      obtain ⟨more, hfresh, hdrain⟩ := h.fetch hstep
      refine ⟨_, _, _, ?_, hdrain⟩
      rw [appended_concat_fetch, heq, List.append_assoc, ← hfresh]
    | complete i result sense =>
      obtain ⟨consumed', hdrain, -⟩ := h.complete hstep
      exact ⟨consumed', seen, fresh, by rw [appended_concat_complete, heq], hdrain⟩

/-- Completions alone touch neither the fresh entries nor the number of commands fetched. -/
theorem draining_of_completions {consumed seen fresh : List CmdEntry} {es : List Event} {s t : Sys}
    (h : Draining s consumed seen fresh) (hes : ∀ e ∈ es, e.isCompletion)
    (hrun : run step s es = some t) :
    ∃ consumed', Draining t consumed' seen fresh ∧ t.fetched = s.fetched := by
  induction es using List.reverseRecOn generalizing t with
  | nil =>
    rw [run_nil, Option.some.injEq] at hrun
    exact ⟨consumed, hrun ▸ h, by rw [hrun]⟩
  | append_singleton es ev ih =>
    obtain ⟨u, hu, hstep⟩ := run_concat.mp hrun
    obtain ⟨consumed', hdrain, hcount⟩ := ih (fun e he => hes e (List.mem_append_left _ he)) hu
    cases ev with
    | append e => exact absurd (hes (.append e) (by simp)) (by simp [Event.isCompletion])
    | fetch malloc => exact absurd (hes (.fetch malloc) (by simp)) (by simp [Event.isCompletion])
    | complete i result sense =>
      obtain ⟨consumed'', hdrain', hcount'⟩ := hdrain.complete hstep
      exact ⟨consumed'', hdrain', hcount'.trans hcount⟩

/-! ### The condition -/

theorem Draining.fetched_eq {s : Sys} {consumed seen fresh : List CmdEntry}
    (h : Draining s consumed seen fresh) : s.fetched = seen.countP CmdEntry.isTaken := by
  have hlen := h.taken.length_eq
  simpa [Sys.fetched, List.countP_eq_length_filter] using hlen

/-- The kernel has got back as many command entries as there were completions. -/
theorem Draining.passed_count {s : Sys} {consumed seen fresh : List CmdEntry}
    (h : Draining s consumed seen fresh) :
    s.passed.countP CmdEntry.isCmd = s.completed.length := by
  have hlen := congrArg List.length h.safe.answered
  simpa [responses, List.countP_eq_length_filter] using hlen

theorem countP_isCmd_of_kinds {es fs : List CmdEntry}
    (h : es.map CmdEntry.isCmd = fs.map CmdEntry.isCmd) :
    es.countP CmdEntry.isCmd = fs.countP CmdEntry.isCmd := by
  have hcount := congrArg (List.countP id) h
  simpa [List.countP_map, Function.comp_def] using hcount

/-- If every command entry is taken, taken entries and command entries are the same. -/
theorem countP_isTaken_eq_iff {es : List CmdEntry} :
    es.countP CmdEntry.isTaken = es.countP CmdEntry.isCmd ↔
      ∀ e ∈ es, e.isCmd → e.cdbSupported := by
  induction es with
  | nil => simp
  | cons e es ih =>
    have hle : es.countP CmdEntry.isTaken ≤ es.countP CmdEntry.isCmd :=
      List.countP_mono_left fun x _ hx => by simp [CmdEntry.isTaken] at hx; exact hx.1
    cases hcmd : e.isCmd with
    | false =>
      rw [List.countP_cons_of_neg (by simp [CmdEntry.isTaken, hcmd]),
        List.countP_cons_of_neg (by simp [hcmd]), ih]
      simp [hcmd]
    | true =>
      cases hsup : e.cdbSupported with
      | false =>
        rw [List.countP_cons_of_neg (by simp [CmdEntry.isTaken, hsup]),
          List.countP_cons_of_pos (by simp [hcmd])]
        simp only [List.mem_cons, forall_eq_or_imp, hcmd, hsup, forall_const]
        constructor
        · intro h; omega
        · rintro ⟨h, -⟩; exact absurd h (by simp)
      | true =>
        rw [List.countP_cons_of_pos (by simp [CmdEntry.isTaken, hcmd, hsup]),
          List.countP_cons_of_pos (by simp [hcmd]), Nat.add_right_cancel_iff, ih]
        simp [hcmd, hsup]

theorem filter_isTaken_eq {es : List CmdEntry} (h : ∀ e ∈ es, e.isCmd → e.cdbSupported) :
    es.filter CmdEntry.isTaken = es.filter CmdEntry.isCmd := by
  refine List.filter_congr fun e he => ?_
  cases hcmd : e.isCmd with
  | false => simp [CmdEntry.isTaken, hcmd]
  | true => simp [CmdEntry.isTaken, hcmd, h e he hcmd]

/-- Where no command entry is left and the last entry was one, nothing is left. -/
theorem eq_nil_of_kinds {passed consumed all : List CmdEntry}
    (hkinds : (passed ++ consumed).map CmdEntry.isCmd = all.map CmdEntry.isCmd)
    (hlast : all.getLast?.map CmdEntry.isCmd = some true)
    (hcount : consumed.countP CmdEntry.isCmd = 0) : consumed = [] := by
  by_contra hne
  have heq : ((passed ++ consumed).map CmdEntry.isCmd).getLast? = some true := by
    rw [hkinds, List.getLast?_map, hlast]
  rw [List.getLast?_map, List.getLast?_append_of_ne_nil _ hne,
    List.getLast?_eq_some_getLast hne, Option.map_some, Option.some.injEq] at heq
  exact List.countP_eq_zero.mp hcount _ (List.getLast_mem hne) heq

/-- The identifiers that the kernel reads out are those of the completed commands. -/
theorem Draining.responses_ids {s : Sys} {consumed seen fresh : List CmdEntry}
    (h : Draining s consumed seen fresh) :
    (responses s.passed).map Prod.fst = s.completed.map Completion.cmdId := by
  rw [h.safe.answered, List.map_map]
  rfl

/-- The state of the ring when the daemon has nothing left in hand: it is clear exactly when every
entry has been seen and every command entry was taken. -/
theorem Draining.isClear_iff {s : Sys} {consumed seen fresh : List CmdEntry}
    (h : Draining s consumed seen fresh) (hdone : s.outstanding = [])
    (hlast : (seen ++ fresh).getLast?.map CmdEntry.isCmd = some true) :
    s.ring.isClear ↔ fresh = [] ∧ ∀ e ∈ seen, e.isCmd → e.cdbSupported := by
  have hkinds := countP_isCmd_of_kinds h.kinds
  have hcompleted : s.completed.length = seen.countP CmdEntry.isTaken := by
    rw [← h.fetched_eq, Sys.fetched, hdone, List.length_nil, Nat.add_zero]
  rw [List.countP_append, h.passed_count, hcompleted] at hkinds
  rw [← countP_isTaken_eq_iff, Ring.isClear, decide_eq_true_eq, eq_comm,
    h.safe.rep.tail_eq_head_iff]
  constructor
  · rintro ⟨rfl, rfl⟩
    exact ⟨rfl, by simpa using hkinds⟩
  · rintro ⟨rfl, heq⟩
    rw [List.append_nil] at hlast
    exact ⟨eq_nil_of_kinds h.kinds hlast (by omega), rfl⟩

/-- **The ring drains exactly when nothing was dropped.** The kernel may append while the daemon
works (`es₁`). The last fetch returns no command, and everything fetched is then completed (`es₂`),
in any order. Every command entry's identifier has got one response and the mailbox tail has
reached the head if and only if every command entry has a CDB of known length, and the last fetch,
if its allocation would have failed, had nothing left to allocate for. -/
theorem ring_drained_iff {entries : List CmdEntry} {es₁ es₂ : List Event} {s₀ u t s : Sys}
    {malloc : Option Sense} (h₀ : Loaded s₀ entries)
    (hlast : (entries ++ appended es₁).getLast?.map CmdEntry.isCmd = some true)
    (hu : run step s₀ es₁ = some u)
    (hnull : (tcmulibGetNextCommand malloc u.ring).map Prod.snd = some none)
    (ht : step u (.fetch malloc) = some t) (hes₂ : ∀ e ∈ es₂, e.isCompletion)
    (hs : run step t es₂ = some s) (hdone : s.outstanding = []) :
    (((responses s.passed).map Prod.fst).Perm
        (((entries ++ appended es₁).filter CmdEntry.isCmd).map CmdEntry.cmdId) ∧ s.ring.isClear) ↔
      (∀ e ∈ entries ++ appended es₁, e.isCmd → e.cdbSupported) ∧
      (malloc = none → u.fetched = (entries ++ appended es₁).countP CmdEntry.isTaken) := by
  obtain ⟨consumed, seen, fresh, hall, hdu⟩ := draining_of_run h₀ hu
  obtain ⟨more, hfresh, hdt⟩ := hdu.fetch ht
  obtain ⟨consumed', hds, hcount⟩ := draining_of_completions hdt hes₂ hs
  obtain ⟨r', hfetch, -⟩ := tcmulibGetNextCommand_sim malloc hdu.safe.rep
  have hcmd : (fetchQueue u.ring.map malloc fresh).2.2 = none := by
    rw [hfetch] at hnull
    simpa using hnull
  have htu : t.fetched = u.fetched := by
    rw [step, hfetch, hcmd] at ht
    obtain rfl := (Option.some.inj ht).symm
    simp [Sys.fetched]
  have hall' : entries ++ appended es₁
      = (seen ++ more) ++ (fetchQueue u.ring.map malloc fresh).2.1 := by
    rw [hall, List.append_assoc, ← hfresh]
  have hclear := hds.isClear_iff hdone (by rw [← hall']; exact hlast)
  rw [hclear]
  constructor
  · rintro ⟨-, hrest, hsupported⟩
    rw [hrest, List.append_nil] at hall'
    rw [hall']
    exact ⟨hsupported, fun _ => by rw [← htu, ← hcount, hds.fetched_eq]⟩
  · rintro ⟨hsupported, hmalloc⟩
    have hrest : (fetchQueue u.ring.map malloc fresh).2.1 = [] := by
      refine fetchQueue_rest_eq_nil hcmd ?_
      intro hnone e he
      have hfetched := hmalloc hnone
      rw [hdu.fetched_eq, hall, List.countP_append] at hfetched
      have hzero : fresh.countP CmdEntry.isTaken = 0 := by omega
      simpa using List.countP_eq_zero.mp hzero e he
    rw [hrest, List.append_nil] at hall'
    rw [hall'] at hsupported ⊢
    refine ⟨?_, hrest, hsupported⟩
    rw [hds.responses_ids]
    have hperm := hds.taken
    rw [hdone, List.map_nil, List.append_nil] at hperm
    rwa [filter_isTaken_eq hsupported] at hperm

/-- A kernel entry for a command with the vendor-specific opcode 0xc0, whose group has no fixed CDB
length. -/
def vendorEntry (id : ℕ) : CmdEntry := ⟨129, id, 0, .req [] [0xc0, 0, 0, 0, 0, 0]⟩

/-- The vendor-specific command is dropped: the fetch returns no command, so that none is left to
complete, and yet no response has been posted and the mailbox tail is behind the head. -/
theorem vendor_entry_not_drained :
    ((run step ⟨emptyRing, [], [], []⟩ [.append (vendorEntry 7)]).bind fun u =>
        (tcmulibGetNextCommand (some []) u.ring).map fun p => p.2.isNone) = some true ∧
      ((run step ⟨emptyRing, [], [], []⟩ [.append (vendorEntry 7), .fetch (some [])]).map fun t =>
        (t.outstanding.length, (responses t.passed).map Prod.fst, t.ring.isClear))
        = some (0, [], false) := by
  decide

/-- Two commands with padding between them, and the two fetches that return them. -/
def pairRun : List Event :=
  [.append (readEntry 7), .append ⟨64, 0, 0, .req [] []⟩, .append (readEntry 8), .fetch (some []),
    .fetch (some [])]

/-- Both commands are supported, so completing them in the opposite order drains the ring. -/
theorem ring_drained_pair :
    ∃ u t s, run step ⟨emptyRing, [], [], []⟩ pairRun = some u ∧
      step u (.fetch (some [])) = some t ∧
      run step t [.complete 1 .ok [], .complete 0 .busy []] = some s ∧
      ((responses s.passed).map Prod.fst).Perm [7, 8] ∧ s.ring.isClear := by
  have hsome : ((run step ⟨emptyRing, [], [], []⟩ pairRun).bind fun u =>
      (step u (.fetch (some []))).bind fun t =>
        (run step t [.complete 1 .ok [], .complete 0 .busy []]).bind fun s =>
          (tcmulibGetNextCommand (some []) u.ring).map fun p =>
            (p.2.isNone, s.outstanding.length)) = some (true, 0) := by decide
  simp only [Option.bind_eq_some_iff, Option.map_eq_some_iff, Prod.mk.injEq,
    Option.isNone_iff_eq_none, List.length_eq_zero_iff] at hsome
  obtain ⟨u, hu, t, ht, s, hs, p, hp, hnone, hdone⟩ := hsome
  have hloaded : Loaded ⟨emptyRing, [], [], []⟩ [] := ⟨rep_emptyRing, rfl, rfl, rfl⟩
  have hdrained := ring_drained_iff hloaded (by decide) hu
    (by rw [hp, Option.map_some, hnone]) ht (by decide) hs hdone
  exact ⟨u, t, s, hu, ht, hs, hdrained.mpr ⟨by decide, by simp⟩⟩

end Tcmu

end LioProject
