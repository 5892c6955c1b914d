import LioProject.Tcmu.Ring

/-!
# The ring as a queue

Between the two tails and the head, a ring is two lists: the entries that the daemon has looked at
and the kernel has not got back (`consumed`), and those that the daemon has still to look at
(`fresh`). `Rep r consumed fresh` says that the ring memory represents these lists.

On the lists, both C functions are simple. A fetch moves a prefix of `fresh` over to `consumed`
(`fetchQueue`); a completion drops a prefix of `consumed` that ends with its first command. The
simulation theorems `tcmulibGetNextCommand_sim` and `tcmulibCommandComplete_sim` say that the
offset arithmetic, the wrap-around and the in-place rewriting of entries amount to just that.
-/

namespace LioProject

namespace Tcmu

/-! ### The fetch, on lists -/

/-- What the fetch loop does with an entry: move on, possibly rewriting it, or stop at it with a
command. -/
inductive Look where
  | skip (rewritten : CmdEntry)
  | command (iov : List Iovec) (cdb : Cdb) (cdbLen : ℕ)

/-- The switch in `tcmulib_get_next_command`, for an entry whose body is not yet overwritten. -/
def CmdEntry.look (e : CmdEntry) : Look :=
  match e.op, e.body with
  | .cmd, .req iov cdb =>
    match tcmuGetCdbLength cdb with
    | none => .skip e
    | some cdbLen => .command iov cdb cdbLen
  | .unknown, _ => .skip e.markUnknown
  | _, _ => .skip e

/-- One fetch on the list of fresh entries: what it consumes, what it leaves, and its result. -/
def fetchQueue (map : ℕ) (malloc : Option Sense) :
    List CmdEntry → List CmdEntry × List CmdEntry × Option TcmulibCmd
  | [] => ([], [], none)
  | e :: es =>
    match e.look with
    | .skip e' =>
      let p := fetchQueue map malloc es
      (e' :: p.1, p.2.1, p.2.2)
    | .command iov cdb cdbLen =>
      match malloc with
      | none => ([], e :: es, none)
      | some junk => ([e], es, some (buildCmd map e.cmdId iov cdb cdbLen junk))

theorem CmdEntry.WellFormed.markUnknown {e : CmdEntry} (h : e.WellFormed) :
    e.markUnknown.WellFormed :=
  ⟨h.len_pos, h.request, h.size⟩

/-- Skipping an entry keeps its length, its opcode and its well-formedness. -/
theorem CmdEntry.look_skip {e e' : CmdEntry} (h : e.look = .skip e') :
    e' = e ∨ (e.op = .unknown ∧ e' = e.markUnknown) := by
  rw [CmdEntry.look] at h
  split at h
  · split at h
    · exact Or.inl (Look.skip.inj h).symm
    · exact absurd h (by simp)
  · rename_i hop
    exact Or.inr ⟨hop, (Look.skip.inj h).symm⟩
  · exact Or.inl (Look.skip.inj h).symm

theorem CmdEntry.look_command {e : CmdEntry} {iov : List Iovec} {cdb : Cdb} {cdbLen : ℕ}
    (h : e.look = .command iov cdb cdbLen) :
    e.op = .cmd ∧ e.body = .req iov cdb ∧ tcmuGetCdbLength cdb = some cdbLen := by
  rw [CmdEntry.look] at h
  split at h
  · rename_i hop hbody
    split at h
    · exact absurd h (by simp)
    · rename_i hlen
      obtain ⟨rfl, rfl, rfl⟩ := Look.command.inj h
      exact ⟨hop, hbody, hlen⟩
  · exact absurd h (by simp)
  · exact absurd h (by simp)

/-! ### Representation -/

/-- The ring memory represents the two lists of entries. -/
structure Rep (r : Ring) (consumed fresh : List CmdEntry) : Prop where
  /-- `cmdr_size` is a `uint32_t`. -/
  size_lt : r.cmdrSize < 2 ^ 32
  /-- The mailbox tail is an offset in the ring. -/
  tail_lt : r.cmdTail < r.cmdrSize
  /-- The consumed entries lie between the mailbox tail and the device tail. -/
  consumed_laid : Laid r.cmdrSize CmdEntry.len r.ent r.cmdTail consumed r.devTail
  /-- The fresh entries lie between the device tail and the head. -/
  fresh_laid : Laid r.cmdrSize CmdEntry.len r.ent r.devTail fresh r.cmdHead
  /-- Together they do not fill the ring. -/
  span_lt : span CmdEntry.len consumed + span CmdEntry.len fresh < r.cmdrSize
  /-- No response has been written into a consumed entry. -/
  consumed_wf : ∀ e ∈ consumed, e.WellFormed
  /-- The fresh entries are as the kernel wrote them. -/
  fresh_wf : ∀ e ∈ fresh, e.WellFormed

/-- Two rings agree on everything but their memory and tails. -/
def Ring.SameFrame (r r' : Ring) : Prop :=
  r'.cmdrSize = r.cmdrSize ∧ r'.cmdHead = r.cmdHead ∧ r'.map = r.map

section Rep

variable {r : Ring} {consumed fresh : List CmdEntry} {e e' : CmdEntry}

theorem Rep.devTail_lt (h : Rep r consumed fresh) : r.devTail < r.cmdrSize :=
  h.consumed_laid.stop_lt h.tail_lt

/-- All entries in the ring form one walk from the mailbox tail to the head. -/
theorem Rep.laid (h : Rep r consumed fresh) :
    Laid r.cmdrSize CmdEntry.len r.ent r.cmdTail (consumed ++ fresh) r.cmdHead :=
  laid_append.mpr ⟨_, h.consumed_laid, h.fresh_laid⟩

theorem span_pos {es : List CmdEntry} (hne : es ≠ []) (h : ∀ e ∈ es, e.WellFormed) :
    0 < span CmdEntry.len es := by
  cases es with
  | nil => exact absurd rfl hne
  | cons e es =>
    have hpos := (h e (List.mem_cons_self ..)).len_pos
    rw [span_cons]
    omega

/-- The walk of the fetch loop ends exactly when no fresh entry is left. -/
theorem Rep.devTail_eq_head_iff (h : Rep r consumed fresh) :
    r.devTail = r.cmdHead ↔ fresh = [] := by
  constructor
  · intro heq
    by_contra hne
    have hlt := h.span_lt
    exact h.fresh_laid.stop_ne h.devTail_lt (span_pos hne h.fresh_wf) (by omega) heq
  · rintro rfl
    exact laid_nil.mp h.fresh_laid

/-- The ring is clear exactly when both lists are empty. -/
theorem Rep.tail_eq_head_iff (h : Rep r consumed fresh) :
    r.cmdTail = r.cmdHead ↔ consumed = [] ∧ fresh = [] := by
  constructor
  · intro heq
    by_contra hne
    have hne' : consumed ++ fresh ≠ [] := by simpa using hne
    refine h.laid.stop_ne h.tail_lt (span_pos hne' ?_) (by rw [span_append]; exact h.span_lt) heq
    intro e he
    exact (List.mem_append.mp he).elim (h.consumed_wf e) (h.fresh_wf e)
  · rintro ⟨rfl, rfl⟩
    exact laid_nil.mp h.laid

/-- The 32-bit sum does not wrap, because an entry ends inside the ring. -/
theorem Ring.advance_eq {off : ℕ} (hsize : r.cmdrSize < 2 ^ 32) (hle : off + e.len ≤ r.cmdrSize) :
    r.advance off e = (off + e.len) % r.cmdrSize := by
  have hlt : off + e.len < 2 ^ 32 := by omega
  rw [Ring.advance, Nat.mod_eq_of_lt hlt]

/-- Rewriting the entry at the device tail and moving past it. -/
theorem Rep.skip (h : Rep r consumed (e :: fresh)) (hlen : e'.len = e.len)
    (hwf : e'.WellFormed) :
    Rep ((r.setEnt r.devTail e').updateDevTail e) (consumed ++ [e']) fresh := by
  have hspan := h.span_lt
  rw [span_cons] at hspan
  have hadv : r.advance r.devTail e = (r.devTail + e.len) % r.cmdrSize :=
    Ring.advance_eq h.size_lt h.fresh_laid.2.1
  have hfresh : Laid r.cmdrSize CmdEntry.len (Function.update r.ent r.devTail e') r.devTail
      (e' :: fresh) r.cmdHead :=
    h.fresh_laid.replace h.devTail_lt (fun s hs => (h.fresh_wf s hs).len_pos) hlen
      (by rw [span_cons]; omega)
  have hconsumed : Laid r.cmdrSize CmdEntry.len (Function.update r.ent r.devTail e') r.cmdTail
      consumed r.devTail :=
    h.consumed_laid.update_stop h.tail_lt (fun s hs => (h.consumed_wf s hs).len_pos) (by omega)
  have hnext : (r.devTail + e'.len) % r.cmdrSize = r.advance r.devTail e := by rw [hlen, hadv]
  refine ⟨h.size_lt, h.tail_lt, ?_, ?_, ?_, ?_, ?_⟩
  · exact laid_append.mpr ⟨_, hconsumed, hfresh.1, hfresh.2.1, hnext⟩
  · change Laid r.cmdrSize CmdEntry.len (Function.update r.ent r.devTail e')
      (r.advance r.devTail e) fresh r.cmdHead
    rw [← hnext]
    exact hfresh.2.2
  · change span CmdEntry.len (consumed ++ [e']) + span CmdEntry.len fresh < r.cmdrSize
    rw [span_append, span_cons, span_nil, hlen]
    omega
  · exact List.forall_mem_append.mpr ⟨h.consumed_wf, List.forall_mem_singleton.mpr hwf⟩
  · exact fun s hs => h.fresh_wf s (List.mem_cons_of_mem _ hs)

theorem Ring.setEnt_self {off : ℕ} (h : r.ent off = e) : r.setEnt off e = r := by
  rw [Ring.setEnt, ← h, Function.update_eq_self]

/-- Moving past the entry at the device tail without touching it. -/
theorem Rep.pass (h : Rep r consumed (e :: fresh)) :
    Rep (r.updateDevTail e) (consumed ++ [e]) fresh := by
  have hskip := h.skip rfl (h.fresh_wf e (List.mem_cons_self ..))
  rwa [Ring.setEnt_self h.fresh_laid.1] at hskip

/-- Rewriting the entry at the mailbox tail and giving it back to the kernel. -/
theorem Rep.release (h : Rep r (e :: consumed) fresh) (hlen : e'.len = e.len) :
    Rep ((r.setEnt r.cmdTail e').updateRbTail e') consumed fresh := by
  have hspan := h.span_lt
  rw [span_cons] at hspan
  have hpos : 0 < e.len := (h.consumed_wf e (List.mem_cons_self ..)).len_pos
  have hadv : r.advance r.cmdTail e' = (r.cmdTail + e.len) % r.cmdrSize := by
    rw [Ring.advance_eq h.size_lt (by rw [hlen]; exact h.consumed_laid.2.1), hlen]
  have hsize : 0 < r.cmdrSize := Nat.zero_lt_of_lt h.tail_lt
  have hdev : r.devTail = (r.cmdTail + (e.len + span CmdEntry.len consumed)) % r.cmdrSize := by
    rw [h.consumed_laid.stop_eq h.tail_lt, span_cons]
  refine ⟨h.size_lt, ?_, ?_, ?_, ?_, ?_, h.fresh_wf⟩
  · change r.advance r.cmdTail e' < r.cmdrSize
    rw [hadv]
    exact Nat.mod_lt _ hsize
  · change Laid r.cmdrSize CmdEntry.len (Function.update r.ent r.cmdTail e')
      (r.advance r.cmdTail e') consumed r.devTail
    rw [hadv]
    exact h.consumed_laid.2.2.update h.tail_lt hpos
      (fun s hs => (h.consumed_wf s (List.mem_cons_of_mem _ hs)).len_pos) (by omega)
  · change Laid r.cmdrSize CmdEntry.len (Function.update r.ent r.cmdTail e') r.devTail fresh
      r.cmdHead
    have hfresh := h.fresh_laid
    rw [hdev] at hfresh ⊢
    exact hfresh.update h.tail_lt (by omega) (fun s hs => (h.fresh_wf s hs).len_pos) (by omega)
  · change span CmdEntry.len consumed + span CmdEntry.len fresh < r.cmdrSize
    omega
  · exact fun s hs => h.consumed_wf s (List.mem_cons_of_mem _ hs)

/-- Giving the entry at the mailbox tail back as it is. -/
theorem Rep.drop (h : Rep r (e :: consumed) fresh) : Rep (r.updateRbTail e) consumed fresh := by
  have hrel := h.release (rfl : e.len = e.len)
  rwa [Ring.setEnt_self h.consumed_laid.1] at hrel

/-- The kernel appends to the fresh entries. -/
theorem Rep.append (h : Rep r consumed fresh) (hwf : e.WellFormed) (hroom : r.HasRoom e) :
    Rep (r.append e) consumed (fresh ++ [e]) := by
  have hspan := h.span_lt
  have hdist : ringDist r.cmdrSize r.cmdTail r.cmdHead
      = span CmdEntry.len consumed + span CmdEntry.len fresh := by
    rw [h.laid.ringDist_eq h.tail_lt (by rw [span_append]; exact hspan), span_append]
  have hall : Laid r.cmdrSize CmdEntry.len (Function.update r.ent r.cmdHead e) r.cmdTail
      (consumed ++ fresh) r.cmdHead := by
    refine h.laid.update_stop h.tail_lt ?_ (by rw [span_append]; exact hspan)
    intro s hs
    exact ((List.mem_append.mp hs).elim (h.consumed_wf s) (h.fresh_wf s)).len_pos
  obtain ⟨b, hconsumed, -⟩ := laid_append.mp hall
  have hb : b = r.devTail := by
    rw [hconsumed.stop_eq h.tail_lt, h.consumed_laid.stop_eq h.tail_lt]
  refine ⟨h.size_lt, h.tail_lt, hb ▸ hconsumed, ?_, ?_, h.consumed_wf, ?_⟩
  · have hfresh : span CmdEntry.len fresh < r.cmdrSize := by omega
    exact h.fresh_laid.concat h.devTail_lt (fun s hs => (h.fresh_wf s hs).len_pos) hfresh hroom.1
  · change span CmdEntry.len consumed + span CmdEntry.len (fresh ++ [e]) < r.cmdrSize
    have hlt := hroom.2
    rw [span_append, span_cons, span_nil]
    omega
  · exact List.forall_mem_append.mpr ⟨h.fresh_wf, List.forall_mem_singleton.mpr hwf⟩

end Rep

/-! ### The two functions, on lists -/

section Turns

variable {malloc : Option Sense} {r : Ring} {e e' : CmdEntry}

/-- A turn of the fetch loop that moves on. -/
theorem getNextCommandLoop_skip {fuel : ℕ} (hent : r.ent r.devTail = e)
    (hne : r.devTail ≠ r.cmdHead) (hwf : e.WellFormed) (hlook : e.look = .skip e') :
    getNextCommandLoop malloc (fuel + 1) r
      = getNextCommandLoop malloc fuel ((r.setEnt r.devTail e').updateDevTail e) := by
  rw [getNextCommandLoop, if_neg hne, hent]
  cases hop : e.op with
  | pad =>
    have he : e' = e := by simpa [CmdEntry.look, hop] using hlook.symm
    simp only [hop, he, Ring.setEnt_self hent]
  | unknown =>
    have he : e' = e.markUnknown := by simpa [CmdEntry.look, hop] using hlook.symm
    simp only [hop, he]
  | cmd =>
    cases hbody : e.body with
    | rsp status sense =>
      have hreq := hwf.request (by simp [CmdEntry.isCmd, hop])
      rw [hbody] at hreq
      exact absurd hreq (by simp [Body.isReq])
    | req iov cdb =>
      cases hlen : tcmuGetCdbLength cdb with
      | some cdbLen => simp [CmdEntry.look, hop, hbody, hlen] at hlook
      | none =>
        have he : e' = e := by simpa [CmdEntry.look, hop, hbody, hlen] using hlook.symm
        simp only [hop, hbody, hlen, he, Ring.setEnt_self hent]

/-- A turn of the fetch loop that stops at a command. -/
theorem getNextCommandLoop_command {fuel cdbLen : ℕ} {iov : List Iovec} {cdb : Cdb}
    (hent : r.ent r.devTail = e) (hne : r.devTail ≠ r.cmdHead)
    (hlook : e.look = .command iov cdb cdbLen) :
    getNextCommandLoop malloc (fuel + 1) r
      = match malloc with
        | none => some (r, none)
        | some junk =>
          some (r.updateDevTail e, some (buildCmd r.map e.cmdId iov cdb cdbLen junk)) := by
  obtain ⟨hop, hbody, hlen⟩ := CmdEntry.look_command hlook
  rw [getNextCommandLoop, if_neg hne, hent]
  cases malloc with
  | none => simp only [hop, hbody, hlen]
  | some junk => simp only [hop, hbody, hlen]

end Turns

/-- Skipping an entry keeps its length and its well-formedness. -/
theorem CmdEntry.WellFormed.of_skip {e e' : CmdEntry} (h : e.WellFormed)
    (hlook : e.look = .skip e') : e'.len = e.len ∧ e'.WellFormed := by
  rcases CmdEntry.look_skip hlook with rfl | ⟨-, rfl⟩
  · exact ⟨rfl, h⟩
  · exact ⟨rfl, h.markUnknown⟩

/-- The loop of a fetch, with enough fuel for the fresh entries, does what `fetchQueue` says. -/
theorem getNextCommandLoop_sim {malloc : Option Sense} {fuel : ℕ} {r : Ring}
    {consumed fresh : List CmdEntry} (h : Rep r consumed fresh) (hfuel : fresh.length < fuel) :
    ∃ r', getNextCommandLoop malloc fuel r = some (r', (fetchQueue r.map malloc fresh).2.2) ∧
      Rep r' (consumed ++ (fetchQueue r.map malloc fresh).1) (fetchQueue r.map malloc fresh).2.1 ∧
      r.SameFrame r' ∧ r'.cmdTail = r.cmdTail := by
  obtain ⟨fuel, rfl⟩ : ∃ k, fuel = k + 1 := ⟨fuel - 1, by omega⟩
  induction fresh generalizing fuel r consumed with
  | nil =>
    refine ⟨r, ?_, by simpa [fetchQueue] using h, ⟨rfl, rfl, rfl⟩, rfl⟩
    rw [getNextCommandLoop, if_pos (h.devTail_eq_head_iff.mpr rfl)]
    rfl
  | cons e fresh ih =>
    have hent : r.ent r.devTail = e := h.fresh_laid.1
    have hwf : e.WellFormed := h.fresh_wf e (List.mem_cons_self ..)
    have hne : r.devTail ≠ r.cmdHead := fun heq => absurd (h.devTail_eq_head_iff.mp heq) (by simp)
    cases hlook : e.look with
    | skip e' =>
      obtain ⟨hlen, hwf'⟩ := hwf.of_skip hlook
      have hfuel' : fresh.length < fuel := by simpa using hfuel
      obtain ⟨k, rfl⟩ : ∃ k, fuel = k + 1 := ⟨fuel - 1, by omega⟩
      obtain ⟨r', hrun, hrep, hframe, htail⟩ := ih (h.skip hlen hwf') k hfuel'
      have hq : fetchQueue r.map malloc (e :: fresh)
          = (e' :: (fetchQueue r.map malloc fresh).1, (fetchQueue r.map malloc fresh).2.1,
              (fetchQueue r.map malloc fresh).2.2) := by
        rw [fetchQueue, hlook]
      rw [hq]
      refine ⟨r', ?_, ?_, hframe, htail⟩
      · rw [getNextCommandLoop_skip hent hne hwf hlook]
        exact hrun
      · rw [List.append_cons]
        exact hrep
    | command iov cdb cdbLen =>
      rw [getNextCommandLoop_command hent hne hlook]
      cases malloc with
      | none =>
        have hq : fetchQueue r.map none (e :: fresh) = ([], e :: fresh, none) := by
          rw [fetchQueue, hlook]
        rw [hq]
        exact ⟨r, rfl, by simpa using h, ⟨rfl, rfl, rfl⟩, rfl⟩
      | some junk =>
        have hq : fetchQueue r.map (some junk) (e :: fresh)
            = ([e], fresh, some (buildCmd r.map e.cmdId iov cdb cdbLen junk)) := by
          rw [fetchQueue, hlook]
        rw [hq]
        exact ⟨r.updateDevTail e, rfl, h.pass, ⟨rfl, rfl, rfl⟩, rfl⟩

/-- Each entry takes at least one byte, so there are not more entries than bytes. -/
theorem length_le_span {es : List CmdEntry} (h : ∀ e ∈ es, e.WellFormed) :
    es.length ≤ span CmdEntry.len es := by
  induction es with
  | nil => simp
  | cons e es ih =>
    have hpos := (h e (List.mem_cons_self ..)).len_pos
    have hrest := ih fun s hs => h s (List.mem_cons_of_mem _ hs)
    rw [span_cons, List.length_cons]
    omega

/-- **A fetch moves a prefix of the fresh entries over.** -/
theorem tcmulibGetNextCommand_sim (malloc : Option Sense) {r : Ring}
    {consumed fresh : List CmdEntry} (h : Rep r consumed fresh) :
    ∃ r', tcmulibGetNextCommand malloc r = some (r', (fetchQueue r.map malloc fresh).2.2) ∧
      Rep r' (consumed ++ (fetchQueue r.map malloc fresh).1) (fetchQueue r.map malloc fresh).2.1 ∧
      r.SameFrame r' ∧ r'.cmdTail = r.cmdTail := by
  have hlen := length_le_span h.fresh_wf
  have hspan := h.span_lt
  exact getNextCommandLoop_sim h (by omega)

/-- The skip loop of a completion, on the list of consumed entries: the mailbox tail moves past the
skipped ones, and nothing else changes. -/
theorem skipToCmd_sim {fuel : ℕ} {r : Ring} {skipped consumed fresh : List CmdEntry} {e : CmdEntry}
    (h : Rep r (skipped ++ e :: consumed) fresh) (hskipped : ∀ s ∈ skipped, s.op ≠ .cmd)
    (he : e.op = .cmd) (hfuel : skipped.length < fuel) :
    ∃ off, off = (r.cmdTail + span CmdEntry.len skipped) % r.cmdrSize ∧
      skipToCmd fuel r = some ({ r with cmdTail := off }, skipped) ∧
      Rep { r with cmdTail := off } (e :: consumed) fresh := by
  obtain ⟨fuel, rfl⟩ : ∃ k, fuel = k + 1 := ⟨fuel - 1, by omega⟩
  induction skipped generalizing fuel r with
  | nil =>
    have hent : r.ent r.cmdTail = e := h.consumed_laid.1
    refine ⟨r.cmdTail, by simp [Nat.mod_eq_of_lt h.tail_lt], ?_, h⟩
    rw [skipToCmd]
    split
    · rfl
    · simp [hent, he]
  | cons s skipped ih =>
    have hent : r.ent r.cmdTail = s := h.consumed_laid.1
    have hs : s.op ≠ .cmd := hskipped s (List.mem_cons_self ..)
    have hne : r.cmdTail ≠ r.cmdHead := fun heq => absurd (h.tail_eq_head_iff.mp heq).1 (by simp)
    have hfuel' : skipped.length < fuel := by simpa using hfuel
    obtain ⟨k, rfl⟩ : ∃ k, fuel = k + 1 := ⟨fuel - 1, by omega⟩
    obtain ⟨off, hoff, hrun, hrep⟩ := ih h.drop
      (fun t ht => hskipped t (List.mem_cons_of_mem _ ht)) k hfuel'
    have hadv : r.advance r.cmdTail s = (r.cmdTail + s.len) % r.cmdrSize :=
      Ring.advance_eq h.size_lt h.consumed_laid.2.1
    refine ⟨off, ?_, ?_, hrep⟩
    · rw [hoff, span_cons]
      change (r.advance r.cmdTail s + span CmdEntry.len skipped) % r.cmdrSize = _
      rw [hadv, Nat.mod_add_mod, Nat.add_assoc]
    · rw [skipToCmd, if_neg hne, hent]
      simp only [hs, if_false, hrun, Option.map_some]
      rfl

/-- The consumed entries are few enough for the fuel of the skip loop. -/
theorem Rep.skip_fuel {r : Ring} {skipped consumed fresh : List CmdEntry}
    (h : Rep r (skipped ++ consumed) fresh) : skipped.length < r.cmdrSize + 1 := by
  have hlen := length_le_span h.consumed_wf
  have hspan := h.span_lt
  rw [List.length_append] at hlen
  omega

/-- **A completion gives back the consumed entries up to the first command**, with its response in
that one. -/
theorem tcmulibCommandComplete_sim {r : Ring} {skipped consumed fresh : List CmdEntry}
    {e : CmdEntry} (cmd : TcmulibCmd) (result : TcmuSts)
    (h : Rep r (skipped ++ e :: consumed) fresh) (hskipped : ∀ s ∈ skipped, s.op ≠ .cmd)
    (he : e.op = .cmd) :
    ∃ r', tcmulibCommandComplete r cmd result
        = some (r', skipped ++ [e.respond cmd.cmdId (responseBody result cmd.sense)]) ∧
      Rep r' consumed fresh := by
  obtain ⟨off, -, hrun, hrep⟩ := skipToCmd_sim h hskipped he h.skip_fuel
  have hent : r.ent off = e := hrep.consumed_laid.1
  refine ⟨_, ?_, hrep.release (CmdEntry.len_respond e cmd.cmdId (responseBody result cmd.sense))⟩
  rw [tcmulibCommandComplete, hrun]
  simp only [hent]

end Tcmu

end LioProject
