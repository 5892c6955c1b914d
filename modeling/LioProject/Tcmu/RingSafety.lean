import LioProject.Tcmu.RingQueue
import Mathlib.Data.List.Perm.Basic
import Mathlib.Tactic.Linarith

/-!
# Safety of the ring

A response goes into whichever command entry is first at the mailbox tail, not into the entry of
the command it answers. That this is harmless rests on a count: the daemon never has more commands
in hand than there are command entries between the two tails (`Safe.enough`). Every completion
therefore finds an entry that has been consumed, and the kernel finds the responses in order.
-/

namespace LioProject

namespace Tcmu

/-! ### The safety invariant -/

/-- What the kernel reads out of the entries it gets back: the identifier and the body of each
command entry. -/
def responses (es : List CmdEntry) : List (ℕ × Body) :=
  (es.filter CmdEntry.isCmd).map fun e => (e.cmdId, e.body)

/-- The response that a completion stands for. -/
def Completion.response (c : Completion) : ℕ × Body := (c.cmdId, responseBody c.result c.sense)

/-- The daemon starts on a ring in which the kernel may already have put entries. -/
structure Init (s : Sys) : Prop where
  /-- The entries between the tail and the head are well-formed and fit. -/
  rep : ∃ fresh, Rep s.ring [] fresh
  /-- Nothing has been fetched. -/
  outstanding : s.outstanding = []
  /-- Nothing has been given back. -/
  passed : s.passed = []
  /-- Nothing has been completed. -/
  completed : s.completed = []

/-- The invariant of the ring protocol. -/
structure Safe (s : Sys) (consumed fresh : List CmdEntry) : Prop where
  /-- The ring memory represents the entries between the tails and the head. -/
  rep : Rep s.ring consumed fresh
  /-- There is a consumed command entry for every command in hand. -/
  enough : s.outstanding.length ≤ consumed.countP CmdEntry.isCmd
  /-- The kernel has got the responses of the completed commands, in order. -/
  answered : responses s.passed = s.completed.map Completion.response

theorem Init.safe {s : Sys} (h : Init s) : ∃ consumed fresh, Safe s consumed fresh := by
  obtain ⟨fresh, hrep⟩ := h.rep
  exact ⟨[], fresh, hrep, by simp [h.outstanding], by simp [h.passed, h.completed, responses]⟩

theorem CmdEntry.isCmd_iff {e : CmdEntry} : e.isCmd = true ↔ e.op = .cmd := by
  simp [CmdEntry.isCmd]

/-- A list with a command in it splits at the first one. -/
theorem exists_first_cmd (es : List CmdEntry) (h : 0 < es.countP CmdEntry.isCmd) :
    ∃ skipped e rest, es = skipped ++ e :: rest ∧ (∀ s ∈ skipped, s.op ≠ .cmd) ∧ e.op = .cmd := by
  induction es with
  | nil => exact absurd h (by simp)
  | cons a es ih =>
    by_cases ha : a.op = .cmd
    · exact ⟨[], a, es, rfl, by simp, ha⟩
    · have hcount : 0 < es.countP CmdEntry.isCmd := by
        rwa [List.countP_cons_of_neg (by simpa [CmdEntry.isCmd] using ha)] at h
      obtain ⟨skipped, e, rest, rfl, hskipped, he⟩ := ih hcount
      refine ⟨a :: skipped, e, rest, rfl, ?_, he⟩
      intro s hs
      rcases List.mem_cons.mp hs with rfl | hs
      · exact ha
      · exact hskipped s hs

theorem countP_eq_zero_of_skipped {skipped : List CmdEntry} (h : ∀ s ∈ skipped, s.op ≠ .cmd) :
    skipped.countP CmdEntry.isCmd = 0 :=
  List.countP_eq_zero.mpr fun s hs => by simpa [CmdEntry.isCmd] using h s hs

theorem responses_append (es fs : List CmdEntry) :
    responses (es ++ fs) = responses es ++ responses fs := by
  simp [responses]

theorem responses_skipped {skipped : List CmdEntry} (h : ∀ s ∈ skipped, s.op ≠ .cmd) :
    responses skipped = [] := by
  rw [responses, List.filter_eq_nil_iff.mpr fun s hs => by simpa [CmdEntry.isCmd] using h s hs]
  rfl

theorem responses_respond {e : CmdEntry} (he : e.op = .cmd) (id : ℕ) (b : Body) :
    responses [e.respond id b] = [(id, b)] := by
  have hcmd : (e.respond id b).isCmd = true := CmdEntry.isCmd_iff.mpr he
  rw [responses, List.filter_cons_of_pos hcmd]
  rfl

/-- A fetch returns a command exactly when it consumes one more command entry that it takes. -/
theorem fetchQueue_count (map : ℕ) (malloc : Option Sense) (es : List CmdEntry) :
    (fetchQueue map malloc es).2.2.toList.length
      ≤ (fetchQueue map malloc es).1.countP CmdEntry.isCmd := by
  induction es with
  | nil => simp [fetchQueue]
  | cons e es ih =>
    cases hlook : e.look with
    | skip e' =>
      rw [fetchQueue, hlook]
      exact ih.trans (List.Sublist.countP_le (List.sublist_cons_self ..))
    | command iov cdb cdbLen =>
      rw [fetchQueue, hlook]
      have hop := (CmdEntry.look_command hlook).1
      cases malloc with
      | none => simp
      | some junk => simp [CmdEntry.isCmd, hop]

/-- **One step keeps the invariant.** -/
theorem Safe.step {s t : Sys} {ev : Event} {consumed fresh : List CmdEntry}
    (h : Safe s consumed fresh) (hstep : step s ev = some t) :
    ∃ consumed' fresh', Safe t consumed' fresh' := by
  cases ev with
  | append e =>
    rw [Tcmu.step] at hstep
    split at hstep
    · rename_i hok
      obtain rfl := (Option.some.inj hstep).symm
      exact ⟨consumed, fresh ++ [e], h.rep.append hok.1 hok.2, h.enough, h.answered⟩
    · exact absurd hstep (by simp)
  | fetch malloc =>
    obtain ⟨r', hrun, hrep, -, -⟩ := tcmulibGetNextCommand_sim malloc h.rep
    rw [Tcmu.step, hrun] at hstep
    obtain rfl := (Option.some.inj hstep).symm
    refine ⟨_, _, hrep, ?_, h.answered⟩
    have hcount := fetchQueue_count s.ring.map malloc fresh
    have henough := h.enough
    change (s.outstanding ++ _).length ≤ _
    rw [List.length_append, List.countP_append]
    exact Nat.add_le_add henough hcount
  | complete i result sense =>
    rw [Tcmu.step] at hstep
    cases hcmd : s.outstanding[i]? with
    | none =>
      rw [hcmd] at hstep
      exact absurd hstep (by simp)
    | some cmd =>
      obtain ⟨hi, -⟩ := List.getElem?_eq_some_iff.mp hcmd
      have henough := h.enough
      obtain ⟨skipped, e, rest, rfl, hskipped, he⟩ := exists_first_cmd consumed (by omega)
      obtain ⟨r', hrun, hrep⟩ :=
        tcmulibCommandComplete_sim { cmd with sense := sense } result h.rep hskipped he
      rw [hcmd] at hstep
      simp only [hrun, Option.map_some, Option.some.injEq] at hstep
      subst hstep
      refine ⟨rest, fresh, hrep, ?_, ?_⟩
      · rw [List.countP_append, countP_eq_zero_of_skipped hskipped,
          List.countP_cons_of_pos (CmdEntry.isCmd_iff.mpr he)] at henough
        rw [List.length_eraseIdx_of_lt hi]
        omega
      · rw [responses_append, responses_append, responses_skipped hskipped, h.answered,
          List.map_append, responses_respond he]
        rfl

/-- The invariant holds in every state that a run reaches. -/
theorem safe_of_run {s₀ s : Sys} {es : List Event} (h₀ : Init s₀)
    (hrun : run step s₀ es = some s) : ∃ consumed fresh, Safe s consumed fresh := by
  have hstep : ∀ s e t, (∃ consumed fresh, Safe s consumed fresh) → step s e = some t →
      ∃ consumed fresh, Safe t consumed fresh := by
    rintro s e t ⟨consumed, fresh, h⟩ hstep
    exact h.step hstep
  exact run_invariant hstep h₀.safe hrun

/-! ### Safety of every run -/

/-- The offset at which `tcmulib_command_complete` writes its response. -/
def responseSlot (r : Ring) : Option ℕ := (skipToCmd (r.cmdrSize + 1) r).map fun p => p.1.cmdTail

/-- A place in the ring at which a response may be written: a command entry that lies entirely
between the mailbox tail and the device tail, and is large enough for the response. -/
structure ConsumedCmd (r : Ring) (off : ℕ) : Prop where
  /-- The entry there is a command. -/
  isCmd : (r.ent off).op = .cmd
  /-- The device tail has moved past it. -/
  consumed : ringDist r.cmdrSize r.cmdTail off + (r.ent off).len
    ≤ ringDist r.cmdrSize r.cmdTail r.devTail
  /-- The response fits into it. -/
  fits : sizeofCmdEntry ≤ (r.ent off).len

/-- While a command is in hand, there is a consumed entry to answer it in, and the completion of
any command writes there and nowhere else. -/
theorem Safe.exists_slot {s : Sys} {consumed fresh : List CmdEntry} (h : Safe s consumed fresh)
    (hne : s.outstanding ≠ []) :
    ∃ off, responseSlot s.ring = some off ∧ ConsumedCmd s.ring off ∧
      ∀ cmd result, ∃ r' passed, tcmulibCommandComplete s.ring cmd result = some (r', passed) ∧
        ∀ o, o ≠ off → r'.ent o = s.ring.ent o := by
  have henough := h.enough
  have hpos : 0 < s.outstanding.length := List.length_pos_iff.mpr hne
  obtain ⟨skipped, e, rest, rfl, hskipped, he⟩ := exists_first_cmd consumed (by omega)
  obtain ⟨off, hoff, hrun, hrep⟩ := skipToCmd_sim h.rep hskipped he h.rep.skip_fuel
  have hent : s.ring.ent off = e := hrep.consumed_laid.1
  have hspan := h.rep.span_lt
  rw [span_append, span_cons] at hspan
  have hwf : e.WellFormed := h.rep.consumed_wf e (by simp)
  refine ⟨off, by rw [responseSlot, hrun]; rfl, ⟨by rw [hent]; exact he, ?_, ?_⟩, ?_⟩
  · rw [hent, hoff, ringDist_add_mod h.rep.tail_lt (by omega),
      h.rep.consumed_laid.ringDist_eq h.rep.tail_lt (by rw [span_append, span_cons]; omega),
      span_append, span_cons]
    omega
  · rw [hent]
    exact hwf.size (CmdEntry.isCmd_iff.mpr he)
  · intro cmd result
    refine ⟨_, _, by rw [tcmulibCommandComplete, hrun], ?_⟩
    intro o ho
    exact Function.update_of_ne ho ..

/-- **Ring safety.** In every state that any interleaving of kernel and daemon reaches, the mailbox
tail is not past the device tail, the fetch loop ends without reading an overwritten request, every
completion writes into a consumed command entry only, and the kernel has been given exactly the
responses of the completed commands, each with its own identifier, status and sense. -/
theorem ring_safety {s₀ s : Sys} {es : List Event} (h₀ : Init s₀)
    (hrun : run step s₀ es = some s) :
    ringDist s.ring.cmdrSize s.ring.cmdTail s.ring.devTail
        ≤ ringDist s.ring.cmdrSize s.ring.cmdTail s.ring.cmdHead ∧
      (∀ malloc, (tcmulibGetNextCommand malloc s.ring).isSome) ∧
      (s.outstanding ≠ [] → ∃ off, responseSlot s.ring = some off ∧ ConsumedCmd s.ring off ∧
        ∀ cmd result, ∃ r' passed, tcmulibCommandComplete s.ring cmd result = some (r', passed) ∧
          ∀ o, o ≠ off → r'.ent o = s.ring.ent o) ∧
      responses s.passed = s.completed.map Completion.response := by
  obtain ⟨consumed, fresh, h⟩ := safe_of_run h₀ hrun
  have hspan := h.rep.span_lt
  refine ⟨?_, ?_, h.exists_slot, h.answered⟩
  · rw [h.rep.consumed_laid.ringDist_eq h.rep.tail_lt (by omega),
      h.rep.laid.ringDist_eq h.rep.tail_lt (by rw [span_append]; exact hspan), span_append]
    omega
  · intro malloc
    obtain ⟨r', hfetch, -⟩ := tcmulibGetNextCommand_sim malloc h.rep
    rw [hfetch]
    rfl

/-- A kernel entry for a read of block 0, with one scatter-list entry. -/
def readEntry (id : ℕ) : CmdEntry :=
  ⟨129, id, 0, .req [⟨4096, 512⟩] [0x28, 0, 0, 0, 0, 0, 0, 0, 1, 0]⟩

/-- An empty ring of 1024 bytes. -/
def emptyRing : Ring := ⟨1024, 0, 0, 0, 0, fun _ => ⟨8, 0, 0, .req [] []⟩⟩

theorem rep_emptyRing : Rep emptyRing [] [] where
  size_lt := by decide
  tail_lt := by decide
  consumed_laid := rfl
  fresh_laid := rfl
  span_lt := by decide
  consumed_wf := by simp
  fresh_wf := by simp

/-- Two commands, a padding entry between them, completed in the opposite order. -/
def swappedRun : List Event :=
  [.append (readEntry 7), .append ⟨64, 0, 0, .req [] []⟩, .append (readEntry 8), .fetch (some []),
    .fetch (some []), .complete 1 .ok [], .complete 0 .busy []]

theorem ring_safety_swapped :
    ∃ s, run step ⟨emptyRing, [], [], []⟩ swappedRun = some s ∧
      responses s.passed = s.completed.map Completion.response ∧
      s.completed.map Completion.cmdId = [8, 7] ∧
      ∀ malloc, (tcmulibGetNextCommand malloc s.ring).isSome := by
  have hsome : (run step ⟨emptyRing, [], [], []⟩ swappedRun).isSome := by decide
  obtain ⟨s, hs⟩ := Option.isSome_iff_exists.mp hsome
  have hids : (run step ⟨emptyRing, [], [], []⟩ swappedRun).map
      (fun s => s.completed.map Completion.cmdId) = some [8, 7] := by decide
  have hsafe := ring_safety ⟨⟨[], rep_emptyRing⟩, rfl, rfl, rfl⟩ hs
  rw [hs] at hids
  exact ⟨s, hs, hsafe.2.2.2, Option.some.inj hids, hsafe.2.1⟩

end Tcmu

end LioProject
