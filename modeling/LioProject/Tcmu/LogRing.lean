import LioProject.Lib.DropQueue
import LioProject.Tcmu.Log

/-!
# The log ring as a queue

The ring has `LOG_ENTRYS` entries, of which one stays free, so that a full ring and an empty one
differ. `log_internal` writes its message at the head, which is the free entry, and gives up the
oldest message when the ring is full; `log_buf_not_empty_output` takes the message at the tail.

Walking from the tail to the head meets the messages of a queue that drops its oldest element
(`LogBuf.Holds`), and both operations keep it so, whatever their order (`log_ring_drops_oldest`).
The logger does nothing else with the ring (`logger_runs_queue`).
-/

namespace LioProject

namespace Tcmu

/-! ### The operations -/

/-- What is done to the ring in one critical section: an insertion is that of `log_internal`, and a
removal is that of `log_buf_not_empty_output`, which answers whether there was a message. -/
def LogBuf.ringStep (b : LogBuf) : QueueOp LogEntry → LogBuf × Option LogEntry
  | .insert e => ((b.set e).rbUpdateHead, none)
  | .remove => if b.rbIsEmpty then (b, none) else (b.rbUpdateTail, some (b.buf b.tail))

/-- The messages between the tail and the head. -/
def LogBuf.pending (b : LogBuf) : List LogEntry :=
  (List.range (ringDist logEntrys b.tail b.head)).map fun i => b.buf ((b.tail + i) % logEntrys)

/-- The ring holds the elements of the queue. -/
structure LogBuf.Holds (b : LogBuf) (q : List LogEntry) : Prop where
  /-- The tail is an index. -/
  tail_lt : b.tail < logEntrys
  /-- One entry stays free. -/
  length_le : q.length ≤ logEntrys - 1
  /-- One entry each, from the tail to the head. -/
  laid : Laid logEntrys (fun _ => 1) b.buf b.tail q b.head

section Ring

variable {b : LogBuf} {q : List LogEntry} {e : LogEntry}

theorem logEntrys_pos : 1 < logEntrys := by decide

theorem LogBuf.Holds.span_lt (h : b.Holds q) : span (fun _ => 1) q < logEntrys := by
  have hpos := logEntrys_pos
  have hle := h.length_le
  rw [span_one]
  omega

/-- The messages between the tail and the head are those of the queue. -/
theorem LogBuf.Holds.pending_eq (h : b.Holds q) : b.pending = q := by
  rw [LogBuf.pending, h.laid.ringDist_eq h.tail_lt h.span_lt, span_one]
  exact h.laid.map_range h.tail_lt

theorem LogBuf.holds_init (level : ℕ) : (LogSys.init level).buf.Holds [] :=
  ⟨Nat.lt_of_succ_lt logEntrys_pos, Nat.zero_le _, rfl⟩

theorem LogBuf.Holds.rbIsEmpty_iff (h : b.Holds q) : b.rbIsEmpty = true ↔ q = [] := by
  rw [LogBuf.rbIsEmpty, decide_eq_true_iff]
  constructor
  · intro hempty
    by_contra hne
    have hpos : 0 < span (fun _ => 1) q := by
      rw [span_one]
      exact List.length_pos_iff.mpr hne
    exact h.laid.stop_ne h.tail_lt hpos h.span_lt hempty
  · rintro rfl
    exact h.laid

/-- The ring is full when one entry is free. -/
theorem LogBuf.Holds.rbIsFull_iff (h : b.Holds q) :
    b.rbIsFull = true ↔ q.length = logEntrys - 1 := by
  have hpos := logEntrys_pos
  have hle := h.length_le
  have hnext : (b.head + 1) % logEntrys = (b.tail + (q.length + 1)) % logEntrys := by
    rw [h.laid.stop_eq h.tail_lt, span_one, Nat.mod_add_mod, Nat.add_assoc]
  rw [LogBuf.rbIsFull, decide_eq_true_iff, hnext]
  constructor
  · intro hfull
    by_contra hne
    exact add_mod_ne_self h.tail_lt (Nat.succ_pos _) (show q.length + 1 < logEntrys by omega)
      hfull.symm
  · intro hlen
    rw [show q.length + 1 = logEntrys by omega, Nat.add_mod_right, Nat.mod_eq_of_lt h.tail_lt]

/-- Writing at the head, with one entry more than the queue may have. -/
theorem LogBuf.Holds.set_laid (h : b.Holds q) (e : LogEntry) :
    Laid logEntrys (fun _ => 1) (b.set e).buf b.tail (q ++ [e]) ((b.head + 1) % logEntrys) :=
  h.laid.concat h.tail_lt (fun _ _ => Nat.one_pos) h.span_lt (h.laid.stop_lt h.tail_lt)

/-- An insertion. -/
theorem LogBuf.Holds.insert (h : b.Holds q) (e : LogEntry) :
    (b.set e).rbUpdateHead.Holds (dropStep (logEntrys - 1) q (.insert e)).1 := by
  have hpos := logEntrys_pos
  have hlaid := h.set_laid e
  have hfull_iff : (b.set e).rbIsFull = true ↔ q.length = logEntrys - 1 := h.rbIsFull_iff
  rw [LogBuf.rbUpdateHead]
  rcases Nat.lt_or_ge q.length (logEntrys - 1) with hlt | hge
  · rw [if_neg fun hfull => absurd (hfull_iff.mp hfull) (by omega), dropStep_insert_of_lt hlt]
    refine ⟨h.tail_lt, ?_, hlaid⟩
    rw [List.length_append, List.length_singleton]
    omega
  · -- the free entry has been filled, and the oldest one becomes free
    have hlen : q.length = logEntrys - 1 := Nat.le_antisymm h.length_le hge
    obtain ⟨y, q, rfl⟩ := List.exists_cons_of_length_pos (show 0 < q.length by omega)
    rw [if_pos (hfull_iff.mpr hlen), dropStep_insert_of_full y hlen]
    refine ⟨Nat.mod_lt _ (by omega), ?_, hlaid.2.2⟩
    rw [List.length_append, List.length_singleton]
    exact h.length_le

/-- A removal from a ring that is not empty. -/
theorem LogBuf.Holds.updateTail (h : b.Holds (e :: q)) :
    b.rbUpdateTail.Holds q ∧ b.buf b.tail = e := by
  obtain ⟨he, -, hrest⟩ := h.laid
  exact ⟨⟨Nat.mod_lt _ (Nat.lt_of_succ_lt logEntrys_pos),
    Nat.le_of_succ_le h.length_le, hrest⟩, he⟩

/-- **One operation.** The ring holds what the queue has afterwards, and answers as it does. -/
theorem LogBuf.Holds.ringStep (h : b.Holds q) (o : QueueOp LogEntry) :
    (b.ringStep o).1.Holds (dropStep (logEntrys - 1) q o).1 ∧
      (b.ringStep o).2 = (dropStep (logEntrys - 1) q o).2 := by
  cases o with
  | insert e => exact ⟨h.insert e, rfl⟩
  | remove =>
    rw [LogBuf.ringStep]
    cases q with
    | nil =>
      rw [if_pos (h.rbIsEmpty_iff.mpr rfl)]
      exact ⟨h, rfl⟩
    | cons e q =>
      rw [if_neg fun hempty => absurd (h.rbIsEmpty_iff.mp hempty) (by simp)]
      obtain ⟨hrest, he⟩ := h.updateTail
      exact ⟨hrest, congrArg some he⟩

end Ring

/-- **The log ring drops the oldest.** It answers any operations as the queue does, and holds the
same messages; what it answers with are some of the messages that were put into it, in their order;
and every message has been answered with, or is still there, or was the oldest of `LOG_ENTRYS - 1`
when another one was put in. -/
theorem log_ring_drops_oldest (level : ℕ) (os : List (QueueOp LogEntry)) :
    let ring := answers LogBuf.ringStep (LogSys.init level).buf
    let queue := answers (dropStep (logEntrys - 1)) []
    (ring os).1.pending = (queue os).1 ∧ (ring os).2 = (queue os).2 ∧
    (ring os).2.reduceOption.Sublist (inserted os) ∧
    ∃ left : List (LogEntry × Departure),
      inserted os = left.map Prod.fst ++ (ring os).1.pending ∧
      (ring os).2.reduceOption = answered left ∧
      ∀ i e, left[i]? = some (e, .dropped) → ∃ fs x gs, os = fs ++ .insert x :: gs ∧
        (ring fs).1.pending.length = logEntrys - 1 ∧
        (inserted fs).length = i + (logEntrys - 1) := by
  intro ring queue
  have hcap : 0 < logEntrys - 1 := Nat.sub_pos_of_lt logEntrys_pos
  have hsim : ∀ os, (ring os).1.pending = (queue os).1 ∧ (ring os).2 = (queue os).2 := by
    intro os
    obtain ⟨hholds, hanswers⟩ := answers_eq_of_sim
      (fun b q o (h : LogBuf.Holds b q) => h.ringStep o) (LogBuf.holds_init level) os
    exact ⟨hholds.pending_eq, hanswers⟩
  obtain ⟨left, hleft⟩ := left_of_answers hcap os
  refine ⟨(hsim os).1, (hsim os).2, ?_, left, ?_, ?_, fun i e hi => ?_⟩
  · rw [(hsim os).2]
    exact answers_sublist hcap os
  · rw [(hsim os).1]
    exact hleft.inserted_eq
  · rw [(hsim os).2]
    exact hleft.answers_eq
  · obtain ⟨fs, x, gs, hos, hfull, hlen⟩ := hleft.dropped i e hi
    exact ⟨fs, x, gs, hos, by rw [(hsim fs).1]; exact hfull, hlen⟩

/-! ### The logger -/

/-- The message that the log thread has taken out and not printed yet. -/
def LogPc.inHand : LogPc → List LogEntry
  | .printing e => [e]
  | _ => []

/-- What has been printed, with the given `bypass`. -/
def LogSys.printed (s : LogSys) (bypass : Bool) : List LogEntry :=
  (s.outputs.filter fun out => out.2 == bypass).map Prod.fst

/-- What the logger has done to its ring so far, as operations of the queue. -/
structure LogSys.Runs (s : LogSys) (os : List (QueueOp LogEntry)) : Prop where
  /-- The ring. -/
  holds : s.buf.Holds (answers (dropStep (logEntrys - 1)) [] os).1
  /-- Every message is put in right after `log_internal` has given it to the outputs that bypass
  the ring. -/
  inserted_eq : inserted os = s.printed true
  /-- The log thread prints what it takes out, one message at a time. -/
  printed_eq : (answers (dropStep (logEntrys - 1)) [] os).2.reduceOption =
    s.printed false ++ s.pc.inHand

section Logger

variable {s s' : LogSys} {os : List (QueueOp LogEntry)}

/-- The flags are not part of the ring. -/
theorem LogBuf.Holds.congr {b b' : LogBuf} {q : List LogEntry} (h : b.Holds q)
    (hhead : b'.head = b.head) (htail : b'.tail = b.tail) (hbuf : b'.buf = b.buf) :
    b'.Holds q := by
  obtain ⟨htl, hlen, hlaid⟩ := h
  refine ⟨htail ▸ htl, hlen, ?_⟩
  rw [hhead, htail, hbuf]
  exact hlaid

theorem inHand_signal (pc : LogPc) : pc.signal.inHand = pc.inHand := by
  cases pc <;> rfl

theorem LogSys.Runs.log (h : s.Runs os) (e : LogEntry) : ∃ os', (s.logInternal e).Runs os' := by
  by_cases hinserts : s.Inserts e
  · rw [logInternal_of_inserts hinserts]
    refine ⟨os ++ [.insert e], ⟨?_, ?_, ?_⟩⟩
    · rw [answers_concat]
      exact h.holds.insert e
    · rw [inserted_concat, h.inserted_eq, LogSys.printed, LogSys.printed, List.filter_append,
        List.map_append]
      rfl
    · have hhand : LogPc.inHand (if s.buf.threadActive = false then s.pc.signal else s.pc) =
          s.pc.inHand := by
        split
        · exact inHand_signal s.pc
        · rfl
      rw [answers_concat, List.reduceOption_append, h.printed_eq, hhand, LogSys.printed,
        LogSys.printed, List.filter_append]
      simp [dropStep, List.reduceOption]
  · refine ⟨os, ?_⟩
    rw [LogSys.logInternal]
    split
    · exact h
    · split
      · exact ⟨h.holds, h.inserted_eq, h.printed_eq⟩
      · rename_i hle hinit
        exact absurd ⟨by omega, by simpa using hinit⟩ hinserts

theorem LogSys.Runs.thread (h : s.Runs os) : ∃ os', s.logThread.Runs os' := by
  have hprinted := h.printed_eq
  rw [LogSys.logThread]
  cases hpc : s.pc with
  | start =>
    rw [hpc] at hprinted
    exact ⟨os, h.holds.congr rfl rfl rfl, h.inserted_eq, hprinted⟩
  | ready =>
    rw [hpc] at hprinted
    exact ⟨os, h.holds.congr rfl rfl rfl, h.inserted_eq, hprinted⟩
  | waiting signalled =>
    rw [hpc] at hprinted
    exact ⟨os, h.holds.congr rfl rfl rfl, h.inserted_eq, hprinted⟩
  | looking =>
    rw [hpc] at hprinted
    dsimp only
    split
    · exact ⟨os, h.holds, h.inserted_eq, hprinted⟩
    · rename_i hne
      refine ⟨os ++ [.remove], ?_, ?_, ?_⟩
      · have hholds := (h.holds.ringStep .remove).1
        rw [LogBuf.ringStep, if_neg hne] at hholds
        rw [answers_concat]
        exact hholds
      · rw [inserted_concat, h.inserted_eq]
        exact List.append_nil _
      · have hanswer := (h.holds.ringStep .remove).2
        rw [LogBuf.ringStep, if_neg hne] at hanswer
        rw [answers_concat, List.reduceOption_append, hprinted, ← hanswer]
        exact congrArg (· ++ _) (List.append_nil _)
  | printing e =>
    rw [hpc] at hprinted
    refine ⟨os, h.holds, ?_, ?_⟩
    · rw [h.inserted_eq, LogSys.printed, LogSys.printed, List.filter_append]
      simp
    · rw [hprinted, LogSys.printed, LogSys.printed, List.filter_append, List.map_append,
        List.append_assoc]
      rfl

end Logger

end Tcmu

end LioProject
