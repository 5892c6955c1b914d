import LioProject.Lib.Run
import LioProject.Lib.Circular

/-!
# The log thread

`log_internal` puts a message into a ring under a lock, and signals a condition variable unless the
log thread says that it is active. The log thread empties the ring, and then waits for the signal.
It looks at the ring in one critical section and starts to wait in the next, and it does not look
again in between.

So a message that is put into the ring between the two stays there until another one comes: its
producer finds the thread active and does not signal (`message_left_behind`). In the runs in which
no message comes at that moment, a waiting thread has nothing to print, or has been signalled
(`no_message_left_behind`).
-/

namespace LioProject

namespace Tcmu

/-! ### The ring -/

/-- `LOG_ENTRYS`. -/
def logEntrys : ℕ := 1024 * 32

/-- An entry: the priority, and the text as `vsnprintf` leaves it. -/
structure LogEntry where
  /-- `rb_get_pri`. -/
  pri : ℕ
  /-- `rb_get_msg`. -/
  msg : String
  deriving DecidableEq, Repr

/-- `struct log_buf`. -/
structure LogBuf where
  /-- `thread_active`. -/
  threadActive : Bool
  /-- `finish_initialize`. -/
  finishInitialize : Bool
  /-- `head`. -/
  head : ℕ
  /-- `tail`. -/
  tail : ℕ
  /-- `buf`. -/
  buf : ℕ → LogEntry

/-- `rb_is_empty`. -/
def LogBuf.rbIsEmpty (b : LogBuf) : Bool := b.tail = b.head

/-- `rb_is_full`. -/
def LogBuf.rbIsFull (b : LogBuf) : Bool := b.tail = (b.head + 1) % logEntrys

/-- `rb_update_tail`. -/
def LogBuf.rbUpdateTail (b : LogBuf) : LogBuf := { b with tail := (b.tail + 1) % logEntrys }

/-- `rb_update_head`: the oldest entry of a full ring is dropped. -/
def LogBuf.rbUpdateHead (b : LogBuf) : LogBuf :=
  let b := if b.rbIsFull then b.rbUpdateTail else b
  { b with head := (b.head + 1) % logEntrys }

/-- The entry at the head. -/
def LogBuf.set (b : LogBuf) (e : LogEntry) : LogBuf :=
  { b with buf := Function.update b.buf b.head e }

/-- A ring is not empty when an entry has been put into it. -/
theorem LogBuf.rbIsEmpty_rbUpdateHead (b : LogBuf) : b.rbUpdateHead.rbIsEmpty = false := by
  rw [LogBuf.rbUpdateHead, LogBuf.rbIsEmpty]
  split
  · rename_i hfull
    have htail : b.tail = (b.head + 1) % logEntrys := of_decide_eq_true hfull
    have hlt : b.tail < logEntrys := htail ▸ Nat.mod_lt _ (by decide)
    refine decide_eq_false ?_
    show (b.tail + 1) % logEntrys ≠ (b.head + 1) % logEntrys
    rw [← htail]
    exact add_mod_ne_self hlt Nat.one_pos (by decide)
  · rename_i hfull
    exact decide_eq_false fun h => hfull (decide_eq_true h)

/-! ### Threads -/

/-- Where the log thread is, between two steps. -/
inductive LogPc where
  /-- It has not said yet that it runs. -/
  | start
  /-- It is about to wait: it has just started, or has found the ring empty. -/
  | ready
  /-- It is in `pthread_cond_wait`, and has been signalled since or not. -/
  | waiting (signalled : Bool)
  /-- It is about to look at the ring. -/
  | looking
  /-- It is about to print an entry that it has taken out. -/
  | printing (e : LogEntry)
  deriving DecidableEq, Repr

/-- The logger. -/
structure LogSys where
  /-- `tcmu_log_level`. -/
  level : ℕ
  /-- `logbuf`. -/
  buf : LogBuf
  /-- The log thread. -/
  pc : LogPc
  /-- The calls of `log_output`, each with its `bypass`. -/
  outputs : List (LogEntry × Bool)
  /-- What has gone to `stderr`. -/
  early : List LogEntry

/-- `tcmu_setup_log`, when it has created the thread. -/
def LogSys.init (level : ℕ) : LogSys :=
  ⟨level, ⟨false, false, 0, 0, fun _ => ⟨0, ""⟩⟩, .start, [], []⟩

/-- The steps, each of which is at most one critical section. -/
inductive LogEvent where
  /-- Some thread calls `log_internal`. -/
  | log (e : LogEntry)
  /-- The log thread takes its next step. `pthread_cond_wait` may return without a signal. -/
  | thread
  deriving DecidableEq, Repr

/-- `pthread_cond_signal`. -/
def LogPc.signal : LogPc → LogPc
  | .waiting _ => .waiting true
  | pc => pc

/-- `log_internal`. -/
def LogSys.logInternal (s : LogSys) (e : LogEntry) : LogSys :=
  if e.pri > s.level then s
  else if !s.buf.finishInitialize then { s with early := s.early ++ [e] }
  else
    { s with
      outputs := s.outputs ++ [(e, true)]
      buf := (s.buf.set e).rbUpdateHead
      pc := if s.buf.threadActive = false then s.pc.signal else s.pc }

/-- `log_thread_start` and `log_buf_not_empty_output`. -/
def LogSys.logThread (s : LogSys) : LogSys :=
  match s.pc with
  -- the signal is for `tcmu_setup_log`
  | .start => { s with buf := { s.buf with finishInitialize := true }, pc := .ready }
  | .ready => { s with buf := { s.buf with threadActive := false }, pc := .waiting false }
  | .waiting _ => { s with buf := { s.buf with threadActive := true }, pc := .looking }
  | .looking =>
    if s.buf.rbIsEmpty then { s with pc := .ready }
    else { s with buf := s.buf.rbUpdateTail, pc := .printing (s.buf.buf s.buf.tail) }
  | .printing e => { s with outputs := s.outputs ++ [(e, false)], pc := .looking }

/-- The steps. -/
def LogSys.step (s : LogSys) : LogEvent → Option LogSys
  | .log e => some (s.logInternal e)
  | .thread => some s.logThread

/-- A log thread that waits has nothing to print, or has been signalled since it began to. -/
def LogSys.NoneLeft (s : LogSys) : Prop :=
  ∀ signalled, s.pc = .waiting signalled → s.buf.rbIsEmpty = true ∨ signalled = true

/-- The call puts its message into the ring. -/
def LogSys.Inserts (s : LogSys) (e : LogEntry) : Prop :=
  e.pri ≤ s.level ∧ s.buf.finishInitialize = true

/-- No message comes while the log thread is about to wait. -/
def LogEvent.Timely (s : LogSys) : LogEvent → Prop
  | .log e => s.Inserts e → s.pc ≠ .ready
  | .thread => True

/-! ### Messages that come in time -/

section Steps

variable {s s' : LogSys} {e : LogEntry} {ev : LogEvent}

/-- What holds between two steps. -/
def LogSys.Inv (s : LogSys) : Prop :=
  match s.pc with
  | .start => s.buf.finishInitialize = false ∧ s.buf.rbIsEmpty = true
  | .ready => s.buf.rbIsEmpty = true
  | .waiting signalled =>
    s.buf.threadActive = false ∧ (s.buf.rbIsEmpty = true ∨ signalled = true)
  | _ => True

theorem LogSys.inv_init (level : ℕ) : (LogSys.init level).Inv := ⟨rfl, rfl⟩

/-- A call that inserts its message. -/
theorem logInternal_of_inserts (h : s.Inserts e) :
    s.logInternal e =
      { s with
        outputs := s.outputs ++ [(e, true)]
        buf := (s.buf.set e).rbUpdateHead
        pc := if s.buf.threadActive = false then s.pc.signal else s.pc } := by
  rw [LogSys.logInternal, if_neg (by have := h.1; omega), if_neg (by simp [h.2])]

/-- A call that does not changes neither the ring nor the thread. -/
theorem logInternal_of_not_inserts (h : ¬ s.Inserts e) :
    (s.logInternal e).buf = s.buf ∧ (s.logInternal e).pc = s.pc := by
  rw [LogSys.logInternal]
  split
  · exact ⟨rfl, rfl⟩
  · rename_i hle
    split
    · exact ⟨rfl, rfl⟩
    · rename_i hinit
      exact absurd ⟨by omega, by simpa using hinit⟩ h

theorem LogSys.Inv.log (h : s.Inv) (htimely : s.Inserts e → s.pc ≠ .ready) :
    (s.logInternal e).Inv := by
  by_cases hinserts : s.Inserts e
  · rw [logInternal_of_inserts hinserts]
    rw [LogSys.Inv] at h ⊢
    cases hpc : s.pc with
    | start =>
      rw [hpc] at h
      exact absurd hinserts.2 (by simp [h.1])
    | ready => exact absurd hpc (htimely hinserts)
    | waiting signalled =>
      rw [hpc] at h
      rw [if_pos h.1]
      have hactive : (s.buf.set e).rbUpdateHead.threadActive = false := by
        rw [LogBuf.rbUpdateHead]
        split
        · exact h.1
        · exact h.1
      exact ⟨hactive, Or.inr rfl⟩
    | looking =>
      rw [show LogPc.looking.signal = .looking from rfl, ite_self]
      trivial
    | printing e' =>
      rw [show (LogPc.printing e').signal = .printing e' from rfl, ite_self]
      trivial
  · obtain ⟨hbuf, hpc⟩ := logInternal_of_not_inserts hinserts
    rw [LogSys.Inv] at h ⊢
    rw [hbuf, hpc]
    exact h

theorem LogSys.Inv.thread (h : s.Inv) : s.logThread.Inv := by
  rw [LogSys.logThread]
  rw [LogSys.Inv] at h
  cases hpc : s.pc with
  | start =>
    rw [hpc] at h
    exact h.2
  | ready =>
    rw [hpc] at h
    exact ⟨rfl, Or.inl h⟩
  | waiting signalled => trivial
  | looking =>
    dsimp only
    split
    · rename_i hempty
      exact hempty
    · trivial
  | printing e' => trivial

theorem LogSys.Inv.step (h : s.Inv) (htimely : ev.Timely s) (hstep : s.step ev = some s') :
    s'.Inv := by
  cases ev with
  | log e =>
    obtain rfl := Option.some.inj hstep
    exact h.log htimely
  | thread =>
    obtain rfl := Option.some.inj hstep
    exact h.thread

theorem LogSys.Inv.noneLeft (h : s.Inv) : s.NoneLeft := by
  intro signalled hpc
  rw [LogSys.Inv, hpc] at h
  exact h.2

end Steps

/-- **No message is left behind**, in the runs in which no message comes while the log thread is
about to wait. -/
theorem no_message_left_behind {level : ℕ} {es : List LogEvent} {s : LogSys}
    (htimely : Meets LogSys.step (fun s ev => ev.Timely s) (LogSys.init level) es)
    (hrun : run LogSys.step (LogSys.init level) es = some s) : s.NoneLeft := by
  have hinv : s.Inv := run_invariant_meets (fun _ _ _ htimely h hstep => h.step htimely hstep)
    htimely (LogSys.inv_init level) hrun
  exact hinv.noneLeft

/-- A message that comes while the thread waits. -/
theorem no_message_left_behind_one :
    ∃ s, run LogSys.step (LogSys.init 6) [.thread, .thread, .log ⟨6, "m"⟩] = some s ∧
      s.pc = .waiting true ∧ s.NoneLeft := by
  have htimely : Meets LogSys.step (fun s ev => ev.Timely s) (LogSys.init 6)
      [.thread, .thread, .log ⟨6, "m"⟩] := by
    refine ⟨trivial, fun _ h => ?_⟩
    obtain rfl := Option.some.inj h
    refine ⟨trivial, fun _ h => ?_⟩
    obtain rfl := Option.some.inj h
    exact ⟨fun _ => by simp [LogSys.logThread, LogSys.init], fun _ _ => trivial⟩
  exact ⟨_, rfl, rfl, no_message_left_behind htimely rfl⟩

/-! ### Messages that do not -/

/-- The log thread is about to wait, and there is something to print. -/
def LogSys.Late (s : LogSys) : Prop := s.pc = .ready ∧ s.buf.rbIsEmpty = false

/-- A message that comes while the thread is about to wait. -/
theorem late_of_inserts {s : LogSys} {e : LogEntry} (hpc : s.pc = .ready) (h : s.Inserts e) :
    (s.logInternal e).Late := by
  rw [logInternal_of_inserts h, LogSys.Late, hpc]
  exact ⟨ite_self _, LogBuf.rbIsEmpty_rbUpdateHead _⟩

/-- It stays there, whatever other messages follow, and the thread does not look again before it
waits. -/
theorem left_behind_of_inserts {s t : LogSys} {e : LogEntry} {es : List LogEvent}
    (hpc : s.pc = .ready) (h : s.Inserts e) (hes : ∀ ev ∈ es, ∃ e, ev = .log e)
    (hrun : run LogSys.step s (.log e :: es ++ [.thread]) = some t) : ¬ t.NoneLeft := by
  rw [List.cons_append, run_cons] at hrun
  obtain ⟨u, hu, hstep⟩ := run_concat.mp hrun
  have hkeep : ∀ s ev s', (∃ e, ev = LogEvent.log e) → LogSys.Late s → s.step ev = some s' →
      s'.Late := by
    rintro s _ s' ⟨e, rfl⟩ hs hstep
    obtain rfl := Option.some.inj hstep
    by_cases hinserts : s.Inserts e
    · exact late_of_inserts hs.1 hinserts
    · obtain ⟨hbuf, hpc⟩ := logInternal_of_not_inserts hinserts
      rw [LogSys.Late, hbuf, hpc]
      exact hs
  obtain ⟨hpc, hfull⟩ := run_invariant_of hkeep hes (late_of_inserts hpc h) hu
  obtain rfl := Option.some.inj hstep
  rw [LogSys.logThread, hpc]
  intro hnone
  rcases hnone false rfl with hempty | hsignalled
  · exact absurd (hfull.symm.trans hempty) (by simp)
  · exact absurd hsignalled (by simp)

/-- Two messages come before the thread waits for the first time. -/
theorem left_behind_of_inserts_two : ∃ t, run LogSys.step (LogSys.init 6).logThread
    [.log ⟨6, "m"⟩, .log ⟨3, "n"⟩, .thread] = some t ∧ ¬ t.NoneLeft := by
  have hes : ∀ ev ∈ [LogEvent.log ⟨3, "n"⟩], ∃ e, ev = .log e := fun ev hmem =>
    ⟨_, List.mem_singleton.mp hmem⟩
  have hinserts : (LogSys.init 6).logThread.Inserts ⟨6, "m"⟩ := ⟨by decide, rfl⟩
  exact ⟨_, rfl, left_behind_of_inserts rfl hinserts hes rfl⟩

/-- The thread prints a message, finds the ring empty, and before it waits another one comes. -/
theorem message_left_behind :
    ∃ s, run LogSys.step (LogSys.init 6)
      [.thread, .thread, .log ⟨6, "m"⟩, .thread, .thread, .thread, .thread, .log ⟨6, "n"⟩,
        .thread] = some s ∧
      s.buf.buf s.buf.tail = ⟨6, "n"⟩ ∧ ¬ s.NoneLeft := by
  refine ⟨_, rfl, rfl, fun h => ?_⟩
  rcases h false rfl with hempty | hsignalled
  · exact absurd hempty (by decide)
  · exact absurd hsignalled (by decide)

end Tcmu

end LioProject
