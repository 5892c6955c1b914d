import LioProject.Lib.Bytes
import Mathlib.Data.List.Induction

/-!
# Watching the configuration file

The thread `dyn_config_start` reads events of inotify and goes through them with a pointer. An event
that is not for its watch should be passed over, and an event for it that says that the file has
been changed should lead to `tcmu_load_config`. When the watch is gone because the file has been
replaced, the thread adds a new one.

The pointer is advanced at the end of the body of the loop, and the `continue` for the events of
other watches goes round it. So at the first of them the thread stays for ever
(`overflow_stops_reloading`). `watch_survives_iff` says that this is the only way to lose it.
-/

namespace LioProject

namespace Tcmu

/-! ### Events -/

/-- `IN_MODIFY`. -/
def inModify : ℕ := 0x2

/-- `IN_IGNORED`. -/
def inIgnored : ℕ := 0x8000

/-- `struct inotify_event`, with fields of 32 bits. -/
structure InotifyEvent where
  /-- `wd`, which is -1 for an overflow of the queue. -/
  wd : ℕ
  /-- `mask`. -/
  mask : ℕ
  /-- `cookie`. -/
  cookie : ℕ
  /-- `name`, of `len` bytes. -/
  name : List UInt8
  wd_lt : wd < 256 ^ 4
  mask_lt : mask < 256 ^ 4
  cookie_lt : cookie < 256 ^ 4
  len_lt : name.length < 256 ^ 4

/-- An event as the kernel writes it. -/
def InotifyEvent.bytes (e : InotifyEvent) : List UInt8 :=
  leBytes e.wd 4 ++ leBytes e.mask 4 ++ leBytes e.cookie 4 ++ leBytes e.name.length 4 ++ e.name

/-- `BUF_LEN`. -/
def bufLen : ℕ := 1024

/-- What one `read` delivers, and how the system calls end that are made at an offset of the
buffer. -/
structure Delivery where
  /-- The events. There are none when the call fails. -/
  events : List InotifyEvent
  /-- The rest of the buffer. -/
  stale : List UInt8
  /-- `access` finds the file. -/
  access : ℕ → Bool
  /-- `inotify_add_watch`. -/
  addWatch : ℕ → ℕ
  fits : (events.flatMap InotifyEvent.bytes).length ≤ bufLen

/-! ### The loop -/

/-- The calls of the thread, at the offset of the event for which they are made. -/
inductive WatchCall where
  /-- `inotify_add_watch`. -/
  | add (p : ℕ)
  /-- `tcmu_load_config`. -/
  | load (p : ℕ)
  deriving DecidableEq, Repr

/-- The variables of the loop, and the calls that it has made. -/
structure WatchPos where
  /-- `p - buf`. -/
  p : ℕ
  /-- `wd`. -/
  wd : ℕ
  /-- The calls. -/
  calls : List WatchCall
  deriving DecidableEq, Repr

/-- `len`. -/
def Delivery.len (d : Delivery) : ℕ := (d.events.flatMap InotifyEvent.bytes).length

/-- `buf`. -/
def Delivery.buf (d : Delivery) : List UInt8 := d.events.flatMap InotifyEvent.bytes ++ d.stale

/-- The body of the loop, for the event at `p`. -/
def Delivery.body (d : Delivery) (s : WatchPos) : WatchPos :=
  let wd := leAt d.buf s.p 4
  let mask := leAt d.buf (s.p + 4) 4
  let len := leAt d.buf (s.p + 12) 4
  -- `continue`
  if wd ≠ s.wd then s
  else
    let s :=
      if mask &&& inIgnored ≠ 0 ∧ d.access s.p = true then
        { s with wd := d.addWatch s.p, calls := s.calls ++ [.add s.p] }
      else s
    let s :=
      if mask &&& inModify ≠ 0 ∨ mask &&& inIgnored ≠ 0 then
        { s with calls := s.calls ++ [.load s.p] }
      else s
    { s with p := s.p + (16 + len) }

/-- The loop, for up to `n` turns. -/
def Delivery.loop (d : Delivery) : ℕ → WatchPos → Option WatchPos
  | 0, _ => none
  | n + 1, s => if s.p < d.len then d.loop n (d.body s) else some s

/-! ### What it is for -/

/-- The variables behind an event, and the calls that it should lead to. -/
def Delivery.handle (d : Delivery) (s : WatchPos) (e : InotifyEvent) : WatchPos :=
  let next := s.p + e.bytes.length
  if e.wd ≠ s.wd then { s with p := next }
  else
    { p := next
      wd := if e.mask &&& inIgnored ≠ 0 ∧ d.access s.p = true then d.addWatch s.p else s.wd
      calls := s.calls ++
        (if e.mask &&& inIgnored ≠ 0 ∧ d.access s.p = true then [.add s.p] else []) ++
        (if e.mask &&& inModify ≠ 0 ∨ e.mask &&& inIgnored ≠ 0 then [.load s.p] else []) }

/-- Handling some events, each once and in their order. -/
def Delivery.handleAll (d : Delivery) (wd : ℕ) (es : List InotifyEvent) : WatchPos :=
  es.foldl d.handle ⟨0, wd, []⟩

/-- The loop ends when it has handled every event once, and every change of the file that is watched
has led to `tcmu_load_config`. -/
structure Delivery.Handled (d : Delivery) (wd : ℕ) : Prop where
  /-- The loop. -/
  ends : ∃ n, d.loop n ⟨0, wd, []⟩ = some (d.handleAll wd d.events)
  /-- The calls. -/
  loads : ∀ es e fs, d.events = es ++ e :: fs → e.wd = (d.handleAll wd es).wd →
    e.mask &&& inModify ≠ 0 →
    .load (es.flatMap InotifyEvent.bytes).length ∈ (d.handleAll wd d.events).calls

/-- Every event is for the watch that the thread has when it comes to it. -/
def Delivery.Current (d : Delivery) (wd : ℕ) : Prop :=
  ∀ es e fs, d.events = es ++ e :: fs → e.wd = (d.handleAll wd es).wd

section Loop

variable {d : Delivery} {s x : WatchPos} {e : InotifyEvent} {es fs : List InotifyEvent} {wd n : ℕ}

theorem handleAll_concat (d : Delivery) (wd : ℕ) (es : List InotifyEvent) (e : InotifyEvent) :
    d.handleAll wd (es ++ [e]) = d.handle (d.handleAll wd es) e := by
  rw [Delivery.handleAll, List.foldl_append]
  rfl

theorem p_handle (d : Delivery) (s : WatchPos) (e : InotifyEvent) :
    (d.handle s e).p = s.p + e.bytes.length := by
  rw [Delivery.handle]
  split
  · rfl
  · rfl

theorem p_handleAll (d : Delivery) (wd : ℕ) (es : List InotifyEvent) :
    (d.handleAll wd es).p = (es.flatMap InotifyEvent.bytes).length := by
  induction es using List.reverseRecOn with
  | nil => rfl
  | append_singleton es e ih =>
    rw [handleAll_concat, p_handle, ih, List.flatMap_append, List.length_append,
      List.flatMap_singleton]

theorem length_eventBytes (e : InotifyEvent) : e.bytes.length = 16 + e.name.length := by
  simp only [InotifyEvent.bytes, List.length_append, length_leBytes]

/-- The fields of an event in the buffer. -/
theorem leAt_buf (hevents : d.events = es ++ e :: fs) :
    leAt d.buf (es.flatMap InotifyEvent.bytes).length 4 = e.wd ∧
      leAt d.buf ((es.flatMap InotifyEvent.bytes).length + 4) 4 = e.mask ∧
      leAt d.buf ((es.flatMap InotifyEvent.bytes).length + 12) 4 = e.name.length := by
  have hbuf : d.buf = es.flatMap InotifyEvent.bytes ++ e.bytes ++
      (fs.flatMap InotifyEvent.bytes ++ d.stale) := by
    rw [Delivery.buf, hevents, List.flatMap_append, List.flatMap_cons]
    simp only [List.append_assoc]
  rw [InotifyEvent.bytes] at hbuf
  refine ⟨?_, ?_, ?_⟩
  · have h := leAt_append e.wd_lt (es.flatMap InotifyEvent.bytes)
      (leBytes e.mask 4 ++ leBytes e.cookie 4 ++ leBytes e.name.length 4 ++ e.name ++
        (fs.flatMap InotifyEvent.bytes ++ d.stale))
    rw [hbuf]
    simpa only [List.append_assoc] using h
  · have h := leAt_append e.mask_lt (es.flatMap InotifyEvent.bytes ++ leBytes e.wd 4)
      (leBytes e.cookie 4 ++ leBytes e.name.length 4 ++ e.name ++
        (fs.flatMap InotifyEvent.bytes ++ d.stale))
    rw [List.length_append, length_leBytes] at h
    rw [hbuf]
    simpa only [List.append_assoc] using h
  · have h := leAt_append e.len_lt
      (es.flatMap InotifyEvent.bytes ++ leBytes e.wd 4 ++ leBytes e.mask 4 ++ leBytes e.cookie 4)
      (e.name ++ (fs.flatMap InotifyEvent.bytes ++ d.stale))
    simp only [List.length_append, length_leBytes, Nat.add_assoc] at h
    rw [hbuf]
    simpa only [List.append_assoc] using h

/-- **One turn.** The body handles an event of its watch, and does nothing at one of another. -/
theorem body_eq (hevents : d.events = es ++ e :: fs)
    (hp : s.p = (es.flatMap InotifyEvent.bytes).length) :
    d.body s = if e.wd ≠ s.wd then s else d.handle s e := by
  obtain ⟨hwd, hmask, hlen⟩ := leAt_buf hevents
  rw [← hp] at hwd hmask hlen
  rw [Delivery.body, hwd, hmask, hlen]
  dsimp only
  by_cases hforeign : e.wd ≠ s.wd
  · rw [if_pos hforeign, if_pos hforeign]
  · rw [if_neg hforeign, if_neg hforeign, Delivery.handle, if_neg hforeign, length_eventBytes]
    split
    · split
      · simp
      · simp
    · split
      · simp
      · simp

theorem p_lt (hevents : d.events = es ++ e :: fs) :
    (es.flatMap InotifyEvent.bytes).length < d.len := by
  have hlen := length_eventBytes e
  rw [Delivery.len, hevents, List.flatMap_append, List.flatMap_cons, List.length_append,
    List.length_append]
  omega

/-- At an event of another watch the thread stays. -/
theorem loop_of_foreign (hevents : d.events = es ++ e :: fs)
    (hp : s.p = (es.flatMap InotifyEvent.bytes).length) (hforeign : e.wd ≠ s.wd) (n : ℕ) :
    d.loop n s = none := by
  induction n with
  | zero => rfl
  | succ n ih =>
    rw [Delivery.loop, if_pos (hp ▸ p_lt hevents), body_eq hevents hp, if_pos hforeign, ih]

/-- The events that a loop that ends has come to were for its watch. -/
theorem current_of_loop (hloop : d.loop n ⟨0, wd, []⟩ = some x) (hevents : d.events = es ++ fs) :
    (∃ m, d.loop m (d.handleAll wd es) = some x) ∧
      ∀ e gs, fs = e :: gs → e.wd = (d.handleAll wd es).wd := by
  have hcurrent : ∀ es e gs m, d.events = es ++ e :: gs →
      d.loop m (d.handleAll wd es) = some x → e.wd = (d.handleAll wd es).wd := by
    intro es e gs m hevents hm
    by_contra hforeign
    rw [loop_of_foreign hevents (p_handleAll d wd es) hforeign m] at hm
    exact absurd hm (by simp)
  have hreach : ∀ es fs, d.events = es ++ fs →
      ∃ m, d.loop m (d.handleAll wd es) = some x := by
    intro es
    induction es using List.reverseRecOn with
    | nil => exact fun _ _ => ⟨n, hloop⟩
    | append_singleton es e ih =>
      intro fs hevents
      rw [List.append_assoc, List.singleton_append] at hevents
      obtain ⟨m, hm⟩ := ih (e :: fs) hevents
      have heq := hcurrent es e fs m hevents hm
      have hp := p_handleAll d wd es
      cases m with
      | zero => exact absurd hm (by simp [Delivery.loop])
      | succ m =>
        rw [Delivery.loop, if_pos (hp ▸ p_lt hevents), body_eq hevents hp,
          if_neg (not_not.mpr heq)] at hm
        exact ⟨m, by rw [handleAll_concat]; exact hm⟩
  obtain ⟨m, hm⟩ := hreach es fs hevents
  refine ⟨⟨m, hm⟩, fun e gs hfs => ?_⟩
  subst hfs
  exact hcurrent es e gs m hevents hm

/-- A loop that meets only events of its watch handles them all. -/
theorem loop_of_current (hcurrent : d.Current wd) (hevents : d.events = es ++ fs) :
    ∃ n, d.loop n (d.handleAll wd es) = some (d.handleAll wd d.events) := by
  induction fs generalizing es with
  | nil =>
    rw [List.append_nil] at hevents
    refine ⟨1, ?_⟩
    rw [Delivery.loop, p_handleAll, if_neg (by rw [Delivery.len, hevents]; exact Nat.lt_irrefl _),
      hevents]
  | cons e fs ih =>
    obtain ⟨n, hn⟩ := ih (show d.events = (es ++ [e]) ++ fs by rw [hevents]; simp)
    have hp := p_handleAll d wd es
    refine ⟨n + 1, ?_⟩
    rw [Delivery.loop, if_pos (hp ▸ p_lt hevents), body_eq hevents hp,
      if_neg (not_not.mpr (hcurrent es e fs hevents)), ← handleAll_concat]
    exact hn

/-- Calls are not taken back. -/
theorem calls_handleAll (wd : ℕ) (es fs : List InotifyEvent) :
    ∀ c ∈ (d.handleAll wd es).calls, c ∈ (d.handleAll wd (es ++ fs)).calls := by
  induction fs using List.reverseRecOn with
  | nil =>
    rw [List.append_nil]
    exact fun _ hc => hc
  | append_singleton fs e ih =>
    intro c hc
    rw [← List.append_assoc, handleAll_concat, Delivery.handle]
    split
    · exact ih c hc
    · exact List.mem_append_left _ (List.mem_append_left _ (ih c hc))

/-- A change of the file that is watched. -/
theorem load_of_modify (hevents : d.events = es ++ e :: fs) (hwd : e.wd = (d.handleAll wd es).wd)
    (hmodify : e.mask &&& inModify ≠ 0) :
    .load (es.flatMap InotifyEvent.bytes).length ∈ (d.handleAll wd d.events).calls := by
  have hall : d.events = (es ++ [e]) ++ fs := by
    rw [hevents]
    simp
  rw [hall]
  refine calls_handleAll wd _ fs _ ?_
  rw [handleAll_concat, Delivery.handle, if_neg (not_not.mpr hwd), if_pos (Or.inl hmodify),
    p_handleAll]
  exact List.mem_append_right _ (List.mem_singleton.mpr rfl)

/-- **One read.** -/
theorem handled_iff : d.Handled wd ↔ d.Current wd := by
  constructor
  · rintro ⟨⟨n, hn⟩, -⟩ es e fs hevents
    exact (current_of_loop hn hevents).2 e fs rfl
  · intro hcurrent
    have hevents : d.events = [] ++ d.events := rfl
    exact ⟨loop_of_current hcurrent hevents,
      fun es e fs hevents hwd hmodify => load_of_modify hevents hwd hmodify⟩

end Loop

/-! ### Main result -/

/-- The watch after some reads. -/
def watchAfter (wd : ℕ) (ds : List Delivery) : ℕ :=
  ds.foldl (fun wd d => (d.handleAll wd d.events).wd) wd

/-- **The thread survives** all that is delivered, and loads the file whenever it has been changed,
if and only if every event is for the watch that the thread has when it comes to it. -/
theorem watch_survives_iff (wd : ℕ) (ds : List Delivery) :
    (∀ before d after, ds = before ++ d :: after → d.Handled (watchAfter wd before)) ↔
      ∀ before d after, ds = before ++ d :: after → d.Current (watchAfter wd before) := by
  refine forall_congr' fun before => forall_congr' fun d => forall_congr' fun after => ?_
  exact imp_congr_right fun _ => handled_iff

/-- An overflow of the queue, and behind it a change of the file. -/
def overflow : Delivery :=
  { events := [⟨2 ^ 32 - 1, 0x4000, 0, [], by decide, by decide, by decide, by decide⟩,
      ⟨1, 0x2, 0, [], by decide, by decide, by decide, by decide⟩]
    stale := []
    access := fun _ => true
    addWatch := fun _ => 1
    fits := by decide }

/-- The thread stays at the first event, and the file is not loaded again. -/
theorem overflow_stops_reloading : (∀ n, overflow.loop n ⟨0, 1, []⟩ = none) ∧
    ¬ overflow.Handled 1 := by
  have hstuck : ∀ n, overflow.loop n ⟨0, 1, []⟩ = none :=
    fun n => loop_of_foreign (show overflow.events = [] ++ _ from rfl) rfl (by decide) n
  refine ⟨hstuck, fun ⟨⟨n, hn⟩, _⟩ => ?_⟩
  rw [hstuck n] at hn
  exact absurd hn (by simp)

end Tcmu

end LioProject
