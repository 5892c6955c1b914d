import LioProject.Lib.Run
import Mathlib.Logic.Function.Basic

/-!
# Tracking requests

`struct tcmu_track_aio` counts the commands that a device has started and not finished, and the
completions that the kernel has not been told of. All of `tcmur_aio.c` that touches it does so under
`track_lock`, so each of the functions below is one step, whoever else is running.

Two protocols are built on it. `aio_command_finish` tells the kernel of completions: whoever raises
`pending_wakeups` from 0 becomes the one that does so, and goes on until nobody has asked for more.
`aio_wait_for_empty_queue` waits until the count of commands is 0.

The counters are `unsigned int`s. They count commands of the ring and completions during one call of
`tcmulib_processing_complete`, and stay far from where they would wrap.
-/

namespace LioProject

namespace Tcmu

/-- `struct tcmu_track_aio`. The condition variable that `is_empty_cond` points to is on the stack
of the thread that waits for it, and is known by that thread. -/
structure TrackAio where
  /-- `pending_wakeups`. -/
  pendingWakeups : ℕ
  /-- `tracked_aio_ops`. -/
  trackedAioOps : ℕ
  /-- `is_empty_cond`. -/
  isEmptyCond : Option ℕ
  deriving DecidableEq, Repr

/-- `setup_aio_tracking`. -/
def setupAioTracking : TrackAio := ⟨0, 0, none⟩

/-- `track_aio_request_start`. -/
def TrackAio.trackAioRequestStart (q : TrackAio) : TrackAio :=
  { q with trackedAioOps := q.trackedAioOps + 1 }

/-- What `track_aio_request_finish` leaves behind. -/
structure Finished where
  /-- The counters. -/
  queue : TrackAio
  /-- `*wake_up`, or false if the caller has not asked for it. -/
  wakeUp : Bool
  /-- Whose condition variable has been signalled. -/
  signalled : Option ℕ
  deriving DecidableEq, Repr

/-- `track_aio_request_finish`. The caller asks to be told whether it has to wake up the kernel, or
passes a null pointer. Nothing is left behind if the assertion fails. -/
def TrackAio.trackAioRequestFinish (q : TrackAio) (asks : Bool) : Option Finished :=
  if 0 < q.trackedAioOps then
    let ops := q.trackedAioOps - 1
    let pending := if asks then q.pendingWakeups + 1 else q.pendingWakeups
    let wakeUp := asks && pending == 1
    if ops = 0 then some ⟨⟨pending, ops, none⟩, wakeUp, q.isEmptyCond⟩
    else some ⟨⟨pending, ops, q.isEmptyCond⟩, wakeUp, none⟩
  else none

/-- `track_aio_wakeup_finish`: the counters and `*wake_up`, unless the assertion fails. -/
def TrackAio.trackAioWakeupFinish (q : TrackAio) : Option (TrackAio × Bool) :=
  if 1 < q.pendingWakeups then some ({ q with pendingWakeups := 1 }, true)
  else if 0 < q.pendingWakeups then some ({ q with pendingWakeups := 0 }, false)
  else none

/-- What `track_aio_request_finish` does, whichever way it goes. -/
theorem trackAioRequestFinish_eq_some {q : TrackAio} {asks : Bool} {f : Finished}
    (h : q.trackAioRequestFinish asks = some f) :
    0 < q.trackedAioOps ∧ f.queue.trackedAioOps = q.trackedAioOps - 1 ∧
      f.queue.pendingWakeups = (if asks then q.pendingWakeups + 1 else q.pendingWakeups) ∧
      f.wakeUp = (asks && f.queue.pendingWakeups == 1) ∧
      (f.queue.trackedAioOps = 0 ∧ f.queue.isEmptyCond = none ∧ f.signalled = q.isEmptyCond ∨
        f.queue.trackedAioOps ≠ 0 ∧ f.queue.isEmptyCond = q.isEmptyCond ∧ f.signalled = none) := by
  rw [TrackAio.trackAioRequestFinish] at h
  split at h
  · rename_i hpos
    dsimp only at h
    split at h
    · rename_i hzero
      obtain rfl := Option.some.inj h
      exact ⟨hpos, rfl, rfl, rfl, Or.inl ⟨hzero, rfl, rfl⟩⟩
    · rename_i hne
      obtain rfl := Option.some.inj h
      exact ⟨hpos, rfl, rfl, rfl, Or.inr ⟨hne, rfl, rfl⟩⟩
  · exact absurd h (by simp)

/-! ### Waking up the kernel -/

/-- Where a thread is in `aio_command_finish`: at the call it makes next. -/
inductive FinishPc where
  /-- It is not in the function. -/
  | idle
  /-- `track_aio_request_finish`, after `tcmulib_command_complete`. -/
  | requestFinish
  /-- `tcmulib_processing_complete`, in the loop. -/
  | processingComplete
  /-- `track_aio_wakeup_finish`, in the loop. -/
  | wakeupFinish
  deriving DecidableEq, Repr

/-- The thread is in the wake-up loop. -/
def FinishPc.inLoop (p : FinishPc) : Prop := p = .processingComplete ∨ p = .wakeupFinish

instance (p : FinishPc) : Decidable p.inLoop :=
  inferInstanceAs (Decidable (p = .processingComplete ∨ p = .wakeupFinish))

/-- What the kernel notices. -/
inductive Notice where
  /-- A thread has posted a completion: `tcmulib_command_complete`. -/
  | posted (thread : ℕ)
  /-- The kernel has been told: `tcmulib_processing_complete`. -/
  | announced
  deriving DecidableEq, Repr

/-- The threads that complete the commands of a device. -/
structure Wakeups where
  /-- The counters. -/
  queue : TrackAio
  /-- Where the threads are. -/
  pc : ℕ → FinishPc
  /-- What the kernel has noticed, the last first. -/
  log : List Notice

/-- The steps of the threads, and of the command thread that starts and untracks commands. -/
inductive WakeupEvent where
  /-- A command is started: `track_aio_request_start`. -/
  | start
  /-- A command is finished that nobody has to be told of: `track_aio_request_finish` with a null
  pointer. -/
  | untrack
  /-- A thread calls `aio_command_finish`, which posts the completion. -/
  | commandComplete (thread : ℕ)
  /-- The next step of a thread that is in `aio_command_finish`. -/
  | next (thread : ℕ)
  deriving DecidableEq, Repr

/-- No thread is in `aio_command_finish`. -/
def Wakeups.init : Wakeups := ⟨setupAioTracking, fun _ => .idle, []⟩

/-- A thread goes on at another place. -/
def Wakeups.goto (s : Wakeups) (t : ℕ) (p : FinishPc) : Wakeups :=
  { s with pc := Function.update s.pc t p }

/-- The next step of a thread in `aio_command_finish`. The loop goes on as long as `wake_up` is
set. -/
def Wakeups.next (s : Wakeups) (t : ℕ) : Option Wakeups :=
  match s.pc t with
  | .idle => none
  | .requestFinish => do
    let f ← s.queue.trackAioRequestFinish true
    some (({ s with queue := f.queue } : Wakeups).goto t
      (if f.wakeUp then .processingComplete else .idle))
  | .processingComplete =>
    some (({ s with log := .announced :: s.log } : Wakeups).goto t .wakeupFinish)
  | .wakeupFinish => do
    let (q, wakeUp) ← s.queue.trackAioWakeupFinish
    some (({ s with queue := q } : Wakeups).goto t (if wakeUp then .processingComplete else .idle))

/-- The steps. -/
def Wakeups.step (s : Wakeups) : WakeupEvent → Option Wakeups
  | .start => some { s with queue := s.queue.trackAioRequestStart }
  | .untrack => do
    let f ← s.queue.trackAioRequestFinish false
    some { s with queue := f.queue }
  | .commandComplete t =>
    if s.pc t = .idle then
      some (({ s with log := .posted t :: s.log } : Wakeups).goto t .requestFinish)
    else none
  | .next t => s.next t

/-- The threads whose completions have not been announced yet. -/
def unannounced : List Notice → List ℕ
  | [] => []
  | .announced :: _ => []
  | .posted t :: log => t :: unannounced log

/-- What holds between the steps: one thread at most is in the loop, there is one exactly if
`pending_wakeups` is positive, and it goes on as long as there is a completion to announce, unless
the thread that has posted it has not asked for a wake-up yet. -/
structure Wakeups.Inv (s : Wakeups) : Prop where
  /-- One thread at most is in the loop. -/
  unique : ∀ t u, (s.pc t).inLoop → (s.pc u).inLoop → t = u
  /-- The loop runs on a positive count. -/
  pos : ∀ t, (s.pc t).inLoop → 0 < s.queue.pendingWakeups
  /-- Without a loop there is nothing to announce. -/
  zero : (∀ t, ¬ (s.pc t).inLoop) → s.queue.pendingWakeups = 0
  /-- A completion that is not announced will be. -/
  covered : ∀ t ∈ unannounced s.log, s.pc t = .requestFinish ∨
    ∃ u, s.pc u = .processingComplete ∨ s.pc u = .wakeupFinish ∧ 1 < s.queue.pendingWakeups

theorem Wakeups.inv_init : Wakeups.init.Inv := by
  refine ⟨?_, ?_, fun _ => rfl, ?_⟩
  · intro t u ht
    exact absurd ht (by simp [FinishPc.inLoop, Wakeups.init])
  · intro t ht
    exact absurd ht (by simp [FinishPc.inLoop, Wakeups.init])
  · intro t ht
    exact absurd ht (by simp [unannounced, Wakeups.init])

section Steps

variable {s : Wakeups} {t : ℕ}

/-- A thread posts a completion, and asks for a wake-up next. -/
theorem Wakeups.Inv.post (h : s.Inv) (ht : s.pc t = .idle) :
    (({ s with log := .posted t :: s.log } : Wakeups).goto t .requestFinish).Inv := by
  have hloop : ∀ u, (Function.update s.pc t .requestFinish u).inLoop → (s.pc u).inLoop := by
    intro u hu
    by_cases heq : u = t
    · subst heq
      exact absurd hu (by simp [FinishPc.inLoop])
    · rwa [Function.update_of_ne heq] at hu
  refine ⟨fun u v hu hv => h.unique u v (hloop u hu) (hloop v hv),
    fun u hu => h.pos u (hloop u hu), fun hnone => h.zero fun u hu => hnone u ?_, ?_⟩
  · have hne : u ≠ t := by
      rintro rfl
      exact absurd hu (by simp [FinishPc.inLoop, ht])
    change (Function.update s.pc t .requestFinish u).inLoop
    rwa [Function.update_of_ne hne]
  · intro u hu
    change Function.update s.pc t .requestFinish u = .requestFinish ∨
      ∃ v, Function.update s.pc t .requestFinish v = .processingComplete ∨
        Function.update s.pc t .requestFinish v = .wakeupFinish ∧ 1 < s.queue.pendingWakeups
    by_cases heq : u = t
    · subst heq
      exact Or.inl (Function.update_self ..)
    · have hmem : u ∈ unannounced s.log := by
        rcases List.mem_cons.mp hu with rfl | hmem
        · exact absurd rfl heq
        · exact hmem
      rcases h.covered u hmem with hu | ⟨v, hv⟩
      · exact Or.inl (by rwa [Function.update_of_ne heq])
      · have hne : v ≠ t := by
          rintro rfl
          simp [ht] at hv
        exact Or.inr ⟨v, by rwa [Function.update_of_ne hne]⟩

/-- Someone is in the loop while `pending_wakeups` is positive. -/
theorem Wakeups.Inv.exists_inLoop (h : s.Inv) (hpos : 0 < s.queue.pendingWakeups) :
    ∃ u, (s.pc u).inLoop := by
  by_contra hnone
  have hzero := h.zero (not_exists.mp hnone)
  omega

/-- The first to ask for a wake-up enters the loop. -/
theorem Wakeups.Inv.enter {q : TrackAio} (h : s.Inv) (hzero : s.queue.pendingWakeups = 0)
    (hq : q.pendingWakeups = 1) :
    (({ s with queue := q } : Wakeups).goto t .processingComplete).Inv := by
  have hout : ∀ u, ¬ (s.pc u).inLoop := by
    intro u hu
    have hpos := h.pos u hu
    omega
  have honly : ∀ u, (Function.update s.pc t .processingComplete u).inLoop → u = t := by
    intro u hu
    by_contra hne
    rw [Function.update_of_ne hne] at hu
    exact hout u hu
  have hself : Function.update s.pc t .processingComplete t = .processingComplete :=
    Function.update_self ..
  refine ⟨fun u v hu hv => (honly u hu).trans (honly v hv).symm, fun u _ => ?_,
    fun hnone => absurd (Or.inl hself) (hnone t), fun u _ => Or.inr ⟨t, Or.inl hself⟩⟩
  change 0 < q.pendingWakeups
  omega

/-- The others leave the wake-up to the thread in the loop, which has not finished with its
last one. -/
theorem Wakeups.Inv.leave {q : TrackAio} (h : s.Inv) (ht : s.pc t = .requestFinish)
    (hpos : 0 < s.queue.pendingWakeups) (hq : q.pendingWakeups = s.queue.pendingWakeups + 1) :
    (({ s with queue := q } : Wakeups).goto t .idle).Inv := by
  have hloop : ∀ u, (Function.update s.pc t .idle u).inLoop ↔ (s.pc u).inLoop := by
    intro u
    by_cases heq : u = t
    · subst heq
      simp [FinishPc.inLoop, ht]
    · rw [Function.update_of_ne heq]
  obtain ⟨v, hv⟩ := h.exists_inLoop hpos
  refine ⟨fun u w hu hw => h.unique u w ((hloop u).mp hu) ((hloop w).mp hw), fun u _ => ?_,
    fun hnone => absurd ((hloop v).mpr hv) (hnone v), fun u _ => Or.inr ⟨v, ?_⟩⟩
  · change 0 < q.pendingWakeups
    omega
  · have hlt : 1 < q.pendingWakeups := by omega
    rcases (hloop v).mpr hv with hv | hv
    · exact Or.inl hv
    · exact Or.inr ⟨hv, hlt⟩

/-- The kernel is told of everything that has been posted. -/
theorem Wakeups.Inv.announce (h : s.Inv) (ht : s.pc t = .processingComplete) :
    (({ s with log := .announced :: s.log } : Wakeups).goto t .wakeupFinish).Inv := by
  have hloop : ∀ u, (Function.update s.pc t .wakeupFinish u).inLoop ↔ (s.pc u).inLoop := by
    intro u
    by_cases heq : u = t
    · subst heq
      simp [FinishPc.inLoop, ht]
    · rw [Function.update_of_ne heq]
  refine ⟨fun u v hu hv => h.unique u v ((hloop u).mp hu) ((hloop v).mp hv),
    fun u hu => h.pos u ((hloop u).mp hu), fun hnone => h.zero fun u hu => hnone u ?_, ?_⟩
  · exact (hloop u).mpr hu
  · intro u hu
    exact absurd hu (by simp [unannounced, Wakeups.goto])

/-- Others have asked meanwhile: the loop goes round again. -/
theorem Wakeups.Inv.again {q : TrackAio} (h : s.Inv) (ht : s.pc t = .wakeupFinish)
    (hq : q.pendingWakeups = 1) :
    (({ s with queue := q } : Wakeups).goto t .processingComplete).Inv := by
  have hself : Function.update s.pc t .processingComplete t = .processingComplete :=
    Function.update_self ..
  have honly : ∀ u, (Function.update s.pc t .processingComplete u).inLoop → u = t := by
    intro u hu
    by_contra hne
    rw [Function.update_of_ne hne] at hu
    exact hne (h.unique u t hu (Or.inr ht))
  refine ⟨fun u v hu hv => (honly u hu).trans (honly v hv).symm, fun u _ => ?_,
    fun hnone => absurd (Or.inl hself) (hnone t), fun u _ => Or.inr ⟨t, Or.inl hself⟩⟩
  change 0 < q.pendingWakeups
  omega

/-- Nobody has asked meanwhile: everything that has been asked for is announced. -/
theorem Wakeups.Inv.exit {q : TrackAio} (h : s.Inv) (ht : s.pc t = .wakeupFinish)
    (hone : s.queue.pendingWakeups = 1) (hq : q.pendingWakeups = 0) :
    (({ s with queue := q } : Wakeups).goto t .idle).Inv := by
  have hnone : ∀ u, ¬ (Function.update s.pc t .idle u).inLoop := by
    intro u hu
    by_cases heq : u = t
    · subst heq
      exact absurd hu (by simp [FinishPc.inLoop])
    · rw [Function.update_of_ne heq] at hu
      exact heq (h.unique u t hu (Or.inr ht))
  refine ⟨fun u v hu => absurd hu (hnone u), fun u hu => absurd hu (hnone u), fun _ => hq, ?_⟩
  intro u hu
  rcases h.covered u hu with hfinish | ⟨v, hv | ⟨hv, hlt⟩⟩
  · have hne : u ≠ t := by
      rintro rfl
      simp [ht] at hfinish
    exact Or.inl ((Function.update_of_ne hne ..).trans hfinish)
  · have heq := h.unique v t (Or.inl hv) (Or.inr ht)
    subst heq
    simp [ht] at hv
  · omega

/-- A step that leaves the threads and `pending_wakeups` alone. -/
theorem Wakeups.Inv.queue {q : TrackAio} (h : s.Inv)
    (hq : q.pendingWakeups = s.queue.pendingWakeups) : ({ s with queue := q } : Wakeups).Inv := by
  refine ⟨h.unique, ?_, ?_, ?_⟩
  · rw [hq]
    exact h.pos
  · rw [hq]
    exact h.zero
  · rw [hq]
    exact h.covered

theorem Wakeups.Inv.next {s' : Wakeups} (h : s.Inv) (hstep : s.next t = some s') : s'.Inv := by
  rw [Wakeups.next] at hstep
  split at hstep
  · exact absurd hstep (by simp)
  · rename_i ht
    obtain ⟨f, hf, hs⟩ := Option.bind_eq_some_iff.mp hstep
    obtain rfl := Option.some.inj hs
    obtain ⟨-, -, hpending, hwake, -⟩ := trackAioRequestFinish_eq_some hf
    rw [if_pos rfl] at hpending
    by_cases hzero : s.queue.pendingWakeups = 0
    · have hone : f.queue.pendingWakeups = 1 := by omega
      rw [if_pos (by simp [hwake, hone])]
      exact h.enter hzero hone
    · rw [if_neg (by simp [hwake, hpending, hzero])]
      exact h.leave ht (by omega) hpending
  · rename_i ht
    obtain rfl := Option.some.inj hstep
    exact h.announce ht
  · rename_i ht
    obtain ⟨⟨q, wakeUp⟩, hq, hs⟩ := Option.bind_eq_some_iff.mp hstep
    obtain rfl := Option.some.inj hs
    rw [TrackAio.trackAioWakeupFinish] at hq
    split at hq
    · obtain ⟨rfl, rfl⟩ := Prod.mk.inj (Option.some.inj hq)
      exact h.again ht rfl
    · split at hq
      · obtain ⟨rfl, rfl⟩ := Prod.mk.inj (Option.some.inj hq)
        exact h.exit ht (by omega) rfl
      · exact absurd hq (by simp)

end Steps

theorem Wakeups.Inv.step {s s' : Wakeups} {e : WakeupEvent} (h : s.Inv)
    (hstep : s.step e = some s') : s'.Inv := by
  cases e with
  | start =>
    obtain rfl := Option.some.inj hstep
    exact h.queue rfl
  | untrack =>
    obtain ⟨f, hf, hs⟩ := Option.bind_eq_some_iff.mp hstep
    obtain rfl := Option.some.inj hs
    obtain ⟨-, -, hpending, -⟩ := trackAioRequestFinish_eq_some hf
    exact h.queue hpending
  | commandComplete t =>
    rw [Wakeups.step] at hstep
    split at hstep
    · rename_i ht
      obtain rfl := Option.some.inj hstep
      exact h.post ht
    · exact absurd hstep (by simp)
  | next t => exact h.next hstep

end Tcmu

end LioProject
