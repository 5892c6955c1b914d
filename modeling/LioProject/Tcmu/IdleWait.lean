import LioProject.Tcmu.Track
import Mathlib.Data.Int.Notation

/-!
# Waiting for an idle device

`aio_wait_for_empty_queue` is what stands between the commands of a device and whoever is going to
close its backend: `__tcmu_reopen_dev`, `tcmu_acquire_dev_lock` and `dev_removed`. It looks at the
count of commands once. If it is not 0, it leaves a pointer to its condition variable in
`is_empty_cond`, waits once, and returns.

There is one pointer for all callers, and nobody looks at the count again. So a caller may return
while commands run, and a caller may be left waiting for ever (`waits_not_sound`). Neither happens
in the runs in which nobody starts to wait while another waits, a caller only returns because it has
been signalled, and no command is started before it has (`waits_sound`).
-/

namespace LioProject

namespace Tcmu

/-- Where a caller is in `aio_wait_for_empty_queue`. -/
inductive WaitPc where
  /-- It is not in the function. -/
  | idle
  /-- It has initialised its condition variable. -/
  | entered
  /-- It is in `pthread_cond_wait`, and has been signalled or not. -/
  | blocked (signalled : Bool)
  deriving DecidableEq, Repr

/-- A return from `aio_wait_for_empty_queue`. -/
structure WaitReturn where
  /-- The value it returns. -/
  ret : ℤ
  /-- `tracked_aio_ops` when it leaves the critical section. -/
  ops : ℕ
  deriving DecidableEq, Repr

/-- The callers of `aio_wait_for_empty_queue` for one device. -/
structure IdleWait where
  /-- The counters. -/
  queue : TrackAio
  /-- Where the callers are. -/
  pc : ℕ → WaitPc
  /-- The returns so far. -/
  returned : List WaitReturn

/-- Nobody waits. -/
def IdleWait.init : IdleWait := ⟨setupAioTracking, fun _ => .idle, []⟩

/-- The steps of the callers, and of the threads that start and finish commands. -/
inductive IdleEvent where
  /-- `track_aio_request_start`. -/
  | start
  /-- `track_aio_request_finish`. -/
  | finish (asks : Bool)
  /-- A thread calls `aio_wait_for_empty_queue`, and `pthread_cond_init` returns `ret`. -/
  | call (thread : ℕ) (ret : ℤ)
  /-- A caller looks at the count, under `track_lock`. -/
  | look (thread : ℕ)
  /-- `pthread_cond_wait` returns `ret` to a caller. It may do so without a signal. -/
  | wake (thread : ℕ) (ret : ℤ)
  deriving DecidableEq, Repr

/-- A caller goes on at another place. -/
def IdleWait.goto (s : IdleWait) (t : ℕ) (p : WaitPc) : IdleWait :=
  { s with pc := Function.update s.pc t p }

/-- A caller returns. -/
def IdleWait.return (s : IdleWait) (t : ℕ) (ret : ℤ) : IdleWait :=
  { s with pc := Function.update s.pc t .idle
           returned := ⟨ret, s.queue.trackedAioOps⟩ :: s.returned }

/-- `pthread_cond_signal`, if there is a condition variable to signal. -/
def IdleWait.signal (s : IdleWait) : Option ℕ → IdleWait
  | none => s
  | some t => s.goto t (.blocked true)

/-- The steps. -/
def IdleWait.step (s : IdleWait) : IdleEvent → Option IdleWait
  | .start => some { s with queue := s.queue.trackAioRequestStart }
  | .finish asks => do
    let f ← s.queue.trackAioRequestFinish asks
    some (({ s with queue := f.queue } : IdleWait).signal f.signalled)
  | .call t ret =>
    if s.pc t = .idle then
      some (if ret = 0 then s.goto t .entered else s.return t ret)
    else none
  | .look t =>
    if s.pc t = .entered then
      if s.queue.trackedAioOps = 0 then some (s.return t 0)
      else some (({ s with queue.isEmptyCond := some t } : IdleWait).goto t (.blocked false))
    else none
  | .wake t ret =>
    match s.pc t with
    | .blocked _ => some (({ s with queue.isEmptyCond := none } : IdleWait).return t ret)
    | _ => none

/-- Waiting is sound: who returns with 0 returns in a state without commands, and in a state without
commands everybody who is blocked has been signalled. -/
def IdleWait.Sound (s : IdleWait) : Prop :=
  (∀ r ∈ s.returned, r.ret = 0 → r.ops = 0) ∧
    (s.queue.trackedAioOps = 0 → ∀ t b, s.pc t = .blocked b → b = true)

/-- What keeps the callers out of each other's way: no command is started while a caller has been
signalled and has not returned, nobody starts to wait while another waits, and nobody wakes up
without a signal. -/
def IdleEvent.Orderly (s : IdleWait) : IdleEvent → Prop
  | .start => ∀ t, s.pc t ≠ .blocked true
  | .look _ => s.queue.trackedAioOps = 0 ∨ s.queue.isEmptyCond = none
  | .wake t _ => s.pc t = .blocked true
  | _ => True

/-- What holds between the steps of an orderly run. -/
structure IdleWait.Inv (s : IdleWait) : Prop where
  /-- The one caller that waits for a signal is the one that is going to get it. -/
  waiting : ∀ t, s.pc t = .blocked false ↔ s.queue.isEmptyCond = some t
  /-- It is waiting for a command. -/
  busy : ∀ t, s.queue.isEmptyCond = some t → 0 < s.queue.trackedAioOps
  /-- There is no command while a caller is about to return. -/
  quiet : ∀ t, s.pc t = .blocked true → s.queue.trackedAioOps = 0
  /-- Whoever has returned with 0 was right. -/
  returned : ∀ r ∈ s.returned, r.ret = 0 → r.ops = 0

theorem IdleWait.inv_init : IdleWait.init.Inv := by
  refine ⟨?_, ?_, ?_, ?_⟩
  · intro t
    simp [IdleWait.init, setupAioTracking]
  · intro t ht
    exact absurd ht (by simp [IdleWait.init, setupAioTracking])
  · intro t ht
    exact absurd ht (by simp [IdleWait.init])
  · intro r hr
    exact absurd hr (by simp [IdleWait.init])

/-- In the states of an orderly run waiting is sound. -/
theorem IdleWait.Inv.sound {s : IdleWait} (h : s.Inv) : s.Sound := by
  refine ⟨h.returned, ?_⟩
  intro hzero t b ht
  cases b with
  | true => rfl
  | false =>
    have hbusy := h.busy t ((h.waiting t).mp ht)
    omega

section Steps

variable {s : IdleWait} {t : ℕ}

theorem IdleWait.Inv.start (h : s.Inv) (hquiet : ∀ t, s.pc t ≠ .blocked true) :
    ({ s with queue := s.queue.trackAioRequestStart } : IdleWait).Inv :=
  ⟨h.waiting, fun _ _ => Nat.succ_pos _, fun t ht => absurd ht (hquiet t), h.returned⟩

/-- While a command is left, nobody is signalled. The last one signals whoever waits. -/
theorem IdleWait.Inv.finish {asks : Bool} {f : Finished} (h : s.Inv)
    (hf : s.queue.trackAioRequestFinish asks = some f) :
    (({ s with queue := f.queue } : IdleWait).signal f.signalled).Inv := by
  obtain ⟨hpos, -, -, -, ⟨hzero, hcond, hsig⟩ | ⟨hne, hcond, hsig⟩⟩ :=
    trackAioRequestFinish_eq_some hf
  · rw [hsig]
    cases hwait : s.queue.isEmptyCond with
    | none =>
      refine ⟨fun t => ?_, fun t ht => ?_, fun t _ => hzero, h.returned⟩
      · change s.pc t = .blocked false ↔ f.queue.isEmptyCond = some t
        rw [h.waiting t, hwait, hcond]
      · change f.queue.isEmptyCond = some t at ht
        exact absurd ht (by simp [hcond])
    | some w =>
      refine ⟨fun t => ?_, fun t ht => ?_, fun t _ => hzero, h.returned⟩
      · change Function.update s.pc w (.blocked true) t = .blocked false ↔
          f.queue.isEmptyCond = some t
        by_cases heq : t = w
        · subst heq
          simp [hcond]
        · rw [Function.update_of_ne heq, h.waiting t, hwait, hcond]
          simp [Ne.symm heq]
      · change f.queue.isEmptyCond = some t at ht
        exact absurd ht (by simp [hcond])
  · rw [hsig]
    refine ⟨fun t => ?_, fun t _ => Nat.pos_of_ne_zero hne, fun t ht => ?_, h.returned⟩
    · change s.pc t = .blocked false ↔ f.queue.isEmptyCond = some t
      rw [h.waiting t, hcond]
    · have hquiet := h.quiet t ht
      omega

/-- A caller moves between places where it does not wait. -/
theorem IdleWait.Inv.goto {p : WaitPc} (h : s.Inv) (ht : ∀ b, s.pc t ≠ .blocked b)
    (hp : ∀ b, p ≠ .blocked b) : (s.goto t p).Inv := by
  have hiff : ∀ u b, Function.update s.pc t p u = .blocked b ↔ s.pc u = .blocked b := by
    intro u b
    by_cases heq : u = t
    · subst heq
      simp [hp b, ht b]
    · rw [Function.update_of_ne heq]
  exact ⟨fun u => (hiff u false).trans (h.waiting u), h.busy,
    fun u hu => h.quiet u ((hiff u true).mp hu), h.returned⟩

/-- A caller that does not wait returns, with an error or with 0 in a state without commands. -/
theorem IdleWait.Inv.return {ret : ℤ} (h : s.Inv) (ht : ∀ b, s.pc t ≠ .blocked b)
    (hret : ret = 0 → s.queue.trackedAioOps = 0) : (s.return t ret).Inv := by
  have hgoto := h.goto (p := .idle) ht (by simp)
  refine ⟨hgoto.waiting, hgoto.busy, hgoto.quiet, ?_⟩
  intro r hr
  rcases List.mem_cons.mp hr with rfl | hr
  · exact hret
  · exact h.returned r hr

/-- Nobody waits, and there are commands: the caller waits for the last of them. -/
theorem IdleWait.Inv.block (h : s.Inv) (hpos : 0 < s.queue.trackedAioOps)
    (hcond : s.queue.isEmptyCond = none) :
    (({ s with queue.isEmptyCond := some t } : IdleWait).goto t (.blocked false)).Inv := by
  refine ⟨fun u => ?_, fun u _ => hpos, fun u hu => ?_, h.returned⟩
  · change Function.update s.pc t (.blocked false) u = .blocked false ↔ some t = some u
    by_cases heq : u = t
    · subst heq
      simp
    · rw [Function.update_of_ne heq, h.waiting u, hcond]
      simp [Ne.symm heq]
  · change Function.update s.pc t (.blocked false) u = .blocked true at hu
    by_cases heq : u = t
    · subst heq
      exact absurd hu (by simp)
    · rw [Function.update_of_ne heq] at hu
      exact h.quiet u hu

/-- A caller that has been signalled returns. -/
theorem IdleWait.Inv.wake {ret : ℤ} (h : s.Inv) (ht : s.pc t = .blocked true) :
    (({ s with queue.isEmptyCond := none } : IdleWait).return t ret).Inv := by
  have hzero := h.quiet t ht
  have hcond : ∀ u, s.queue.isEmptyCond ≠ some u := by
    intro u hu
    have hbusy := h.busy u hu
    omega
  refine ⟨fun u => ?_, fun u hu => absurd hu (by simp [IdleWait.return]), fun u _ => hzero, ?_⟩
  · change Function.update s.pc t .idle u = .blocked false ↔ none = some u
    by_cases heq : u = t
    · subst heq
      simp
    · rw [Function.update_of_ne heq, h.waiting u]
      simp [hcond u]
  · intro r hr
    rcases List.mem_cons.mp hr with rfl | hr
    · exact fun _ => hzero
    · exact h.returned r hr

end Steps

theorem IdleWait.Inv.step {s s' : IdleWait} {e : IdleEvent} (h : s.Inv) (he : e.Orderly s)
    (hstep : s.step e = some s') : s'.Inv := by
  cases e with
  | start =>
    obtain rfl := Option.some.inj hstep
    exact h.start he
  | finish asks =>
    obtain ⟨f, hf, hs⟩ := Option.bind_eq_some_iff.mp hstep
    obtain rfl := Option.some.inj hs
    exact h.finish hf
  | call t ret =>
    rw [IdleWait.step] at hstep
    split at hstep
    · rename_i ht
      obtain rfl := Option.some.inj hstep
      split
      · exact h.goto (by simp [ht]) (by simp)
      · rename_i hret
        exact h.return (by simp [ht]) fun hzero => absurd hzero hret
    · exact absurd hstep (by simp)
  | look t =>
    rw [IdleWait.step] at hstep
    split at hstep
    · rename_i ht
      split at hstep
      · rename_i hzero
        obtain rfl := Option.some.inj hstep
        exact h.return (by simp [ht]) fun _ => hzero
      · rename_i hne
        obtain rfl := Option.some.inj hstep
        exact h.block (Nat.pos_of_ne_zero hne) (he.resolve_left hne)
    · exact absurd hstep (by simp)
  | wake t ret =>
    have ht : s.pc t = .blocked true := he
    simp only [IdleWait.step, ht] at hstep
    obtain rfl := Option.some.inj hstep
    exact h.wake ht

/-- **Waiting for an idle device**, in the runs in which the callers keep out of each other's
way. -/
theorem waits_sound {es : List IdleEvent} {s : IdleWait}
    (horder : Meets IdleWait.step (fun s e => e.Orderly s) IdleWait.init es)
    (hrun : run IdleWait.step IdleWait.init es = some s) : s.Sound := by
  have hinv : s.Inv :=
    run_invariant_meets (fun _ _ _ he h hstep => h.step he hstep) horder IdleWait.inv_init hrun
  exact hinv.sound

/-- One caller waits for one command. -/
def oneWaiter : List IdleEvent := [.start, .call 0 0, .look 0, .finish true, .wake 0 0]

theorem waits_sound_one :
    ∃ s, run IdleWait.step IdleWait.init oneWaiter = some s ∧ s.returned = [⟨0, 0⟩] ∧ s.Sound := by
  have horder : Meets IdleWait.step (fun s e => e.Orderly s) IdleWait.init oneWaiter := by
    refine ⟨fun t => by simp [IdleWait.init], fun _ h => ?_⟩
    obtain rfl := Option.some.inj h
    refine ⟨trivial, fun _ h => ?_⟩
    obtain rfl := Option.some.inj h
    refine ⟨Or.inr rfl, fun _ h => ?_⟩
    obtain rfl := Option.some.inj h
    refine ⟨trivial, fun _ h => ?_⟩
    obtain rfl := Option.some.inj h
    exact ⟨rfl, fun _ _ => trivial⟩
  exact ⟨_, rfl, rfl, waits_sound horder rfl⟩

/-- A command is started between the signal and the return of the caller that has got it. -/
def lateStart : List IdleEvent := [.start, .call 0 0, .look 0, .finish true, .start, .wake 0 0]

/-- The second caller puts its condition variable in the place of the first one's. -/
def twoWaiters : List IdleEvent := [.start, .call 0 0, .look 0, .call 1 0, .look 1, .finish true]

/-- A caller wakes up without a signal. -/
def spuriousWake : List IdleEvent := [.start, .call 0 0, .look 0, .wake 0 0]

/-- Waiting is not sound: a caller returns 0 while a command runs, because one has been started
before it got `track_lock` back or because it has not been signalled at all, and of two callers one
is never signalled. -/
theorem waits_not_sound :
    (∃ s, run IdleWait.step IdleWait.init lateStart = some s ∧ ¬ s.Sound) ∧
      (∃ s, run IdleWait.step IdleWait.init twoWaiters = some s ∧ ¬ s.Sound) ∧
      ∃ s, run IdleWait.step IdleWait.init spuriousWake = some s ∧ ¬ s.Sound := by
  refine ⟨⟨_, rfl, fun h => ?_⟩, ⟨_, rfl, fun h => ?_⟩, ⟨_, rfl, fun h => ?_⟩⟩
  · exact absurd (h.1 ⟨0, 1⟩ (List.mem_cons_self ..) rfl) (by decide)
  · exact absurd (h.2 rfl 0 false rfl) (by decide)
  · exact absurd (h.1 ⟨0, 1⟩ (List.mem_cons_self ..) rfl) (by decide)

end Tcmu

end LioProject
