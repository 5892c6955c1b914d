import LioProject.Tcmu.Backend

/-!
# The lock state of a device

`lock_state` is written by six functions. `LOCKING` says that a thread is acquiring the lock for
implicit failover, and is to be left alone by the others. `LOCKED` lets commands through.

With implicit failover `LOCKING` says the truth: `LockStep` is what the functions do to it, and
`one_acquisition` follows. `LOCKED` does not always. `tcmu_acquire_dev_lock` takes a queue that it
could not flush for success, and an acquisition by the command thread is not protected by `LOCKING`,
so what takes the lock away may come between getting it and storing that (`lock_state_lies`).
Without these two `LOCKED` is right (`locked_granted`).
-/

namespace LioProject

namespace Tcmu

/-! ### Acquisitions by a thread of their own -/

/-- The thread acquires the lock for implicit failover. -/
def Thread.acquires : Thread → Bool
  | .acquire false _ => true
  | _ => false

/-- The next step of the thread stores the lock state, and the thread is not one that acquires it
for implicit failover. -/
def Thread.stores : Thread → Bool
  | .acquire true (.done _) => true
  | .release .store => true
  | .stop (.release .store) => true
  | _ => false

/-- Nobody else stores the lock state while a thread acquires the lock for implicit failover. -/
def DevEvent.Undisturbed (s : DevSys) : DevEvent → Prop
  | .step t .. => (s.thread t).stores → s.dev.lockState ≠ .locking
  | _ => True

/-- What a step does to `LOCKING` and the threads that it stands for. -/
inductive LockStep (s s' : DevSys) : Prop
  /-- Nothing. -/
  | same (hlock : s'.dev.lockState = .locking ↔ s.dev.lockState = .locking)
      (hacq : ∀ u, (s'.thread u).acquires = (s.thread u).acquires)
  /-- A thread begins. -/
  | begin (t : ℕ) (ht : (s.thread t).acquires = false) (hlock : s.dev.lockState = .unlocked)
      (hlock' : s'.dev.lockState = .locking)
      (hacq : ∀ u, (s'.thread u).acquires = if u = t then true else (s.thread u).acquires)
  /-- A thread is finished. -/
  | finish (t : ℕ) (ht : (s.thread t).acquires = true) (hlock' : s'.dev.lockState ≠ .locking)
      (hacq : ∀ u, (s'.thread u).acquires = if u = t then false else (s.thread u).acquires)

/-- `LOCKING` stands for one thread. -/
structure DevSys.LockInv (s : DevSys) : Prop where
  /-- There is one exactly if the state says so. -/
  locking : s.dev.lockState = .locking ↔ ∃ t, (s.thread t).acquires
  /-- There is one at most. -/
  unique : ∀ t u, (s.thread t).acquires → (s.thread u).acquires → t = u

theorem LockStep.inv {s s' : DevSys} (hstep : LockStep s s') (h : s.LockInv) : s'.LockInv := by
  obtain ⟨hlocking, hunique⟩ := h
  cases hstep with
  | same hlock hacq =>
    refine ⟨?_, ?_⟩
    · simp only [hlock, hacq, hlocking]
    · simpa only [hacq] using hunique
  | begin t ht hlock hlock' hacq =>
    have hnone : ∀ u, (s.thread u).acquires = false := by
      intro u
      by_contra hu
      have hlocked := hlocking.mpr ⟨u, by simpa using hu⟩
      simp [hlock] at hlocked
    refine ⟨⟨fun _ => ⟨t, by simp [hacq]⟩, fun _ => hlock'⟩, ?_⟩
    intro u v hu hv
    have honly : ∀ w, (s'.thread w).acquires = true → w = t := by
      intro w hw
      by_contra hne
      simp [hacq, hne, hnone w] at hw
    exact (honly u hu).trans (honly v hv).symm
  | finish t ht hlock' hacq =>
    have hnone : ∀ u, (s'.thread u).acquires = false := by
      intro u
      rw [hacq]
      split
      · rfl
      · rename_i hne
        by_contra hu
        exact hne (hunique u t (by simpa using hu) ht)
    refine ⟨⟨fun h => absurd h hlock', ?_⟩, fun u v hu => ?_⟩
    · rintro ⟨u, hu⟩
      simp [hnone u] at hu
    · simp [hnone u] at hu

section Steps

variable {s s' : DevSys} {t : ℕ}

theorem DevSys.acquires_goto (s : DevSys) (t : ℕ) (th : Thread) (u : ℕ) :
    ((s.goto t th).thread u).acquires = if u = t then th.acquires else (s.thread u).acquires := by
  change (Function.update s.thread t th u).acquires = _
  by_cases heq : u = t
  · subst heq
    rw [Function.update_self, if_pos rfl]
  · rw [Function.update_of_ne heq, if_neg heq]

/-- A thread goes on, and `LOCKING` is left alone. -/
theorem LockStep.goto {d : DevState} {th : Thread}
    (hlock : d.lockState = .locking ↔ s.dev.lockState = .locking)
    (hacq : th.acquires = (s.thread t).acquires) : LockStep s ((s.put d).goto t th) := by
  refine .same hlock fun u => ?_
  rw [DevSys.acquires_goto]
  split
  · rename_i heq
    rw [heq, hacq]
  · rfl

/-- A reopen leaves `LOCKING` alone. -/
theorem DevState.reopenStep_locking {d d' : DevState} {a : ReopenArgs} {ret : ℤ} {pc : ReopenPc}
    {n : Next ReopenPc ℤ} (h : ReopenStep d t a ret pc d' n) :
    d'.lockState = .locking ↔ d.lockState = .locking := by
  cases h with
  | dropLock hlock => simp [hlock]
  | _ => rfl

/-- Storing `UNLOCKED` while nobody is `LOCKING`. -/
theorem DevState.releaseStep_locking (d : DevState) (pc : ReleasePc)
    (h : pc = .store → d.lockState ≠ .locking) :
    (d.releaseStep pc).1.lockState = .locking ↔ d.lockState = .locking := by
  cases pc with
  | look => rfl
  | unlock => rfl
  | store => exact ⟨fun hlock => absurd hlock (by simp [DevState.releaseStep]),
      fun hlock => absurd hlock (h rfl)⟩

theorem DevState.stopStep_locking (d : DevState) (pc : StopPc)
    (h : pc = .release .store → d.lockState ≠ .locking) :
    (d.stopStep pc).1.lockState = .locking ↔ d.lockState = .locking := by
  cases pc with
  | enter =>
    rw [DevState.stopStep]
    split
    · rfl
    · rfl
  | cancel pc =>
    rw [DevState.stopStep]
    split
    · rfl
    · rfl
  | recovery => rfl
  | take =>
    rw [DevState.stopStep]
    split
    · rfl
    · rfl
  | release pc =>
    have hrelease := d.releaseStep_locking pc fun hpc => h (by rw [hpc])
    rw [DevState.stopStep]
    split
    · rename_i heq
      rwa [heq] at hrelease
    · rename_i heq
      rwa [heq] at hrelease
  | close => rfl
  | finish => rfl

theorem Thread.acquires_signalEmpty (th : Thread) : th.signalEmpty.acquires = th.acquires := by
  cases th with
  | acquire b pc => cases b <;> cases pc <;> rfl
  | _ => rfl

theorem Thread.acquires_signalLock (th : Thread) : th.signalLock.acquires = th.acquires := by
  cases th with
  | reopen a pc => cases pc <;> rfl
  | stop pc => cases pc <;> rfl
  | _ => rfl

theorem DevSys.acquires_wakeLock (s : DevSys) (woken : List ℕ) (u : ℕ) :
    ((s.wakeLock woken).thread u).acquires = (s.thread u).acquires := by
  change (if u ∈ woken then (s.thread u).signalLock else s.thread u).acquires = _
  split
  · exact Thread.acquires_signalLock _
  · rfl

theorem DevSys.untrack_lockStep {asks : Bool} (h : s.untrack asks = some s') : LockStep s s' := by
  obtain ⟨f, -, ⟨-, rfl⟩ | ⟨w, -, rfl⟩⟩ := DevSys.untrack_cases h
  · exact .same Iff.rfl fun _ => rfl
  · exact .goto Iff.rfl (Thread.acquires_signalEmpty _)

/-- A thread that acquires the lock goes on until it stores the lock state. -/
theorem DevSys.acquireStep_lockStep {isSync : Bool} {ret : ℤ} {sts : TcmuSts} {woken : List ℕ}
    {pc : AcquirePc} (ht : s.thread t = .acquire isSync pc)
    (hstores : (s.thread t).stores → s.dev.lockState ≠ .locking)
    (h : AcquireStep s t isSync ret sts woken pc s') : LockStep s s' := by
  have hacq : ∀ pc', (Thread.acquire isSync pc').acquires = (s.thread t).acquires := by
    intro pc'
    rw [ht]
    cases isSync <;> rfl
  cases h with
  | wait | waited | unflushed | locked | enter => exact .goto Iff.rfl (hacq _)
  | lock | unlocked | busy | noticed => exact .goto (d := s.dev) Iff.rfl (hacq _)
  | reopen h | reopened h => exact .goto (DevState.reopenStep_locking h) (hacq _)
  | connLost hsts hrec hidle =>
    refine .same Iff.rfl fun v => ?_
    rw [DevSys.acquires_goto, DevSys.acquires_goto]
    split
    · rename_i heq
      rw [heq, hacq]
    · split
      · rename_i heq
        rw [heq, hidle]
        rfl
      · rfl
  | done sts' =>
    have hnot : (if sts' = .ok then LockState.locked else .unlocked) ≠ .locking := by
      split <;> simp
    have hidle : ∀ u,
        ((((s.put (s.dev.acquireDone t sts')).wakeLock woken).goto t .idle).thread u).acquires
          = if u = t then false else (s.thread u).acquires := by
      intro u
      rw [DevSys.acquires_goto, DevSys.acquires_wakeLock]
      rfl
    cases isSync with
    | false => exact .finish t (by rw [ht]; rfl) hnot hidle
    | true =>
      have hbefore := hstores (by rw [ht]; rfl)
      refine .same ⟨fun hlock => absurd hlock hnot, fun hlock => absurd hlock hbefore⟩ fun u => ?_
      rw [hidle]
      split
      · rename_i heq
        rw [heq, ht]
        rfl
      · rfl

theorem DevSys.threadStep_lockStep {ret : ℤ} {sts : TcmuSts} {added : Option ℕ} {woken : List ℕ}
    (hstores : (s.thread t).stores → s.dev.lockState ≠ .locking)
    (h : s.threadStep t ret sts added woken = some s') : LockStep s s' := by
  rw [DevSys.threadStep] at h
  split at h
  · exact absurd h (by simp)
  · rename_i a pc ht
    split at h
    · rename_i hreopen
      obtain rfl := Option.some.inj h
      exact .goto (DevState.reopenStep_locking (DevState.reopenStep_cases hreopen))
        (by rw [ht]; rfl)
    · rename_i hreopen
      obtain rfl := Option.some.inj h
      exact .goto (DevState.reopenStep_locking (DevState.reopenStep_cases hreopen))
        (by rw [ht]; rfl)
  · rename_i isSync pc ht
    exact s.acquireStep_lockStep ht hstores (DevSys.acquireStep_cases h)
  · rename_i pc ht
    have hlock := s.dev.releaseStep_locking pc (by
      rintro rfl
      exact hstores (by rw [ht]; rfl))
    split at h
    · rename_i heq
      rw [heq] at hlock
      obtain rfl := Option.some.inj h
      exact .goto hlock (by rw [ht]; rfl)
    · rename_i heq
      rw [heq] at hlock
      obtain rfl := Option.some.inj h
      exact .goto hlock (by rw [ht]; rfl)
  · rename_i pc ht
    have hlock := s.dev.stopStep_locking pc (by
      rintro rfl
      exact hstores (by rw [ht]; rfl))
    split at h
    · rename_i heq
      rw [heq] at hlock
      obtain rfl := Option.some.inj h
      exact .goto hlock (by rw [ht]; rfl)
    · rename_i heq
      rw [heq] at hlock
      obtain rfl := Option.some.inj h
      exact .goto hlock (by rw [ht]; rfl)

/-- The check of the lock state begins an acquisition only where there is none. -/
theorem DevSys.checkState_lockStep {f : Failover} {created : Option ℕ}
    (h : s.checkState f created = some s') : LockStep s s' := by
  rcases DevSys.checkState_eq_some h with ⟨c, -, rfl⟩ | ⟨t, hlock, hidle, -, rfl⟩
  · exact .same Iff.rfl fun _ => rfl
  · exact .begin t (by rw [hidle]; rfl) hlock rfl fun u => DevSys.acquires_goto ..

end Steps

/-- What the steps of a device do to `LOCKING`. -/
theorem devSys_lockStep {f : Failover} {s s' : DevSys} {e : DevEvent} (he : e.Undisturbed s)
    (h : s.step f e = some s') : LockStep s s' := by
  cases e with
  | start | checkRecovery | unsupported | callout | called =>
    obtain ⟨-, hs⟩ := Option.ite_none_right_eq_some.mp h
    obtain rfl := Option.some.inj hs
    exact .same Iff.rfl fun _ => rfl
  | checkState created =>
    obtain ⟨-, hs⟩ := Option.ite_none_right_eq_some.mp h
    exact DevSys.checkState_lockStep hs
  | finish cmd asks =>
    obtain ⟨-, hs⟩ := DevSys.finish_eq_some h
    cases DevSys.untrack_lockStep hs with
    | same hlock hacq => exact .same hlock hacq
    | begin t ht hlock hlock' hacq => exact .begin t ht hlock hlock' hacq
    | finish t ht hlock' hacq => exact .finish t ht hlock' hacq
  | finishAgain asks => exact DevSys.untrack_lockStep h
  | lockLost =>
    obtain rfl := Option.some.inj h
    refine .same ?_ fun _ => rfl
    change s.dev.tcmuNotifyLockLost.lockState = .locking ↔ _
    rw [DevState.tcmuNotifyLockLost]
    split
    · rfl
    · rename_i hlock
      simp [hlock]
  | connLost added =>
    rcases DevSys.connLost_cases h with rfl | ⟨r, -, hidle, -, rfl⟩
    · exact .same Iff.rfl fun _ => rfl
    · exact .goto Iff.rfl (by rw [hidle]; rfl)
  | reopenDev t retries =>
    obtain ⟨hidle, hs⟩ := Option.ite_none_right_eq_some.mp h
    split at hs
    · obtain rfl := Option.some.inj hs
      exact .same Iff.rfl fun _ => rfl
    · obtain rfl := Option.some.inj hs
      exact .goto Iff.rfl (by rw [hidle]; rfl)
  | acquire =>
    obtain ⟨hidle, hs⟩ := Option.ite_none_right_eq_some.mp h
    obtain rfl := Option.some.inj hs
    exact .goto (d := s.dev) Iff.rfl (by rw [hidle.1]; rfl)
  | release =>
    obtain ⟨hidle, hs⟩ := Option.ite_none_right_eq_some.mp h
    obtain rfl := Option.some.inj hs
    exact .goto (d := s.dev) Iff.rfl (by rw [hidle.1]; rfl)
  | syncDrop =>
    obtain ⟨-, hs⟩ := Option.ite_none_right_eq_some.mp h
    obtain rfl := Option.some.inj hs
    refine .same ?_ fun _ => rfl
    change s.dev.aluaSyncDrop.lockState = .locking ↔ _
    rw [DevState.aluaSyncDrop]
    split
    · rename_i hlock
      simp [hlock]
    · rfl
  | removed =>
    obtain rfl := Option.some.inj h
    exact .same Iff.rfl fun _ => rfl
  | stop t =>
    obtain ⟨hidle, hs⟩ := Option.ite_none_right_eq_some.mp h
    obtain rfl := Option.some.inj hs
    exact .goto (d := s.dev) Iff.rfl (by rw [hidle]; rfl)
  | step t ret sts added woken => exact s.threadStep_lockStep he h

/-! ### Implicit failover -/

/-- The event does not make the command thread, or whoever removes the device, write the lock
state. -/
def DevEvent.implicit : DevEvent → Bool
  | .acquire | .release | .stop _ => false
  | _ => true

/-- The thread is idle, in a reopen, or acquires the lock for implicit failover. -/
def Thread.plain : Thread → Bool
  | .idle | .reopen .. | .acquire false _ => true
  | _ => false

/-- All threads are. -/
def DevSys.Plain (s : DevSys) : Prop := ∀ u, (s.thread u).plain

section Plain

variable {s s' : DevSys} {t : ℕ}

theorem DevSys.Plain.goto {th : Thread} (h : s.Plain) (hth : th.plain) : (s.goto t th).Plain := by
  intro u
  change (Function.update s.thread t th u).plain
  by_cases heq : u = t
  · subst heq
    rwa [Function.update_self]
  · rw [Function.update_of_ne heq]
    exact h u

theorem Thread.plain_signalEmpty {th : Thread} (h : th.plain) : th.signalEmpty.plain := by
  cases th with
  | acquire b pc => cases b <;> cases pc <;> first | rfl | exact h
  | _ => exact h

theorem Thread.plain_signalLock {th : Thread} (h : th.plain) : th.signalLock.plain := by
  cases th with
  | reopen a pc => cases pc <;> exact h
  | stop pc => exact absurd h (by simp [Thread.plain])
  | _ => exact h

theorem DevSys.Plain.wakeLock {woken : List ℕ} (h : s.Plain) : (s.wakeLock woken).Plain := by
  intro u
  change (if u ∈ woken then (s.thread u).signalLock else s.thread u).plain
  split
  · exact Thread.plain_signalLock (h u)
  · exact h u

theorem DevSys.Plain.untrack {asks : Bool} (h : s.Plain) (hs : s.untrack asks = some s') :
    s'.Plain := by
  obtain ⟨f, -, ⟨-, rfl⟩ | ⟨w, -, rfl⟩⟩ := DevSys.untrack_cases hs
  · exact h
  · exact DevSys.Plain.goto h (Thread.plain_signalEmpty (h w))

theorem DevSys.Plain.acquireStep {ret : ℤ} {sts : TcmuSts} {woken : List ℕ} {pc : AcquirePc}
    (h : s.Plain) (hs : AcquireStep s t false ret sts woken pc s') : s'.Plain := by
  cases hs with
  | connLost => exact DevSys.Plain.goto (DevSys.Plain.goto h rfl) rfl
  | done => exact DevSys.Plain.goto (DevSys.Plain.wakeLock h) rfl
  | _ => exact DevSys.Plain.goto h rfl

theorem DevSys.Plain.threadStep {ret : ℤ} {sts : TcmuSts} {added : Option ℕ} {woken : List ℕ}
    (h : s.Plain) (hs : s.threadStep t ret sts added woken = some s') : s'.Plain := by
  have ht := h t
  rw [DevSys.threadStep] at hs
  split at hs
  · exact absurd hs (by simp)
  · split at hs
    · obtain rfl := Option.some.inj hs
      exact DevSys.Plain.goto h rfl
    · obtain rfl := Option.some.inj hs
      exact DevSys.Plain.goto h rfl
  · rename_i isSync pc heq
    cases isSync with
    | false => exact h.acquireStep (DevSys.acquireStep_cases hs)
    | true => exact absurd ht (by simp [heq, Thread.plain])
  · rename_i pc heq
    exact absurd ht (by simp [heq, Thread.plain])
  · rename_i pc heq
    exact absurd ht (by simp [heq, Thread.plain])

theorem DevSys.Plain.step {f : Failover} {e : DevEvent} (he : e.implicit) (h : s.Plain)
    (hs : s.step f e = some s') : s'.Plain := by
  cases e with
  | start | checkRecovery | unsupported | callout | called | syncDrop =>
    obtain ⟨-, hs⟩ := Option.ite_none_right_eq_some.mp hs
    obtain rfl := Option.some.inj hs
    exact h
  | checkState created =>
    obtain ⟨-, hs⟩ := Option.ite_none_right_eq_some.mp hs
    rcases DevSys.checkState_eq_some hs with ⟨c, -, rfl⟩ | ⟨t, -, -, -, rfl⟩
    · exact h
    · exact DevSys.Plain.goto h rfl
  | finish cmd asks =>
    obtain ⟨-, hs⟩ := DevSys.finish_eq_some hs
    have hplain : ({ s with cmds := s.cmds.erase cmd } : DevSys).Plain := h
    exact hplain.untrack hs
  | finishAgain asks => exact h.untrack hs
  | lockLost | removed =>
    obtain rfl := Option.some.inj hs
    exact h
  | connLost added =>
    rcases DevSys.connLost_cases hs with rfl | ⟨r, -, -, -, rfl⟩
    · exact h
    · exact DevSys.Plain.goto h rfl
  | reopenDev t retries =>
    obtain ⟨-, hs⟩ := Option.ite_none_right_eq_some.mp hs
    split at hs
    · exact Option.some.inj hs ▸ h
    · obtain rfl := Option.some.inj hs
      exact DevSys.Plain.goto h rfl
  | acquire | release | stop => exact absurd he (by simp [DevEvent.implicit])
  | step t ret sts added woken => exact h.threadStep hs

/-- Plain threads do not disturb each other. -/
theorem DevSys.Plain.undisturbed (h : s.Plain) (e : DevEvent) : e.Undisturbed s := by
  cases e with
  | step t =>
    intro hstores
    have ht := h t
    cases hth : s.thread t with
    | acquire b pc =>
      rw [hth] at hstores ht
      cases b with
      | false => exact absurd hstores (by simp [Thread.stores])
      | true => exact absurd ht (by simp [Thread.plain])
    | release pc | stop pc => exact absurd ht (by simp [hth, Thread.plain])
    | idle | reopen => exact absurd hstores (by simp [hth, Thread.stores])
  | _ => exact trivial

end Plain

theorem DevSys.lockInv_added : (DevSys.added DevState.fresh).LockInv := by
  refine ⟨⟨fun h => absurd h (by simp [DevSys.added, DevState.fresh]), ?_⟩, fun t u ht => ?_⟩
  · rintro ⟨t, ht⟩
    exact absurd ht (by simp [DevSys.added, Thread.acquires])
  · exact absurd ht (by simp [DevSys.added, Thread.acquires])

/-- **One acquisition at a time.** With implicit failover, whatever the commands, the notifications,
the reopens and the acquisitions do, and in whatever order: the state is `LOCKING` exactly while a
thread acquires the lock, there is one such thread at most, and a command that sees `LOCKING` is
refused with `TCMU_STS_TRANSITION` and changes nothing. -/
theorem one_acquisition {es : List DevEvent} {s : DevSys} (himplicit : ∀ e ∈ es, e.implicit)
    (hrun : run (DevSys.step ⟨true, .implicit⟩) (DevSys.added DevState.fresh) es = some s) :
    (s.dev.lockState = .locking ↔ ∃ t, (s.thread t).acquires) ∧
      (∀ t u, (s.thread t).acquires → (s.thread u).acquires → t = u) ∧
      (s.dev.lockState = .locking → ∀ created s',
        s.step ⟨true, .implicit⟩ (.checkState created) = some s' →
          s' = s.replace .checked (.refused .transition)) := by
  have hkeep : ∀ (u : DevSys) (e : DevEvent) (v : DevSys), e.implicit → u.Plain ∧ u.LockInv →
      u.step ⟨true, .implicit⟩ e = some v → v.Plain ∧ v.LockInv := by
    rintro u e v he ⟨hplain, hinv⟩ hstep
    exact ⟨hplain.step he hstep, (devSys_lockStep (hplain.undisturbed e) hstep).inv hinv⟩
  have hinit : (DevSys.added DevState.fresh).Plain ∧ (DevSys.added DevState.fresh).LockInv :=
    ⟨fun _ => rfl, DevSys.lockInv_added⟩
  obtain ⟨-, hinv⟩ := run_invariant_of hkeep himplicit hinit hrun
  refine ⟨hinv.locking, hinv.unique, fun hlock created s' hstep => ?_⟩
  obtain ⟨-, hs⟩ := Option.ite_none_right_eq_some.mp hstep
  have hcheck : s.dev.aluaCheckState ⟨true, .implicit⟩ created.isSome
      = (s.dev, .transition, false) := by
    rw [DevState.aluaCheckState, if_pos rfl]
    simp only [hlock]
  unfold DevSys.checkState at hs
  rw [hcheck] at hs
  exact (Option.some.inj hs).symm

/-- Two commands, the first of which starts an acquisition. -/
def twoCommands : List DevEvent :=
  [.start, .checkRecovery, .checkState (some 1), .start, .checkRecovery]

theorem one_acquisition_two :
    ∃ s s', run (DevSys.step ⟨true, .implicit⟩) (DevSys.added DevState.fresh) twoCommands = some s ∧
      (s.thread 1).acquires ∧ s.dev.lockState = .locking ∧
      s.step ⟨true, .implicit⟩ (.checkState (some 2)) = some s' ∧
      s' = s.replace .checked (.refused .transition) := by
  obtain ⟨s, hs⟩ : ∃ s,
      run (DevSys.step ⟨true, .implicit⟩) (DevSys.added DevState.fresh) twoCommands = some s :=
    ⟨_, rfl⟩
  have hone := one_acquisition (by decide) hs
  have hacq : (s.thread 1).acquires := by
    obtain rfl := Option.some.inj hs
    rfl
  have hlock := hone.1.mpr ⟨1, hacq⟩
  obtain ⟨s', hs'⟩ : ∃ s', s.step ⟨true, .implicit⟩ (.checkState (some 2)) = some s' := by
    obtain rfl := Option.some.inj hs
    exact ⟨_, rfl⟩
  exact ⟨s, s', hs, hacq, hlock, hs', hone.2.2 hlock _ _ hs'⟩

/-! ### The lock is held -/

/-- The thread has got the lock from the handler, and has not stored that. -/
def Thread.hasLock : Thread → Bool
  | .acquire _ (.done .ok) => true
  | _ => false

/-- The next step of the thread closes the backend. -/
def Thread.shuts : Thread → Bool
  | .reopen _ .close => true
  | .acquire _ (.reopen _ .close) => true
  | .stop .close => true
  | _ => false

/-- The next step of the thread ends a release of the lock. -/
def Thread.releases : Thread → Bool
  | .release .store => true
  | .stop (.release .store) => true
  | _ => false

/-- The thread waits for the commands before it acquires the lock. -/
def Thread.flushes : Thread → Bool
  | .acquire _ (.wait _) => true
  | _ => false

/-- What does not get in the way of an acquisition: its wait for the commands does not fail, and the
lock is not lost, dropped or released, and the backend is not closed, between getting the lock and
storing that; nor is the backend closed while the state is `LOCKED`. -/
def DevEvent.Spares (s : DevSys) : DevEvent → Prop
  | .lockLost => s.dev.lockState ≠ .locking → ∀ u, ¬ (s.thread u).hasLock
  | .syncDrop => s.dev.lockState = .locked → ∀ u, ¬ (s.thread u).hasLock
  | .step t ret .. =>
    ((s.thread t).flushes → ret = 0) ∧
      ((s.thread t).releases → ∀ u, ¬ (s.thread u).hasLock) ∧
      ((s.thread t).shuts → s.dev.lockState ≠ .locked ∧ ∀ u, ¬ (s.thread u).hasLock)
  | _ => True

/-- `LOCKED` is right, and so is whoever is going to say so. -/
structure DevSys.GrantInv (s : DevSys) : Prop where
  /-- The state is right. -/
  granted : s.dev.lockState = .locked → s.dev.granted = true
  /-- A thread that is going to store `LOCKED` has got the lock. -/
  obtained : ∀ t, (s.thread t).hasLock → s.dev.obtained t = true

/-- What a step does to the lock. -/
inductive GrantStep (s s' : DevSys) : Prop
  /-- Nothing, except that the state may cease to be `LOCKED`. -/
  | frame (hlock : s'.dev.lockState = .locked → s.dev.lockState = .locked)
      (hgranted : s'.dev.granted = s.dev.granted) (hobtained : s'.dev.obtained = s.dev.obtained)
      (hhas : ∀ u, (s'.thread u).hasLock → (s.thread u).hasLock)
  /-- The lock is taken away, and nobody says otherwise. -/
  | revoke (hlock : s'.dev.lockState ≠ .locked) (hhas : ∀ u, ¬ (s'.thread u).hasLock)
  /-- A thread gets the lock. -/
  | get (t : ℕ) (hlock : s'.dev.lockState = s.dev.lockState)
      (hgranted : s'.dev.granted = s.dev.granted)
      (hobtained : s'.dev.obtained = Function.update s.dev.obtained t true)
      (hhas : ∀ u, u ≠ t → (s'.thread u).hasLock → (s.thread u).hasLock)
  /-- A thread stores what it has got. -/
  | store (t : ℕ) (hlock : s'.dev.lockState = .locked → (s.thread t).hasLock)
      (hgranted : s'.dev.granted = s.dev.obtained t)
      (hobtained : s'.dev.obtained = Function.update s.dev.obtained t false)
      (hself : ¬ (s'.thread t).hasLock) (hhas : ∀ u, (s'.thread u).hasLock → (s.thread u).hasLock)

theorem GrantStep.inv {s s' : DevSys} (hstep : GrantStep s s') (h : s.GrantInv) : s'.GrantInv := by
  cases hstep with
  | frame hlock hgranted hobtained hhas =>
    refine ⟨fun hlocked => ?_, fun t ht => ?_⟩
    · rw [hgranted]
      exact h.granted (hlock hlocked)
    · rw [hobtained]
      exact h.obtained t (hhas t ht)
  | revoke hlock hhas =>
    exact ⟨fun hlocked => absurd hlocked hlock, fun t ht => absurd ht (hhas t)⟩
  | get t hlock hgranted hobtained hhas =>
    refine ⟨fun hlocked => ?_, fun u hu => ?_⟩
    · rw [hgranted]
      exact h.granted (hlock ▸ hlocked)
    · rw [hobtained]
      by_cases heq : u = t
      · subst heq
        exact Function.update_self ..
      · rw [Function.update_of_ne heq]
        exact h.obtained u (hhas u heq hu)
  | store t hlock hgranted hobtained hself hhas =>
    refine ⟨fun hlocked => ?_, fun u hu => ?_⟩
    · rw [hgranted]
      exact h.obtained t (hlock hlocked)
    · have hne : u ≠ t := by
        rintro rfl
        exact hself hu
      rw [hobtained, Function.update_of_ne hne]
      exact h.obtained u (hhas u hu)

section Grant

variable {s s' : DevSys} {t : ℕ}

theorem DevSys.hasLock_goto {th : Thread} {u : ℕ} (h : ((s.goto t th).thread u).hasLock) :
    u = t ∧ th.hasLock ∨ u ≠ t ∧ (s.thread u).hasLock := by
  change (Function.update s.thread t th u).hasLock at h
  by_cases heq : u = t
  · subst heq
    rw [Function.update_self] at h
    exact Or.inl ⟨rfl, h⟩
  · rw [Function.update_of_ne heq] at h
    exact Or.inr ⟨heq, h⟩

/-- A thread goes on without the lock. -/
theorem GrantStep.goto {d : DevState} {th : Thread}
    (hlock : d.lockState = .locked → s.dev.lockState = .locked)
    (hgranted : d.granted = s.dev.granted) (hobtained : d.obtained = s.dev.obtained)
    (hth : ¬ th.hasLock) : GrantStep s ((s.put d).goto t th) := by
  refine .frame hlock hgranted hobtained fun u hu => ?_
  rcases DevSys.hasLock_goto hu with ⟨-, hu⟩ | ⟨-, hu⟩
  · exact absurd hu hth
  · exact hu

/-- A thread goes on without the lock, and nobody has it. -/
theorem GrantStep.goto_revoke {d : DevState} {th : Thread} (hlock : d.lockState ≠ .locked)
    (hnobody : ∀ u, ¬ (s.thread u).hasLock) (hth : ¬ th.hasLock) :
    GrantStep s ((s.put d).goto t th) := by
  refine .revoke hlock fun u hu => ?_
  rcases DevSys.hasLock_goto hu with ⟨-, hu⟩ | ⟨-, hu⟩
  · exact absurd hu hth
  · exact hnobody u hu

/-- A reopen may give up `LOCKED`, and takes the lock away when it closes the backend. -/
theorem DevState.reopenStep_grant {d d' : DevState} {a : ReopenArgs} {ret : ℤ} {pc : ReopenPc}
    {n : Next ReopenPc ℤ} (hpc : pc ≠ .close) (h : ReopenStep d t a ret pc d' n) :
    (d'.lockState = .locked → d.lockState = .locked) ∧ d'.granted = d.granted ∧
      d'.obtained = d.obtained := by
  cases h with
  | close => exact absurd rfl hpc
  | dropLock => exact ⟨fun hlock => absurd hlock (by simp), rfl, rfl⟩
  | _ => exact ⟨id, rfl, rfl⟩

/-- A wait in which nothing fails succeeds. -/
theorem DevState.aioWait_done {d d' : DevState} {pc : WaitPc} {ret : ℤ}
    (h : d.aioWaitForEmptyQueue t 0 pc = (d', .done ret)) : ret = 0 := by
  cases pc with
  | idle => exact absurd (Prod.mk.inj h).2 (by simp)
  | entered =>
    rw [DevState.aioWaitForEmptyQueue] at h
    split at h
    · exact (Next.done.inj (Prod.mk.inj h).2).symm
    · exact absurd (Prod.mk.inj h).2 (by simp)
  | blocked b => exact (Next.done.inj (Prod.mk.inj h).2).symm

theorem Thread.not_hasLock_done {isSync : Bool} {sts : TcmuSts} (h : sts ≠ .ok) :
    ¬ (Thread.acquire isSync (.done sts)).hasLock := by
  cases sts with
  | ok => exact absurd rfl h
  | _ => simp [Thread.hasLock]

theorem Thread.hasLock_signalEmpty (th : Thread) : th.signalEmpty.hasLock = th.hasLock := by
  cases th with
  | acquire b pc => cases pc <;> rfl
  | _ => rfl

theorem Thread.hasLock_signalLock (th : Thread) : th.signalLock.hasLock = th.hasLock := by
  cases th with
  | reopen a pc => cases pc <;> rfl
  | stop pc => cases pc <;> rfl
  | _ => rfl

theorem DevSys.hasLock_wakeLock {woken : List ℕ} {u : ℕ}
    (h : ((s.wakeLock woken).thread u).hasLock) : (s.thread u).hasLock := by
  change (if u ∈ woken then (s.thread u).signalLock else s.thread u).hasLock at h
  split at h
  · rwa [Thread.hasLock_signalLock] at h
  · exact h

/-- A reopen takes the lock away when it closes the backend, and at no other step. -/
theorem GrantStep.reopen {d : DevState} {a : ReopenArgs} {ret : ℤ} {pc : ReopenPc}
    {n : Next ReopenPc ℤ} {th : Thread} (hth : ¬ th.hasLock)
    (hshuts : pc = .close → s.dev.lockState ≠ .locked ∧ ∀ u, ¬ (s.thread u).hasLock)
    (h : ReopenStep s.dev t a ret pc d n) : GrantStep s ((s.put d).goto t th) := by
  by_cases hpc : pc = .close
  · obtain ⟨hlock, hnobody⟩ := hshuts hpc
    subst hpc
    cases h with
    | close => exact .goto_revoke hlock hnobody hth
  · obtain ⟨hlock, hgranted, hobtained⟩ := DevState.reopenStep_grant hpc h
    exact .goto hlock hgranted hobtained hth

/-- What an acquisition does to the lock, if its wait for the commands does not fail. -/
theorem DevSys.acquireStep_grant {isSync : Bool} {ret : ℤ} {sts : TcmuSts} {woken : List ℕ}
    {pc : AcquirePc} (ht : s.thread t = .acquire isSync pc)
    (hflushes : (s.thread t).flushes → ret = 0)
    (hshuts : (s.thread t).shuts → s.dev.lockState ≠ .locked ∧ ∀ u, ¬ (s.thread u).hasLock)
    (h : AcquireStep s t isSync ret sts woken pc s') : GrantStep s s' := by
  rw [ht] at hflushes hshuts
  cases h with
  | wait | waited | enter => exact .goto id rfl rfl (by simp [Thread.hasLock])
  | unflushed hret hwait =>
    obtain rfl := hflushes rfl
    exact absurd (DevState.aioWait_done hwait) hret
  | lock | busy => exact .goto (d := s.dev) id rfl rfl (by simp [Thread.hasLock])
  | locked =>
    refine .get t rfl rfl rfl fun u hu hhas => ?_
    rcases DevSys.hasLock_goto hhas with ⟨heq, -⟩ | ⟨-, hhas⟩
    · exact absurd heq hu
    · exact hhas
  | unlocked hpc =>
    refine .goto (d := s.dev) id rfl rfl ?_
    rcases hpc with rfl | ⟨fenced, rfl⟩ | ⟨sts', hsts, rfl⟩
    · simp [Thread.hasLock]
    · simp [Thread.hasLock]
    · exact Thread.not_hasLock_done hsts
  | reopen h => exact .reopen (by simp [Thread.hasLock]) (fun hpc => hshuts (by rw [hpc]; rfl)) h
  | reopened h hpc =>
    refine .reopen ?_ (fun hpc => hshuts (by rw [hpc]; rfl)) h
    rcases hpc with rfl | rfl
    · simp [Thread.hasLock]
    · simp [Thread.hasLock]
  | noticed hsts =>
    exact .goto (d := s.dev) id rfl rfl (Thread.not_hasLock_done hsts)
  | connLost hsts =>
    refine .frame id rfl rfl fun u hu => ?_
    rcases DevSys.hasLock_goto hu with ⟨-, hhas⟩ | ⟨-, hhas⟩
    · exact absurd hhas (Thread.not_hasLock_done hsts)
    · rcases DevSys.hasLock_goto hhas with ⟨-, hhas⟩ | ⟨-, hhas⟩
      · exact absurd hhas (by simp [Thread.hasLock])
      · exact hhas
  | done sts' =>
    have hself : ((((s.put (s.dev.acquireDone t sts')).wakeLock woken).goto t .idle).thread t)
        = .idle := Function.update_self ..
    refine .store t (fun hlock => ?_) rfl rfl (by rw [hself]; simp [Thread.hasLock])
      fun u hu => ?_
    · have hok : sts' = .ok := by
        by_contra hne
        change (if sts' = .ok then LockState.locked else .unlocked) = .locked at hlock
        rw [if_neg hne] at hlock
        exact absurd hlock (by simp)
      rw [ht, hok]
      rfl
    · rcases DevSys.hasLock_goto hu with ⟨-, hhas⟩ | ⟨-, hhas⟩
      · exact absurd hhas (by simp [Thread.hasLock])
      · exact DevSys.hasLock_wakeLock hhas

/-- A release takes the lock away when it stores that. -/
theorem GrantStep.release {d : DevState} {pc : ReleasePc} {n : Next ReleasePc Unit} {th : Thread}
    (hth : ¬ th.hasLock) (hreleases : pc = .store → ∀ u, ¬ (s.thread u).hasLock)
    (h : s.dev.releaseStep pc = (d, n)) : GrantStep s ((s.put d).goto t th) := by
  cases pc with
  | look | unlock =>
    obtain ⟨rfl, -⟩ := Prod.mk.inj h
    exact .goto id rfl rfl hth
  | store =>
    obtain ⟨rfl, -⟩ := Prod.mk.inj h
    exact .goto_revoke (by simp) (hreleases rfl) hth

/-- A stop releases the lock, and closes the backend. -/
theorem GrantStep.stop {d : DevState} {pc : StopPc} {n : Next StopPc Unit} {th : Thread}
    (hth : ¬ th.hasLock) (hreleases : pc = .release .store → ∀ u, ¬ (s.thread u).hasLock)
    (hshuts : pc = .close → s.dev.lockState ≠ .locked ∧ ∀ u, ¬ (s.thread u).hasLock)
    (h : s.dev.stopStep pc = (d, n)) : GrantStep s ((s.put d).goto t th) := by
  cases pc with
  | enter | cancel pc | take =>
    rw [DevState.stopStep] at h
    split at h
    · obtain ⟨rfl, -⟩ := Prod.mk.inj h
      exact .goto id rfl rfl hth
    · obtain ⟨rfl, -⟩ := Prod.mk.inj h
      exact .goto id rfl rfl hth
  | recovery | finish =>
    obtain ⟨rfl, -⟩ := Prod.mk.inj h
    exact .goto id rfl rfl hth
  | release pc =>
    rw [DevState.stopStep] at h
    split at h
    · rename_i hrelease
      obtain ⟨rfl, -⟩ := Prod.mk.inj h
      exact .release hth (fun hpc => hreleases (by rw [hpc])) hrelease
    · rename_i hrelease
      obtain ⟨rfl, -⟩ := Prod.mk.inj h
      exact .release hth (fun hpc => hreleases (by rw [hpc])) hrelease
  | close =>
    obtain ⟨hlock, hnobody⟩ := hshuts rfl
    obtain ⟨rfl, -⟩ := Prod.mk.inj h
    exact .goto_revoke hlock hnobody hth

theorem DevSys.threadStep_grant {ret : ℤ} {sts : TcmuSts} {added : Option ℕ} {woken : List ℕ}
    (he : (DevEvent.step t ret sts added woken).Spares s)
    (h : s.threadStep t ret sts added woken = some s') : GrantStep s s' := by
  obtain ⟨hflushes, hreleases, hshuts⟩ := he
  rw [DevSys.threadStep] at h
  split at h
  · exact absurd h (by simp)
  · rename_i a pc ht
    rw [ht] at hshuts
    split at h
    · rename_i hreopen
      obtain rfl := Option.some.inj h
      exact .reopen (by simp [Thread.hasLock]) (fun hpc => hshuts (by rw [hpc]; rfl))
        (DevState.reopenStep_cases hreopen)
    · rename_i hreopen
      obtain rfl := Option.some.inj h
      exact .reopen (by simp [Thread.hasLock]) (fun hpc => hshuts (by rw [hpc]; rfl))
        (DevState.reopenStep_cases hreopen)
  · rename_i isSync pc ht
    exact s.acquireStep_grant ht hflushes hshuts (DevSys.acquireStep_cases h)
  · rename_i pc ht
    rw [ht] at hreleases
    split at h
    · rename_i hrelease
      obtain rfl := Option.some.inj h
      exact .release (by simp [Thread.hasLock]) (fun hpc => hreleases (by rw [hpc]; rfl)) hrelease
    · rename_i hrelease
      obtain rfl := Option.some.inj h
      exact .release (by simp [Thread.hasLock]) (fun hpc => hreleases (by rw [hpc]; rfl)) hrelease
  · rename_i pc ht
    rw [ht] at hreleases hshuts
    split at h
    · rename_i hstop
      obtain rfl := Option.some.inj h
      exact .stop (by simp [Thread.hasLock]) (fun hpc => hreleases (by rw [hpc]; rfl))
        (fun hpc => hshuts (by rw [hpc]; rfl)) hstop
    · rename_i hstop
      obtain rfl := Option.some.inj h
      exact .stop (by simp [Thread.hasLock]) (fun hpc => hreleases (by rw [hpc]; rfl))
        (fun hpc => hshuts (by rw [hpc]; rfl)) hstop

theorem DevSys.untrack_grant {asks : Bool} (h : s.untrack asks = some s') : GrantStep s s' := by
  obtain ⟨f, -, ⟨-, rfl⟩ | ⟨w, -, rfl⟩⟩ := DevSys.untrack_cases h
  · exact .frame id rfl rfl fun _ => id
  · refine .frame id rfl rfl fun u hu => ?_
    rcases DevSys.hasLock_goto hu with ⟨rfl, hhas⟩ | ⟨-, hhas⟩
    · rwa [Thread.hasLock_signalEmpty] at hhas
    · exact hhas

end Grant

/-- What the steps of a device do to the lock. -/
theorem devSys_grant {f : Failover} {s s' : DevSys} {e : DevEvent} (he : e.Spares s)
    (h : s.step f e = some s') : GrantStep s s' := by
  cases e with
  | start | checkRecovery | unsupported | callout | called =>
    obtain ⟨-, hs⟩ := Option.ite_none_right_eq_some.mp h
    obtain rfl := Option.some.inj hs
    exact .frame id rfl rfl fun _ => id
  | checkState created =>
    obtain ⟨-, hs⟩ := Option.ite_none_right_eq_some.mp h
    rcases DevSys.checkState_eq_some hs with ⟨c, -, rfl⟩ | ⟨t, -, -, -, rfl⟩
    · exact .frame id rfl rfl fun _ => id
    · refine .frame (fun hlock => absurd hlock ?_) rfl rfl fun u hu => ?_
      · change LockState.locking ≠ .locked
        simp
      · rcases DevSys.hasLock_goto hu with ⟨-, hhas⟩ | ⟨-, hhas⟩
        · exact absurd hhas (by simp [Thread.hasLock])
        · exact hhas
  | finish cmd asks =>
    obtain ⟨-, hs⟩ := DevSys.finish_eq_some h
    cases DevSys.untrack_grant hs with
    | frame hlock hgranted hobtained hhas => exact .frame hlock hgranted hobtained hhas
    | revoke hlock hhas => exact .revoke hlock hhas
    | get t hlock hgranted hobtained hhas => exact .get t hlock hgranted hobtained hhas
    | store t hlock hgranted hobtained hself hhas =>
      exact .store t hlock hgranted hobtained hself hhas
  | finishAgain asks => exact DevSys.untrack_grant h
  | lockLost =>
    obtain rfl := Option.some.inj h
    by_cases hlock : s.dev.lockState = .locking
    · rw [DevState.tcmuNotifyLockLost, if_pos hlock]
      exact .frame id rfl rfl fun _ => id
    · rw [DevState.tcmuNotifyLockLost, if_neg hlock]
      exact .revoke (by simp [DevSys.put]) (he hlock)
  | connLost added =>
    rcases DevSys.connLost_cases h with rfl | ⟨r, -, hidle, -, rfl⟩
    · exact .frame id rfl rfl fun _ => id
    · exact .goto id rfl rfl (by simp [Thread.hasLock])
  | reopenDev t retries =>
    obtain ⟨hidle, hs⟩ := Option.ite_none_right_eq_some.mp h
    split at hs
    · obtain rfl := Option.some.inj hs
      exact .frame id rfl rfl fun _ => id
    · obtain rfl := Option.some.inj hs
      exact .goto id rfl rfl (by simp [Thread.hasLock])
  | acquire | release | stop =>
    obtain ⟨-, hs⟩ := Option.ite_none_right_eq_some.mp h
    obtain rfl := Option.some.inj hs
    exact .goto (d := s.dev) id rfl rfl (by simp [Thread.hasLock])
  | syncDrop =>
    obtain ⟨-, hs⟩ := Option.ite_none_right_eq_some.mp h
    obtain rfl := Option.some.inj hs
    by_cases hlock : s.dev.lockState = .locked
    · rw [DevState.aluaSyncDrop, if_pos hlock]
      exact .revoke (by simp [DevSys.put]) (he hlock)
    · rw [DevState.aluaSyncDrop, if_neg hlock]
      exact .frame id rfl rfl fun _ => id
  | removed =>
    obtain rfl := Option.some.inj h
    exact .frame id rfl rfl fun _ => id
  | step t ret sts added woken => exact s.threadStep_grant he h

/-- **The lock state does not lie**, in the runs in which nothing gets in the way of an acquisition:
the state is `LOCKED` only if the last acquisition to finish has got `TCMU_STS_OK` from the handler,
and the lock has not been released, lost or dropped, and the backend not been closed, since. -/
theorem locked_granted {f : Failover} {es : List DevEvent} {s : DevSys}
    (hspares : Meets (DevSys.step f) (fun s e => e.Spares s) (DevSys.added DevState.fresh) es)
    (hrun : run (DevSys.step f) (DevSys.added DevState.fresh) es = some s)
    (hlocked : s.dev.lockState = .locked) : s.dev.granted = true := by
  have hkeep : ∀ (u : DevSys) (e : DevEvent) (v : DevSys), e.Spares u → u.GrantInv →
      u.step f e = some v → v.GrantInv := fun u e v he hu hstep => (devSys_grant he hstep).inv hu
  have hinit : (DevSys.added DevState.fresh).GrantInv := by
    refine ⟨fun hlock => absurd hlock (by simp [DevSys.added, DevState.fresh]), fun t ht => ?_⟩
    exact absurd ht (by simp [DevSys.added, Thread.hasLock])
  exact (run_invariant_meets hkeep hspares hinit hrun).granted hlocked

/-- The command thread acquires the lock: `SET TARGET PORT GROUPS`. -/
def stpgAcquire : List DevEvent :=
  [.acquire, .step 0 0 .ok none [], .step 0 0 .ok none [], .step 0 0 .ok none [],
    .step 0 0 .ok none []]

theorem locked_granted_stpg :
    ∃ s, run (DevSys.step ⟨true, .explicit⟩) (DevSys.added DevState.fresh)
        (stpgAcquire ++ [.step 0 0 .ok none []]) = some s ∧
      s.dev.lockState = .locked ∧ s.dev.granted = true := by
  have hspares : Meets (DevSys.step ⟨true, .explicit⟩) (fun s e => e.Spares s)
      (DevSys.added DevState.fresh) (stpgAcquire ++ [.step 0 0 .ok none []]) := by
    refine ⟨trivial, fun _ h => ?_⟩
    obtain rfl := Option.some.inj h
    refine ⟨⟨fun _ => rfl, fun h => absurd h (by decide), fun h => absurd h (by decide)⟩,
      fun _ h => ?_⟩
    obtain rfl := Option.some.inj h
    refine ⟨⟨fun _ => rfl, fun h => absurd h (by decide), fun h => absurd h (by decide)⟩,
      fun _ h => ?_⟩
    obtain rfl := Option.some.inj h
    refine ⟨⟨fun _ => rfl, fun h => absurd h (by decide), fun h => absurd h (by decide)⟩,
      fun _ h => ?_⟩
    obtain rfl := Option.some.inj h
    refine ⟨⟨fun _ => rfl, fun h => absurd h (by decide), fun h => absurd h (by decide)⟩,
      fun _ h => ?_⟩
    obtain rfl := Option.some.inj h
    exact ⟨⟨fun _ => rfl, fun h => absurd h (by decide), fun h => absurd h (by decide)⟩,
      fun _ _ => trivial⟩
  exact ⟨_, rfl, rfl, locked_granted hspares rfl rfl⟩

/-- A command starts an acquisition, and `pthread_cond_init` fails with `ENOMEM` in its wait for the
commands. -/
def unflushedAcquire : List DevEvent :=
  [.start, .checkRecovery, .checkState (some 1), .finish (.refused .transition) false,
    .step 1 12 .ok none [], .step 1 0 .ok none []]

/-- The lock state lies: it is `LOCKED` though `lock` has never been called, or though the handler
has told that the lock was lost after `lock` had returned. -/
theorem lock_state_lies :
    (∃ s, run (DevSys.step ⟨true, .implicit⟩) (DevSys.added DevState.fresh) unflushedAcquire
        = some s ∧ s.dev.lockState = .locked ∧ s.dev.granted = false) ∧
      ∃ s, run (DevSys.step ⟨true, .explicit⟩) (DevSys.added DevState.fresh)
          (stpgAcquire ++ [.lockLost, .step 0 0 .ok none []]) = some s ∧
        s.dev.lockState = .locked ∧ s.dev.granted = false :=
  ⟨⟨_, rfl, rfl, rfl⟩, ⟨_, rfl, rfl, rfl⟩⟩

end Tcmu

end LioProject
