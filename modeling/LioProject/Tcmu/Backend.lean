import LioProject.Tcmu.DevSys

/-!
# Opening and closing the backend

`rhandler->open` and `rhandler->close` have to be called in turn. They are called by
`__tcmu_reopen_dev`, in whatever thread, and by `tcmur_stop_device`, and these only know of each
other through the flags of the device: `IN_RECOVERY` keeps two reopens apart, `STOPPING` turns
reopens away that have not closed anything yet, and `IS_OPEN` says whether there is something to
close.

`Gate` is the protocol between them, with nothing left but the flags, the calls and the role that
each thread plays. It keeps its invariant (`GateStep.inv`), provided that a reopen closes what is
open: `__tcmu_reopen_dev` does not look at `IS_OPEN` before it closes, and a reopen that has given
up leaves the backend closed. `devSys_gate` says that the threads of a device keep to the protocol.
-/

namespace LioProject

namespace Tcmu

/-! ### Calls -/

/-- The last call was an `open` that worked. -/
def IsOpened (calls : List HandlerCall) : Prop := calls.head? = some (.opened 0)

instance (calls : List HandlerCall) : Decidable (IsOpened calls) :=
  inferInstanceAs (Decidable (calls.head? = some (.opened 0)))

/-- The backend is closed only when it is open, and opened only when it is not. The last call comes
first. -/
def Alternate : List HandlerCall → Prop
  | [] => True
  | .closed :: calls => IsOpened calls ∧ Alternate calls
  | .opened _ :: calls => ¬ IsOpened calls ∧ Alternate calls

@[simp] theorem isOpened_closed (calls : List HandlerCall) : ¬ IsOpened (.closed :: calls) := by
  simp [IsOpened]

@[simp] theorem isOpened_opened (ret : ℤ) (calls : List HandlerCall) :
    IsOpened (.opened ret :: calls) ↔ ret = 0 := by
  simp [IsOpened]

/-! ### The protocol -/

/-- The part that a thread plays. -/
inductive Role where
  /-- None. -/
  | none
  /-- In a reopen, before it has looked at `STOPPING`. -/
  | waiting
  /-- In a reopen, after that. -/
  | passed
  /-- In a reopen that has closed the backend, and has not said so. -/
  | closed
  /-- In a reopen that is about to open the backend. -/
  | opening
  /-- In a reopen that has tried to open the backend, and has not said so. -/
  | opened (ret : ℤ)
  /-- In a stop that waits for the others. -/
  | halting
  /-- In a stop that has seen that there is no recovery. -/
  | settled
  /-- In a stop that is going to close the backend. -/
  | holding
  deriving DecidableEq, Repr

/-- The role of a thread in `__tcmu_reopen_dev`. -/
def ReopenPc.role : ReopenPc → Role
  | .wait _ | .check _ => .waiting
  | .cancel _ | .dropLock | .close => .passed
  | .closed => .closed
  | .tryOpen _ => .opening
  | .opened _ ret => .opened ret

/-- The role of a thread in `tcmur_stop_device`. -/
def StopPc.role : StopPc → Role
  | .enter | .finish => .none
  | .cancel _ | .recovery => .halting
  | .take => .settled
  | .release _ | .close => .holding

/-- The role of a thread. -/
def Thread.role : Thread → Role
  | .reopen _ pc => pc.role
  | .acquire _ (.reopen _ pc) => pc.role
  | .stop pc => pc.role
  | _ => .none

/-- The thread is in a reopen. -/
def Role.recovers : Role → Bool
  | .waiting | .passed | .closed | .opening | .opened _ => true
  | _ => false

/-- The thread is in a reopen that has not been turned away. -/
def Role.through : Role → Bool
  | .passed | .closed | .opening | .opened _ => true
  | _ => false

/-- The thread has closed the backend, or is going to. -/
def Role.touches : Role → Bool
  | .closed | .opening | .opened _ | .holding => true
  | _ => false

/-- The thread is in a stop that the others have made way for. -/
def Role.ends : Role → Bool
  | .settled | .holding => true
  | _ => false

/-- The thread is in a stop that has been announced. -/
def Role.halts : Role → Bool
  | .halting | .settled | .holding => true
  | _ => false

/-- What the role of a thread says about `IS_OPEN` and the calls so far. -/
def Role.Fits (isOpen : Bool) (calls : List HandlerCall) : Role → Prop
  | .closed => ¬ IsOpened calls
  | .opening => isOpen = false ∧ ¬ IsOpened calls
  | .opened ret => isOpen = false ∧ (IsOpened calls ↔ ret = 0)
  | .holding => isOpen = false ∧ IsOpened calls
  | _ => isOpen = true ↔ IsOpened calls

/-- What the threads that open and close the backend know of each other. -/
structure Gate where
  /-- `IN_RECOVERY`. -/
  inRecovery : Bool
  /-- `IS_OPEN`. -/
  isOpen : Bool
  /-- `STOPPING`. -/
  stopping : Bool
  /-- The calls so far. -/
  calls : List HandlerCall
  /-- The roles of the threads. -/
  role : ℕ → Role

/-- The steps of the protocol. -/
inductive GateStep (g : Gate) : Gate → Prop
  /-- Nothing happens. -/
  | same : GateStep g g
  /-- The device is being removed. -/
  | remove : GateStep g { g with stopping := true }
  /-- A reopen begins, if there is none. -/
  | enter (t : ℕ) (ht : g.role t = .none) (hnone : g.inRecovery = false) :
      GateStep g { g with inRecovery := true, role := Function.update g.role t .waiting }
  /-- A reopen is turned away. -/
  | abandon (t : ℕ) (ht : g.role t = .waiting) :
      GateStep g { g with inRecovery := false, role := Function.update g.role t .none }
  /-- A reopen is not turned away. -/
  | pass (t : ℕ) (ht : g.role t = .waiting) (hstop : g.stopping = false) :
      GateStep g { g with role := Function.update g.role t .passed }
  /-- A reopen closes the backend, which is open. -/
  | close (t : ℕ) (ht : g.role t = .passed) (hopen : g.isOpen = true) :
      GateStep g { g with calls := .closed :: g.calls, role := Function.update g.role t .closed }
  /-- A reopen has closed the backend, and is going to open it. -/
  | begin (t : ℕ) (ht : g.role t = .closed) :
      GateStep g { g with isOpen := false, role := Function.update g.role t .opening }
  /-- A reopen has closed the backend, and leaves it so. -/
  | giveUp (t : ℕ) (ht : g.role t = .closed) :
      GateStep g { g with isOpen := false, inRecovery := false
                          role := Function.update g.role t .none }
  /-- A reopen calls `open`. -/
  | attempt (t : ℕ) (ret : ℤ) (ht : g.role t = .opening) :
      GateStep g { g with calls := .opened ret :: g.calls
                          role := Function.update g.role t (.opened ret) }
  /-- The backend has not been opened, and the reopen tries again. -/
  | retry (t : ℕ) (ret : ℤ) (ht : g.role t = .opened ret) (hret : ret ≠ 0) :
      GateStep g { g with role := Function.update g.role t .opening }
  /-- The reopen is finished. -/
  | finish (t : ℕ) (ret : ℤ) (ht : g.role t = .opened ret) :
      GateStep g { g with isOpen := if ret = 0 then true else g.isOpen, inRecovery := false
                          role := Function.update g.role t .none }
  /-- A stop begins. -/
  | halt (t : ℕ) (ht : g.role t = .none) :
      GateStep g { g with stopping := true, role := Function.update g.role t .halting }
  /-- A stop sees that there is no reopen. -/
  | settle (t : ℕ) (ht : g.role t = .halting) (hnone : g.inRecovery = false) :
      GateStep g { g with role := Function.update g.role t .settled }
  /-- A stop is going to close the backend. -/
  | take (t : ℕ) (ht : g.role t = .settled) (hopen : g.isOpen = true) :
      GateStep g { g with isOpen := false, role := Function.update g.role t .holding }
  /-- There is nothing to close. -/
  | skip (t : ℕ) (ht : g.role t = .settled) :
      GateStep g { g with role := Function.update g.role t .none }
  /-- A stop closes the backend. -/
  | shut (t : ℕ) (ht : g.role t = .holding) :
      GateStep g { g with calls := .closed :: g.calls, role := Function.update g.role t .none }

/-- What the protocol keeps. -/
structure Gate.Inv (g : Gate) : Prop where
  /-- One thread at most is in a reopen. -/
  unique : ∀ t u, (g.role t).recovers → (g.role u).recovers → t = u
  /-- A reopen is announced. -/
  recovery : ∀ t, (g.role t).recovers → g.inRecovery = true
  /-- A stop is announced. -/
  stopping : ∀ t, (g.role t).halts → g.stopping = true
  /-- A reopen that has not been turned away and a stop that has been made way for exclude each
  other. -/
  apart : ∀ t u, (g.role t).ends → ¬ (g.role u).through
  /-- One thread at most is at the backend, and it knows what the others do not. -/
  mode : ∃ t, (∀ u, u ≠ t → ¬ (g.role u).touches) ∧ (g.role t).Fits g.isOpen g.calls
  /-- The calls alternate. -/
  alternate : Alternate g.calls

attribute [local grind =] Function.update_apply
attribute [local grind] Role.recovers Role.through Role.ends Role.halts

section Step

variable {g g' : Gate}

theorem GateStep.unique (hstep : GateStep g g') (h : g.Inv) :
    ∀ t u, (g'.role t).recovers → (g'.role u).recovers → t = u := by
  have hunique := h.unique
  have hrecovery := h.recovery
  cases hstep <;> grind

theorem GateStep.recovery (hstep : GateStep g g') (h : g.Inv) :
    ∀ t, (g'.role t).recovers → g'.inRecovery = true := by
  have hunique := h.unique
  have hrecovery := h.recovery
  cases hstep <;> grind

theorem GateStep.stopping (hstep : GateStep g g') (h : g.Inv) :
    ∀ t, (g'.role t).halts → g'.stopping = true := by
  have hstopping := h.stopping
  cases hstep <;> grind

theorem Role.recovers_of_through {r : Role} (h : r.through) : r.recovers := by
  cases r <;> simp_all [Role.through, Role.recovers]

theorem Role.halts_of_ends {r : Role} (h : r.ends) : r.halts := by
  cases r <;> simp_all [Role.ends, Role.halts]

/-- A reopen only gets through before a stop is announced, and a stop only goes on while there is no
reopen. -/
theorem GateStep.apart (hstep : GateStep g g') (h : g.Inv) :
    ∀ t u, (g'.role t).ends → ¬ (g'.role u).through := by
  have hthrough : ∀ t, (g.role t).through → g.inRecovery = true := fun t ht =>
    h.recovery t (Role.recovers_of_through ht)
  have hends : ∀ t, (g.role t).ends → g.stopping = true := fun t ht =>
    h.stopping t (Role.halts_of_ends ht)
  have hapart := h.apart
  cases hstep <;> grind

/-- Nobody is at the backend. -/
def Gate.Free (g : Gate) : Prop := ∀ u, ¬ (g.role u).touches

theorem Role.fits_of_not_touches {r : Role} {isOpen : Bool} {calls : List HandlerCall}
    (h : ¬ r.touches) : r.Fits isOpen calls ↔ (isOpen = true ↔ IsOpened calls) := by
  cases r <;> simp_all [Role.touches, Role.Fits]

/-- A thread at the backend is the only one there. -/
theorem Gate.Inv.fits {t : ℕ} (h : g.Inv) (ht : (g.role t).touches) :
    (∀ u, u ≠ t → ¬ (g.role u).touches) ∧ (g.role t).Fits g.isOpen g.calls := by
  obtain ⟨v, hothers, hfits⟩ := h.mode
  have heq : t = v := by
    by_contra hne
    exact hothers t hne ht
  subst heq
  exact ⟨hothers, hfits⟩

/-- With nobody at the backend `IS_OPEN` is right. -/
theorem Gate.Inv.isOpen_iff (h : g.Inv) (hfree : g.Free) :
    g.isOpen = true ↔ IsOpened g.calls := by
  obtain ⟨v, -, hfits⟩ := h.mode
  exact (Role.fits_of_not_touches (hfree v)).mp hfits

/-- A thread takes a role that fits, with nobody else at the backend. -/
theorem mode_update {role : ℕ → Role} {t : ℕ} {r : Role} {isOpen : Bool}
    {calls : List HandlerCall} (hothers : ∀ u, u ≠ t → ¬ (role u).touches)
    (hfits : r.Fits isOpen calls) :
    ∃ v, (∀ u, u ≠ v → ¬ (Function.update role t r u).touches) ∧
      (Function.update role t r v).Fits isOpen calls := by
  refine ⟨t, fun u hu => ?_, ?_⟩
  · rw [Function.update_of_ne hu]
    exact hothers u hu
  · rwa [Function.update_self]

/-- A thread changes its role, and neither was nor is at the backend. -/
theorem Gate.Inv.mode_frame {t : ℕ} {r : Role} (h : g.Inv) (ht : ¬ (g.role t).touches)
    (hr : ¬ r.touches) :
    ∃ v, (∀ u, u ≠ v → ¬ (Function.update g.role t r u).touches) ∧
      (Function.update g.role t r v).Fits g.isOpen g.calls := by
  obtain ⟨v, hothers, hfits⟩ := h.mode
  refine ⟨v, fun u hu => ?_, ?_⟩
  · by_cases heq : u = t
    · subst heq
      rwa [Function.update_self]
    · rw [Function.update_of_ne heq]
      exact hothers u hu
  · by_cases heq : v = t
    · subst heq
      rw [Function.update_self, Role.fits_of_not_touches hr]
      exact (Role.fits_of_not_touches ht).mp hfits
    · rwa [Function.update_of_ne heq]

/-- While a reopen is through and has not closed the backend, nobody is there. -/
theorem Gate.Inv.free_of_passed {t : ℕ} (h : g.Inv) (ht : g.role t = .passed) : g.Free := by
  intro u hu
  cases hrole : g.role u with
  | holding =>
    exact h.apart u t (by rw [hrole]; rfl) (by rw [ht]; rfl)
  | closed | opening | opened =>
    have heq := h.unique t u (by rw [ht]; rfl) (by rw [hrole]; rfl)
    subst heq
    simp [hrole] at ht
  | none | waiting | passed | halting | settled => simp [hrole, Role.touches] at hu

/-- While a stop has been made way for and `IS_OPEN` is set, nobody is at the backend. -/
theorem Gate.Inv.free_of_settled {t : ℕ} (h : g.Inv) (ht : g.role t = .settled)
    (hopen : g.isOpen = true) : g.Free := by
  intro u hu
  cases hrole : g.role u with
  | holding =>
    have hfits := (h.fits hu).2
    rw [hrole] at hfits
    simp [hfits.1] at hopen
  | closed | opening | opened =>
    exact h.apart t u (by rw [ht]; rfl) (by rw [hrole]; rfl)
  | none | waiting | passed | halting | settled => simp [hrole, Role.touches] at hu

theorem GateStep.mode (hstep : GateStep g g') (h : g.Inv) :
    ∃ t, (∀ u, u ≠ t → ¬ (g'.role u).touches) ∧ (g'.role t).Fits g'.isOpen g'.calls := by
  cases hstep with
  | same => exact h.mode
  | remove => exact h.mode
  | enter t ht => exact h.mode_frame (by simp [ht, Role.touches]) (by simp [Role.touches])
  | abandon t ht => exact h.mode_frame (by simp [ht, Role.touches]) (by simp [Role.touches])
  | pass t ht => exact h.mode_frame (by simp [ht, Role.touches]) (by simp [Role.touches])
  | halt t ht => exact h.mode_frame (by simp [ht, Role.touches]) (by simp [Role.touches])
  | settle t ht => exact h.mode_frame (by simp [ht, Role.touches]) (by simp [Role.touches])
  | skip t ht => exact h.mode_frame (by simp [ht, Role.touches]) (by simp [Role.touches])
  | close t ht hopen =>
    have hfree := h.free_of_passed ht
    exact mode_update (fun u _ => hfree u) (isOpened_closed _)
  | begin t ht =>
    obtain ⟨hothers, hfits⟩ := h.fits (t := t) (by rw [ht]; rfl)
    rw [ht] at hfits
    exact mode_update hothers ⟨rfl, hfits⟩
  | giveUp t ht =>
    obtain ⟨hothers, hfits⟩ := h.fits (t := t) (by rw [ht]; rfl)
    rw [ht] at hfits
    exact mode_update hothers ⟨fun hopen => absurd hopen (by simp), fun hopen => absurd hopen hfits⟩
  | attempt t ret ht =>
    obtain ⟨hothers, hfits⟩ := h.fits (t := t) (by rw [ht]; rfl)
    rw [ht] at hfits
    exact mode_update hothers ⟨hfits.1, isOpened_opened ..⟩
  | retry t ret ht hret =>
    obtain ⟨hothers, hfits⟩ := h.fits (t := t) (by rw [ht]; rfl)
    rw [ht] at hfits
    exact mode_update hothers ⟨hfits.1, fun hopen => hret (hfits.2.mp hopen)⟩
  | finish t ret ht =>
    obtain ⟨hothers, hfits⟩ := h.fits (t := t) (by rw [ht]; rfl)
    rw [ht] at hfits
    refine mode_update hothers ?_
    by_cases hret : ret = 0
    · rw [if_pos hret]
      exact ⟨fun _ => hfits.2.mpr hret, fun _ => rfl⟩
    · rw [if_neg hret, hfits.1]
      exact ⟨fun hopen => absurd hopen (by simp), fun hopen => absurd (hfits.2.mp hopen) hret⟩
  | take t ht hopen =>
    have hfree := h.free_of_settled ht hopen
    exact mode_update (fun u _ => hfree u) ⟨rfl, (h.isOpen_iff hfree).mp hopen⟩
  | shut t ht =>
    obtain ⟨hothers, hfits⟩ := h.fits (t := t) (by rw [ht]; rfl)
    rw [ht] at hfits
    refine mode_update hothers ?_
    rw [hfits.1]
    exact ⟨fun hopen => absurd hopen (by simp), fun hopen => absurd hopen (isOpened_closed _)⟩

theorem GateStep.alternate (hstep : GateStep g g') (h : g.Inv) : Alternate g'.calls := by
  cases hstep with
  | close t ht hopen =>
    have hfree := h.free_of_passed ht
    exact ⟨(h.isOpen_iff hfree).mp hopen, h.alternate⟩
  | attempt t ret ht =>
    obtain ⟨-, hfits⟩ := h.fits (t := t) (by rw [ht]; rfl)
    rw [ht] at hfits
    exact ⟨hfits.2, h.alternate⟩
  | shut t ht =>
    obtain ⟨-, hfits⟩ := h.fits (t := t) (by rw [ht]; rfl)
    rw [ht] at hfits
    exact ⟨hfits.2, h.alternate⟩
  | _ => exact h.alternate

/-- **The protocol keeps its invariant.** -/
theorem GateStep.inv (hstep : GateStep g g') (h : g.Inv) : g'.Inv :=
  ⟨hstep.unique h, hstep.recovery h, hstep.stopping h, hstep.apart h, hstep.mode h,
    hstep.alternate h⟩

end Step

/-! ### The threads of a device -/

/-- What the threads of a device know of each other. -/
def DevSys.gate (s : DevSys) : Gate :=
  ⟨s.dev.inRecovery, s.dev.isOpen, s.dev.stopping, s.dev.calls, fun t => (s.thread t).role⟩

/-- The next step of the thread is the `close` of a reopen. -/
def Thread.closes : Thread → Bool
  | .reopen _ .close => true
  | .acquire _ (.reopen _ .close) => true
  | _ => false

/-- A reopen that closes the backend finds it open. -/
def DevEvent.ClosesOpen (s : DevSys) : DevEvent → Prop
  | .step t .. => (s.thread t).closes → s.dev.isOpen = true
  | _ => True

instance (s : DevSys) (e : DevEvent) : Decidable (e.ClosesOpen s) :=
  match e with
  | .step t .. => inferInstanceAs (Decidable ((s.thread t).closes → s.dev.isOpen = true))
  | .start | .checkRecovery | .checkState _ | .unsupported | .callout .. | .called .. | .finish ..
  | .finishAgain _ | .lockLost | .connLost _ | .reopenDev .. | .acquire | .release | .syncDrop
  | .removed | .stop _ => isTrue trivial

/-- The role of a thread after a step in `__tcmu_reopen_dev`. -/
def Next.reopenRole : Next ReopenPc ℤ → Role
  | .goto pc => pc.role
  | .done _ => .none

/-- A view of a device in which a thread has taken a role. -/
def DevState.gate (d : DevState) (role : ℕ → Role) : Gate :=
  ⟨d.inRecovery, d.isOpen, d.stopping, d.calls, role⟩

theorem DevSys.gate_goto (s : DevSys) (d : DevState) (t : ℕ) (th : Thread) :
    ((s.put d).goto t th).gate = d.gate (Function.update s.gate.role t th.role) := by
  have hrole : (fun u => (Function.update s.thread t th u).role)
      = Function.update s.gate.role t th.role := by
    funext u
    by_cases heq : u = t
    · subst heq
      rw [Function.update_self, Function.update_self]
    · rw [Function.update_of_ne heq, Function.update_of_ne heq]
      rfl
  rw [DevState.gate, ← hrole]
  rfl

theorem DevSys.gate_goto_same {s : DevSys} {t : ℕ} {th : Thread}
    (h : th.role = s.gate.role t) : (s.goto t th).gate = s.gate := by
  have hgoto := s.gate_goto s.dev t th
  rw [h, Function.update_eq_self] at hgoto
  exact hgoto

theorem DevSys.gateStep_goto {s : DevSys} {t : ℕ} {th : Thread} (h : th.role = s.gate.role t) :
    GateStep s.gate (s.goto t th).gate := by
  rw [DevSys.gate_goto_same h]
  exact .same

/-- A step that changes no role, flag or call. -/
theorem DevSys.gateStep_same {s : DevSys} {d : DevState} {t : ℕ} {r : Role}
    (hrole : s.gate.role t = r) (hrec : d.inRecovery = s.dev.inRecovery)
    (hopen : d.isOpen = s.dev.isOpen) (hstop : d.stopping = s.dev.stopping)
    (hcalls : d.calls = s.dev.calls) :
    GateStep s.gate (d.gate (Function.update s.gate.role t r)) := by
  rw [← hrole, Function.update_eq_self, DevState.gate, hrec, hopen, hstop, hcalls]
  exact .same

section Simulation

variable {s : DevSys} {t : ℕ}

/-- The steps of `__tcmu_reopen_dev` are steps of the protocol. -/
theorem DevSys.reopenStep_gate {a : ReopenArgs} {ret : ℤ} {pc : ReopenPc} {d : DevState}
    {n : Next ReopenPc ℤ} (ht : s.gate.role t = pc.role)
    (hclose : pc = .close → s.dev.isOpen = true) (h : ReopenStep s.dev t a ret pc d n) :
    GateStep s.gate (d.gate (Function.update s.gate.role t n.reopenRole)) := by
  cases h with
  | wait | waited | block | free | wake | keepLock | dropLock =>
    exact s.gateStep_same ht rfl rfl rfl rfl
  | away => exact .abandon t ht
  | pass hstop | passLock hstop => exact .pass t ht hstop
  | close => exact .close t ht (hclose rfl)
  | begin => exact .begin t ht
  | giveUp => exact .giveUp t ht
  | attempt => exact .attempt t ret ht
  | retry hret => exact .retry t _ ht hret
  | finish => exact .finish t _ ht

/-- The role of a thread after a step in `tcmur_stop_device`. -/
def Next.stopRole : Next StopPc Unit → Role
  | .goto pc => pc.role
  | .done _ => .none

/-- `tcmu_release_dev_lock` only touches the lock state. -/
theorem DevState.releaseStep_fst (d : DevState) (pc : ReleasePc) :
    (d.releaseStep pc).1.gate = d.gate := by
  cases pc <;> rfl

/-- The steps of `tcmur_stop_device` are steps of the protocol. -/
theorem DevSys.stopStep_gate {pc : StopPc} {d : DevState} {n : Next StopPc Unit}
    (ht : s.gate.role t = pc.role) (h : s.dev.stopStep pc = (d, n)) :
    GateStep s.gate (d.gate (Function.update s.gate.role t n.stopRole)) := by
  cases pc with
  | enter =>
    rw [DevState.stopStep] at h
    split at h
    · obtain ⟨rfl, rfl⟩ := Prod.mk.inj h
      exact s.gateStep_same ht rfl rfl rfl rfl
    · obtain ⟨rfl, rfl⟩ := Prod.mk.inj h
      exact .halt t ht
  | cancel pc =>
    rw [DevState.stopStep] at h
    split at h
    · obtain ⟨rfl, rfl⟩ := Prod.mk.inj h
      exact s.gateStep_same ht rfl rfl rfl rfl
    · obtain ⟨rfl, rfl⟩ := Prod.mk.inj h
      exact s.gateStep_same ht rfl rfl rfl rfl
  | recovery =>
    obtain ⟨rfl, rfl⟩ := Prod.mk.inj h
    cases hrec : s.dev.inRecovery with
    | true => exact s.gateStep_same ht rfl rfl rfl rfl
    | false => exact .settle t ht hrec
  | take =>
    rw [DevState.stopStep] at h
    split at h
    · rename_i hopen
      obtain ⟨rfl, rfl⟩ := Prod.mk.inj h
      exact .take t ht hopen
    · obtain ⟨rfl, rfl⟩ := Prod.mk.inj h
      exact .skip t ht
  | release pc =>
    have hgate := s.dev.releaseStep_fst pc
    rw [DevState.stopStep] at h
    split at h
    · rename_i d' pc' hrelease
      obtain ⟨rfl, rfl⟩ := Prod.mk.inj h
      rw [hrelease] at hgate
      rw [hgate]
      exact s.gateStep_same ht rfl rfl rfl rfl
    · rename_i d' hrelease
      obtain ⟨rfl, rfl⟩ := Prod.mk.inj h
      rw [hrelease] at hgate
      rw [hgate]
      exact s.gateStep_same ht rfl rfl rfl rfl
  | close =>
    obtain ⟨rfl, rfl⟩ := Prod.mk.inj h
    exact .shut t ht
  | finish =>
    obtain ⟨rfl, rfl⟩ := Prod.mk.inj h
    exact s.gateStep_same ht rfl rfl rfl rfl

/-- Signals change no role. -/
theorem Thread.role_signalEmpty (th : Thread) : th.signalEmpty.role = th.role := by
  cases th with
  | reopen a pc => cases pc <;> rfl
  | acquire b pc =>
    cases pc with
    | reopen retries pc => cases pc <;> rfl
    | _ => rfl
  | _ => rfl

@[inherit_doc Thread.role_signalEmpty]
theorem Thread.role_signalLock (th : Thread) : th.signalLock.role = th.role := by
  cases th with
  | reopen a pc => cases pc <;> rfl
  | stop pc => cases pc <;> rfl
  | _ => rfl

theorem DevSys.gate_wakeLock (s : DevSys) (woken : List ℕ) : (s.wakeLock woken).gate = s.gate := by
  have hrole : ∀ u, ((s.wakeLock woken).thread u).role = (s.thread u).role := by
    intro u
    change (if u ∈ woken then (s.thread u).signalLock else s.thread u).role = _
    split
    · exact Thread.role_signalLock _
    · rfl
  rw [DevSys.gate, funext hrole]
  rfl

/-- A reopen begins in an idle thread. -/
theorem DevSys.gateStep_enter {r : ℕ} {a : ReopenArgs} (hrec : s.dev.inRecovery = false)
    (hidle : s.thread r = .idle) :
    GateStep s.gate ((s.put { s.dev with inRecovery := true }).goto r
      (.reopen a (.wait .idle))).gate := by
  rw [DevSys.gate_goto]
  exact .enter r (congrArg Thread.role hidle) hrec

/-- `track_aio_request_finish` changes no role. -/
theorem DevSys.untrack_gate {s' : DevSys} {asks : Bool} (h : s.untrack asks = some s') :
    s'.gate = s.gate := by
  obtain ⟨f, -, ⟨-, rfl⟩ | ⟨w, -, rfl⟩⟩ := DevSys.untrack_cases h
  · rfl
  · rw [DevSys.gate_goto, Thread.role_signalEmpty]
    exact congrArg _ (Function.update_eq_self w s.gate.role)

/-- The steps of `tcmu_acquire_dev_lock` are steps of the protocol. -/
theorem DevSys.acquireStep_gate {s' : DevSys} {isSync : Bool} {ret : ℤ} {sts : TcmuSts}
    {woken : List ℕ} {pc : AcquirePc} (ht : s.thread t = .acquire isSync pc)
    (hclose : (s.thread t).closes → s.dev.isOpen = true)
    (h : AcquireStep s t isSync ret sts woken pc s') : GateStep s.gate s'.gate := by
  have hrole : s.gate.role t = (Thread.acquire isSync pc).role := congrArg Thread.role ht
  cases h with
  | wait | waited | unflushed | locked =>
    rw [DevSys.gate_goto]
    exact s.gateStep_same hrole rfl rfl rfl rfl
  | lock | busy | noticed => exact DevSys.gateStep_goto hrole.symm
  | unlocked hpc =>
    rcases hpc with rfl | ⟨fenced, rfl⟩ | ⟨sts', -, rfl⟩
    · exact DevSys.gateStep_goto hrole.symm
    · exact DevSys.gateStep_goto hrole.symm
    · exact DevSys.gateStep_goto hrole.symm
  | enter hrec =>
    rw [DevSys.gate_goto]
    exact .enter t hrole hrec
  | reopen h =>
    rw [DevSys.gate_goto]
    exact s.reopenStep_gate hrole (fun hpc => hclose (by rw [ht, hpc]; rfl)) h
  | reopened h hpc =>
    have hdone := s.reopenStep_gate hrole (fun hpc => hclose (by rw [ht, hpc]; rfl)) h
    rw [DevSys.gate_goto]
    rcases hpc with rfl | rfl
    · exact hdone
    · exact hdone
  | connLost hsts hrec hidle =>
    rename_i r _
    have hne : t ≠ r := by
      rintro rfl
      simp [ht] at hidle
    rw [DevSys.gate_goto_same]
    · exact DevSys.gateStep_enter hrec hidle
    · change Role.none = (Function.update s.thread r _ t).role
      rw [Function.update_of_ne hne, ht]
      rfl
  | done sts' =>
    rw [DevSys.gate_goto_same, DevSys.gate_wakeLock]
    · exact .same
    · rw [DevSys.gate_wakeLock]
      exact hrole.symm

/-- The steps of a thread are steps of the protocol. -/
theorem DevSys.threadStep_gate {s' : DevSys} {ret : ℤ} {sts : TcmuSts} {added : Option ℕ}
    {woken : List ℕ} (hclose : (s.thread t).closes → s.dev.isOpen = true)
    (h : s.threadStep t ret sts added woken = some s') : GateStep s.gate s'.gate := by
  rw [DevSys.threadStep] at h
  split at h
  · exact absurd h (by simp)
  · rename_i a pc ht
    have hrole : s.gate.role t = pc.role := congrArg Thread.role ht
    have hclose' : pc = .close → s.dev.isOpen = true := by
      rintro rfl
      exact hclose (by rw [ht]; rfl)
    split at h
    · rename_i d pc' hstep
      obtain rfl := Option.some.inj h
      rw [DevSys.gate_goto]
      exact s.reopenStep_gate hrole hclose' (DevState.reopenStep_cases hstep)
    · rename_i d ret' hstep
      obtain rfl := Option.some.inj h
      rw [DevSys.gate_goto]
      exact s.reopenStep_gate hrole hclose' (DevState.reopenStep_cases hstep)
  · rename_i isSync pc ht
    exact s.acquireStep_gate ht hclose (DevSys.acquireStep_cases h)
  · rename_i pc ht
    have hrole : s.gate.role t = .none := congrArg Thread.role ht
    have hgate := s.dev.releaseStep_fst pc
    split at h
    · rename_i d pc' hstep
      obtain rfl := Option.some.inj h
      rw [hstep] at hgate
      rw [DevSys.gate_goto, hgate]
      exact s.gateStep_same hrole rfl rfl rfl rfl
    · rename_i d hstep
      obtain rfl := Option.some.inj h
      rw [hstep] at hgate
      rw [DevSys.gate_goto, hgate]
      exact s.gateStep_same hrole rfl rfl rfl rfl
  · rename_i pc ht
    have hrole : s.gate.role t = pc.role := congrArg Thread.role ht
    split at h
    · rename_i d pc' hstep
      obtain rfl := Option.some.inj h
      rw [DevSys.gate_goto]
      exact s.stopStep_gate hrole hstep
    · rename_i d hstep
      obtain rfl := Option.some.inj h
      rw [DevSys.gate_goto]
      exact s.stopStep_gate hrole hstep

theorem DevState.aluaSyncDrop_gate (d : DevState) : d.aluaSyncDrop.gate = d.gate := by
  rw [DevState.aluaSyncDrop]
  split <;> rfl

theorem DevState.tcmuNotifyLockLost_gate (d : DevState) :
    d.tcmuNotifyLockLost.gate = d.gate := by
  rw [DevState.tcmuNotifyLockLost]
  split <;> rfl

/-- The check of the lock state may start a thread, which plays no role yet. -/
theorem DevSys.checkState_gate {f : Failover} {s' : DevSys} {created : Option ℕ}
    (h : s.checkState f created = some s') : s'.gate = s.gate := by
  rcases DevSys.checkState_eq_some h with ⟨c, -, rfl⟩ | ⟨t, -, hidle, -, rfl⟩
  · rfl
  · refine (DevSys.gate_goto_same ?_).trans rfl
    change Role.none = (s.thread t).role
    rw [hidle]
    rfl

end Simulation

/-- **The threads of a device keep to the protocol**, if a reopen that closes the backend finds it
open. -/
theorem devSys_gate {f : Failover} {s s' : DevSys} {e : DevEvent} (he : e.ClosesOpen s)
    (h : s.step f e = some s') : GateStep s.gate s'.gate := by
  cases e with
  | start | checkRecovery | unsupported | callout | called =>
    obtain ⟨-, hs⟩ := Option.ite_none_right_eq_some.mp h
    obtain rfl := Option.some.inj hs
    exact .same
  | syncDrop =>
    obtain ⟨-, hs⟩ := Option.ite_none_right_eq_some.mp h
    obtain rfl := Option.some.inj hs
    rw [show (s.put s.dev.aluaSyncDrop).gate = s.gate from congrFun s.dev.aluaSyncDrop_gate _]
    exact .same
  | checkState created =>
    obtain ⟨-, hs⟩ := Option.ite_none_right_eq_some.mp h
    rw [DevSys.checkState_gate hs]
    exact .same
  | finish cmd asks =>
    obtain ⟨-, hs⟩ := DevSys.finish_eq_some h
    rw [DevSys.untrack_gate hs]
    exact .same
  | finishAgain asks =>
    rw [DevSys.untrack_gate h]
    exact .same
  | lockLost =>
    obtain rfl := Option.some.inj h
    rw [show (s.put s.dev.tcmuNotifyLockLost).gate = s.gate from
      congrFun s.dev.tcmuNotifyLockLost_gate _]
    exact .same
  | connLost added =>
    rcases DevSys.connLost_cases h with rfl | ⟨r, hrec, hidle, -, rfl⟩
    · exact .same
    · exact DevSys.gateStep_enter hrec hidle
  | reopenDev t retries =>
    obtain ⟨hidle, hs⟩ := Option.ite_none_right_eq_some.mp h
    split at hs
    · obtain rfl := Option.some.inj hs
      exact .same
    · rename_i hrec
      obtain rfl := Option.some.inj hs
      exact DevSys.gateStep_enter (Bool.eq_false_of_not_eq_true hrec) hidle
  | acquire =>
    obtain ⟨hidle, hs⟩ := Option.ite_none_right_eq_some.mp h
    obtain rfl := Option.some.inj hs
    exact DevSys.gateStep_goto (congrArg Thread.role hidle.1).symm
  | release =>
    obtain ⟨hidle, hs⟩ := Option.ite_none_right_eq_some.mp h
    obtain rfl := Option.some.inj hs
    exact DevSys.gateStep_goto (congrArg Thread.role hidle.1).symm
  | removed =>
    obtain rfl := Option.some.inj h
    exact .remove
  | stop t =>
    obtain ⟨hidle, hs⟩ := Option.ite_none_right_eq_some.mp h
    obtain rfl := Option.some.inj hs
    exact DevSys.gateStep_goto (congrArg Thread.role hidle).symm
  | step t ret sts added woken => exact s.threadStep_gate he h

theorem DevSys.gate_added_inv {openRet condRet createRet : ℤ} {d : DevState}
    (h : (devAddedOpen openRet condRet createRet).dev = some d) :
    (DevSys.added d).gate.Inv := by
  unfold devAddedOpen at h
  split at h
  · exact absurd h (by simp)
  · rename_i hopen
    obtain rfl := not_not.mp hopen
    split at h
    · exact absurd h (by simp)
    · split at h
      · exact absurd h (by simp)
      · obtain rfl := Option.some.inj h
        refine ⟨?_, ?_, ?_, ?_, ⟨0, fun u _ => by simp [DevSys.added, DevSys.gate, Thread.role,
          Role.touches], ?_⟩, ?_⟩
        · intro t u ht
          exact absurd ht (by simp [DevSys.added, DevSys.gate, Thread.role, Role.recovers])
        · intro t ht
          exact absurd ht (by simp [DevSys.added, DevSys.gate, Thread.role, Role.recovers])
        · intro t ht
          exact absurd ht (by simp [DevSys.added, DevSys.gate, Thread.role, Role.halts])
        · intro t u ht
          exact absurd ht (by simp [DevSys.added, DevSys.gate, Thread.role, Role.ends])
        · exact ⟨fun _ => rfl, fun _ => rfl⟩
        · exact ⟨by simp [IsOpened], trivial⟩

/-- `dev_added` closes what it has opened, if it has to. -/
theorem alternate_devAddedOpen (openRet condRet createRet : ℤ) :
    Alternate (devAddedOpen openRet condRet createRet).calls := by
  unfold devAddedOpen
  split
  · simp [Alternate, IsOpened]
  · rename_i hopen
    obtain rfl := not_not.mp hopen
    split
    · simp [Alternate, IsOpened]
    · split
      · simp [Alternate, IsOpened]
      · simp [Alternate, IsOpened]

/-- **Open and close alternate.** In every run of a device, from `dev_added` on, in which a reopen
that gets as far as closing the backend finds `IS_OPEN` set, the backend is closed only when it is
open and opened only when it is not; and `IS_OPEN` is right when no thread is in a reopen or about
to close the backend in a stop. -/
theorem backend_alternates {f : Failover} {openRet condRet createRet : ℤ} {d : DevState}
    {es : List DevEvent} {s : DevSys}
    (hadded : (devAddedOpen openRet condRet createRet).dev = some d)
    (hcloses : Meets (DevSys.step f) (fun s e => e.ClosesOpen s) (DevSys.added d) es)
    (hrun : run (DevSys.step f) (DevSys.added d) es = some s) :
    Alternate s.dev.calls ∧
      ((∀ t, ¬ (s.thread t).role.recovers ∧ (s.thread t).role ≠ .holding) →
        (s.dev.isOpen = true ↔ IsOpened s.dev.calls)) := by
  have hinv : s.gate.Inv := by
    have hkeep : ∀ (u : DevSys) (e : DevEvent) (v : DevSys), e.ClosesOpen u → u.gate.Inv →
        u.step f e = some v → v.gate.Inv := fun u e v he hu hstep => (devSys_gate he hstep).inv hu
    exact run_invariant_meets hkeep hcloses (DevSys.gate_added_inv hadded) hrun
  refine ⟨hinv.alternate, fun houtside => hinv.isOpen_iff fun t ht => ?_⟩
  obtain ⟨hrecovers, hholding⟩ := houtside t
  change (s.thread t).role.touches = true at ht
  cases hrole : (s.thread t).role with
  | holding => exact hholding hrole
  | closed | opening | opened => simp [hrole, Role.recovers] at hrecovers
  | none | waiting | passed | halting | settled => simp [hrole, Role.touches] at ht

/-- A reopen by the command thread, without retries, whose `open` returns `ret`. -/
def tagReopen (ret : ℤ) : List DevEvent :=
  .reopenDev 0 0 :: (List.replicate 7 (.step 0 0 .ok none []) ++
    [.step 0 ret .ok none [], .step 0 0 .ok none []])

/-- A reopen that works. -/
theorem backend_alternates_reopen :
    ∃ s, run (DevSys.step ⟨true, .explicit⟩) (DevSys.added DevState.fresh) (tagReopen 0) = some s ∧
      s.dev.calls = [.opened 0, .closed, .opened 0] ∧ Alternate s.dev.calls := by
  have hrun : (run (DevSys.step ⟨true, .explicit⟩) (DevSys.added DevState.fresh) (tagReopen 0)).map
      (fun s => s.dev.calls) = some [.opened 0, .closed, .opened 0] := by decide +kernel
  obtain ⟨s, hs, hcalls⟩ := Option.map_eq_some_iff.mp hrun
  have hadded : (devAddedOpen 0 0 0).dev = some DevState.fresh := rfl
  have hcloses : Meets (DevSys.step ⟨true, .explicit⟩) (fun s e => e.ClosesOpen s)
      (DevSys.added DevState.fresh) (tagReopen 0) := by decide +kernel
  exact ⟨s, hs, hcalls, (backend_alternates hadded hcloses hs).1⟩

/-- A reopen that does not manage to open the backend, and another reopen: the second one closes the
backend again. -/
theorem backend_closed_twice :
    ∃ s, (devAddedOpen 0 0 0).dev = some DevState.fresh ∧
      run (DevSys.step ⟨true, .explicit⟩) (DevSys.added DevState.fresh)
        (tagReopen (-1) ++ tagReopen 0) = some s ∧
      s.dev.calls = [.opened 0, .closed, .opened (-1), .closed, .opened 0] ∧
      ¬ Alternate s.dev.calls := by
  have hrun : (run (DevSys.step ⟨true, .explicit⟩) (DevSys.added DevState.fresh)
      (tagReopen (-1) ++ tagReopen 0)).map (fun s => s.dev.calls)
      = some [.opened 0, .closed, .opened (-1), .closed, .opened 0] := by decide +kernel
  obtain ⟨s, hs, hcalls⟩ := Option.map_eq_some_iff.mp hrun
  refine ⟨s, rfl, hs, hcalls, ?_⟩
  rw [hcalls]
  simp [Alternate, IsOpened]

end Tcmu

end LioProject
