import LioProject.Tcmu.LockState

/-!
# Closing the backend under nobody

Before `__tcmu_reopen_dev` calls `close` it waits until nobody is using the backend. `IN_RECOVERY`
turns new commands away and the count of commands says when the last of the old ones is gone. A
thread that acquires the lock for implicit failover is recognised by `LOCKING`, and the end of the
acquisition is waited for.

This covers the commands of the device and the lock threads (`DevSys.Drain`), whatever the order of
the steps. Two operations are covered by nothing: a callout on the device for an `EXTENDED COPY`
that is a command of another device, and the `lock` of an acquisition by the command thread, which
does not say `LOCKING`. A reopen that begins while one of them runs does not wait for it
(`closes_under_copy`); if none begins then, the backend is closed under nobody (`closes_quiet`).
-/

namespace LioProject

namespace Tcmu

/-! ### Places -/

/-- The command calls the handler only after it has been let through. -/
def Cmd.waits : Cmd → Bool
  | .started | .refused _ => true
  | _ => false

/-- The reopen has waited for the commands. -/
def ReopenPc.drained : ReopenPc → Bool
  | .wait (.blocked signalled) => signalled
  | .check ret => ret == 0
  | .cancel _ | .dropLock | .close => true
  | _ => false

/-- The reopen has waited for the lock thread. -/
def ReopenPc.past : ReopenPc → Bool
  | .cancel (.blocked signalled) => signalled
  | .dropLock | .close => true
  | _ => false

/-- The reopen does not wait for a signal that it has not got. -/
def ReopenPc.signalled : ReopenPc → Bool
  | .wait (.blocked signalled) => signalled
  | .cancel (.blocked signalled) => signalled
  | _ => true

/-- The thread is in a reopen. -/
def Thread.recovers (th : Thread) : Bool := th.role.recovers

/-- The thread is in a reopen that has waited for the commands. -/
def Thread.drained : Thread → Bool
  | .reopen _ pc => pc.drained
  | .acquire _ (.reopen _ pc) => pc.drained
  | _ => false

/-- The thread is in a reopen that has waited for the lock thread. -/
def Thread.past : Thread → Bool
  | .reopen _ pc => pc.past
  | _ => false

/-- The thread is not about to be woken up without a signal. -/
def Thread.signalled : Thread → Bool
  | .reopen _ pc => pc.signalled
  | .acquire _ (.wait (.blocked signalled)) => signalled
  | .acquire _ (.reopen _ pc) => pc.signalled
  | _ => true

/-- The command thread acquires the lock, or releases it. -/
def Thread.sync : Thread → Bool
  | .acquire isSync _ => isSync
  | .release .unlock | .release .store => true
  | _ => false

/-- The thread does not remove the device, says that it is the lock thread only if it acquires the
lock, and releases the lock only if it is the command thread. -/
def Thread.honest (t : ℕ) : Thread → Bool
  | .reopen a _ => !a.inLockThread
  | .release _ => t == 0
  | .stop _ => false
  | _ => true

/-- `lock` is running, for the command thread. -/
def Thread.locks : Thread → Bool
  | .acquire isSync (.locking _) => isSync
  | _ => false

theorem ReopenPc.recovers_role (pc : ReopenPc) : pc.role.recovers = true := by
  cases pc <;> rfl

theorem Thread.recovers_of_drained {th : Thread} (h : th.drained) : th.recovers := by
  cases th with
  | reopen a pc => exact pc.recovers_role
  | acquire b pc =>
    cases pc with
    | reopen retries pc => exact pc.recovers_role
    | _ => exact absurd h (by simp [Thread.drained])
  | _ => exact absurd h (by simp [Thread.drained])

theorem Thread.drained_of_past {th : Thread} (h : th.past) : th.drained := by
  cases th with
  | reopen a pc =>
    cases pc with
    | cancel | dropLock | close => rfl
    | _ => exact absurd h (by simp [Thread.past, ReopenPc.past])
  | _ => exact absurd h (by simp [Thread.past])

/-! ### One device -/

/-- The operations that a reopen waits for are over when it has waited for them. Whether another
device has a callout running on this one is `foreign`. -/
structure DevSys.Drain (s : DevSys) (foreign : Prop) : Prop where
  /-- The commands are counted. -/
  ops : s.dev.track.trackedAioOps = s.cmds.length
  /-- `IN_RECOVERY` stands for a reopen. -/
  recovery : s.dev.inRecovery = true ↔ ∃ t, (s.thread t).recovers
  /-- There is one at most. -/
  unique : ∀ t u, (s.thread t).recovers → (s.thread u).recovers → t = u
  /-- A reopen that has waited for the commands has only commands behind it that are refused. -/
  drained : ∀ t, (s.thread t).drained → ∀ c ∈ s.cmds, c.waits
  /-- A reopen that has waited for the lock thread has none behind it. -/
  past : ∀ t, (s.thread t).past → s.dev.lockState ≠ .locking
  /-- The command thread acquires and releases the lock only while there is no lock thread. -/
  sync : ∀ t, (s.thread t).sync → t = 0 ∧ s.dev.lockState ≠ .locking
  /-- No thread pretends to be another one. -/
  honest : ∀ t, (s.thread t).honest t
  /-- `lock` runs for the command thread only while there is no reopen. -/
  locks : ∀ t, (s.thread t).locks → s.dev.inRecovery = false
  /-- Another device has a callout running on this one only while there is no reopen. -/
  copies : foreign → s.dev.inRecovery = false

/-- `lock` is running for the command thread. -/
def DevSys.Exposed (s : DevSys) : Prop := ∃ t, (s.thread t).locks

/-- `tcmu_notify_conn_lost` sets `IN_RECOVERY`. -/
def DevSys.announces (s : DevSys) (added : Option ℕ) : Bool :=
  !s.dev.stopping && !s.dev.inRecovery && added.isSome

/-- The condition waits return only when signalled, and nobody removes the device. -/
def DevEvent.Signalled (s : DevSys) : DevEvent → Prop
  | .step t .. => (s.thread t).signalled
  | .stop _ => False
  | _ => True

instance (s : DevSys) (e : DevEvent) : Decidable (e.Signalled s) :=
  match e with
  | .step t .. => inferInstanceAs (Decidable ((s.thread t).signalled = true))
  | .stop _ => isFalse id
  | .start | .checkRecovery | .checkState _ | .unsupported | .callout .. | .called .. | .finish ..
  | .finishAgain _ | .lockLost | .connLost _ | .reopenDev .. | .acquire | .release | .syncDrop
  | .removed => isTrue trivial

/-- An operation that a reopen does not wait for does not run during one. -/
def DevEvent.Covered (s : DevSys) (foreign : Prop) : DevEvent → Prop
  | .connLost added => s.announces added → ¬ foreign ∧ ¬ s.Exposed
  | .reopenDev .. => s.dev.inRecovery = false → ¬ foreign ∧ ¬ s.Exposed
  | .step t _ _ added _ =>
    match s.thread t with
    | .acquire _ (.enterReopen _) => s.dev.inRecovery = false → ¬ foreign ∧ ¬ s.Exposed
    | .acquire _ (.connLost _) => s.announces added → ¬ foreign ∧ ¬ s.Exposed
    | .acquire true (.lock _) => s.dev.inRecovery = false
    | _ => True
  | .acquire => s.dev.lockState ≠ .locking
  | .finishAgain _ => False
  | _ => True

/-- What a thread may do when it goes on, for the reopens to be able to rely on it. -/
structure Goes (s : DevSys) (foreign : Prop) (t : ℕ) (d : DevState) (th : Thread) : Prop where
  /-- It does not touch the count of commands. -/
  ops : d.track.trackedAioOps = s.dev.track.trackedAioOps
  /-- It sets `IN_RECOVERY` when it begins a reopen, and clears it at the end. -/
  recovery : d.inRecovery = true ↔
    th.recovers ∨ s.dev.inRecovery = true ∧ (s.thread t).recovers = false
  /-- It begins a reopen only if there is none. -/
  begins : th.recovers → (s.thread t).recovers ∨ s.dev.inRecovery = false
  /-- It waits for the commands. -/
  drained : th.drained → ∀ c ∈ s.cmds, c.waits
  /-- It does not say `LOCKING`. -/
  locking : d.lockState = .locking → s.dev.lockState = .locking
  /-- It waits for the lock thread. -/
  past : th.past → d.lockState ≠ .locking
  /-- It acquires and releases the lock only if there is no lock thread. -/
  sync : th.sync → t = 0 ∧ d.lockState ≠ .locking
  /-- It does not pretend to be another one. -/
  honest : th.honest t
  /-- It calls `lock` only if there is no reopen. -/
  locks : th.locks → d.inRecovery = false
  /-- It begins a reopen only if nothing is running that this one does not wait for. -/
  quiet : d.inRecovery = true → s.dev.inRecovery = true ∨ ¬ foreign ∧ ¬ s.Exposed

section Device

variable {s s' : DevSys} {foreign : Prop} {t : ℕ}

theorem DevSys.thread_goto (s : DevSys) (t : ℕ) (th : Thread) (u : ℕ) :
    (s.goto t th).thread u = if u = t then th else s.thread u :=
  Function.update_apply ..

/-- A property of all threads but one is a property of all threads, if that one gets it. -/
theorem DevSys.forall_goto {P : ℕ → Thread → Prop} {d : DevState} {th : Thread} (hth : P t th)
    (h : ∀ u, u ≠ t → P u (s.thread u)) : ∀ u, P u (((s.put d).goto t th).thread u) := by
  intro u
  rw [DevSys.thread_goto]
  split
  · rename_i heq
    rwa [heq]
  · rename_i hne
    exact h u hne

/-- A step of a thread keeps what the reopens rely on. -/
theorem Goes.drain {d : DevState} {th : Thread} (hgoes : Goes s foreign t d th)
    (h : s.Drain foreign) : ((s.put d).goto t th).Drain foreign := by
  have hothers : ∀ u, u ≠ t → (s.thread u).recovers → (s.thread t).recovers = false := by
    intro u hne hu
    by_contra ht
    exact hne (h.unique u t hu (by simpa using ht))
  refine ⟨hgoes.ops.trans h.ops, ⟨fun hrec => ?_, ?_⟩, ?_, ?_, ?_, ?_, ?_, ?_, ?_⟩
  · rcases hgoes.recovery.mp hrec with hth | ⟨hbefore, ht⟩
    · exact ⟨t, by rwa [DevSys.thread_goto, if_pos rfl]⟩
    · obtain ⟨u, hu⟩ := h.recovery.mp hbefore
      have hne : u ≠ t := by
        rintro rfl
        simp [ht] at hu
      exact ⟨u, by rwa [DevSys.thread_goto, if_neg hne]⟩
  · rintro ⟨u, hu⟩
    rw [DevSys.thread_goto] at hu
    split at hu
    · exact hgoes.recovery.mpr (Or.inl hu)
    · rename_i hne
      exact hgoes.recovery.mpr (Or.inr ⟨h.recovery.mpr ⟨u, hu⟩, hothers u hne hu⟩)
  · have hself : ∀ u, u ≠ t → (s.thread u).recovers → ¬ th.recovers := by
      intro u hne hu hth
      rcases hgoes.begins hth with ht | hclear
      · simp [hothers u hne hu] at ht
      · simp [h.recovery.mpr ⟨u, hu⟩] at hclear
    intro u v hu hv
    rw [DevSys.thread_goto] at hu hv
    split at hu
    · rename_i heq
      split at hv
      · rename_i heq'
        exact heq.trans heq'.symm
      · rename_i hne'
        exact absurd hu (hself v hne' hv)
    · rename_i hne
      split at hv
      · exact absurd hv (hself u hne hu)
      · exact h.unique u v hu hv
  · exact DevSys.forall_goto (P := fun _ th => th.drained → ∀ c ∈ s.cmds, c.waits) hgoes.drained
      fun u _ => h.drained u
  · exact DevSys.forall_goto (P := fun _ th => th.past → d.lockState ≠ .locking) hgoes.past
      fun u _ hu hlock => h.past u hu (hgoes.locking hlock)
  · exact DevSys.forall_goto (P := fun u th => th.sync → u = 0 ∧ d.lockState ≠ .locking) hgoes.sync
      fun u _ hu => ⟨(h.sync u hu).1, fun hlock => (h.sync u hu).2 (hgoes.locking hlock)⟩
  · exact DevSys.forall_goto (P := fun u th => th.honest u) hgoes.honest fun u _ => h.honest u
  · refine DevSys.forall_goto (P := fun _ th => th.locks → d.inRecovery = false) hgoes.locks ?_
    intro u _ hu
    by_contra hrec
    rcases hgoes.quiet (by simpa using hrec) with hbefore | hquiet
    · simp [h.locks u hu] at hbefore
    · exact hquiet.2 ⟨u, hu⟩
  · intro hforeign
    change d.inRecovery = false
    by_contra hrec
    rcases hgoes.quiet (by simpa using hrec) with hbefore | hquiet
    · simp [h.copies hforeign] at hbefore
    · exact hquiet.1 hforeign

/-! ### The steps of the threads -/

/-- A wait for the commands does not touch their count. -/
theorem DevState.aioWait_ops {d d' : DevState} {ret : ℤ} {pc : WaitPc} {n : Next WaitPc ℤ}
    (h : d.aioWaitForEmptyQueue t ret pc = (d', n)) :
    d'.track.trackedAioOps = d.track.trackedAioOps := by
  cases pc with
  | idle =>
    obtain ⟨rfl, -⟩ := Prod.mk.inj h
    rfl
  | entered =>
    rw [DevState.aioWaitForEmptyQueue] at h
    split at h
    · obtain ⟨rfl, -⟩ := Prod.mk.inj h
      rfl
    · obtain ⟨rfl, -⟩ := Prod.mk.inj h
      rfl
  | blocked b =>
    obtain ⟨rfl, -⟩ := Prod.mk.inj h
    rfl

/-- A wait that goes on has not been signalled. -/
theorem DevState.aioWait_goto {d d' : DevState} {ret : ℤ} {pc pc' : WaitPc}
    (h : d.aioWaitForEmptyQueue t ret pc = (d', .goto pc')) : pc' ≠ .blocked true := by
  rintro rfl
  cases pc with
  | idle =>
    rw [DevState.aioWaitForEmptyQueue] at h
    split at h
    · simp at h
    · simp at h
  | entered =>
    rw [DevState.aioWaitForEmptyQueue] at h
    split at h
    · simp at h
    · simp at h
  | blocked b => simp [DevState.aioWaitForEmptyQueue] at h

/-- A wait that succeeds has seen that there are no commands, or has been signalled. -/
theorem DevState.aioWait_zero {d d' : DevState} {ret : ℤ} {pc : WaitPc} (hpc : pc ≠ .blocked false)
    (h : d.aioWaitForEmptyQueue t ret pc = (d', .done 0)) :
    d.track.trackedAioOps = 0 ∨ pc = .blocked true := by
  cases pc with
  | idle =>
    rw [DevState.aioWaitForEmptyQueue] at h
    split at h
    · simp at h
    · rename_i hret
      exact absurd (Next.done.inj (Prod.mk.inj h).2) hret
  | entered =>
    rw [DevState.aioWaitForEmptyQueue] at h
    split at h
    · rename_i hops
      exact Or.inl hops
    · simp at h
  | blocked b =>
    cases b with
    | false => exact absurd rfl hpc
    | true => exact Or.inr rfl

section Reopen

variable {d d' : DevState} {a : ReopenArgs} {ret : ℤ} {pc : ReopenPc}

theorem ReopenStep.ops {n : Next ReopenPc ℤ} (h : ReopenStep d t a ret pc d' n) :
    d'.track.trackedAioOps = d.track.trackedAioOps := by
  cases h with
  | wait h => exact DevState.aioWait_ops h
  | waited h => exact DevState.aioWait_ops h
  | _ => rfl

/-- A reopen that goes on leaves `IN_RECOVERY` alone. -/
theorem ReopenStep.inRecovery_goto {pc' : ReopenPc} (h : ReopenStep d t a ret pc d' (.goto pc')) :
    d'.inRecovery = d.inRecovery := by
  cases h <;> rfl

/-- A reopen that ends clears `IN_RECOVERY`. -/
theorem ReopenStep.inRecovery_done {ret' : ℤ} (h : ReopenStep d t a ret pc d' (.done ret')) :
    d'.inRecovery = false := by
  cases h <;> rfl

/-- A reopen that has waited for the commands has seen that there are none. -/
theorem ReopenStep.drained {pc' : ReopenPc} (hsignalled : pc.signalled)
    (h : ReopenStep d t a ret pc d' (.goto pc')) (hpc : pc'.drained) :
    pc.drained ∨ d.track.trackedAioOps = 0 := by
  cases h with
  | wait h =>
    rename_i pc pc'
    cases pc' with
    | blocked b =>
      obtain rfl : b = true := hpc
      exact absurd rfl (DevState.aioWait_goto h)
    | _ => exact absurd hpc (by simp [ReopenPc.drained])
  | waited h =>
    rename_i ret'
    obtain rfl : ret' = 0 := by simpa [ReopenPc.drained] using hpc
    rcases DevState.aioWait_zero (by rintro rfl; simp [ReopenPc.signalled] at hsignalled) h with
      hops | rfl
    · exact Or.inr hops
    · exact Or.inl rfl
  | begin | attempt | retry => exact absurd hpc (by simp [ReopenPc.drained])
  | _ => exact Or.inl rfl

/-- A reopen that has waited for the lock thread has seen that there is none. -/
theorem ReopenStep.past {pc' : ReopenPc} (hsignalled : pc.signalled) (ha : a.inLockThread = false)
    (h : ReopenStep d t a ret pc d' (.goto pc')) (hpc : pc'.past) :
    pc.past ∨ d.lockState ≠ .locking := by
  cases h with
  | passLock hstop hlock => simp [ha] at hlock
  | free hlock => exact Or.inr hlock
  | wake signalled => exact Or.inl hsignalled
  | keepLock | dropLock => exact Or.inl rfl
  | _ => exact absurd hpc (by simp [ReopenPc.past])

end Reopen

/-- A thread goes on that has nothing to do with a reopen. -/
theorem Goes.plain {d : DevState} {th : Thread}
    (hops : d.track.trackedAioOps = s.dev.track.trackedAioOps)
    (hrec : d.inRecovery = s.dev.inRecovery) (ht : (s.thread t).recovers = false)
    (hth : th.recovers = false) (hlocking : d.lockState = .locking → s.dev.lockState = .locking)
    (hsync : th.sync → t = 0 ∧ d.lockState ≠ .locking) (honest : th.honest t)
    (hlocks : th.locks → d.inRecovery = false) : Goes s foreign t d th := by
  have hdrained : ¬ th.drained := fun hdrained => by
    simp [Thread.recovers_of_drained hdrained] at hth
  exact {
    ops := hops
    recovery := by simp [hrec, ht, hth]
    begins := fun hrecovers => by simp [hth] at hrecovers
    drained := fun h => absurd h hdrained
    locking := hlocking
    past := fun hpast => absurd (Thread.drained_of_past hpast) hdrained
    sync := hsync
    honest := honest
    locks := hlocks
    quiet := fun h => Or.inl (hrec ▸ h) }

/-- A thread begins a reopen. -/
theorem Goes.begin {th : Thread} (hrec : s.dev.inRecovery = false)
    (hquiet : ¬ foreign ∧ ¬ s.Exposed) (hth : th.recovers) (hdrained : ¬ th.drained)
    (hsync : th.sync → t = 0 ∧ s.dev.lockState ≠ .locking) (honest : th.honest t)
    (hlocks : ¬ th.locks) : Goes s foreign t { s.dev with inRecovery := true } th where
  ops := rfl
  recovery := ⟨fun _ => Or.inl hth, fun _ => rfl⟩
  begins := fun _ => Or.inr hrec
  drained := fun h => absurd h hdrained
  locking := id
  past := fun hpast => absurd (Thread.drained_of_past hpast) hdrained
  sync := hsync
  honest := honest
  locks := fun h => absurd h hlocks
  quiet := fun _ => Or.inr hquiet

/-- The commands are all refused if there are none, or if a reopen has waited for them. -/
theorem DevSys.Drain.waits {a : ReopenArgs} {ret : ℤ} {pc pc' : ReopenPc} {d : DevState}
    (h : s.Drain foreign) (ht : (s.thread t).drained = pc.drained) (hsignalled : pc.signalled)
    (hstep : ReopenStep s.dev t a ret pc d (.goto pc')) (hpc : pc'.drained) :
    ∀ c ∈ s.cmds, c.waits := by
  rcases hstep.drained hsignalled hpc with hdrained | hops
  · exact h.drained t (ht ▸ hdrained)
  · have hnil : s.cmds = [] := List.eq_nil_of_length_eq_zero (h.ops ▸ hops)
    simp [hnil]

/-- A recovery thread, or the command thread, goes on in a reopen. -/
theorem DevSys.Drain.reopen_goto {a : ReopenArgs} {ret : ℤ} {pc pc' : ReopenPc} {d : DevState}
    (h : s.Drain foreign) (ht : s.thread t = .reopen a pc) (hsignalled : pc.signalled)
    (hstep : ReopenStep s.dev t a ret pc d (.goto pc')) : Goes s foreign t d (.reopen a pc') := by
  have hrecovers : (s.thread t).recovers := by
    rw [ht]
    exact pc.recovers_role
  have hrec : d.inRecovery = true := hstep.inRecovery_goto.trans (h.recovery.mpr ⟨t, hrecovers⟩)
  have honest : (s.thread t).honest t := h.honest t
  rw [ht] at honest
  have ha : a.inLockThread = false := by simpa [Thread.honest] using honest
  exact {
    ops := hstep.ops
    recovery := ⟨fun _ => Or.inl pc'.recovers_role, fun _ => hrec⟩
    begins := fun _ => Or.inl hrecovers
    drained := h.waits (by rw [ht]; rfl) hsignalled hstep
    locking := (DevState.reopenStep_locking hstep).mp
    past := by
      intro hpast hlock
      have hbefore := (DevState.reopenStep_locking hstep).mp hlock
      rcases hstep.past hsignalled ha hpast with hpc | hfree
      · exact h.past t (by rw [ht]; exact hpc) hbefore
      · exact hfree hbefore
    sync := fun hsync => absurd hsync (by simp [Thread.sync])
    honest := honest
    locks := fun hlocks => absurd hlocks (by simp [Thread.locks])
    quiet := fun _ => Or.inl (h.recovery.mpr ⟨t, hrecovers⟩) }

/-- A thread that acquires the lock goes on in a reopen. -/
theorem DevSys.Drain.acquire_goto {isSync : Bool} {retries : ℕ} {ret : ℤ} {pc pc' : ReopenPc}
    {d : DevState} (h : s.Drain foreign) (ht : s.thread t = .acquire isSync (.reopen retries pc))
    (hsignalled : pc.signalled) (hstep : ReopenStep s.dev t ⟨true, 0⟩ ret pc d (.goto pc')) :
    Goes s foreign t d (.acquire isSync (.reopen retries pc')) := by
  have hrecovers : (s.thread t).recovers := by
    rw [ht]
    exact pc.recovers_role
  have hrec : d.inRecovery = true := hstep.inRecovery_goto.trans (h.recovery.mpr ⟨t, hrecovers⟩)
  exact {
    ops := hstep.ops
    recovery := ⟨fun _ => Or.inl pc'.recovers_role, fun _ => hrec⟩
    begins := fun _ => Or.inl hrecovers
    drained := h.waits (by rw [ht]; rfl) hsignalled hstep
    locking := (DevState.reopenStep_locking hstep).mp
    past := fun hpast => absurd hpast (by simp [Thread.past])
    sync := by
      intro hsync
      obtain ⟨hzero, hfree⟩ := h.sync t (by rw [ht]; exact hsync)
      exact ⟨hzero, fun hlock => hfree ((DevState.reopenStep_locking hstep).mp hlock)⟩
    honest := rfl
    locks := fun hlocks => absurd hlocks (by simp [Thread.locks])
    quiet := fun _ => Or.inl (h.recovery.mpr ⟨t, hrecovers⟩) }

/-- A thread ends a reopen. -/
theorem Goes.finish {a : ReopenArgs} {ret ret' : ℤ} {pc : ReopenPc} {d : DevState} {th : Thread}
    (ht : (s.thread t).recovers) (hth : th.recovers = false)
    (hsync : th.sync → t = 0 ∧ s.dev.lockState ≠ .locking) (honest : th.honest t)
    (hstep : ReopenStep s.dev t a ret pc d (.done ret')) : Goes s foreign t d th := by
  have hrec := hstep.inRecovery_done
  have hdrained : ¬ th.drained := fun hdrained => by
    simp [Thread.recovers_of_drained hdrained] at hth
  exact {
    ops := hstep.ops
    recovery := by simp [hrec, ht, hth]
    begins := fun hrecovers => by simp [hth] at hrecovers
    drained := fun h => absurd h hdrained
    locking := (DevState.reopenStep_locking hstep).mp
    past := fun hpast => absurd (Thread.drained_of_past hpast) hdrained
    sync := fun h => ⟨(hsync h).1, fun hlock =>
      (hsync h).2 ((DevState.reopenStep_locking hstep).mp hlock)⟩
    honest := honest
    locks := fun _ => hrec
    quiet := fun h => by simp [hrec] at h }

/-- The device changes, and the threads do not. -/
theorem DevSys.Drain.put {d : DevState} (h : s.Drain foreign)
    (hops : d.track.trackedAioOps = s.dev.track.trackedAioOps)
    (hrec : d.inRecovery = s.dev.inRecovery)
    (hlocking : d.lockState = .locking → s.dev.lockState = .locking) : (s.put d).Drain foreign where
  ops := hops.trans h.ops
  recovery := by
    rw [show (s.put d).dev.inRecovery = s.dev.inRecovery from hrec]
    exact h.recovery
  unique := h.unique
  drained := h.drained
  past := fun t ht hlock => h.past t ht (hlocking hlock)
  sync := fun t ht => ⟨(h.sync t ht).1, fun hlock => (h.sync t ht).2 (hlocking hlock)⟩
  honest := h.honest
  locks := fun t ht => hrec.trans (h.locks t ht)
  copies := fun hforeign => hrec.trans (h.copies hforeign)

/-- The commands change, and the threads do not. -/
theorem DevSys.Drain.cmds {q : TrackAio} {cmds : List Cmd} (h : s.Drain foreign)
    (hops : q.trackedAioOps = cmds.length)
    (hwaits : ∀ t, (s.thread t).drained → ∀ c ∈ cmds, c.waits) :
    ({ s with dev.track := q, cmds := cmds } : DevSys).Drain foreign where
  ops := hops
  recovery := h.recovery
  unique := h.unique
  drained := hwaits
  past := h.past
  sync := h.sync
  honest := h.honest
  locks := h.locks
  copies := h.copies

/-- A command is replaced by one that may call the handler only if no reopen has waited for the
commands. -/
theorem DevSys.Drain.replace {c c' : Cmd} (h : s.Drain foreign) (hmem : c ∈ s.cmds)
    (hwaits : ∀ t, (s.thread t).drained → c'.waits) : (s.replace c c').Drain foreign := by
  refine h.cmds (q := s.dev.track) ?_ fun t ht x hx => ?_
  · rw [h.ops, List.length_cons, List.length_erase_of_mem hmem,
      Nat.sub_add_cancel (List.length_pos_of_mem hmem)]
  · rcases List.mem_cons.mp hx with rfl | hx
    · exact hwaits t ht
    · exact h.drained t ht x (List.mem_of_mem_erase hx)

/-- A command that may call the handler says that no reopen has waited for the commands. -/
theorem DevSys.Drain.not_drained {c : Cmd} (h : s.Drain foreign) (hmem : c ∈ s.cmds)
    (hc : c.waits = false) (t : ℕ) : ¬ (s.thread t).drained := by
  intro ht
  simp [h.drained t ht c hmem] at hc

/-- A thread is signalled when there are no commands left. -/
theorem DevSys.Drain.signalEmpty (h : s.Drain foreign) (hnil : s.cmds = []) (w : ℕ) :
    (s.goto w (s.thread w).signalEmpty).Drain foreign := by
  have hrecovers : (s.thread w).signalEmpty.recovers = (s.thread w).recovers :=
    congrArg Role.recovers (Thread.role_signalEmpty _)
  have hsame : (s.thread w).signalEmpty.past = (s.thread w).past ∧
      (s.thread w).signalEmpty.sync = (s.thread w).sync ∧
      (s.thread w).signalEmpty.honest w = (s.thread w).honest w ∧
      (s.thread w).signalEmpty.locks = (s.thread w).locks := by
    cases s.thread w with
    | reopen a pc => cases pc <;> exact ⟨rfl, rfl, rfl, rfl⟩
    | acquire b pc => cases pc <;> exact ⟨rfl, rfl, rfl, rfl⟩
    | _ => exact ⟨rfl, rfl, rfl, rfl⟩
  obtain ⟨hpast, hsync, honest, hlocks⟩ := hsame
  have hgoes : Goes s foreign w s.dev (s.thread w).signalEmpty := {
    ops := rfl
    recovery := by
      rw [hrecovers]
      by_cases hw : (s.thread w).recovers
      · simp [hw, h.recovery.mpr ⟨w, hw⟩]
      · simp [hw]
    begins := fun hw => Or.inl (hrecovers ▸ hw)
    drained := by simp [hnil]
    locking := id
    past := fun hw => h.past w (hpast ▸ hw)
    sync := fun hw => h.sync w (hsync ▸ hw)
    honest := honest ▸ h.honest w
    locks := fun hw => h.locks w (hlocks ▸ hw)
    quiet := Or.inl }
  exact hgoes.drain h

/-- A command is finished. -/
theorem DevSys.Drain.finish {cmd : Cmd} {asks : Bool} (h : s.Drain foreign) (hmem : cmd ∈ s.cmds)
    (hs : ({ s with cmds := s.cmds.erase cmd } : DevSys).untrack asks = some s') :
    s'.Drain foreign := by
  obtain ⟨f, hf, hcases⟩ := DevSys.untrack_cases hs
  obtain ⟨-, hops, -, -, hsignal⟩ := trackAioRequestFinish_eq_some hf
  have hlength : f.queue.trackedAioOps = (s.cmds.erase cmd).length := by
    rw [hops, h.ops, List.length_erase_of_mem hmem]
  have hdrain := h.cmds hlength fun t ht c hc => h.drained t ht c (List.mem_of_mem_erase hc)
  rcases hcases with ⟨-, rfl⟩ | ⟨w, hw, rfl⟩
  · exact hdrain
  · rcases hsignal with ⟨hzero, -, -⟩ | ⟨-, -, hnone⟩
    · have hnil : s.cmds.erase cmd = [] := List.eq_nil_of_length_eq_zero (hlength ▸ hzero)
      exact hdrain.signalEmpty hnil w
    · simp [hnone] at hw

/-- The threads that wait for the lock thread are signalled when there is none. -/
theorem DevSys.Drain.wakeLock {woken : List ℕ} (h : s.Drain foreign)
    (hlock : s.dev.lockState ≠ .locking) : (s.wakeLock woken).Drain foreign := by
  have hsignal : ∀ (u : ℕ) (th : Thread), th.signalLock.recovers = th.recovers ∧
      th.signalLock.drained = th.drained ∧ th.signalLock.sync = th.sync ∧
      th.signalLock.honest u = th.honest u ∧ th.signalLock.locks = th.locks := by
    intro u th
    cases th with
    | reopen a pc => cases pc <;> exact ⟨rfl, rfl, rfl, rfl, rfl⟩
    | stop pc => cases pc <;> exact ⟨rfl, rfl, rfl, rfl, rfl⟩
    | _ => exact ⟨rfl, rfl, rfl, rfl, rfl⟩
  have hsame : ∀ u, ((s.wakeLock woken).thread u).recovers = (s.thread u).recovers ∧
      ((s.wakeLock woken).thread u).drained = (s.thread u).drained ∧
      ((s.wakeLock woken).thread u).sync = (s.thread u).sync ∧
      ((s.wakeLock woken).thread u).honest u = (s.thread u).honest u ∧
      ((s.wakeLock woken).thread u).locks = (s.thread u).locks := by
    intro u
    rw [show (s.wakeLock woken).thread u
      = if u ∈ woken then (s.thread u).signalLock else s.thread u from rfl]
    split
    · exact hsignal u _
    · exact ⟨rfl, rfl, rfl, rfl, rfl⟩
  exact {
    ops := h.ops
    recovery := by
      simp only [hsame]
      exact h.recovery
    unique := by
      simp only [hsame]
      exact h.unique
    drained := by
      simp only [hsame]
      exact h.drained
    past := fun _ _ => hlock
    sync := by
      simp only [hsame]
      exact h.sync
    honest := by
      simp only [hsame]
      exact h.honest
    locks := by
      simp only [hsame]
      exact h.locks
    copies := h.copies }

/-- A thread starts to acquire the lock for implicit failover. -/
theorem DevSys.Drain.startLocking (h : s.Drain foreign)
    (hnone : ∀ u, ¬ (s.thread u).past ∧ ¬ (s.thread u).sync) :
    (s.put { s.dev with lockState := .locking }).Drain foreign where
  ops := h.ops
  recovery := h.recovery
  unique := h.unique
  drained := h.drained
  past := fun u hu => absurd hu (hnone u).1
  sync := fun u hu => absurd hu (hnone u).2
  honest := h.honest
  locks := h.locks
  copies := h.copies

theorem DevSys.Drain.checkState {f : Failover} {created : Option ℕ} (h : s.Drain foreign)
    (hidle : s.thread 0 = .idle) (hmem : .checked ∈ s.cmds)
    (hs : s.checkState f created = some s') : s'.Drain foreign := by
  have hnone := h.not_drained hmem rfl
  rcases DevSys.checkState_eq_some hs with ⟨c, -, rfl⟩ | ⟨t, -, ht, -, rfl⟩
  · exact h.replace hmem fun u hu => absurd hu (hnone u)
  · have hrefused : (s.replace .checked (.refused .transition)).Drain foreign :=
      h.replace hmem fun _ _ => rfl
    have hgoes : Goes (s.replace .checked (.refused .transition)) foreign t s.dev
        (.acquire false (.wait .idle)) := by
      refine Goes.plain rfl rfl ?_ rfl id (fun hsync => absurd hsync (by simp [Thread.sync])) rfl
        (fun hlocks => absurd hlocks (by simp [Thread.locks]))
      rw [show (s.replace .checked (.refused .transition)).thread t = .idle from ht]
      rfl
    refine (hgoes.drain hrefused).startLocking fun u => ?_
    rw [DevSys.thread_goto]
    split
    · simp [Thread.past, Thread.sync]
    · refine ⟨fun hpast => hnone u (Thread.drained_of_past hpast), fun hsync => ?_⟩
      have hzero := (h.sync u hsync).1
      subst hzero
      change (s.thread 0).sync = true at hsync
      rw [hidle] at hsync
      simp [Thread.sync] at hsync

/-- The notice of a lost connection gives a reopen to a thread. -/
theorem Goes.announce {r : ℕ} {retries : ℤ} (hrec : s.dev.inRecovery = false)
    (hquiet : ¬ foreign ∧ ¬ s.Exposed) :
    Goes s foreign r { s.dev with inRecovery := true } (.reopen ⟨false, retries⟩ (.wait .idle)) :=
  Goes.begin hrec hquiet rfl (by simp [Thread.drained, ReopenPc.drained])
    (fun hsync => absurd hsync (by simp [Thread.sync])) rfl (by simp [Thread.locks])

/-- `tcmu_notify_conn_lost` has an effect only when it sets `IN_RECOVERY`. -/
theorem DevSys.connLost_announces {added : Option ℕ} (h : s.tcmuNotifyConnLost added = some s') :
    s' = s ∨ s.announces added = true := by
  unfold DevSys.tcmuNotifyConnLost at h
  split at h
  · exact Or.inl (Option.some.inj h).symm
  · rename_i hclear
    split at h
    · exact Or.inl (Option.some.inj h).symm
    · rw [not_or] at hclear
      refine Or.inr ?_
      simp [DevSys.announces, hclear]

theorem DevSys.Drain.connLost {added : Option ℕ} (h : s.Drain foreign)
    (hquiet : s.announces added → ¬ foreign ∧ ¬ s.Exposed)
    (hs : s.tcmuNotifyConnLost added = some s') : s'.Drain foreign := by
  rcases DevSys.connLost_announces hs with rfl | hannounces
  · exact h
  · rcases DevSys.connLost_cases hs with rfl | ⟨r, hrec, -, -, rfl⟩
    · exact h
    · exact (Goes.announce hrec (hquiet hannounces)).drain h

/-- A thread that acquires the lock goes on, and has nothing to do with a reopen. -/
theorem DevSys.Drain.acquire_plain {isSync : Bool} {pc pc' : AcquirePc} {d : DevState}
    (h : s.Drain foreign) (ht : s.thread t = .acquire isSync pc)
    (hpc : (Thread.acquire isSync pc).recovers = false)
    (hpc' : (Thread.acquire isSync pc').recovers = false)
    (hops : d.track.trackedAioOps = s.dev.track.trackedAioOps)
    (hrec : d.inRecovery = s.dev.inRecovery) (hlock : d.lockState = s.dev.lockState)
    (hlocks : ¬ (Thread.acquire isSync pc').locks) :
    ((s.put d).goto t (.acquire isSync pc')).Drain foreign := by
  refine Goes.drain (Goes.plain hops hrec ?_ hpc' (fun h => hlock ▸ h) ?_ rfl ?_) h
  · rwa [ht]
  · intro hsync
    rw [hlock]
    exact h.sync t (by rw [ht]; exact hsync)
  · exact fun h => absurd h hlocks

/-- What a thread does that acquires the lock. -/
theorem DevSys.Drain.acquireStep {isSync : Bool} {ret : ℤ} {sts : TcmuSts}
    {added : Option ℕ} {woken : List ℕ} {pc : AcquirePc} (h : s.Drain foreign)
    (ht : s.thread t = .acquire isSync pc) (hsignalled : (s.thread t).signalled)
    (hcovered : (DevEvent.step t ret sts added woken).Covered s foreign)
    (hs : s.acquireStep t isSync ret sts added woken pc = some s') : s'.Drain foreign := by
  have hsync : isSync = true → t = 0 ∧ s.dev.lockState ≠ .locking := fun hsync =>
    h.sync t (by rw [ht]; exact hsync)
  rw [ht] at hsignalled
  simp only [DevEvent.Covered, ht] at hcovered
  cases pc with
  | wait pc =>
    cases DevSys.acquireStep_cases hs with
    | wait hwait | waited hwait | unflushed _ hwait =>
      exact h.acquire_plain ht rfl rfl (DevState.aioWait_ops hwait) rfl rfl (by simp [Thread.locks])
  | lock retries =>
    cases DevSys.acquireStep_cases hs with
    | lock =>
      have hgoes : Goes s foreign t s.dev (.acquire isSync (.locking retries)) := by
        refine Goes.plain rfl rfl (by rw [ht]; rfl) rfl id hsync rfl fun hlocks => ?_
        obtain rfl : isSync = true := hlocks
        exact hcovered
      exact hgoes.drain h
  | locking retries =>
    cases DevSys.acquireStep_cases hs with
    | locked => exact h.acquire_plain ht rfl rfl rfl rfl rfl (by simp [Thread.locks])
    | unlocked hpc =>
      rcases hpc with rfl | ⟨fenced, rfl⟩ | ⟨sts', -, rfl⟩
      · exact h.acquire_plain (d := s.dev) ht rfl rfl rfl rfl rfl (by simp [Thread.locks])
      · exact h.acquire_plain (d := s.dev) ht rfl rfl rfl rfl rfl (by simp [Thread.locks])
      · exact h.acquire_plain (d := s.dev) ht rfl rfl rfl rfl rfl (by simp [Thread.locks])
  | enterReopen retries =>
    cases DevSys.acquireStep_cases hs with
    | busy => exact h.acquire_plain (d := s.dev) ht rfl rfl rfl rfl rfl (by simp [Thread.locks])
    | enter hrec =>
      have hgoes : Goes s foreign t { s.dev with inRecovery := true }
          (.acquire isSync (.reopen retries (.wait .idle))) :=
        Goes.begin hrec (hcovered hrec) rfl (by simp [Thread.drained, ReopenPc.drained]) hsync rfl
          (by simp [Thread.locks])
      exact hgoes.drain h
  | reopen retries pc =>
    cases DevSys.acquireStep_cases hs with
    | reopen hstep => exact (h.acquire_goto ht hsignalled hstep).drain h
    | reopened hstep hpc =>
      rename_i d ret' pc'
      have hrecovers : (s.thread t).recovers := by
        rw [ht]
        exact pc.recovers_role
      have hgoes : Goes s foreign t d (.acquire isSync pc') := by
        rcases hpc with rfl | rfl
        · exact Goes.finish hrecovers rfl hsync rfl hstep
        · exact Goes.finish hrecovers rfl hsync rfl hstep
      exact hgoes.drain h
  | connLost fenced =>
    obtain ⟨u, hu, hs⟩ := Option.bind_eq_some_iff.mp hs
    obtain rfl := Option.some.inj hs
    have hdrain := h.connLost hcovered hu
    have hthread : u.thread t = .acquire isSync (.connLost fenced) := by
      rcases DevSys.connLost_cases hu with rfl | ⟨r, -, hidle, -, rfl⟩
      · exact ht
      · have hne : t ≠ r := by
          rintro rfl
          simp [ht] at hidle
        rw [DevSys.thread_goto, if_neg hne]
        exact ht
    exact hdrain.acquire_plain (d := u.dev) hthread rfl rfl rfl rfl rfl (by simp [Thread.locks])
  | done sts' =>
    obtain rfl := Option.some.inj hs
    have hnot : (s.dev.acquireDone t sts').lockState ≠ .locking := by
      rw [DevState.acquireDone]
      split <;> simp
    have hput : (s.put (s.dev.acquireDone t sts')).Drain foreign :=
      h.put rfl rfl fun hlock => absurd hlock hnot
    have hthread : ((s.put (s.dev.acquireDone t sts')).wakeLock woken).thread t
        = .acquire isSync (.done sts') := by
      change (if t ∈ woken then (s.thread t).signalLock else s.thread t) = _
      rw [ht]
      split <;> rfl
    have hgoes : Goes ((s.put (s.dev.acquireDone t sts')).wakeLock woken) foreign t
        (s.dev.acquireDone t sts') .idle := by
      refine Goes.plain rfl rfl (by rw [hthread]; rfl) rfl id ?_ rfl ?_
      · simp [Thread.sync]
      · simp [Thread.locks]
    exact hgoes.drain (hput.wakeLock hnot)

/-- What a thread does. -/
theorem DevSys.Drain.threadStep {ret : ℤ} {sts : TcmuSts} {added : Option ℕ}
    {woken : List ℕ} (h : s.Drain foreign) (hsignalled : (s.thread t).signalled)
    (hcovered : (DevEvent.step t ret sts added woken).Covered s foreign)
    (hs : s.threadStep t ret sts added woken = some s') : s'.Drain foreign := by
  rw [DevSys.threadStep] at hs
  split at hs
  · exact absurd hs (by simp)
  · rename_i a pc ht
    have hrecovers : (s.thread t).recovers := by
      rw [ht]
      exact pc.recovers_role
    rw [ht] at hsignalled
    split at hs
    · rename_i hstep
      obtain rfl := Option.some.inj hs
      exact (h.reopen_goto ht hsignalled (DevState.reopenStep_cases hstep)).drain h
    · rename_i d ret' hstep
      obtain rfl := Option.some.inj hs
      have hgoes : Goes s foreign t d .idle := by
        refine Goes.finish hrecovers rfl ?_ rfl (DevState.reopenStep_cases hstep)
        simp [Thread.sync]
      exact hgoes.drain h
  · rename_i isSync pc ht
    exact h.acquireStep ht hsignalled hcovered hs
  · rename_i pc ht
    have hrecovers : (s.thread t).recovers = false := by
      rw [ht]
      rfl
    have hzero : t = 0 := by
      have honest := h.honest t
      simpa [ht, Thread.honest] using honest
    have hidle : ∀ d : DevState, d.track.trackedAioOps = s.dev.track.trackedAioOps →
        d.inRecovery = s.dev.inRecovery →
        (d.lockState = .locking → s.dev.lockState = .locking) → Goes s foreign t d .idle :=
      fun d hops hrec hlocking => Goes.plain hops hrec hrecovers rfl hlocking
        (by simp [Thread.sync]) rfl (by simp [Thread.locks])
    cases pc with
    | look =>
      by_cases hlock : s.dev.lockState = .locked
      · rw [DevState.releaseStep, if_pos hlock] at hs
        obtain rfl := Option.some.inj hs
        refine Goes.drain (Goes.plain rfl rfl hrecovers rfl id (fun _ => ⟨hzero, ?_⟩) ?_ ?_) h
        · simp [hlock]
        · simp [Thread.honest, hzero]
        · simp [Thread.locks]
      · rw [DevState.releaseStep, if_neg hlock] at hs
        obtain rfl := Option.some.inj hs
        exact (hidle s.dev rfl rfl id).drain h
    | unlock =>
      obtain rfl := Option.some.inj hs
      have hsync := h.sync t (by rw [ht]; rfl)
      refine Goes.drain (Goes.plain rfl rfl hrecovers rfl id (fun _ => hsync) ?_ ?_) h
      · simp [Thread.honest, hzero]
      · simp [Thread.locks]
    | store =>
      obtain rfl := Option.some.inj hs
      exact (hidle { s.dev.revoke with lockState := .unlocked } rfl rfl (by simp)).drain h
  · rename_i pc ht
    exact absurd (h.honest t) (by simp [ht, Thread.honest])

/-- **A step keeps what the reopens rely on**, if the condition waits return only when signalled and
what a reopen does not wait for does not run during one. -/
theorem devSys_drain {f : Failover} {e : DevEvent} (h : s.Drain foreign)
    (hsignalled : e.Signalled s) (hcovered : e.Covered s foreign) (hs : s.step f e = some s') :
    s'.Drain foreign := by
  cases e with
  | start =>
    obtain ⟨-, hs⟩ := Option.ite_none_right_eq_some.mp hs
    obtain rfl := Option.some.inj hs
    refine h.cmds ?_ fun t ht c hc => ?_
    · rw [TrackAio.trackAioRequestStart, List.length_cons, h.ops]
    · rcases List.mem_cons.mp hc with rfl | hc
      · rfl
      · exact h.drained t ht c hc
  | checkRecovery =>
    obtain ⟨⟨-, hmem⟩, hs⟩ := Option.ite_none_right_eq_some.mp hs
    obtain rfl := Option.some.inj hs
    refine h.replace hmem fun t ht => ?_
    rw [h.recovery.mpr ⟨t, Thread.recovers_of_drained ht⟩]
    rfl
  | checkState created =>
    obtain ⟨⟨hidle, hmem⟩, hs⟩ := Option.ite_none_right_eq_some.mp hs
    exact h.checkState hidle hmem hs
  | unsupported =>
    obtain ⟨⟨-, hmem⟩, hs⟩ := Option.ite_none_right_eq_some.mp hs
    obtain rfl := Option.some.inj hs
    exact h.replace hmem fun _ _ => rfl
  | callout own away | called own away =>
    obtain ⟨hmem, hs⟩ := Option.ite_none_right_eq_some.mp hs
    obtain rfl := Option.some.inj hs
    exact h.replace hmem fun t ht => absurd ht (h.not_drained hmem rfl t)
  | finish cmd asks =>
    obtain ⟨⟨hmem, -⟩, hs⟩ := DevSys.finish_eq_some hs
    exact h.finish hmem hs
  | finishAgain asks => exact absurd hcovered id
  | lockLost =>
    obtain rfl := Option.some.inj hs
    rw [DevState.tcmuNotifyLockLost]
    split
    · exact h.put rfl rfl id
    · exact h.put rfl rfl (by simp)
  | connLost added => exact h.connLost hcovered hs
  | reopenDev t retries =>
    obtain ⟨-, hs⟩ := Option.ite_none_right_eq_some.mp hs
    split at hs
    · exact Option.some.inj hs ▸ h
    · rename_i hrec
      have hrec := Bool.eq_false_of_not_eq_true hrec
      obtain rfl := Option.some.inj hs
      exact (Goes.announce hrec (hcovered hrec)).drain h
  | acquire =>
    obtain ⟨⟨hidle, -⟩, hs⟩ := Option.ite_none_right_eq_some.mp hs
    obtain rfl := Option.some.inj hs
    have hgoes : Goes s foreign 0 s.dev (.acquire true (.wait .idle)) :=
      Goes.plain rfl rfl (by rw [hidle]; rfl) rfl id (fun _ => ⟨rfl, hcovered⟩) rfl
        (by simp [Thread.locks])
    exact hgoes.drain h
  | release =>
    obtain ⟨⟨hidle, -⟩, hs⟩ := Option.ite_none_right_eq_some.mp hs
    obtain rfl := Option.some.inj hs
    have hgoes : Goes s foreign 0 s.dev (.release .look) :=
      Goes.plain rfl rfl (by rw [hidle]; rfl) rfl id (by simp [Thread.sync]) rfl
        (by simp [Thread.locks])
    exact hgoes.drain h
  | syncDrop =>
    obtain ⟨-, hs⟩ := Option.ite_none_right_eq_some.mp hs
    obtain rfl := Option.some.inj hs
    rw [DevState.aluaSyncDrop]
    split
    · exact h.put rfl rfl (by simp)
    · exact h.put rfl rfl id
  | removed =>
    obtain rfl := Option.some.inj hs
    exact h.put rfl rfl id
  | stop t => exact absurd hsignalled id
  | step t ret sts added woken => exact h.threadStep hsignalled hcovered hs

/-- While the reopens can rely on it, nobody disturbs a lock thread. -/
theorem DevSys.Drain.undisturbed (h : s.Drain foreign) (e : DevEvent) : e.Undisturbed s := by
  cases e with
  | step t =>
    intro hstores
    cases hth : s.thread t with
    | acquire b pc =>
      rw [hth] at hstores
      cases b with
      | false => exact absurd hstores (by simp [Thread.stores])
      | true => exact (h.sync t (by rw [hth]; rfl)).2
    | release pc =>
      rw [hth] at hstores
      cases pc with
      | store => exact (h.sync t (by rw [hth]; rfl)).2
      | _ => exact absurd hstores (by simp [Thread.stores])
    | stop pc => exact absurd (h.honest t) (by simp [hth, Thread.honest])
    | idle | reopen => exact absurd hstores (by simp [hth, Thread.stores])
  | _ => exact trivial

/-- A reopen that is about to close the backend has none of the operations behind it that it waits
for: no callout of a command of the device, and no `lock` of a thread of its own. -/
theorem DevSys.Drain.closes (h : s.Drain foreign) (hlock : s.LockInv) (ht : (s.thread t).closes) :
    (∀ c ∈ s.cmds, c.waits) ∧ ¬ foreign ∧
      ∀ u b retries, s.thread u ≠ .acquire b (.locking retries) := by
  have hdrained : (s.thread t).drained := by
    cases hth : s.thread t with
    | reopen a pc =>
      rw [hth] at ht
      cases pc with
      | close => rfl
      | _ => exact absurd ht (by simp [Thread.closes])
    | acquire b pc =>
      rw [hth] at ht
      cases pc with
      | reopen retries pc =>
        cases pc with
        | close => rfl
        | _ => exact absurd ht (by simp [Thread.closes])
      | _ => exact absurd ht (by simp [Thread.closes])
    | _ => exact absurd ht (by simp [hth, Thread.closes])
  have hrec := h.recovery.mpr ⟨t, Thread.recovers_of_drained hdrained⟩
  refine ⟨h.drained t hdrained, fun hforeign => ?_, fun u b retries hu => ?_⟩
  · simp [h.copies hforeign] at hrec
  cases b with
  | true =>
    have hclear := h.locks u (by rw [hu]; rfl)
    simp [hrec] at hclear
  | false =>
    have hacquires : (s.thread u).acquires := by
      rw [hu]
      rfl
    have hlocking := hlock.locking.mpr ⟨u, hacquires⟩
    cases hth : s.thread t with
    | reopen a pc =>
      rw [hth] at ht
      cases pc with
      | close => exact h.past t (by rw [hth]; rfl) hlocking
      | _ => exact absurd ht (by simp [Thread.closes])
    | acquire b pc =>
      cases b with
      | false =>
        -- the lock thread itself closes the backend, and is not in `lock`
        have heq := hlock.unique t u (by rw [hth]; rfl) hacquires
        subst heq
        rw [hu] at ht
        exact absurd ht (by simp [Thread.closes])
      | true => exact (h.sync t (by rw [hth]; rfl)).2 hlocking
    | _ => exact absurd ht (by simp [hth, Thread.closes])

/-- Another device begins or ends a callout on this one. -/
theorem DevSys.Drain.of_foreign {foreign' : Prop} (h : s.Drain foreign)
    (hcopies : foreign' → s.dev.inRecovery = false) : s.Drain foreign' where
  ops := h.ops
  recovery := h.recovery
  unique := h.unique
  drained := h.drained
  past := h.past
  sync := h.sync
  honest := h.honest
  locks := h.locks
  copies := hcopies

theorem DevSys.drain_added : (DevSys.added DevState.fresh).Drain foreign where
  ops := rfl
  recovery := by simp [DevSys.added, DevState.fresh, Thread.recovers, Thread.role, Role.recovers]
  unique := by simp [DevSys.added, Thread.recovers, Thread.role, Role.recovers]
  drained := by simp [DevSys.added]
  past := by simp [DevSys.added, Thread.past]
  sync := by simp [DevSys.added, Thread.sync]
  honest := fun _ => rfl
  locks := fun _ _ => rfl
  copies := fun _ => rfl

end Device

/-! ### All devices -/

/-- The devices of a handler. -/
structure Fleet (ι : Type*) where
  /-- The devices. -/
  sys : ι → DevSys
  /-- The callouts that run for an `EXTENDED COPY` on a device that is not the one it is a command
  of: the device of the command, and the device that is called. -/
  copies : List (ι × ι)

/-- What happens to the devices. -/
inductive FleetEvent (ι : Type*) where
  /-- Something happens to a device. -/
  | dev (i : ι) (e : DevEvent)
  /-- A command of the first device calls the handler for the second one. -/
  | copy (i j : ι)
  /-- Such a call is finished. -/
  | copied (i j : ι)

section Fleet

variable {ι : Type*} [DecidableEq ι]

/-- A device changes. -/
def Fleet.put (s : Fleet ι) (i : ι) (d : DevSys) : Fleet ι :=
  { s with sys := Function.update s.sys i d }

/-- The steps. `xcopy_read_work_fn` and `xcopy_write_work_fn` do not look at the device that they
call. A command has one such call at a time. -/
def Fleet.step (f : ι → Failover) (s : Fleet ι) : FleetEvent ι → Option (Fleet ι)
  | .dev i e => ((s.sys i).step (f i) e).map (s.put i)
  | .copy i j =>
    if i ≠ j ∧ .running 0 0 ∈ (s.sys i).cmds then
      some { s.put i ((s.sys i).replace (.running 0 0) (.running 0 1)) with
        copies := (i, j) :: s.copies }
    else none
  | .copied i j =>
    if (i, j) ∈ s.copies ∧ .running 0 1 ∈ (s.sys i).cmds then
      some { s.put i ((s.sys i).replace (.running 0 1) (.running 0 0)) with
        copies := s.copies.erase (i, j) }
    else none

/-- The devices after they have been added. -/
def Fleet.added : Fleet ι := ⟨fun _ => DevSys.added DevState.fresh, []⟩

/-- Another device has a callout running on this one. -/
def Fleet.Foreign (s : Fleet ι) (i : ι) : Prop := ∃ k, (k, i) ∈ s.copies

/-- The condition waits return only when signalled, and nobody removes a device. -/
def FleetEvent.Signalled (s : Fleet ι) : FleetEvent ι → Prop
  | .dev i e => e.Signalled (s.sys i)
  | _ => True

instance (s : Fleet ι) (e : FleetEvent ι) : Decidable (e.Signalled s) :=
  match e with
  | .dev i e => inferInstanceAs (Decidable (e.Signalled (s.sys i)))
  | .copy .. | .copied .. => isTrue trivial

/-- A callout that the reopens of the device do not wait for does not run during one. -/
def FleetEvent.Covered (s : Fleet ι) : FleetEvent ι → Prop
  | .dev i e => e.Covered (s.sys i) (s.Foreign i)
  | .copy _ j => (s.sys j).dev.inRecovery = false
  | .copied .. => True

/-- The callouts that a command has running on its device. -/
def Cmd.own : Cmd → ℕ
  | .running own _ => own
  | _ => 0

/-- Nothing is running on a device whose backend is about to be closed by a reopen: no callout of
its commands, no callout for a command of another device, and no `lock`. -/
def Fleet.Quiet (s : Fleet ι) : Prop :=
  ∀ i t, ((s.sys i).thread t).closes →
    (∀ c ∈ (s.sys i).cmds, c.own = 0) ∧ ¬ s.Foreign i ∧
      ∀ u b retries, (s.sys i).thread u ≠ .acquire b (.locking retries)

/-- What the reopens rely on. -/
structure Fleet.Inv (s : Fleet ι) : Prop where
  /-- On a device. -/
  drain : ∀ i, (s.sys i).Drain (s.Foreign i)
  /-- `LOCKING` stands for a lock thread. -/
  lock : ∀ i, (s.sys i).LockInv

omit [DecidableEq ι] in
theorem Fleet.Inv.quiet {s : Fleet ι} (h : s.Inv) : s.Quiet := by
  intro i t ht
  obtain ⟨hwaits, hforeign, hlock⟩ := (h.drain i).closes (h.lock i) ht
  refine ⟨fun c hc => ?_, hforeign, hlock⟩
  have hc := hwaits c hc
  cases c with
  | started | refused => rfl
  | checked | running => simp [Cmd.waits] at hc

/-- A device changes, and the others do not. -/
theorem Fleet.forall_put {s : Fleet ι} {i : ι} {d : DevSys} {P : ι → DevSys → Prop} (hd : P i d)
    (h : ∀ j, P j (s.sys j)) : ∀ j, P j ((s.put i d).sys j) := by
  intro j
  change P j (Function.update s.sys i d j)
  by_cases heq : j = i
  · subst heq
    rwa [Function.update_self]
  · rw [Function.update_of_ne heq]
    exact h j

/-- A command that may call the handler begins or ends a call for another device. -/
theorem Fleet.Inv.replace {s : Fleet ι} {i : ι} {c c' : Cmd} {copies : List (ι × ι)} (h : s.Inv)
    (hmem : c ∈ (s.sys i).cmds) (hc : c.waits = false)
    (hcopies : ∀ k j, (k, j) ∈ copies → (s.sys j).dev.inRecovery = false) :
    ({ s.put i ((s.sys i).replace c c') with copies := copies } : Fleet ι).Inv := by
  have hforeign : ∀ j, (s.sys j).Drain (∃ k, (k, j) ∈ copies) := by
    intro j
    refine (h.drain j).of_foreign ?_
    rintro ⟨k, hk⟩
    exact hcopies k j hk
  refine ⟨?_, ?_⟩
  · refine Fleet.forall_put (P := fun j d => d.Drain (∃ k, (k, j) ∈ copies)) ?_ hforeign
    exact (hforeign i).replace hmem fun t ht =>
      absurd ht ((hforeign i).not_drained hmem hc t)
  · exact Fleet.forall_put (P := fun _ d => d.LockInv)
      ⟨(h.lock i).locking, (h.lock i).unique⟩ h.lock

theorem Fleet.Inv.step {f : ι → Failover} {s s' : Fleet ι} {e : FleetEvent ι} (h : s.Inv)
    (hsignalled : e.Signalled s) (hcovered : e.Covered s) (hs : s.step f e = some s') : s'.Inv := by
  have hbefore : ∀ k j, (k, j) ∈ s.copies → (s.sys j).dev.inRecovery = false :=
    fun k j hmem => (h.drain j).copies ⟨k, hmem⟩
  cases e with
  | dev i e =>
    obtain ⟨d, hd, rfl⟩ := Option.map_eq_some_iff.mp hs
    refine ⟨?_, ?_⟩
    · exact Fleet.forall_put (P := fun j d => d.Drain (s.Foreign j))
        (devSys_drain (h.drain i) hsignalled hcovered hd) h.drain
    · exact Fleet.forall_put (P := fun _ d => d.LockInv)
        ((devSys_lockStep ((h.drain i).undisturbed e) hd).inv (h.lock i)) h.lock
  | copy i j =>
    obtain ⟨⟨-, hmem⟩, hs⟩ := Option.ite_none_right_eq_some.mp hs
    obtain rfl := Option.some.inj hs
    refine h.replace hmem rfl fun k l hk => ?_
    rcases List.mem_cons.mp hk with heq | hk
    · obtain ⟨rfl, rfl⟩ := Prod.mk.inj heq
      exact hcovered
    · exact hbefore k l hk
  | copied i j =>
    obtain ⟨⟨-, hmem⟩, hs⟩ := Option.ite_none_right_eq_some.mp hs
    obtain rfl := Option.some.inj hs
    exact h.replace hmem rfl fun k l hk => hbefore k l (List.mem_of_mem_erase hk)

/-- **The backend is closed under nobody.** In every run of the devices of a handler in which the
condition waits return only when signalled, and in which no callout runs during a reopen that the
reopen does not wait for, nothing is running on a device whose backend a reopen is about to
close. -/
theorem closes_quiet {f : ι → Failover} {es : List (FleetEvent ι)} {s : Fleet ι}
    (hsignalled : Meets (Fleet.step f) (fun s e => e.Signalled s) Fleet.added es)
    (hcovered : Meets (Fleet.step f) (fun s e => e.Covered s) Fleet.added es)
    (hrun : run (Fleet.step f) Fleet.added es = some s) : s.Quiet := by
  have hkeep : ∀ (u : Fleet ι) (e : FleetEvent ι) (v : Fleet ι), e.Signalled u ∧ e.Covered u →
      u.Inv → u.step f e = some v → v.Inv := fun u e v he hu hstep => hu.step he.1 he.2 hstep
  have hinit : (Fleet.added : Fleet ι).Inv :=
    ⟨fun _ => DevSys.drain_added, fun _ => DevSys.lockInv_added⟩
  exact (run_invariant_meets hkeep (hsignalled.and hcovered) hinit hrun).quiet

end Fleet

/-- The connection of a device is lost, and its recovery thread gets as far as closing the
backend. -/
def loseConnection (i : Bool) : List (FleetEvent Bool) :=
  .dev i (.connLost (some 1)) :: List.replicate 5 (.dev i (.step 1 0 .ok none []))

theorem closes_quiet_recovery :
    ∃ s, run (Fleet.step fun _ => ⟨false, .allActive⟩) Fleet.added (loseConnection true) = some s ∧
      ((s.sys true).thread 1).closes ∧ s.Quiet := by
  have hsignalled : Meets (Fleet.step fun _ => ⟨false, .allActive⟩) (fun s e => e.Signalled s)
      Fleet.added (loseConnection true) := by decide +kernel
  have hcovered : Meets (Fleet.step fun _ => ⟨false, .allActive⟩) (fun s e => e.Covered s)
      Fleet.added (loseConnection true) := by
    refine ⟨fun _ => ⟨?_, ?_⟩, fun _ h => ?_⟩
    · rintro ⟨k, hk⟩
      simp [Fleet.added] at hk
    · rintro ⟨t, ht⟩
      simp [Fleet.added, DevSys.added, Thread.locks] at ht
    · obtain rfl := Option.some.inj h
      iterate 5
        refine ⟨trivial, fun _ h => ?_⟩
        obtain rfl := Option.some.inj h
      trivial
  exact ⟨_, rfl, rfl, closes_quiet hsignalled hcovered rfl⟩

/-- A command of one device copies to the other one, and is writing there. -/
def copyBegins : List (FleetEvent Bool) :=
  [.dev false .start, .dev false .checkRecovery, .dev false (.checkState none), .copy false true]

/-- `SET TARGET PORT GROUPS`: `lock` is running for the command thread. -/
def stpgLocks : List (FleetEvent Bool) :=
  .dev true .acquire :: List.replicate 3 (.dev true (.step 0 0 .ok none []))

/-- A reopen closes the backend of a device under a copy to it, and under a `lock` of the command
thread. -/
theorem closes_under_copy :
    (∃ s, Meets (Fleet.step fun _ => ⟨false, .allActive⟩) (fun s e => e.Signalled s) Fleet.added
        (copyBegins ++ loseConnection true) ∧
      run (Fleet.step fun _ => ⟨false, .allActive⟩) Fleet.added (copyBegins ++ loseConnection true)
        = some s ∧
      ((s.sys true).thread 1).closes ∧ (false, true) ∈ s.copies ∧ ¬ s.Quiet) ∧
    ∃ s, Meets (Fleet.step fun _ => ⟨true, .explicit⟩) (fun s e => e.Signalled s) Fleet.added
        (stpgLocks ++ loseConnection true) ∧
      run (Fleet.step fun _ => ⟨true, .explicit⟩) Fleet.added (stpgLocks ++ loseConnection true)
        = some s ∧
      ((s.sys true).thread 1).closes ∧
      (s.sys true).thread 0 = .acquire true (.locking 0) ∧ ¬ s.Quiet := by
  refine ⟨⟨_, by decide +kernel, rfl, rfl, List.mem_cons_self .., fun hquiet => ?_⟩,
    ⟨_, by decide +kernel, rfl, rfl, rfl, fun hquiet => ?_⟩⟩
  · exact (hquiet true 1 rfl).2.1 ⟨false, List.mem_cons_self ..⟩
  · exact (hquiet true 1 rfl).2.2 0 true 0 rfl

end Tcmu

end LioProject
