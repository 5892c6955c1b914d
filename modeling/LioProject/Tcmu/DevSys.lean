import LioProject.Tcmu.IdleWait
import LioProject.Tcmu.Runner

/-!
# One device and the threads that work on it

The functions of `tcmur_device.c`, `alua.c` and `main.c` that open and close the backend of a device
and take its lock are called by different threads: `__tcmu_reopen_dev` by the recovery thread, by
the thread that acquires the lock and by the command thread, `tcmu_acquire_dev_lock` by a thread of
its own (implicit failover) or by the command thread (`SET TARGET PORT GROUPS`),
`tcmur_stop_device` by whoever removes the device. They share the fields of `struct tcmur_device`,
under `state_lock` and `track_lock`.

Here each of these functions is cut where it takes a lock, waits, or calls the handler. A thread is
at one of the places in between, and a step takes it to the next. What a critical section does, it
does at once. The callouts may return anything, and `pthread_cond_wait` may return at any time.

The command thread is thread 0. Commands are counted from `track_aio_request_start` to
`track_aio_request_finish`. In between a command may have callouts running, on the device or, for
`EXTENDED COPY`, on another one.

A few fields are not in the program: the calls of `open` and `close`, and which acquisitions of the
lock have got it and have not been overtaken by something that takes it away.
-/

namespace LioProject

namespace Tcmu

/-! ### Devices -/

/-- A call of the handler that opens the backend, with its result, or closes it. -/
inductive HandlerCall where
  | opened (ret : ℤ)
  | closed
  deriving DecidableEq, Repr

/-- How a device fails over. -/
structure Failover where
  /-- `failover_is_supported`: the handler defines `lock`. -/
  supported : Bool
  /-- `failover_type`. -/
  type : FailoverType
  deriving DecidableEq, Repr

/-- The fields of `struct tcmur_device` that are shared by the threads. -/
structure DevState where
  /-- `TCMUR_DEV_FLAG_IN_RECOVERY`. -/
  inRecovery : Bool
  /-- `TCMUR_DEV_FLAG_IS_OPEN`. -/
  isOpen : Bool
  /-- `TCMUR_DEV_FLAG_STOPPING`. -/
  stopping : Bool
  /-- `TCMUR_DEV_FLAG_STOPPED`. -/
  stopped : Bool
  /-- `lock_state`. -/
  lockState : LockState
  /-- `track_queue`. -/
  track : TrackAio
  /-- The calls of `open` and `close` so far, the last first. -/
  calls : List HandlerCall
  /-- The last acquisition to finish had got the lock, and nothing has taken it away since. -/
  granted : Bool
  /-- The acquisition that a thread runs has got the lock, and nothing has taken it away since. -/
  obtained : ℕ → Bool

/-- Something has happened that takes the lock away. -/
def DevState.revoke (d : DevState) : DevState :=
  { d with granted := false, obtained := fun _ => false }

/-- The result of a part of `dev_added`: the device, or a clean-up that leaves only the calls. -/
structure Added where
  /-- The calls of `open` and `close`. -/
  calls : List HandlerCall
  /-- The device, if it has been added. -/
  dev : Option DevState

/-- A device whose backend has just been opened. -/
def DevState.fresh : DevState where
  inRecovery := false
  isOpen := true
  stopping := false
  stopped := false
  lockState := .unlocked
  track := setupAioTracking
  calls := [.opened 0]
  granted := false
  obtained := fun _ => false

/-- The part of `dev_added` that opens the backend, where `pthread_cond_init` and `pthread_create`
return `condRet` and `createRet`. -/
def devAddedOpen (openRet condRet createRet : ℤ) : Added :=
  if openRet ≠ 0 then ⟨[.opened openRet], none⟩
  else if condRet < 0 then ⟨[.closed, .opened openRet], none⟩
  else if createRet < 0 then ⟨[.closed, .opened openRet], none⟩
  else ⟨[.opened openRet], some DevState.fresh⟩

/-! ### Waiting -/

/-- What a waiting function does next: it goes on at another place, or returns. -/
inductive Next (α β : Type) where
  | goto (place : α)
  | done (ret : β)
  deriving DecidableEq, Repr

/-- `aio_wait_for_empty_queue`, called by thread `t`. `ret` is what `pthread_cond_init` or
`pthread_cond_wait` returns. -/
def DevState.aioWaitForEmptyQueue (d : DevState) (t : ℕ) (ret : ℤ) :
    WaitPc → DevState × Next WaitPc ℤ
  | .idle => (d, if ret = 0 then .goto .entered else .done ret)
  | .entered =>
    if d.track.trackedAioOps = 0 then (d, .done 0)
    else ({ d with track.isEmptyCond := some t }, .goto (.blocked false))
  | .blocked _ => ({ d with track.isEmptyCond := none }, .done ret)

/-- Where a thread is in `tcmu_cancel_lock_thread`. -/
inductive CancelPc where
  /-- It looks at the lock state. -/
  | look
  /-- It waits for `lock_cond`, and has been signalled or not. -/
  | blocked (signalled : Bool)
  deriving DecidableEq, Repr

/-- `tcmu_cancel_lock_thread`. -/
def DevState.tcmuCancelLockThread (d : DevState) : CancelPc → Next CancelPc Unit
  | .look => if d.lockState = .locking then .goto (.blocked false) else .done ()
  | .blocked _ => .done ()

/-! ### Reopening -/

/-- The arguments of `__tcmu_reopen_dev`. -/
structure ReopenArgs where
  /-- `in_lock_thread`. -/
  inLockThread : Bool
  /-- `retries`. -/
  retries : ℤ
  deriving DecidableEq, Repr

/-- Where a thread is in `__tcmu_reopen_dev`. -/
inductive ReopenPc where
  /-- It waits for the commands. -/
  | wait (pc : WaitPc)
  /-- It looks at `STOPPING`. -/
  | check (ret : ℤ)
  /-- It waits for the lock thread. -/
  | cancel (pc : CancelPc)
  /-- It takes the lock state back. -/
  | dropLock
  /-- It calls `close`. -/
  | close
  /-- It clears `IS_OPEN`, and enters the loop. -/
  | closed
  /-- It calls `open`. -/
  | tryOpen (attempt : ℕ)
  /-- It has called `open`. -/
  | opened (attempt : ℕ) (ret : ℤ)
  deriving DecidableEq, Repr

/-- The head of the loop of `__tcmu_reopen_dev`, and what comes after the loop. -/
def DevState.reopenLoop (d : DevState) (a : ReopenArgs) (ret : ℤ) (attempt : ℕ) :
    DevState × Next ReopenPc ℤ :=
  if ret ≠ 0 ∧ d.stopping = false ∧ (a.retries < 0 ∨ attempt ≤ a.retries) then
    (d, .goto (.tryOpen attempt))
  else ({ d with inRecovery := false }, .done ret)

/-- `-EIO`. -/
def eio : ℤ := -5

/-- `__tcmu_reopen_dev`, called by thread `t`. `ret` is what the callout or the waiting returns. -/
def DevState.reopenStep (d : DevState) (t : ℕ) (a : ReopenArgs) (ret : ℤ) :
    ReopenPc → DevState × Next ReopenPc ℤ
  | .wait pc =>
    match d.aioWaitForEmptyQueue t ret pc with
    | (d, .goto pc) => (d, .goto (.wait pc))
    | (d, .done ret) => (d, .goto (.check ret))
  | .check ret =>
    if ret ≠ 0 then ({ d with inRecovery := false }, .done ret)
    else if d.stopping then ({ d with inRecovery := false }, .done 0)
    else (d, .goto (if a.inLockThread then .dropLock else .cancel .look))
  | .cancel pc =>
    match d.tcmuCancelLockThread pc with
    | .goto pc => (d, .goto (.cancel pc))
    | .done _ => (d, .goto .dropLock)
  | .dropLock =>
    ({ d with lockState := if d.lockState = .locking then .locking else .unlocked }, .goto .close)
  | .close => ({ d.revoke with calls := .closed :: d.calls }, .goto .closed)
  | .closed => ({ d with isOpen := false } : DevState).reopenLoop a eio 0
  | .tryOpen attempt => ({ d with calls := .opened ret :: d.calls }, .goto (.opened attempt ret))
  | .opened attempt ret =>
    ({ d with isOpen := if ret = 0 then true else d.isOpen } : DevState).reopenLoop a ret
      (attempt + 1)

/-- `aio_wait_for_empty_queue` only touches the counters. -/
theorem DevState.aioWait_fst (d : DevState) (t : ℕ) (ret : ℤ) (pc : WaitPc) :
    ∃ q, (d.aioWaitForEmptyQueue t ret pc).1 = { d with track := q } := by
  cases pc with
  | idle => exact ⟨d.track, rfl⟩
  | entered =>
    rw [DevState.aioWaitForEmptyQueue]
    split
    · exact ⟨d.track, rfl⟩
    · exact ⟨_, rfl⟩
  | blocked b => exact ⟨_, rfl⟩

/-- What a step of `__tcmu_reopen_dev` may do. -/
inductive ReopenStep (d : DevState) (t : ℕ) (a : ReopenArgs) (ret : ℤ) :
    ReopenPc → DevState → Next ReopenPc ℤ → Prop
  /-- It goes on waiting for the commands. -/
  | wait {q : TrackAio} {pc pc' : WaitPc}
      (h : d.aioWaitForEmptyQueue t ret pc = ({ d with track := q }, .goto pc')) :
      ReopenStep d t a ret (.wait pc) { d with track := q } (.goto (.wait pc'))
  /-- It has waited for the commands. -/
  | waited {q : TrackAio} {pc : WaitPc} {ret' : ℤ}
      (h : d.aioWaitForEmptyQueue t ret pc = ({ d with track := q }, .done ret')) :
      ReopenStep d t a ret (.wait pc) { d with track := q } (.goto (.check ret'))
  /-- It is turned away. -/
  | away {ret' ret'' : ℤ} (h : ret' ≠ 0 ∨ d.stopping = true) :
      ReopenStep d t a ret (.check ret') { d with inRecovery := false } (.done ret'')
  /-- It is not, and waits for the lock thread. -/
  | pass (hstop : d.stopping = false) (hlock : a.inLockThread = false) :
      ReopenStep d t a ret (.check 0) d (.goto (.cancel .look))
  /-- It is not, and is the lock thread. -/
  | passLock (hstop : d.stopping = false) (hlock : a.inLockThread = true) :
      ReopenStep d t a ret (.check 0) d (.goto .dropLock)
  /-- There is a lock thread. -/
  | block (hlock : d.lockState = .locking) :
      ReopenStep d t a ret (.cancel .look) d (.goto (.cancel (.blocked false)))
  /-- There is none. -/
  | free (hlock : d.lockState ≠ .locking) :
      ReopenStep d t a ret (.cancel .look) d (.goto .dropLock)
  /-- It has waited for the lock thread. -/
  | wake (signalled : Bool) :
      ReopenStep d t a ret (.cancel (.blocked signalled)) d (.goto .dropLock)
  /-- It leaves `LOCKING` alone. -/
  | keepLock (hlock : d.lockState = .locking) :
      ReopenStep d t a ret .dropLock d (.goto .close)
  /-- It takes the lock state back. -/
  | dropLock (hlock : d.lockState ≠ .locking) :
      ReopenStep d t a ret .dropLock { d with lockState := .unlocked } (.goto .close)
  /-- It closes the backend. -/
  | close :
      ReopenStep d t a ret .close { d.revoke with calls := .closed :: d.calls } (.goto .closed)
  /-- It is going to open the backend. -/
  | begin :
      ReopenStep d t a ret .closed { d with isOpen := false } (.goto (.tryOpen 0))
  /-- It is not. -/
  | giveUp :
      ReopenStep d t a ret .closed { d with isOpen := false, inRecovery := false } (.done eio)
  /-- It calls `open`. -/
  | attempt (k : ℕ) :
      ReopenStep d t a ret (.tryOpen k) { d with calls := .opened ret :: d.calls }
        (.goto (.opened k ret))
  /-- It is going to try again. -/
  | retry {k : ℕ} {ret' : ℤ} (hret : ret' ≠ 0) :
      ReopenStep d t a ret (.opened k ret') d (.goto (.tryOpen (k + 1)))
  /-- It is finished. -/
  | finish {k : ℕ} {ret' : ℤ} :
      ReopenStep d t a ret (.opened k ret')
        { d with isOpen := if ret' = 0 then true else d.isOpen, inRecovery := false } (.done ret')

/-- The head of the loop goes on with an `open`, or ends the recovery. -/
theorem DevState.reopenLoop_cases (d : DevState) (a : ReopenArgs) (ret : ℤ) (attempt : ℕ) :
    ret ≠ 0 ∧ d.reopenLoop a ret attempt = (d, .goto (.tryOpen attempt)) ∨
      d.reopenLoop a ret attempt = ({ d with inRecovery := false }, .done ret) := by
  rw [DevState.reopenLoop]
  split
  · rename_i h
    exact Or.inl ⟨h.1, rfl⟩
  · exact Or.inr rfl

section Cases

variable {d d' : DevState} {t : ℕ} {a : ReopenArgs} {ret : ℤ} {n : Next ReopenPc ℤ}

/-- Waiting for the commands. -/
theorem DevState.reopenStep_wait {pc : WaitPc} (h : d.reopenStep t a ret (.wait pc) = (d', n)) :
    ReopenStep d t a ret (.wait pc) d' n := by
  obtain ⟨q, hq⟩ := d.aioWait_fst t ret pc
  rw [DevState.reopenStep] at h
  split at h
  · rename_i hwait
    obtain ⟨rfl, rfl⟩ := Prod.mk.inj h
    rw [hwait] at hq
    obtain rfl : _ = _ := hq
    exact .wait hwait
  · rename_i hwait
    obtain ⟨rfl, rfl⟩ := Prod.mk.inj h
    rw [hwait] at hq
    obtain rfl : _ = _ := hq
    exact .waited hwait

/-- What it looks at when it has waited. -/
theorem DevState.reopenStep_check {ret' : ℤ} (h : d.reopenStep t a ret (.check ret') = (d', n)) :
    ReopenStep d t a ret (.check ret') d' n := by
  rw [DevState.reopenStep] at h
  split at h
  · rename_i hret
    obtain ⟨rfl, rfl⟩ := Prod.mk.inj h
    exact .away (Or.inl hret)
  · rename_i hret
    obtain rfl := not_not.mp hret
    split at h
    · rename_i hstop
      obtain ⟨rfl, rfl⟩ := Prod.mk.inj h
      exact .away (Or.inr hstop)
    · rename_i hstop
      have hstop := Bool.eq_false_of_not_eq_true hstop
      obtain ⟨rfl, rfl⟩ := Prod.mk.inj h
      split
      · rename_i hlock
        exact .passLock hstop hlock
      · rename_i hlock
        exact .pass hstop (Bool.eq_false_of_not_eq_true hlock)

/-- Waiting for the lock thread. -/
theorem DevState.reopenStep_cancel {pc : CancelPc}
    (h : d.reopenStep t a ret (.cancel pc) = (d', n)) :
    ReopenStep d t a ret (.cancel pc) d' n := by
  cases pc with
  | look =>
    rw [DevState.reopenStep, DevState.tcmuCancelLockThread] at h
    by_cases hlock : d.lockState = .locking
    · rw [if_pos hlock] at h
      obtain ⟨rfl, rfl⟩ := Prod.mk.inj h
      exact .block hlock
    · rw [if_neg hlock] at h
      obtain ⟨rfl, rfl⟩ := Prod.mk.inj h
      exact .free hlock
  | blocked signalled =>
    obtain ⟨rfl, rfl⟩ := Prod.mk.inj h
    exact .wake signalled

/-- What becomes of the lock. -/
theorem DevState.reopenStep_dropLock (h : d.reopenStep t a ret .dropLock = (d', n)) :
    ReopenStep d t a ret .dropLock d' n := by
  rw [DevState.reopenStep] at h
  by_cases hlock : d.lockState = .locking
  · rw [if_pos hlock, ← hlock] at h
    obtain ⟨rfl, rfl⟩ := Prod.mk.inj h
    exact .keepLock hlock
  · rw [if_neg hlock] at h
    obtain ⟨rfl, rfl⟩ := Prod.mk.inj h
    exact .dropLock hlock

/-- The head of the loop, for the first time. -/
theorem DevState.reopenStep_closed (h : d.reopenStep t a ret .closed = (d', n)) :
    ReopenStep d t a ret .closed d' n := by
  rw [DevState.reopenStep] at h
  rcases ({ d with isOpen := false } : DevState).reopenLoop_cases a eio 0 with ⟨-, hloop⟩ | hloop
  · rw [hloop] at h
    obtain ⟨rfl, rfl⟩ := Prod.mk.inj h
    exact .begin
  · rw [hloop] at h
    obtain ⟨rfl, rfl⟩ := Prod.mk.inj h
    exact .giveUp

/-- The head of the loop, after an `open`. -/
theorem DevState.reopenStep_opened {attempt : ℕ} {ret' : ℤ}
    (h : d.reopenStep t a ret (.opened attempt ret') = (d', n)) :
    ReopenStep d t a ret (.opened attempt ret') d' n := by
  rw [DevState.reopenStep] at h
  rcases ({ d with isOpen := if ret' = 0 then true else d.isOpen } : DevState
    ).reopenLoop_cases a ret' (attempt + 1) with ⟨hret, hloop⟩ | hloop
  · rw [hloop, if_neg hret] at h
    obtain ⟨rfl, rfl⟩ := Prod.mk.inj h
    exact .retry hret
  · rw [hloop] at h
    obtain ⟨rfl, rfl⟩ := Prod.mk.inj h
    exact .finish

/-- `__tcmu_reopen_dev` does nothing else. -/
theorem DevState.reopenStep_cases {pc : ReopenPc} (h : d.reopenStep t a ret pc = (d', n)) :
    ReopenStep d t a ret pc d' n := by
  cases pc with
  | wait pc => exact reopenStep_wait h
  | check ret' => exact reopenStep_check h
  | cancel pc => exact reopenStep_cancel h
  | dropLock => exact reopenStep_dropLock h
  | close =>
    obtain ⟨rfl, rfl⟩ := Prod.mk.inj h
    exact .close
  | closed => exact reopenStep_closed h
  | tryOpen attempt =>
    obtain ⟨rfl, rfl⟩ := Prod.mk.inj h
    exact .attempt attempt
  | opened attempt ret' => exact reopenStep_opened h

end Cases

/-! ### Acquiring and releasing the lock -/

/-- Where a thread is in `tcmu_acquire_dev_lock`. -/
inductive AcquirePc where
  /-- It waits for the commands. -/
  | wait (pc : WaitPc)
  /-- It calls `lock`. -/
  | lock (retries : ℕ)
  /-- `lock` is running. -/
  | locking (retries : ℕ)
  /-- It calls `tcmu_reopen_dev`. -/
  | enterReopen (retries : ℕ)
  /-- It is in `__tcmu_reopen_dev`. -/
  | reopen (retries : ℕ) (pc : ReopenPc)
  /-- It calls `tcmu_notify_conn_lost`, because `lock` has returned `TCMU_STS_FENCED` or
  `TCMU_STS_TIMEOUT`. -/
  | connLost (fenced : Bool)
  /-- It stores the lock state. -/
  | done (ret : TcmuSts)
  deriving DecidableEq, Repr

/-- What the acquisition does with the result of `lock`. -/
def afterLock (retries : ℕ) : TcmuSts → AcquirePc
  | .fenced => if retries < 1 then .enterReopen retries else .connLost true
  | .timeout => .connLost false
  | ret => .done ret

/-- The end of `tcmu_acquire_dev_lock`. -/
def DevState.acquireDone (d : DevState) (t : ℕ) (ret : TcmuSts) : DevState :=
  { d with lockState := if ret = .ok then .locked else .unlocked
           granted := d.obtained t
           obtained := Function.update d.obtained t false }

/-- Where a thread is in `tcmu_release_dev_lock`. -/
inductive ReleasePc where
  /-- It looks at the lock state. -/
  | look
  /-- It calls `unlock`. -/
  | unlock
  /-- It stores the lock state. -/
  | store
  deriving DecidableEq, Repr

/-- `tcmu_release_dev_lock`. -/
def DevState.releaseStep (d : DevState) : ReleasePc → DevState × Next ReleasePc Unit
  | .look => (d, if d.lockState = .locked then .goto .unlock else .done ())
  | .unlock => (d, .goto .store)
  | .store => ({ d.revoke with lockState := .unlocked }, .done ())

/-- `alua_check_state`: the device, the status, and whether a lock thread is started. `created` says
whether `pthread_create` works. -/
def DevState.aluaCheckState (d : DevState) (f : Failover) (created : Bool) :
    DevState × TcmuSts × Bool :=
  if f.supported then
    match f.type with
    | .explicit => (d, if d.lockState = .locked then .ok else .fenced, false)
    | .implicit =>
      match d.lockState with
      | .locked => (d, .ok, false)
      | .locking => (d, .transition, false)
      | .unlocked =>
        if created then ({ d with lockState := .locking }, .transition, true)
        else ({ d with lockState := .unlocked }, .implTransitionErr, false)
    | .allActive => (d, .ok, false)
  else (d, .ok, false)

/-- The check of the lock state leaves the device alone, or starts a lock thread. -/
theorem DevState.aluaCheckState_cases (d : DevState) (f : Failover) (created : Bool) :
    (∃ sts, d.aluaCheckState f created = (d, sts, false)) ∨
      d.lockState = .unlocked ∧ created = true ∧
        d.aluaCheckState f created = ({ d with lockState := .locking }, .transition, true) := by
  unfold DevState.aluaCheckState
  split
  · split
    · exact Or.inl ⟨_, rfl⟩
    · split
      · exact Or.inl ⟨_, rfl⟩
      · exact Or.inl ⟨_, rfl⟩
      · rename_i hlock
        split
        · rename_i hcreated
          exact Or.inr ⟨hlock, hcreated, rfl⟩
        · exact Or.inl ⟨.implTransitionErr, by rw [← hlock]⟩
    · exact Or.inl ⟨_, rfl⟩
  · exact Or.inl ⟨_, rfl⟩

/-- `tcmu_notify_lock_lost`. -/
def DevState.tcmuNotifyLockLost (d : DevState) : DevState :=
  if d.lockState = .locking then d else { d.revoke with lockState := .unlocked }

/-- What `alua_sync_state` does when another node has taken the lock. -/
def DevState.aluaSyncDrop (d : DevState) : DevState :=
  if d.lockState = .locked then { d.revoke with lockState := .unlocked } else d

/-! ### Stopping -/

/-- Where a thread is in `tcmur_stop_device`. -/
inductive StopPc where
  /-- It sets `STOPPING`. -/
  | enter
  /-- It waits for the lock thread. -/
  | cancel (pc : CancelPc)
  /-- It waits for the recovery thread. -/
  | recovery
  /-- It takes `IS_OPEN`. -/
  | take
  /-- It releases the lock. -/
  | release (pc : ReleasePc)
  /-- It calls `close`. -/
  | close
  /-- It sets `STOPPED`. -/
  | finish
  deriving DecidableEq, Repr

/-- `tcmur_stop_device`. -/
def DevState.stopStep (d : DevState) : StopPc → DevState × Next StopPc Unit
  | .enter =>
    if d.stopped then (d, .done ())
    else ({ d with stopping := true }, .goto (.cancel .look))
  | .cancel pc =>
    match d.tcmuCancelLockThread pc with
    | .goto pc => (d, .goto (.cancel pc))
    | .done _ => (d, .goto .recovery)
  | .recovery => (d, .goto (if d.inRecovery then .recovery else .take))
  | .take =>
    if d.isOpen then ({ d with isOpen := false }, .goto (.release .look))
    else (d, .goto .finish)
  | .release pc =>
    match d.releaseStep pc with
    | (d, .goto pc) => (d, .goto (.release pc))
    | (d, .done _) => (d, .goto .close)
  | .close => ({ d.revoke with calls := .closed :: d.calls }, .goto .finish)
  | .finish => ({ d with stopped := true }, .done ())

/-! ### Threads and commands -/

/-- What a thread is doing. -/
inductive Thread where
  /-- Nothing of interest. -/
  | idle
  /-- `__tcmu_reopen_dev`. -/
  | reopen (args : ReopenArgs) (pc : ReopenPc)
  /-- `tcmu_acquire_dev_lock`, in the command thread or in a thread of its own. -/
  | acquire (isSync : Bool) (pc : AcquirePc)
  /-- `tcmu_release_dev_lock`. -/
  | release (pc : ReleasePc)
  /-- `tcmur_stop_device`. -/
  | stop (pc : StopPc)
  deriving DecidableEq, Repr

/-- A caller of `aio_wait_for_empty_queue` is signalled. -/
def WaitPc.signal : WaitPc → WaitPc
  | .blocked _ => .blocked true
  | pc => pc

@[inherit_doc WaitPc.signal]
def ReopenPc.signalEmpty : ReopenPc → ReopenPc
  | .wait pc => .wait pc.signal
  | pc => pc

@[inherit_doc WaitPc.signal]
def Thread.signalEmpty : Thread → Thread
  | .reopen a pc => .reopen a pc.signalEmpty
  | .acquire b (.wait pc) => .acquire b (.wait pc.signal)
  | .acquire b (.reopen retries pc) => .acquire b (.reopen retries pc.signalEmpty)
  | th => th

/-- A caller of `tcmu_cancel_lock_thread` is signalled. -/
def CancelPc.signal : CancelPc → CancelPc
  | .blocked _ => .blocked true
  | pc => pc

@[inherit_doc CancelPc.signal]
def Thread.signalLock : Thread → Thread
  | .reopen a (.cancel pc) => .reopen a (.cancel pc.signal)
  | .stop (.cancel pc) => .stop (.cancel pc.signal)
  | th => th

/-- A command that is tracked. -/
inductive Cmd where
  /-- `track_aio_request_start` has been called. -/
  | started
  /-- The device is not in recovery. -/
  | checked
  /-- It has been let through, and has callouts running: on its device, and on others. -/
  | running (own away : ℕ)
  /-- It is refused. -/
  | refused (sts : TcmuSts)
  deriving DecidableEq, Repr

/-- A device, its threads and its commands. -/
structure DevSys where
  /-- The device. -/
  dev : DevState
  /-- The threads. Thread 0 is the command thread. -/
  thread : ℕ → Thread
  /-- The commands that are tracked. -/
  cmds : List Cmd

/-- What happens to a device. -/
inductive DevEvent where
  /-- The command thread starts a command: `track_aio_request_start`. -/
  | start
  /-- It looks whether the device is in recovery: `tcmu_dev_in_recovery`. -/
  | checkRecovery
  /-- It checks the lock state for a command: `alua_check_state`. A lock thread would be `created`,
  unless `pthread_create` fails. -/
  | checkState (created : Option ℕ)
  /-- The command is none that tcmu-runner handles. -/
  | unsupported
  /-- A command that has been let through calls the handler: `read`, `write`, `flush` or `unmap`. -/
  | callout (own away : ℕ)
  /-- Such a call is finished. -/
  | called (own away : ℕ)
  /-- A command is finished: `track_aio_request_finish`. -/
  | finish (cmd : Cmd) (asks : Bool)
  /-- A command is finished that has been finished before. -/
  | finishAgain (asks : Bool)
  /-- `tcmu_notify_lock_lost`. -/
  | lockLost
  /-- `tcmu_notify_conn_lost`. If the device can be put on a recovery list, the recovery thread is
  `added`. -/
  | connLost (added : Option ℕ)
  /-- A thread calls `tcmu_reopen_dev`, and is not the one that acquires the lock. The command
  thread does so, without retries, when it cannot reach the device for the lock tag. -/
  | reopenDev (thread : ℕ) (retries : ℤ)
  /-- The command thread calls `tcmu_acquire_dev_lock`: `SET TARGET PORT GROUPS`. -/
  | acquire
  /-- The command thread calls `tcmu_release_dev_lock`: `SET TARGET PORT GROUPS`. -/
  | release
  /-- The command thread sees that another node has the lock: `alua_sync_state`. -/
  | syncDrop
  /-- `dev_removed` sets `STOPPING`. -/
  | removed
  /-- A thread calls `tcmur_stop_device`. -/
  | stop (thread : ℕ)
  /-- A thread does its next step. `ret` and `sts` are what a callout or a wait returns, `added` is
  the recovery thread in `tcmu_notify_conn_lost`, and `woken` are the threads that
  `pthread_cond_signal` wakes up. -/
  | step (thread : ℕ) (ret : ℤ) (sts : TcmuSts) (added : Option ℕ) (woken : List ℕ)
  deriving DecidableEq, Repr

/-- A thread goes on with something else. -/
def DevSys.goto (s : DevSys) (t : ℕ) (th : Thread) : DevSys :=
  { s with thread := Function.update s.thread t th }

/-- Another state of the device. -/
def DevSys.put (s : DevSys) (d : DevState) : DevSys := { s with dev := d }

/-- One command is replaced by another one. -/
def DevSys.replace (s : DevSys) (c c' : Cmd) : DevSys := { s with cmds := c' :: s.cmds.erase c }

/-- `tcmu_notify_conn_lost`. -/
def DevSys.tcmuNotifyConnLost (s : DevSys) (added : Option ℕ) : Option DevSys :=
  if s.dev.stopping ∨ s.dev.inRecovery then some s
  else
    match added with
    | none => some s
    | some r =>
      if s.thread r = .idle ∧ r ≠ 0 then
        some ((s.put { s.dev with inRecovery := true }).goto r (.reopen ⟨false, -1⟩ (.wait .idle)))
      else none

/-- `track_aio_request_finish`, and the thread that it signals. -/
def DevSys.untrack (s : DevSys) (asks : Bool) : Option DevSys := do
  let f ← s.dev.track.trackAioRequestFinish asks
  match f.signalled with
  | none => some (s.put { s.dev with track := f.queue })
  | some w =>
    some ((s.put { s.dev with track := f.queue }).goto w (s.thread w).signalEmpty)

/-- `pthread_cond_signal` of `lock_cond` wakes up these threads. -/
def DevSys.wakeLock (s : DevSys) (woken : List ℕ) : DevSys :=
  { s with thread := fun t => if t ∈ woken then (s.thread t).signalLock else s.thread t }

/-- A step of a thread in `tcmu_acquire_dev_lock`. -/
def DevSys.acquireStep (s : DevSys) (t : ℕ) (isSync : Bool) (ret : ℤ) (sts : TcmuSts)
    (added : Option ℕ) (woken : List ℕ) : AcquirePc → Option DevSys
  | .wait pc =>
    match s.dev.aioWaitForEmptyQueue t ret pc with
    | (d, .goto pc) => some ((s.put d).goto t (.acquire isSync (.wait pc)))
    | (d, .done ret) =>
      -- `ret` of the function is still `TCMU_STS_OK` when the queue cannot be flushed
      some ((s.put d).goto t (.acquire isSync (if ret = 0 then .lock 0 else .done .ok)))
  | .lock retries => some (s.goto t (.acquire isSync (.locking retries)))
  | .locking retries =>
    let obtained := if sts = .ok then Function.update s.dev.obtained t true else s.dev.obtained
    some ((s.put { s.dev with obtained := obtained }).goto t
      (.acquire isSync (afterLock retries sts)))
  | .enterReopen retries =>
    if s.dev.inRecovery then some (s.goto t (.acquire isSync (.connLost true)))
    else
      some ((s.put { s.dev with inRecovery := true }).goto t
        (.acquire isSync (.reopen retries (.wait .idle))))
  | .reopen retries pc =>
    match s.dev.reopenStep t ⟨true, 0⟩ ret pc with
    | (d, .goto pc) => some ((s.put d).goto t (.acquire isSync (.reopen retries pc)))
    | (d, .done ret) =>
      some ((s.put d).goto t
        (.acquire isSync (if ret = 0 then .lock (retries + 1) else .connLost true)))
  | .connLost fenced => do
    let s' ← s.tcmuNotifyConnLost added
    some (s'.goto t (.acquire isSync (.done (if fenced then .fenced else .timeout))))
  | .done ret =>
    some (((s.put (s.dev.acquireDone t ret)).wakeLock woken).goto t .idle)

/-- A step of a thread. -/
def DevSys.threadStep (s : DevSys) (t : ℕ) (ret : ℤ) (sts : TcmuSts) (added : Option ℕ)
    (woken : List ℕ) : Option DevSys :=
  match s.thread t with
  | .idle => none
  | .reopen a pc =>
    match s.dev.reopenStep t a ret pc with
    | (d, .goto pc) => some ((s.put d).goto t (.reopen a pc))
    | (d, .done _) => some ((s.put d).goto t .idle)
  | .acquire isSync pc => s.acquireStep t isSync ret sts added woken pc
  | .release pc =>
    match s.dev.releaseStep pc with
    | (d, .goto pc) => some ((s.put d).goto t (.release pc))
    | (d, .done _) => some ((s.put d).goto t .idle)
  | .stop pc =>
    match s.dev.stopStep pc with
    | (d, .goto pc) => some ((s.put d).goto t (.stop pc))
    | (d, .done _) => some ((s.put d).goto t .idle)

/-- `alua_check_state` for a command, with the lock thread that it may start. -/
def DevSys.checkState (s : DevSys) (f : Failover) (created : Option ℕ) : Option DevSys :=
  match s.dev.aluaCheckState f created.isSome with
  | (d, sts, spawned) =>
    let s' := (s.put d).replace .checked (if sts = .ok then .running 0 0 else .refused sts)
    match spawned, created with
    | true, some t =>
      if s.thread t = .idle ∧ t ≠ 0 then some (s'.goto t (.acquire false (.wait .idle))) else none
    | _, _ => some s'

/-- The steps. The command thread takes part in some of them only when it is not doing something
else. -/
def DevSys.step (f : Failover) (s : DevSys) : DevEvent → Option DevSys
  | .start =>
    if s.thread 0 = .idle then
      some { s with dev.track := s.dev.track.trackAioRequestStart, cmds := .started :: s.cmds }
    else none
  | .checkRecovery =>
    if s.thread 0 = .idle ∧ .started ∈ s.cmds then
      some (s.replace .started (if s.dev.inRecovery then .refused .busy else .checked))
    else none
  | .checkState created =>
    if s.thread 0 = .idle ∧ .checked ∈ s.cmds then s.checkState f created else none
  | .unsupported =>
    if s.thread 0 = .idle ∧ .checked ∈ s.cmds then
      some (s.replace .checked (.refused .notHandled))
    else none
  | .callout own away =>
    if .running own away ∈ s.cmds then
      some (s.replace (.running own away) (.running (own + 1) away))
    else none
  | .called own away =>
    if .running (own + 1) away ∈ s.cmds then
      some (s.replace (.running (own + 1) away) (.running own away))
    else none
  | .finish cmd asks =>
    match cmd with
    | .refused _ | .running 0 0 =>
      if cmd ∈ s.cmds then ({ s with cmds := s.cmds.erase cmd } : DevSys).untrack asks else none
    | _ => none
  | .finishAgain asks => s.untrack asks
  | .lockLost => some (s.put s.dev.tcmuNotifyLockLost)
  | .connLost added => s.tcmuNotifyConnLost added
  | .reopenDev t retries =>
    if s.thread t = .idle then
      if s.dev.inRecovery then some s
      else
        some ((s.put { s.dev with inRecovery := true }).goto t
          (.reopen ⟨false, retries⟩ (.wait .idle)))
    else none
  | .acquire =>
    if s.thread 0 = .idle ∧ f.supported then
      some (s.goto 0 (.acquire true (.wait .idle)))
    else none
  | .release =>
    if s.thread 0 = .idle ∧ f.supported then some (s.goto 0 (.release .look)) else none
  | .syncDrop =>
    if s.thread 0 = .idle ∧ f.type = .explicit then some (s.put s.dev.aluaSyncDrop)
    else none
  | .removed => some (s.put { s.dev with stopping := true })
  | .stop t => if s.thread t = .idle then some (s.goto t (.stop .enter)) else none
  | .step t ret sts added woken => s.threadStep t ret sts added woken

/-! ### What a step may do -/

/-- `tcmu_notify_conn_lost` does nothing, or gives a reopen to a thread. -/
theorem DevSys.connLost_cases {s s' : DevSys} {added : Option ℕ}
    (h : s.tcmuNotifyConnLost added = some s') :
    s' = s ∨ ∃ r, s.dev.inRecovery = false ∧ s.thread r = .idle ∧ r ≠ 0 ∧
      s' = (s.put { s.dev with inRecovery := true }).goto r
        (.reopen ⟨false, -1⟩ (.wait .idle)) := by
  unfold DevSys.tcmuNotifyConnLost at h
  split at h
  · exact Or.inl (Option.some.inj h).symm
  · rename_i hclear
    split at h
    · exact Or.inl (Option.some.inj h).symm
    · rename_i r
      obtain ⟨hidle, hs⟩ := Option.ite_none_right_eq_some.mp h
      have hrec : s.dev.inRecovery = false :=
        Bool.eq_false_of_not_eq_true fun hrec => hclear (Or.inr hrec)
      exact Or.inr ⟨r, hrec, hidle.1, hidle.2, (Option.some.inj hs).symm⟩

/-- `track_aio_request_finish` may signal a thread. -/
theorem DevSys.untrack_cases {s s' : DevSys} {asks : Bool} (h : s.untrack asks = some s') :
    ∃ f, s.dev.track.trackAioRequestFinish asks = some f ∧
      (f.signalled = none ∧ s' = s.put { s.dev with track := f.queue } ∨
        ∃ w, f.signalled = some w ∧
          s' = (s.put { s.dev with track := f.queue }).goto w (s.thread w).signalEmpty) := by
  obtain ⟨f, hf, hs⟩ := Option.bind_eq_some_iff.mp h
  refine ⟨f, hf, ?_⟩
  split at hs
  · rename_i hnone
    exact Or.inl ⟨hnone, (Option.some.inj hs).symm⟩
  · rename_i w hsome
    exact Or.inr ⟨w, hsome, (Option.some.inj hs).symm⟩

/-- What a step of `tcmu_acquire_dev_lock` may do. -/
inductive AcquireStep (s : DevSys) (t : ℕ) (isSync : Bool) (ret : ℤ) (sts : TcmuSts)
    (woken : List ℕ) : AcquirePc → DevSys → Prop
  /-- It goes on waiting for the commands. -/
  | wait {q : TrackAio} {pc pc' : WaitPc}
      (h : s.dev.aioWaitForEmptyQueue t ret pc = ({ s.dev with track := q }, .goto pc')) :
      AcquireStep s t isSync ret sts woken (.wait pc)
        ((s.put { s.dev with track := q }).goto t (.acquire isSync (.wait pc')))
  /-- It has waited for the commands. -/
  | waited {q : TrackAio} {pc : WaitPc}
      (h : s.dev.aioWaitForEmptyQueue t ret pc = ({ s.dev with track := q }, .done 0)) :
      AcquireStep s t isSync ret sts woken (.wait pc)
        ((s.put { s.dev with track := q }).goto t (.acquire isSync (.lock 0)))
  /-- It could not wait for the commands. -/
  | unflushed {q : TrackAio} {pc : WaitPc} {ret' : ℤ} (hret : ret' ≠ 0)
      (h : s.dev.aioWaitForEmptyQueue t ret pc = ({ s.dev with track := q }, .done ret')) :
      AcquireStep s t isSync ret sts woken (.wait pc)
        ((s.put { s.dev with track := q }).goto t (.acquire isSync (.done .ok)))
  /-- It calls `lock`. -/
  | lock (retries : ℕ) :
      AcquireStep s t isSync ret sts woken (.lock retries)
        (s.goto t (.acquire isSync (.locking retries)))
  /-- It has got the lock. -/
  | locked {retries : ℕ} (hsts : sts = .ok) :
      AcquireStep s t isSync ret sts woken (.locking retries)
        ((s.put { s.dev with obtained := Function.update s.dev.obtained t true }).goto t
          (.acquire isSync (.done .ok)))
  /-- It has not got the lock, and may try something else. -/
  | unlocked {retries : ℕ} {pc : AcquirePc}
      (hpc : pc = .enterReopen retries ∨ (∃ fenced, pc = .connLost fenced) ∨
        ∃ sts', sts' ≠ .ok ∧ pc = .done sts') :
      AcquireStep s t isSync ret sts woken (.locking retries) (s.goto t (.acquire isSync pc))
  /-- Somebody else is in a reopen. -/
  | busy {retries : ℕ} (hrec : s.dev.inRecovery = true) :
      AcquireStep s t isSync ret sts woken (.enterReopen retries)
        (s.goto t (.acquire isSync (.connLost true)))
  /-- It begins a reopen. -/
  | enter {retries : ℕ} (hrec : s.dev.inRecovery = false) :
      AcquireStep s t isSync ret sts woken (.enterReopen retries)
        ((s.put { s.dev with inRecovery := true }).goto t
          (.acquire isSync (.reopen retries (.wait .idle))))
  /-- It goes on with the reopen. -/
  | reopen {retries : ℕ} {pc pc' : ReopenPc} {d : DevState}
      (h : ReopenStep s.dev t ⟨true, 0⟩ ret pc d (.goto pc')) :
      AcquireStep s t isSync ret sts woken (.reopen retries pc)
        ((s.put d).goto t (.acquire isSync (.reopen retries pc')))
  /-- The reopen is finished, and the acquisition goes on. -/
  | reopened {retries : ℕ} {pc : ReopenPc} {d : DevState} {ret' : ℤ} {pc' : AcquirePc}
      (h : ReopenStep s.dev t ⟨true, 0⟩ ret pc d (.done ret'))
      (hpc : pc' = .lock (retries + 1) ∨ pc' = .connLost true) :
      AcquireStep s t isSync ret sts woken (.reopen retries pc)
        ((s.put d).goto t (.acquire isSync pc'))
  /-- Its notice of the lost connection has no effect. -/
  | noticed {fenced : Bool} {sts' : TcmuSts} (hsts : sts' ≠ .ok) :
      AcquireStep s t isSync ret sts woken (.connLost fenced)
        (s.goto t (.acquire isSync (.done sts')))
  /-- Its notice of the lost connection gives a reopen to a thread. -/
  | connLost {fenced : Bool} {sts' : TcmuSts} {r : ℕ} (hsts : sts' ≠ .ok)
      (hrec : s.dev.inRecovery = false) (hidle : s.thread r = .idle) (hr : r ≠ 0) :
      AcquireStep s t isSync ret sts woken (.connLost fenced)
        (((s.put { s.dev with inRecovery := true }).goto r
          (.reopen ⟨false, -1⟩ (.wait .idle))).goto t (.acquire isSync (.done sts')))
  /-- It stores the lock state. -/
  | done (sts' : TcmuSts) :
      AcquireStep s t isSync ret sts woken (.done sts')
        (((s.put (s.dev.acquireDone t sts')).wakeLock woken).goto t .idle)

/-- `tcmu_acquire_dev_lock` does nothing else. -/
theorem DevSys.acquireStep_cases {s s' : DevSys} {t : ℕ} {isSync : Bool} {ret : ℤ} {sts : TcmuSts}
    {added : Option ℕ} {woken : List ℕ} {pc : AcquirePc}
    (h : s.acquireStep t isSync ret sts added woken pc = some s') :
    AcquireStep s t isSync ret sts woken pc s' := by
  cases pc with
  | wait pc =>
    obtain ⟨q, hq⟩ := s.dev.aioWait_fst t ret pc
    rw [DevSys.acquireStep] at h
    split at h
    · rename_i hwait
      rw [hwait] at hq
      obtain rfl : _ = _ := hq
      obtain rfl := Option.some.inj h
      exact .wait hwait
    · rename_i hwait
      rw [hwait] at hq
      obtain rfl : _ = _ := hq
      obtain rfl := Option.some.inj h
      split
      · rename_i hret
        subst hret
        exact .waited hwait
      · rename_i hret
        exact .unflushed hret hwait
  | lock retries =>
    obtain rfl := Option.some.inj h
    exact .lock retries
  | locking retries =>
    obtain rfl := Option.some.inj h
    by_cases hsts : sts = .ok
    · subst hsts
      exact .locked rfl
    · dsimp only
      rw [if_neg hsts]
      refine .unlocked ?_
      unfold afterLock
      split
      · split
        · exact Or.inl rfl
        · exact Or.inr (Or.inl ⟨true, rfl⟩)
      · exact Or.inr (Or.inl ⟨false, rfl⟩)
      · exact Or.inr (Or.inr ⟨_, hsts, rfl⟩)
  | enterReopen retries =>
    rw [DevSys.acquireStep] at h
    split at h
    · rename_i hrec
      obtain rfl := Option.some.inj h
      exact .busy hrec
    · rename_i hrec
      obtain rfl := Option.some.inj h
      exact .enter (Bool.eq_false_of_not_eq_true hrec)
  | reopen retries pc =>
    rw [DevSys.acquireStep] at h
    split at h
    · rename_i hreopen
      obtain rfl := Option.some.inj h
      exact .reopen (DevState.reopenStep_cases hreopen)
    · rename_i hreopen
      obtain rfl := Option.some.inj h
      refine .reopened (DevState.reopenStep_cases hreopen) ?_
      split
      · exact Or.inl rfl
      · exact Or.inr rfl
  | connLost fenced =>
    obtain ⟨u, hu, hs⟩ := Option.bind_eq_some_iff.mp h
    obtain rfl := Option.some.inj hs
    have hsts : (if fenced then TcmuSts.fenced else .timeout) ≠ .ok := by
      split <;> simp
    rcases DevSys.connLost_cases hu with rfl | ⟨r, hrec, hidle, hr, rfl⟩
    · exact .noticed hsts
    · exact .connLost hsts hrec hidle hr
  | done sts' =>
    obtain rfl := Option.some.inj h
    exact .done sts'

/-- The check of the lock state lets a command through or refuses it, and starts a thread to acquire
the lock if there is none. -/
theorem DevSys.checkState_eq_some {f : Failover} {s s' : DevSys} {created : Option ℕ}
    (h : s.checkState f created = some s') :
    (∃ c, (c = .running 0 0 ∨ ∃ sts, c = .refused sts) ∧ s' = s.replace .checked c) ∨
      ∃ t, s.dev.lockState = .unlocked ∧ s.thread t = .idle ∧ t ≠ 0 ∧
        s' = (((s.put { s.dev with lockState := .locking }).replace .checked
          (.refused .transition)).goto t (.acquire false (.wait .idle))) := by
  rcases s.dev.aluaCheckState_cases f created.isSome with ⟨sts, hcheck⟩ | ⟨hlock, hcreated, hcheck⟩
  · unfold DevSys.checkState at h
    rw [hcheck] at h
    obtain rfl := Option.some.inj h
    refine Or.inl ⟨if sts = .ok then .running 0 0 else .refused sts, ?_, rfl⟩
    split
    · exact Or.inl rfl
    · exact Or.inr ⟨sts, rfl⟩
  · obtain ⟨t, rfl⟩ := Option.isSome_iff_exists.mp hcreated
    unfold DevSys.checkState at h
    rw [hcheck] at h
    obtain ⟨hidle, hs⟩ := Option.ite_none_right_eq_some.mp h
    obtain rfl := Option.some.inj hs
    exact Or.inr ⟨t, hlock, hidle.1, hidle.2, rfl⟩

/-- A command that is finished has no callouts running. -/
theorem DevSys.finish_eq_some {f : Failover} {s s' : DevSys} {cmd : Cmd} {asks : Bool}
    (h : s.step f (.finish cmd asks) = some s') :
    (cmd ∈ s.cmds ∧ ((∃ sts, cmd = .refused sts) ∨ cmd = .running 0 0)) ∧
      ({ s with cmds := s.cmds.erase cmd } : DevSys).untrack asks = some s' := by
  unfold DevSys.step at h
  dsimp only at h
  split at h
  · rename_i sts
    obtain ⟨hmem, hs⟩ := Option.ite_none_right_eq_some.mp h
    exact ⟨⟨hmem, Or.inl ⟨sts, rfl⟩⟩, hs⟩
  · obtain ⟨hmem, hs⟩ := Option.ite_none_right_eq_some.mp h
    exact ⟨⟨hmem, Or.inr rfl⟩, hs⟩
  · exact absurd h (by simp)

/-- A device that has just been added. -/
def DevSys.added (d : DevState) : DevSys := ⟨d, fun _ => .idle, []⟩

end Tcmu

end LioProject
