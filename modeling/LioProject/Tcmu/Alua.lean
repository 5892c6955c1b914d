import LioProject.Tcmu.Runner

/-!
# Target port groups and the device lock

The parts of `alua.c` and `tcmur_device.c` that a command can reach: the check of the lock before a
data command (`alua_check_state`), and the commands `SET TARGET PORT GROUPS` and
`REPORT TARGET PORT GROUPS`, with the callouts `lock`, `unlock` and `get_lock_tag` behind them.

A callout that is not defined is not checked where it is called: `control` fails, and it is for the
callers to have looked before.
-/

namespace LioProject

namespace Tcmu

/-- Call a callout that answers at once. -/
def control (h : TcmurHandler) (c : Control) : Daemon (TcmuSts × ℕ) :=
  if c.defined h then ask (.control c) else .fail .nullCallout

/-- Read the state of the device, and write it back changed. -/
def modifyRdev (f : TcmurDevice → TcmurDevice) : Daemon Unit := do
  let r ← ask .getRdev
  ask (.putRdev (f r))

/-! ### The lock -/

/-- The `retry` loop of `tcmu_acquire_dev_lock`. -/
def lockRetry (h : TcmurHandler) (tag : ℕ) : ℕ → Daemon TcmuSts
  | 0 => do
    let (ret, _) ← control h (.lock tag)
    if ret = .fenced ∨ ret = .timeout then ask .connLost
    pure ret
  | retries + 1 => do
    let (ret, _) ← control h (.lock tag)
    if ret = .fenced then
      let reopened ← ask .reopen
      if reopened then lockRetry h tag retries
      else
        ask .connLost
        pure ret
    else
      if ret = .timeout then ask .connLost
      pure ret

/-- `tcmu_acquire_dev_lock`. A queue that cannot be flushed counts as success. -/
def tcmuAcquireDevLock (h : TcmurHandler) (tag : ℕ) : Daemon TcmuSts := do
  let empty ← ask .waitEmpty
  let ret ← if empty then lockRetry h tag 1 else pure .ok
  modifyRdev fun r => { r with lockState := if ret = .ok then .locked else .unlocked }
  pure ret

/-- `tcmu_release_dev_lock`. -/
def tcmuReleaseDevLock (h : TcmurHandler) : Daemon Unit := do
  let r ← ask .getRdev
  if r.lockState ≠ .locked then pure ()
  else
    let _ ← control h .unlock
    modifyRdev fun r => { r with lockState := .unlocked }

/-- The `retry` loop of `tcmu_get_lock_tag`. -/
def lockTagRetry (h : TcmurHandler) : ℕ → Daemon (TcmuSts × ℕ)
  | 0 => do
    let (ret, tag) ← control h .getLockTag
    if ret = .ok ∨ ret = .noLockHolders then pure (ret, tag)
    else
      if ret = .fenced then
        let _ ← ask .reopen
      ask .connLost
      pure (.busy, tag)
  | retries + 1 => do
    let (ret, tag) ← control h .getLockTag
    if ret = .ok ∨ ret = .noLockHolders then pure (ret, tag)
    else if ret = .fenced then
      let reopened ← ask .reopen
      if reopened then lockTagRetry h retries
      else
        ask .connLost
        pure (.busy, tag)
    else
      ask .connLost
      pure (.busy, tag)

/-- `tcmu_get_lock_tag`. -/
def tcmuGetLockTag (h : TcmurHandler) : Daemon (TcmuSts × ℕ) := do
  let r ← ask .getRdev
  if r.failoverType ≠ .explicit then pure (.ok, 0) else lockTagRetry h 1

/-- `alua_implicit_transition`: the lock is acquired by a thread of its own. -/
def aluaImplicitTransition : Daemon TcmuSts := do
  let r ← ask .getRdev
  match r.lockState with
  | .locked => pure .ok
  | .locking => pure .transition
  | .unlocked =>
    ask (.putRdev { r with lockState := .locking })
    let started ← ask .spawnLock
    if started then pure .transition
    else
      ask (.putRdev { r with lockState := .unlocked })
      pure .implTransitionErr

/-- `alua_lock_thread_fn`. -/
def aluaLockThreadFn (h : TcmurHandler) : Daemon Unit := do
  let _ ← tcmuAcquireDevLock h 0xffff
  pure ()

/-- `alua_check_state`. -/
def aluaCheckState (h : TcmurHandler) : Daemon TcmuSts :=
  if !h.lock then pure .ok
  else do
    let r ← ask .getRdev
    match r.failoverType with
    | .explicit => pure (if r.lockState ≠ .locked then .fenced else .ok)
    | .implicit => aluaImplicitTransition
    | .allActive => pure .ok

/-! ### Setting target port groups -/

/-- `alua_set_state`. -/
def aluaSetState (group : AluaGrp) (newState status : ℕ) : Daemon TcmuSts := do
  let written ← ask (.setAlua group.id newState status)
  pure (if written then .ok else .explTransitionErr)

/-- `alua_check_sup_state`. -/
def aluaCheckSupState (state sup : ℕ) : Bool :=
  match state with
  | 0x0 => sup &&& 0x01 ≠ 0
  | 0x1 => sup &&& 0x02 ≠ 0
  | 0x2 => sup &&& 0x04 ≠ 0
  | 0x3 => sup &&& 0x08 ≠ 0
  | _ => false

/-- `tcmu_explicit_transition` of the group with index `i`. -/
def tcmuExplicitTransition (h : TcmurHandler) (groups : List AluaGrp) (i : ℕ) (group : AluaGrp)
    (newState : ℕ) : Daemon TcmuSts :=
  if !aluaCheckSupState newState group.supportedStates then pure .invalidParamList
  else
    match newState with
    | 0x0 =>
      if !h.lock then aluaSetState group newState 0x01
      else do
        let ret ← tcmuAcquireDevLock h group.id
        if ret = .hwErr then pure .explTransitionErr
        else if ret ≠ .ok then pure .busy
        else
          groups.zipIdx.forM fun (other, j) => do
            if j ≠ i then
              let _ ← aluaSetState other 0x2 0x01
          aluaSetState group newState 0x01
    | 0x2 => do
      if h.lock then tcmuReleaseDevLock h
      aluaSetState group newState 0x01
    | _ => pure .invalidParamList

/-- The index of the group that `tcmu_get_enabled_port` finds a port in. -/
def tcmuGetEnabledPort (groups : List AluaGrp) : Option ℕ :=
  groups.findIdx? fun g => g.ports.any id

/-- The loop of `tcmu_emulate_set_tgt_port_grps` over the descriptors from offset `off` on, four
bytes each. -/
def setTgtPortGrps (h : TcmurHandler) (groups : List AluaGrp) (enabled : ℕ) (mem : Mem)
    (buf paramListLen : ℕ) : ℕ → ℕ → Daemon TcmuSts
  | 0, _ => pure .ok
  | fuel + 1, off =>
    if paramListLen ≤ off then pure .ok
    else
      match groups.findIdx? fun g => g.id = mem.be (buf + off + 2) 2 with
      | none => pure .explTransitionErr
      | some i =>
        if i ≠ enabled then pure .hwErr
        else
          match groups[i]? with
          | none => pure .explTransitionErr
          | some group => do
            let ret ← tcmuExplicitTransition h groups i group (mem.byte (buf + off) &&& 0x0f)
            if ret ≠ .ok then pure ret
            else setTgtPortGrps h groups enabled mem buf paramListLen fuel (off + 4)

/-- `tcmu_emulate_set_tgt_port_grps`. -/
def tcmuEmulateSetTgtPortGrps (c : Request) (groups : List AluaGrp) : Daemon TcmuSts :=
  match tcmuGetEnabledPort groups with
  | none => pure .invalidCmd
  | some enabled =>
    let paramListLen := xferLengthOf c.cdb
    if paramListLen = 0 then pure .ok
    else do
      match ← ask (.calloc paramListLen) with
      | none => pure .noResource
      | some buf =>
        if copiedParam paramListLen c.cmd.iov ≠ paramListLen then pure .invalidParamListLen
        else
          let mem ← ask .mem
          setTgtPortGrps c.dev.handler groups enabled (copyParam mem buf paramListLen c.cmd.iov) buf
            paramListLen paramListLen 4

/-- `handle_stpg`. -/
def handleStpg (c : Request) : Daemon TcmuSts := do
  match ← ask .aluaGrps with
  | none => pure .hwErr
  | some groups => tcmuEmulateSetTgtPortGrps c groups

/-! ### Reporting target port groups -/

/-- Drop the lock if another node has taken it: the enabled group is not the active one. -/
def dropLostLock (aoGroupId enabledGroupId : ℕ) (group : AluaGrp) : Daemon Unit :=
  if aoGroupId ≠ group.id ∧ enabledGroupId = group.id then
    modifyRdev fun r =>
      { r with lockState := if r.lockState = .locked then .unlocked else r.lockState }
  else pure ()

/-- One turn of the loop of `alua_sync_state`. -/
def syncGroup (aoGroupId enabledGroupId : ℕ) (group : AluaGrp) : Daemon Unit := do
  dropLostLock aoGroupId enabledGroupId group
  let aluaState := if aoGroupId = group.id then 0x0 else 0x2
  if aluaState = group.state then pure ()
  else
    let _ ← aluaSetState group aluaState 0x02
    pure ()

/-- `alua_sync_state`. -/
def aluaSyncState (h : TcmurHandler) (groups : List AluaGrp) (enabledGroupId : ℕ) :
    Daemon TcmuSts := do
  let r ← ask .getRdev
  if r.failoverType ≠ .explicit ∨ !h.getLockTag then pure .ok
  else
    let (ret, tag) ← tcmuGetLockTag h
    if ret = .noLockHolders then
      groups.forM (syncGroup 0xffff enabledGroupId)
      pure .ok
    else if ret ≠ .ok then pure ret
    else
      groups.forM (syncGroup tag enabledGroupId)
      pure .ok

/-- `tcmu_emulate_report_tgt_port_grps`, up to the text of the report. -/
def tcmuEmulateReportTgtPortGrps (c : Request) (groups : List AluaGrp) : Daemon TcmuSts :=
  match tcmuGetEnabledPort groups with
  | none => pure .invalidCmd
  | some enabled =>
    if xferLengthOf c.cdb < 4 then pure .invalidCdb
    else do
      match ← ask (.calloc (xferLengthOf c.cdb)) with
      | none => pure .noResource
      | some _ => aluaSyncState c.dev.handler groups ((groups[enabled]?.map AluaGrp.id).getD 0)

/-- `handle_rtpg`. -/
def handleRtpg (c : Request) : Daemon TcmuSts := do
  match ← ask .aluaGrps with
  | none => pure .hwErr
  | some groups => tcmuEmulateReportTgtPortGrps c groups

end Tcmu

end LioProject
