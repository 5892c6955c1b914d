import LioProject.Tcmu.Alua
import LioProject.Tcmu.Xcopy

/-!
# Command handling

The functions of `tcmur_cmd_handler.c`, and `async_handle_cmd` and the work queue of `tcmur_aio.c`,
as programs over the operations of the runner.

A multi-step command goes from its handler to a work function, from there to a callout, from there
to a callback, and on to the next work function. The work functions differ in the call they make
(`Job.callout`), and the callbacks are collected in `Job.done`.

Numbers are computed in the types of the source: a product of two `uint32_t` is one of 32 bits, one
with a `uint64_t` is one of 64 bits, and so on. Freeing memory is left out, except that of a
`struct unmap_state`, which the callbacks of the sub-commands look at.
-/

namespace LioProject

namespace Tcmu

/-! ### Arithmetic -/

/-- Subtraction in a `uint64_t`. -/
def sub64 (a b : ℕ) : ℕ := (a + 2 ^ 64 - b) % 2 ^ 64

/-- Subtraction in a `uint32_t`. -/
def sub32 (a b : ℕ) : ℕ := (a + 2 ^ 32 - b) % 2 ^ 32

theorem sub64_eq {a b : ℕ} (hb : b ≤ a) (ha : a < 2 ^ 64) : sub64 a b = a - b := by
  rw [sub64]
  omega

theorem sub32_eq {a b : ℕ} (hb : b ≤ a) (ha : a < 2 ^ 32) : sub32 a b = a - b := by
  rw [sub32]
  omega

/-- `round_up`. -/
def roundUp (a b : ℕ) : Daemon ℕ :=
  if b = 0 then .fail .divByZero else pure ((a + (b - 1)) % 2 ^ 64 / b * b % 2 ^ 64)

/-- `cmp_offset != -1`, for the offset that `tcmu_compare_with_iovec` returns in a `uint32_t`. -/
def cmpOffset (offset : Option ℕ) : Option ℕ :=
  offset.bind fun o => if o % 2 ^ 32 = 2 ^ 32 - 1 then none else some (o % 2 ^ 32)

/-! ### Dispatching -/

/-- The device that a sub-command is for. -/
def Job.dev (c : Request) : Job → TcmuDev
  | .xcopyRead s => s.srcDev
  | .xcopyWrite s => s.dstDev
  | _ => c.dev

/-- The call that the work function of a sub-command makes: `read_work_fn`, `write_work_fn`,
`flush_work_fn`, `unmap_work_fn`, `writesame_work_fn`, `xcopy_read_work_fn`, `xcopy_write_work_fn`
and `format_unit_work_fn`. The command that `handle_format_unit` allocates has no CDB. -/
def Job.callout (c : Request) : Job → Callout
  | .read => .read c.dev c.cmd.cdb c.cmd.iov (tcmuIovecLength c.cmd.iov)
      (c.dev.geo.blockSize * lbaOf c.cdb % 2 ^ 64)
  | .write => .write c.dev c.cmd.cdb c.cmd.iov (tcmuIovecLength c.cmd.iov)
      (c.dev.geo.blockSize * lbaOf c.cdb % 2 ^ 64)
  | .flush => .flush c.dev c.cmd.cdb
  | .unmap offset length => .unmap c.dev offset length
  | .writesame s => .write c.dev c.cmd.cdb [⟨s.iovBase, s.iovLen⟩] s.iovLen
      (c.dev.geo.blockSize * s.curLba % 2 ^ 64)
  | .verifyWrite _ => .write c.dev c.cmd.cdb c.cmd.iov (tcmuIovecLength c.cmd.iov)
      (c.dev.geo.blockSize * lbaOf c.cdb % 2 ^ 64)
  | .verifyRead s => .read c.dev c.cmd.cdb [⟨s.readBuf, s.requested⟩] s.requested
      (c.dev.geo.blockSize * lbaOf c.cdb % 2 ^ 64)
  | .cawRead s => .read c.dev c.cmd.cdb [⟨s.readBuf, s.requested⟩] s.requested
      (c.dev.geo.blockSize * lbaOf c.cdb % 2 ^ 64)
  | .cawWrite iov => .write c.dev c.cmd.cdb iov (tcmuIovecLength iov)
      (c.dev.geo.blockSize * lbaOf c.cdb % 2 ^ 64)
  | .xcopyRead s => .read s.srcDev c.cmd.cdb [⟨s.iovBase, s.iovLen⟩] s.iovLen
      (s.srcDev.geo.blockSize * s.srcLba % 2 ^ 64)
  | .xcopyWrite s => .write s.dstDev c.cmd.cdb [⟨s.iovBase, s.iovLen⟩] s.iovLen
      (s.dstDev.geo.blockSize * s.dstLba % 2 ^ 64)
  | .format s => .write c.dev none [⟨s.writeBuf, s.length⟩] s.length s.offset

/-- The work function of a sub-command. -/
def Job.work (c : Request) (j : Job) : Daemon Reply :=
  if (j.callout c).defined then ask (.io j (j.callout c)) else .fail .nullCallout

/-- `async_handle_cmd`, with `aio_schedule`. -/
def asyncHandleCmd (c : Request) (j : Job) : Daemon TcmuSts :=
  if (j.dev c).handler.nrThreads = 0 then do
    match ← j.work c with
    -- sub-commands of an unmap are dispatched with `state->lock` held, and their callback takes it
    | .queued now => if now && j.isUnmap then .fail .deadlock else pure .asyncHandled
    | .failed e => pure e.sts
  else do
    if ← ask .alloc then
      ask (.enqueue j)
      pure .asyncHandled
    else pure .noResource

/-- `aio_command_finish`, up to waking up the kernel. -/
def aioCommandFinish (ret : TcmuSts) : Daemon Unit := do
  ask (.complete ret)
  ask .trackFinish

/-- Finish the command unless the next sub-command has been dispatched. -/
def finishUnlessAsync (ret : TcmuSts) : Daemon Unit :=
  if ret = .asyncHandled then pure () else aioCommandFinish ret

/-! ### Unmapping -/

/-- The state of an unmap after one of its sub-commands has been called back. The first error is
kept. -/
def UnmapState.called (s : UnmapState) (ret : TcmuSts) : UnmapState :=
  { refcount := sub32 s.refcount 1
    error := s.error || ret ≠ .ok
    status := if s.error = false ∧ ret ≠ .ok then ret else s.status }

/-- `handle_unmap_cbk`. -/
def handleUnmapCbk (ret : TcmuSts) : Daemon Unit := do
  match ← ask .getUnmap with
  | none => .fail .useAfterFree
  | some s =>
    if (s.called ret).refcount > 0 then ask (.putUnmap (s.called ret))
    else
      ask .freeUnmap
      aioCommandFinish (if (s.called ret).error then (s.called ret).status else ret)

/-- The loop of `align_and_split_unmap`: dispatch a sub-command of `lbas` blocks, and then one of
`opt_unmap_gran` blocks after the other. The result comes with `state->refcount`, which nobody else
looks at while `state->lock` is held. -/
def splitUnmap (c : Request) : ℕ → ℕ → ℕ → ℕ → ℕ → TcmuSts → Daemon (TcmuSts × ℕ)
  | 0, _, _, _, _, _ => .fail .endless
  | fuel + 1, lba, nlbas, lbas, refcount, ret =>
    if nlbas = 0 then pure (ret, refcount)
    else do
      if !(← ask .alloc) then pure (.noResource, refcount)
      else if !(← ask .alloc) then pure (.noResource, refcount)
      else
        let ret ← asyncHandleCmd c
          (.unmap (lba * c.dev.geo.blockSize % 2 ^ 64) (lbas * c.dev.geo.blockSize % 2 ^ 64))
        if ret ≠ .asyncHandled then pure (ret, refcount)
        else
          splitUnmap c fuel ((lba + lbas) % 2 ^ 64) (nlbas - lbas)
            (min c.dev.geo.optUnmapGran (nlbas - lbas)) ((refcount + 1) % 2 ^ 32) ret

/-- `align_and_split_unmap`. -/
def alignAndSplitUnmap (c : Request) (lba nlbas refcount : ℕ) : Daemon (TcmuSts × ℕ) :=
  let mask := sub64 c.dev.geo.unmapGranAlign 1
  let lbas := min (sub64 c.dev.geo.optUnmapGran (lba &&& mask)) nlbas
  splitUnmap c (nlbas + 2) lba nlbas lbas refcount .notHandled

/-- The loop of `handle_unmap_internal` over `n` block descriptors, of which the first is at address
`a`. -/
def unmapDescs (c : Request) (mem : Mem) : ℕ → ℕ → ℕ → TcmuSts → Daemon (TcmuSts × ℕ)
  | 0, _, refcount, ret => pure (ret, refcount)
  | n + 1, a, refcount, _ => do
    let lba := mem.be a 8
    let nlbas := mem.be (a + 8) 4
    if nlbas > 32 * 1024 * 1024 then pure (.invalidParamList, refcount)
    else if checkLbas c.dev.geo lba nlbas ≠ .ok then pure (checkLbas c.dev.geo lba nlbas, refcount)
    else if nlbas = 0 then unmapDescs c mem n (a + 16) refcount .ok
    else
      let (ret, refcount) ← alignAndSplitUnmap c lba nlbas refcount
      if ret ≠ .asyncHandled then pure (ret, refcount)
      else unmapDescs c mem n (a + 16) refcount ret

/-- `handle_unmap_internal`, for a parameter list at address `par`. -/
def handleUnmapInternal (c : Request) (mem : Mem) (bddl par : ℕ) : Daemon TcmuSts := do
  let (ret, refcount) ← unmapDescs c mem (bddl / 16) (par + 8) 0 .ok
  if refcount ≠ 0 then
    -- the callbacks will return the error
    ask (.putUnmap ⟨refcount, ret ≠ .asyncHandled, ret⟩)
    pure .asyncHandled
  else
    ask .freeUnmap
    pure ret

/-- `unmap_state_alloc`: the status to return if it fails. -/
def unmapStateAlloc : Daemon (Option TcmuSts) := do
  if !(← ask .alloc) then pure (some .noResource)
  else if !(← ask .mutexInit) then pure (some .hwErr)
  else pure none

/-- `handle_unmap`. -/
def handleUnmap (c : Request) : Daemon TcmuSts :=
  let dataLength := xferLengthOf c.cdb
  if byteAt c.cdb 1 &&& 0x01 ≠ 0 then pure .invalidCdb
  else if dataLength = 0 then pure .ok
  else if dataLength < 8 then pure .invalidParamListLen
  else do
    match ← ask (.calloc dataLength) with
    | none => pure .noResource
    | some par =>
      if copiedParam dataLength c.cmd.iov ≠ dataLength then pure .invalidParamListLen
      else
        let mem := copyParam (← ask .mem) par dataLength c.cmd.iov
        -- the last descriptor, if incomplete, is ignored
        let bddl := mem.be (par + 2) 2 / 16 * 16
        if bddl = 0 then pure .ok
        else if bddl / 16 > 4 then pure .invalidParamList
        else
          match ← unmapStateAlloc with
          | some sts => pure sts
          | none => handleUnmapInternal c mem bddl par

/-! ### Write same -/

/-- `handle_writesame_cbk`. -/
def handleWritesameCbk (c : Request) (s : WriteSame) (ret : TcmuSts) : Daemon Unit :=
  let writeLbas := s.iovLen / c.dev.geo.blockSize
  let curLba := (s.curLba + writeLbas) % 2 ^ 64
  let leftLbas := sub64 s.lbaCnt writeLbas
  if ret ≠ .ok then aioCommandFinish ret
  else if leftLbas = 0 then aioCommandFinish ret
  else do
    let iovLen := if leftLbas ≤ writeLbas then leftLbas * c.dev.geo.blockSize % 2 ^ 64 else s.iovLen
    let rc ← asyncHandleCmd c (.writesame ⟨curLba, leftLbas, s.iovBase, iovLen⟩)
    if rc ≠ .asyncHandled then aioCommandFinish .wrErr

/-- `handle_writesame_check`. -/
def handleWritesameCheck (c : Request) : TcmuSts :=
  let lbaCnt := xferLengthOf c.cdb
  if c.cmd.iovCnt ≠ 1 ∨ c.cmd.iovec.head?.map Iovec.len ≠ some c.dev.geo.blockSize then .invalidCdb
  else if lbaCnt = 0 then .invalidCdb
  else if lbaCnt > 0xffffffff then .invalidCdb
  else checkLbas c.dev.geo (lbaOf c.cdb) lbaCnt

/-- `handle_unmap_in_writesame`. The status of the unmap state is left as `calloc` made it. -/
def handleUnmapInWritesame (c : Request) : Daemon TcmuSts := do
  match ← unmapStateAlloc with
  | some sts => pure sts
  | none =>
    let (ret, refcount) ← alignAndSplitUnmap c (lbaOf c.cdb) (xferLengthOf c.cdb) 0
    if refcount ≠ 0 then ask (.putUnmap ⟨refcount, ret ≠ .asyncHandled, .ok⟩)
    else ask .freeUnmap
    pure ret

/-- Whether a `WRITE SAME` is carried out by unmapping. -/
def Request.writesByUnmap (c : Request) : Bool :=
  c.dev.handler.unmap && byteAt c.cdb 1 &&& 0x08 ≠ 0

/-- `handle_writesame`. -/
def handleWritesame (c : Request) : Daemon TcmuSts :=
  let lbaCnt := xferLengthOf c.cdb
  let blockSize := c.dev.geo.blockSize
  if handleWritesameCheck c ≠ .ok then pure (handleWritesameCheck c)
  else if c.writesByUnmap then handleUnmapInWritesame c
  else do
    if !(← ask .alloc) then pure .noResource
    else
      let length ← roundUp (1024 * 1024) (c.dev.geo.maxXferLen * blockSize % 2 ^ 32)
      let length := min length (lbaCnt * blockSize % 2 ^ 64)
      match ← ask (.calloc length) with
      | none => pure .noResource
      | some buf =>
        let block := (← ask .mem).load ((c.cmd.iovec.head?.map Iovec.base).getD 0) blockSize
        ask (.store buf (List.replicate (length / blockSize) block).flatten)
        asyncHandleCmd c (.writesame ⟨lbaOf c.cdb, lbaCnt, buf, length⟩)

/-! ### Write and verify -/

/-- `handle_write_verify_read_cbk`. -/
def handleWriteVerifyReadCbk (s : WriteVerify) (ret : TcmuSts) : Daemon Unit :=
  if ret ≠ .ok then aioCommandFinish ret
  else do
    let mem ← ask .mem
    match cmpOffset (tcmuCompareWithIovec mem s.readBuf s.wIovec s.requested) with
    | none => aioCommandFinish .ok
    | some offset =>
      ask (.senseInfo offset)
      aioCommandFinish .miscompare

/-- `handle_write_verify_write_cbk`. -/
def handleWriteVerifyWriteCbk (c : Request) (s : WriteVerify) (ret : TcmuSts) : Daemon Unit :=
  if ret ≠ .ok then aioCommandFinish ret
  else do
    let ret ← asyncHandleCmd c (.verifyRead s)
    finishUnlessAsync ret

/-- `alloc_iovec`: the address of the buffer. -/
def allocIovec (length : ℕ) : Daemon (Option ℕ) := do
  if !(← ask .alloc) then pure none
  else
    match ← ask (.calloc length) with
    | none => pure none
    | some buf =>
      ask (.putSubIov [⟨buf, length⟩])
      pure (some buf)

/-- `write_verify_init`. The address of the buffer and the entries of `cmd->iovec` are taken down
before a handler is given either list. -/
def writeVerifyInit (length : ℕ) : Daemon (Option WriteVerify) := do
  if !(← ask .alloc) then pure none
  else
    match ← allocIovec length with
    | none => pure none
    | some _ =>
      if !(← ask .alloc) then pure none
      else
        let readBuf := ((← ask .subIov).head?.map Iovec.base).getD 0
        if !(← ask .alloc) then pure none
        else pure (some ⟨length, ← ask .cmdIov, readBuf⟩)

/-- `handle_write_verify`. -/
def handleWriteVerify (c : Request) : Daemon TcmuSts :=
  let sectors := xferLengthOf c.cdb
  let sts := checkLbaAndLength c.dev.geo c.cmd c.cdb sectors
  if sts ≠ .ok then pure sts
  else do
    match ← writeVerifyInit (sectors * c.dev.geo.blockSize % 2 ^ 32) with
    | none => pure .noResource
    | some s => asyncHandleCmd c (.verifyWrite s)

/-! ### Extended copy -/

/-- `handle_xcopy_write_cbk`. The length of the next read stays what it is. -/
def handleXcopyWriteCbk (c : Request) (s : Xcopy) (ret : TcmuSts) : Daemon Unit :=
  let lbaCnt := sub32 s.lbaCnt s.copyLbas
  if ret ≠ .ok then aioCommandFinish ret
  else if lbaCnt = 0 then aioCommandFinish ret
  else do
    let ret ← asyncHandleCmd c (.xcopyRead
      { s with
        srcLba := (s.srcLba + s.copyLbas) % 2 ^ 64
        dstLba := (s.dstLba + s.copyLbas) % 2 ^ 64
        lbaCnt := lbaCnt
        copyLbas := min lbaCnt s.copyLbas })
    finishUnlessAsync ret

/-- `handle_xcopy_read_cbk`. -/
def handleXcopyReadCbk (c : Request) (s : Xcopy) (ret : TcmuSts) : Daemon Unit :=
  if ret ≠ .ok then aioCommandFinish ret
  else do
    let ret ← asyncHandleCmd c (.xcopyWrite s)
    finishUnlessAsync ret

/-- `handle_xcopy`. -/
def handleXcopy (c : Request) : Daemon TcmuSts :=
  let dataLength := xferLengthOf c.cdb
  if dataLength = 0 then pure .ok
  else if dataLength < 16 then pure .invalidParamListLen
  else do
    if !(← ask .alloc) then pure .noResource
    else
      match ← xcopyParseParameterList c with
      | .error sts => pure sts
      | .ok (src, dst, x) =>
        if x.lbaCnt = 0 then pure .ok
        else
          let maxSectors := min (min src.geo.maxXferLen dst.geo.maxXferLen) 1024
          let copyLbas := min maxSectors x.lbaCnt
          let iovLen := copyLbas * c.dev.geo.blockSize % 2 ^ 32
          match ← ask (.calloc iovLen) with
          | none => pure .noResource
          | some buf =>
            asyncHandleCmd c
              (.xcopyRead ⟨src, dst, x.srcLba, x.dstLba, x.lbaCnt, copyLbas, buf, iovLen⟩)

/-! ### Compare and write -/

/-- The end of `COMPARE AND WRITE`: release `caw_lock` and finish. -/
def cawFinish (ret : TcmuSts) : Daemon Unit := do
  ask .cawUnlock
  aioCommandFinish ret

/-- `handle_caw_write_cbk`. -/
def handleCawWriteCbk (ret : TcmuSts) : Daemon Unit := cawFinish ret

/-- `handle_caw_read_cbk`. -/
def handleCawReadCbk (c : Request) (s : CawState) (ret : TcmuSts) : Daemon Unit :=
  if ret ≠ .ok then cawFinish ret
  else do
    let mem ← ask .mem
    match cmpOffset (tcmuCompareWithIovec mem s.readBuf c.cmd.iov s.requested) with
    | some offset =>
      ask (.senseInfo offset)
      cawFinish .miscompare
    | none =>
      let ret ← asyncHandleCmd c (.cawWrite (tcmuSeekInCmdIovec c.cmd.iov s.requested))
      if ret ≠ .asyncHandled then cawFinish ret

/-- `handle_caw_check`. -/
def handleCawCheck (c : Request) : TcmuSts :=
  let sectors := byteAt c.cdb 13
  if checkIovecLength c.dev.geo c.cmd (sectors * 2) ≠ .ok then
    checkIovecLength c.dev.geo c.cmd (sectors * 2)
  else checkLbas c.dev.geo (lbaOf c.cdb) sectors

/-- `caw_init_readcmd`. -/
def cawInitReadcmd (length : ℕ) : Daemon (Option CawState) := do
  if !(← ask .alloc) then pure none
  else if !(← ask .alloc) then pure none
  else
    match ← allocIovec length with
    | none => pure none
    | some buf => pure (some ⟨length, buf⟩)

/-- `handle_caw`. -/
def handleCaw (c : Request) : Daemon TcmuSts :=
  if handleCawCheck c ≠ .ok then pure (handleCawCheck c)
  else do
    match ← cawInitReadcmd (tcmuIovecLength c.cmd.iov / 2) with
    | none => pure .noResource
    | some s =>
      ask .cawLock
      let ret ← asyncHandleCmd c (.cawRead s)
      if ret ≠ .asyncHandled then ask .cawUnlock
      pure ret

/-! ### Reading, writing, flushing -/

/-- `handle_flush`. -/
def handleFlush (c : Request) : Daemon TcmuSts := asyncHandleCmd c .flush

/-- `handle_write`. -/
def handleWrite (c : Request) : Daemon TcmuSts :=
  let sts := checkLbaAndLength c.dev.geo c.cmd c.cdb (xferLengthOf c.cdb)
  if sts ≠ .ok then pure sts else asyncHandleCmd c .write

/-- `handle_read`. -/
def handleRead (c : Request) : Daemon TcmuSts :=
  let sts := checkLbaAndLength c.dev.geo c.cmd c.cdb (xferLengthOf c.cdb)
  if sts ≠ .ok then pure sts else asyncHandleCmd c .read

/-! ### Format unit -/

/-- Clear `TCMUR_DEV_FLAG_FORMATTING`. -/
def clearFormat : Daemon Unit := modifyRdev fun r => { r with formatting := false }

/-- The end of `FORMAT UNIT`. -/
def formatFinish (ret : TcmuSts) : Daemon Unit := do
  clearFormat
  aioCommandFinish ret

/-- The next write of `handle_format_unit_cbk`. -/
def formatNext (c : Request) (length offset doneBlocks : ℕ) : Daemon Unit := do
  match ← allocIovec length with
  | none => formatFinish .noResource
  | some buf =>
    let rc ← asyncHandleCmd c (.format ⟨length, offset, doneBlocks, buf⟩)
    if rc ≠ .asyncHandled then formatFinish .wrErr

/-- `handle_format_unit_cbk`. The result of a write is passed on only if the write is the last, and
nothing is done when more blocks are done than there are. -/
def handleFormatUnitCbk (c : Request) (s : FormatUnit) (ret : TcmuSts) : Daemon Unit :=
  let numLbas := c.dev.geo.numLbas
  let offset := (s.offset + s.length) % 2 ^ 64
  let doneBlocks := (s.doneBlocks + s.length / c.dev.geo.blockSize) % 2 ^ 32
  if doneBlocks = numLbas then formatFinish ret
  else if doneBlocks < numLbas then do
    modifyRdev fun r =>
      { r with formatProgress := 0x10000 * doneBlocks % 2 ^ 32 / numLbas % 2 ^ 32 }
    let left := (numLbas - doneBlocks) * c.dev.geo.blockSize % 2 ^ 64
    formatNext c (if left < s.length then left else s.length) offset doneBlocks
  else pure ()

/-- `handle_format_unit`. -/
def handleFormatUnit (c : Request) : Daemon TcmuSts := do
  let r ← ask .getRdev
  if r.formatting then
    ask (.senseKeySpecific r.formatProgress)
    pure .frmtInProgress
  else
    ask (.putRdev { r with formatProgress := 0, formatting := true })
    if !(← ask .alloc) then
      clearFormat
      pure .noResource
    else if !(← ask .alloc) then
      clearFormat
      pure .noResource
    else
      let length ← roundUp (1024 * 1024) (c.dev.geo.maxXferLen * c.dev.geo.blockSize % 2 ^ 32)
      let size := c.dev.geo.numLbas * c.dev.geo.blockSize % 2 ^ 64
      let length := if size < length then size else length
      match ← allocIovec length with
      | none =>
        clearFormat
        pure .noResource
      | some buf =>
        let ret ← asyncHandleCmd c (.format ⟨length, 0, 0, buf⟩)
        if ret ≠ .asyncHandled then
          clearFormat
          pure .noResource
        else pure .asyncHandled

/-! ### Callbacks and the work queue -/

/-- The callback of a sub-command: its `done`. -/
def Job.done (c : Request) (j : Job) (ret : TcmuSts) : Daemon Unit :=
  match j with
  -- `handle_generic_cbk`
  | .read => aioCommandFinish ret
  | .write => aioCommandFinish ret
  | .flush => aioCommandFinish ret
  | .unmap .. => handleUnmapCbk ret
  | .writesame s => handleWritesameCbk c s ret
  | .verifyWrite s => handleWriteVerifyWriteCbk c s ret
  | .verifyRead s => handleWriteVerifyReadCbk s ret
  | .cawRead s => handleCawReadCbk c s ret
  | .cawWrite _ => handleCawWriteCbk ret
  | .xcopyRead s => handleXcopyReadCbk c s ret
  | .xcopyWrite s => handleXcopyWriteCbk c s ret
  | .format s => handleFormatUnitCbk c s ret

/-- What a thread of `io_work_queue` does with a sub-command. -/
def ioWork (c : Request) (j : Job) : Daemon Unit := do
  match ← j.work c with
  | .queued _ => pure ()
  | .failed e => j.done c e.sts

/-! ### Commands -/

/-- The commands for which `tcmur_cmd_handler` checks the lock, by what handles them. -/
inductive DataCmd where
  | read
  | write
  | unmap
  | flush
  | xcopy
  | caw
  | writeVerify
  | writesame
  | format
  deriving DecidableEq, Repr

/-- The `switch` of `tcmur_cmd_handler`. -/
def dataCmd (cdb : Cdb) : Option DataCmd :=
  match opcode cdb with
  | .read6 | .read10 | .read12 | .read16 => some .read
  | .write6 | .write10 | .write12 | .write16 => some .write
  | .unmap => some .unmap
  | .synchronizeCache | .synchronizeCache16 => some .flush
  | .extendedCopy => some .xcopy
  | .compareAndWrite => some .caw
  | .writeVerify | .writeVerify16 => some .writeVerify
  | .writeSame | .writeSame16 => some .writesame
  | .formatUnit => some .format
  | _ => none

/-- The handler of a data command. Without a `flush` callout the status stays what
`alua_check_state` returned. -/
def DataCmd.handle (c : Request) : DataCmd → Daemon TcmuSts
  | .read => handleRead c
  | .write => handleWrite c
  | .unmap => handleUnmap c
  | .flush => if c.dev.handler.flush then handleFlush c else pure .ok
  | .xcopy => handleXcopy c
  | .caw => handleCaw c
  | .writeVerify => handleWriteVerify c
  | .writesame => handleWritesame c
  | .format => handleFormatUnit c

/-- `untrack`, at the end of `tcmur_cmd_handler`. -/
def untrack (ret : TcmuSts) : Daemon TcmuSts := do
  if ret ≠ .asyncHandled then ask .trackFinish
  pure ret

/-- `tcmur_cmd_handler`. -/
def tcmurCmdHandler (c : Request) : Daemon TcmuSts := do
  ask .trackStart
  if (← ask .getRdev).inRecovery then untrack .busy
  else
    match dataCmd c.cdb with
    | none => untrack .notHandled
    | some d =>
      let ret ← aluaCheckState c.dev.handler
      if ret ≠ .ok then untrack ret
      else
        let ret ← d.handle c
        untrack ret

/-- `handle_sync_cmd`. -/
def handleSyncCmd (c : Request) : Daemon TcmuSts := do
  match opcode c.cdb with
  | .inquiry | .testUnitReady | .modeSense | .modeSense10 | .startStop | .modeSelect
  | .modeSelect10 =>
    pure (← ask (.emulate (opcode c.cdb))).val
  | .serviceActionIn16 =>
    if byteAt c.cdb 1 = 0x10 then pure (← ask (.emulate .serviceActionIn16)).val
    else pure .notHandled
  | .readCapacity =>
    if byteAt c.cdb 1 &&& 0x01 ≠ 0 ∨ byteAt c.cdb 8 &&& 0x01 ≠ 0 then pure .invalidCdb
    else pure (← ask (.emulate .readCapacity)).val
  | .receiveCopyResults =>
    if byteAt c.cdb 1 &&& 0x1f = 0x03 then pure (← ask (.emulate .receiveCopyResults)).val
    else pure .notHandled
  | .maintenanceOut => if byteAt c.cdb 1 = 0x0a then handleStpg c else pure .notHandled
  | .maintenanceIn => if byteAt c.cdb 1 &&& 0x1f = 0x0a then handleRtpg c else pure .notHandled
  | _ => pure .notHandled

/-- `handle_try_passthrough`. -/
def handleTryPassthrough (c : Request) : Daemon TcmuSts :=
  if !c.dev.handler.handleCmd then pure .notHandled
  else do
    ask .trackStart
    if (← ask .getRdev).inRecovery then untrack .busy
    else
      let (ret, _) ← control c.dev.handler .handleCmd
      untrack ret

/-- `handle_pending_ua`. The only unit attention there is has bit 0. -/
def handlePendingUa (c : Request) : Daemon TcmuSts :=
  if opcode c.cdb = .inquiry ∨ opcode c.cdb = .requestSense then pure .notHandled
  else do
    let r ← ask .getRdev
    if r.pendingUas = 0 then pure .notHandled
    else
      ask (.putRdev { r with pendingUas := r.pendingUas &&& (r.pendingUas - 1) })
      pure (if r.pendingUas % 2 = 1 then .capacityChanged else .notHandled)

/-- `tcmur_generic_handle_cmd`. -/
def tcmurGenericHandleCmd (c : Request) : Daemon TcmuSts := do
  let ret ← handlePendingUa c
  if ret ≠ .notHandled then pure ret
  else
    let r ← ask .getRdev
    if r.formatting ∧ opcode c.cdb ≠ .inquiry then
      ask (.senseKeySpecific r.formatProgress)
      pure .frmtInProgress
    else
      let ret ← handleTryPassthrough c
      if ret ≠ .notHandled then pure ret
      else
        let ret ← handleSyncCmd c
        if ret ≠ .notHandled then pure ret else tcmurCmdHandler c

/-- What `tcmur_cmdproc_thread` does with a command. -/
def processCmd (c : Request) : Daemon Unit := do
  let ret ← tcmurGenericHandleCmd c
  if ret ≠ .asyncHandled then ask (.complete ret)

end Tcmu

end LioProject
