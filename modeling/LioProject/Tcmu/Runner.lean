import LioProject.Lib.Prog
import LioProject.Tcmu.Device
import LioProject.Tcmu.Scatter

/-!
# The runner: devices, handlers and what command handling asks for

A command is handled by programs that ask their surroundings: the allocator, the handler of the
device, the work queue, the state that is shared with other threads, and the kernel, which is told
that a command is complete. `Op` lists everything they ask for. The functions of
`tcmur_cmd_handler.c` are programs over these operations.

A callout of a handler may be `NULL`. Calling it is a failure of the whole daemon, as are a division
by zero and the other members of `Fault`.

A multi-step command hands on a sub-command at a time, with what its callback has to know. The
sub-command together with this knowledge is a `Job`: it is what is queued for a work thread, what a
handler has accepted, and what a callback is about.
-/

namespace LioProject

namespace Tcmu

/-! ### Devices and handlers -/

/-- `struct tcmur_handler`: which of the callouts are defined, and the number of work threads. -/
structure TcmurHandler where
  /-- `read` is defined. -/
  read : Bool
  /-- `write` is defined. -/
  write : Bool
  /-- `flush` is defined. -/
  flush : Bool
  /-- `unmap` is defined. -/
  unmap : Bool
  /-- `lock` is defined. -/
  lock : Bool
  /-- `unlock` is defined. -/
  unlock : Bool
  /-- `get_lock_tag` is defined. -/
  getLockTag : Bool
  /-- `handle_cmd` is defined. -/
  handleCmd : Bool
  /-- `nr_threads`. -/
  nrThreads : ℕ
  deriving DecidableEq, Repr

/-- `struct tcmu_device`, as far as command handling looks at it. -/
structure TcmuDev where
  /-- Which device it is. -/
  id : ℕ
  /-- Its geometry. -/
  geo : Device
  /-- Its handler. -/
  handler : TcmurHandler
  /-- What `tcmu_get_wwn` returns: the unit serial number, or `NULL`. -/
  wwn : Option String
  deriving DecidableEq, Repr

/-- `failover_type`. -/
inductive FailoverType where
  | allActive
  | implicit
  | explicit
  deriving DecidableEq, Repr

/-- `lock_state`. -/
inductive LockState where
  | unlocked
  | locked
  | locking
  deriving DecidableEq, Repr

/-- The fields of `struct tcmur_device` that command handling reads and writes. -/
structure TcmurDevice where
  /-- `TCMUR_DEV_FLAG_FORMATTING`. -/
  formatting : Bool
  /-- `TCMUR_DEV_FLAG_IN_RECOVERY`. -/
  inRecovery : Bool
  /-- `failover_type`. -/
  failoverType : FailoverType
  /-- `lock_state`. -/
  lockState : LockState
  /-- `pending_uas`, a bit for each unit attention. -/
  pendingUas : ℕ
  /-- `format_progress`. -/
  formatProgress : ℕ
  deriving DecidableEq, Repr

/-- A command and where it was sent. The CDB of a command that the kernel sends is there. -/
structure Request where
  /-- The device. -/
  dev : TcmuDev
  /-- `dev->ctx->devices`. -/
  ctx : List TcmuDev
  /-- The command. -/
  cmd : TcmulibCmd
  /-- Its CDB. -/
  cdb : Cdb
  /-- The CDB is that of the command. -/
  hcdb : cmd.cdb = some cdb

/-! ### Callouts -/

/-- A status that is an error: neither `TCMU_STS_OK` nor `TCMU_STS_ASYNC_HANDLED`. -/
structure ErrSts where
  /-- The status. -/
  sts : TcmuSts
  /-- It is not success. -/
  ne_ok : sts ≠ .ok
  /-- It is not a promise. -/
  ne_async : sts ≠ .asyncHandled

/-- What a data callout answers when it keeps to the contract of `tcmu-runner.h`: it accepts the
command and calls `done` once, possibly before it returns, or it returns an error and never calls
`done`. -/
inductive Reply where
  | queued (now : Bool)
  | failed (e : ErrSts)

/-- The value that the callout returns. -/
def Reply.sts : Reply → TcmuSts
  | .queued _ => .ok
  | .failed e => e.sts

/-- A call of a data callout, with the arguments that it is given. The CDB is that of the command
it is given, `none` for a `NULL` pointer. -/
inductive Callout where
  | read (dev : TcmuDev) (cdb : Option Cdb) (iov : List Iovec) (length offset : ℕ)
  | write (dev : TcmuDev) (cdb : Option Cdb) (iov : List Iovec) (length offset : ℕ)
  | flush (dev : TcmuDev) (cdb : Option Cdb)
  | unmap (dev : TcmuDev) (offset length : ℕ)
  deriving DecidableEq, Repr

/-- The callouts that answer at once. -/
inductive Control where
  | lock (tag : ℕ)
  | unlock
  | getLockTag
  | handleCmd
  deriving DecidableEq, Repr

/-- The handler defines the callout that is called. -/
def Callout.defined : Callout → Bool
  | .read dev .. => dev.handler.read
  | .write dev .. => dev.handler.write
  | .flush dev _ => dev.handler.flush
  | .unmap dev .. => dev.handler.unmap

@[inherit_doc Callout.defined]
def Control.defined (h : TcmurHandler) : Control → Bool
  | .lock _ => h.lock
  | .unlock => h.unlock
  | .getLockTag => h.getLockTag
  | .handleCmd => h.handleCmd

/-! ### States of multi-step commands -/

/-- `struct unmap_state`. -/
structure UnmapState where
  /-- `refcount`, 32 bits: the sub-commands that have been dispatched and have not been called
  back. -/
  refcount : ℕ
  /-- `error`. -/
  error : Bool
  /-- `status`. -/
  status : TcmuSts
  deriving DecidableEq, Repr

/-- `struct write_same`. Its `iovec`, which the work function sets up anew for every call, belongs
to the state of a transfer, and `iov_cnt` is 1. -/
structure WriteSame where
  /-- `cur_lba`. -/
  curLba : ℕ
  /-- `lba_cnt`. -/
  lbaCnt : ℕ
  /-- `iov_base`. -/
  iovBase : ℕ
  /-- `iov_len`. -/
  iovLen : ℕ
  deriving DecidableEq, Repr

/-- `struct write_verify_state`. -/
structure WriteVerify where
  /-- `requested`. -/
  requested : ℕ
  /-- `w_iovec`: a copy of the scatter list of the command. -/
  wIovec : List Iovec
  /-- `read_buf`. -/
  readBuf : ℕ
  deriving DecidableEq, Repr

/-- `struct caw_state`. -/
structure CawState where
  /-- `requested`. -/
  requested : ℕ
  /-- `read_buf`. -/
  readBuf : ℕ
  deriving DecidableEq, Repr

/-- `struct xcopy`, when the copying has begun. -/
structure Xcopy where
  /-- `src_dev`. -/
  srcDev : TcmuDev
  /-- `dst_dev`. -/
  dstDev : TcmuDev
  /-- `src_lba`. -/
  srcLba : ℕ
  /-- `dst_lba`. -/
  dstLba : ℕ
  /-- `lba_cnt`. -/
  lbaCnt : ℕ
  /-- `copy_lbas`. -/
  copyLbas : ℕ
  /-- `iov_base`. -/
  iovBase : ℕ
  /-- `iov_len`. -/
  iovLen : ℕ
  deriving DecidableEq, Repr

/-- `struct format_unit_state`. -/
structure FormatUnit where
  /-- `length`. -/
  length : ℕ
  /-- `offset`. -/
  offset : ℕ
  /-- `done_blocks`. -/
  doneBlocks : ℕ
  /-- `write_buf`. -/
  writeBuf : ℕ
  deriving DecidableEq, Repr

/-- A sub-command: which work function it is for, and the state that its callback finds. -/
inductive Job where
  | read
  | write
  | flush
  | unmap (offset length : ℕ)
  | writesame (s : WriteSame)
  | verifyWrite (s : WriteVerify)
  | verifyRead (s : WriteVerify)
  | cawRead (s : CawState)
  | cawWrite (iov : List Iovec)
  | xcopyRead (s : Xcopy)
  | xcopyWrite (s : Xcopy)
  | format (s : FormatUnit)
  deriving DecidableEq, Repr

/-- The sub-commands of an unmap. They are the only ones of which a command has several at once. -/
def Job.isUnmap : Job → Bool
  | .unmap .. => true
  | _ => false

/-! ### Target port groups -/

/-- `struct alua_grp`, as far as command handling looks at it. -/
structure AluaGrp where
  /-- `id`. -/
  id : ℕ
  /-- `state`. -/
  state : ℕ
  /-- `supported_states`. -/
  supportedStates : ℕ
  /-- For each of its ports, whether it is enabled. -/
  ports : List Bool
  deriving DecidableEq, Repr

/-! ### Programs -/

/-- What can bring the daemon down, or make it wait for itself. -/
inductive Fault where
  | nullCallout
  | divByZero
  | nullDevice
  | deadlock
  | endless
  | useAfterFree
  deriving DecidableEq, Repr

/-- What the programs ask for. -/
inductive Op where
  /-- Read the fields of the `struct tcmur_device`. -/
  | getRdev
  /-- Write them. -/
  | putRdev (r : TcmurDevice)
  /-- Allocate a structure. -/
  | alloc
  /-- `calloc` of a buffer: an address, or `NULL`. -/
  | calloc (size : ℕ)
  /-- `pthread_mutex_init`. -/
  | mutexInit
  /-- Look at the memory. -/
  | mem
  /-- Write to the memory. -/
  | store (a : ℕ) (bs : List UInt8)
  /-- Look at the entries of `cmd->iovec`. A handler that was given them may have changed them. -/
  | cmdIov
  /-- Look at the entries of the scatter list that the command has allocated for a sub-command. -/
  | subIov
  /-- Set them. -/
  | putSubIov (iov : List Iovec)
  /-- Call a data callout for a sub-command. -/
  | io (j : Job) (c : Callout)
  /-- Call another callout. The number is a lock tag. -/
  | control (c : Control)
  /-- Put a sub-command into the work queue. -/
  | enqueue (j : Job)
  /-- The `struct unmap_state` of the command, if it has not been freed. -/
  | getUnmap
  /-- Change it. -/
  | putUnmap (s : UnmapState)
  /-- `unmap_state_free`. -/
  | freeUnmap
  /-- Lock `caw_lock`. -/
  | cawLock
  /-- Unlock `caw_lock`. -/
  | cawUnlock
  /-- `tcmu_set_sense_info`. -/
  | senseInfo (info : ℕ)
  /-- `tcmu_set_sense_key_specific_info`. -/
  | senseKeySpecific (info : ℕ)
  /-- Start a thread that acquires the lock. -/
  | spawnLock
  /-- `aio_wait_for_empty_queue`. -/
  | waitEmpty
  /-- `tcmu_reopen_dev`. -/
  | reopen
  /-- `tcmu_notify_conn_lost`. -/
  | connLost
  /-- `tcmu_get_alua_grps`. -/
  | aluaGrps
  /-- Write the state and the status of a group to configfs. -/
  | setAlua (id state status : ℕ)
  /-- A command that is emulated at once. -/
  | emulate (o : Opcode)
  /-- `tcmulib_command_complete`. -/
  | complete (sts : TcmuSts)
  /-- `track_aio_request_start`. -/
  | trackStart
  /-- `track_aio_request_finish`. -/
  | trackFinish

/-- What is answered. -/
@[reducible] def Ans : Op → Type
  | .getRdev => TcmurDevice
  | .alloc => Bool
  | .calloc _ => Option ℕ
  | .mutexInit => Bool
  | .mem => Mem
  | .cmdIov => List Iovec
  | .subIov => List Iovec
  | .io .. => Reply
  | .control _ => TcmuSts × ℕ
  | .getUnmap => Option UnmapState
  | .spawnLock => Bool
  | .waitEmpty => Bool
  | .reopen => Bool
  | .aluaGrps => Option (List AluaGrp)
  | .setAlua .. => Bool
  -- the emulations in `api.c` return a status of their own, never a promise
  | .emulate _ => { sts : TcmuSts // sts ≠ .asyncHandled }
  | _ => Unit

/-- A program of the runner. -/
abbrev Daemon := Prog Op Ans Fault

/-- Ask for an operation. -/
abbrev ask (o : Op) : Daemon (Ans o) := Prog.ask o

end Tcmu

end LioProject
