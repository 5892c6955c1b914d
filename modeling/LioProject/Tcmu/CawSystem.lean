import LioProject.Tcmu.Life
import Mathlib.Logic.Function.Basic

/-!
# Many compare-and-writes on one device

The commands of a batch are `COMPARE AND WRITE`s for one device, each with a Data-Out buffer in one
piece. They run side by side: each has a life of its own, with the events of `LifeEvent`, and they
share `caw_lock` and the content of the device.

The content changes when the handler carries out what it has accepted, at any time between accepting
it and calling back. It may do so several times, and it may leave anything behind where it writes,
but then it has to report an error. Nobody else writes to the device.

A program that would have to wait for `caw_lock` does not run yet. What it does before it takes the
lock concerns nobody else, so it might as well do it later.

Every completion is written down, in the order in which they happen, with the step of the command
that has failed, if one has: a callout that the handler has refused, a sub-command that it has
called back with an error, or an allocation. The log is the order in which the commands could have
been executed one after the other, each at once (`Cas`).
-/

namespace LioProject

namespace Tcmu

/-! ### Batches -/

/-- Commands of the kind `COMPARE AND WRITE` for one device. -/
structure CawBatch (ι : Type) where
  /-- The device. -/
  dev : TcmuDev
  /-- The commands. -/
  req : ι → Request
  /-- The Data-Out buffer of each of them. -/
  buf : ι → Iovec
  /-- They are for the device. -/
  req_dev : ∀ i, (req i).dev = dev
  /-- They are `COMPARE AND WRITE`s. -/
  req_cmd : ∀ i, dataCmd (req i).cdb = some .caw
  /-- Their buffers are in one piece. -/
  req_iov : ∀ i, (req i).cmd.iov = [buf i]
  /-- The length of a buffer is a `size_t`. -/
  buf_lt : ∀ i, (buf i).len < 2 ^ 64
  /-- The handler can read. -/
  read : dev.handler.read = true
  /-- The handler can write. -/
  write : dev.handler.write = true
  /-- The commands are not passed through to the handler. -/
  handleCmd : dev.handler.handleCmd = false

/-- The number of bytes that are compared, and that are written: half of the buffer. -/
def Iovec.half (v : Iovec) : ℕ := v.len / 2

/-- The place of a command on the device. -/
def Request.place (c : Request) : ℕ := c.dev.geo.blockSize * lbaOf c.cdb % 2 ^ 64

/-! ### Commands -/

/-- What a command has left behind, and what the lock and the handler have to do with it. -/
structure CawCmd where
  /-- Its life. -/
  life : Life
  /-- The memory that it uses. No other command uses it meanwhile. -/
  mem : Mem
  /-- How often it has taken `caw_lock`. -/
  taken : ℕ
  /-- How often it has released `caw_lock`. -/
  released : ℕ
  /-- The handler has carried out the sub-command that it has accepted. -/
  carried : Bool
  /-- Its read has been called back with success. -/
  compared : Bool
  /-- The status of the step that has failed for it. -/
  failed : Option TcmuSts

/-- What the programs of a command work on: the command, and `caw_lock`. -/
structure CawView extends CawCmd where
  /-- `caw_lock` is held. -/
  locked : Bool

/-- A buffer of `n` bytes at `a` does not overlap the Data-Out buffer. -/
def Iovec.Avoids (v : Iovec) (a n : ℕ) : Prop := a + n ≤ v.base ∨ v.base + v.len ≤ a

instance (v : Iovec) (a n : ℕ) : Decidable (v.Avoids a n) :=
  inferInstanceAs (Decidable (a + n ≤ v.base ∨ v.base + v.len ≤ a))

/-- The status of an operation that fails: the error of the handler, or that of an allocation. -/
def Op.failure : (o : Op) → Ans o → Option TcmuSts
  | .alloc, a => if a then none else some .noResource
  | .calloc _, a => if a.isSome then none else some .noResource
  | .mutexInit, a => if a then none else some .noResource
  | .io .., .failed e => some e.sts
  | _, _ => none

/-- An operation in the life of the command. If it fails, that is written down. -/
def CawView.live (s : CawView) (o : Op) (a : Ans o) : Option (Ans o × CawView) :=
  (lifeInterp s.life o a).map fun (r, life) =>
    (r, { s with life := life, failed := (o.failure a).or s.failed })

/-- What the operations do. `caw_lock` has to be free to be taken, the memory is that of the
command, and what is allocated does not overlap the Data-Out buffer `v`. -/
def cawInterp (v : Iovec) : Prog.Interp Op Ans CawView := fun s o =>
  match o with
  | .cawLock => fun a =>
    if s.locked then none else some (a, { s with locked := true, taken := s.taken + 1 })
  | .cawUnlock => fun a => some (a, { s with locked := false, released := s.released + 1 })
  | .mem => fun _ => some (s.mem, s)
  | .store x bs => fun a => some (a, { s with mem := s.mem.store x bs })
  | .calloc n => fun a =>
    if ∀ x ∈ a, v.Avoids x n then s.live (.calloc n) a else none
  | o => s.live o

/-! ### The system -/

/-- An entry of the log: a command has been completed. -/
structure CawEntry (ι : Type) where
  /-- The command. -/
  who : ι
  /-- Its read had been called back with success. -/
  compared : Bool
  /-- The status of the step that had failed for it. -/
  failed : Option TcmuSts
  /-- The status. -/
  sts : TcmuSts
  deriving DecidableEq, Repr

/-- The commands of a batch, `caw_lock`, and the device. -/
structure CawSys (ι : Type) where
  /-- The commands. -/
  cmds : ι → CawCmd
  /-- `caw_lock` is held. -/
  locked : Bool
  /-- The content of the device, byte by byte. -/
  disk : Mem
  /-- The completions, in the order in which they happened. -/
  log : List (CawEntry ι)

/-- What can happen. -/
inductive CawEvent (ι : Type) where
  /-- An event in the life of a command. -/
  | life (i : ι) (e : LifeEvent)
  /-- The handler carries out the sub-command that it has accepted, or fails to and leaves other
  bytes behind. -/
  | transfer (i : ι) (junk : Option (List UInt8))

/-- The commands of a batch before they are fetched. -/
def CawSys.init {ι : Type} (mem : ι → Mem) (disk : Mem) : CawSys ι :=
  ⟨fun i => ⟨Life.init, mem i, 0, 0, false, false, none⟩, false, disk, []⟩

/-- The handler calls back with success only when it has carried out the sub-command. Threads that
acquire the lock of the device have no part in this. -/
def CawCmd.mayTake (x : CawCmd) : LifeEvent → Bool
  | .done _ ret _ => ret ≠ .ok || x.carried
  | .lockThread _ => false
  | _ => true

/-- The command when the program of an event begins. -/
def CawCmd.start (x : CawCmd) (life : Life) : LifeEvent → CawCmd
  | .done _ ret _ =>
    { x with
      life := life
      carried := false
      compared := x.compared || ret = .ok
      failed := if ret = .ok then x.failed else some ret }
  | _ => { x with life := life }

/-- An event in the life of a command for the request `c` with the buffer `v`: how its program ends,
and what it leaves behind. -/
def CawCmd.event (c : Request) (v : Iovec) (x : CawCmd) (locked : Bool) (e : LifeEvent) :
    Option (Except Fault Unit × CawView) :=
  if !x.mayTake e then none
  else (e.prog c x.life).bind fun (p, life) => p.exec (cawInterp v) e.env ⟨x.start life e, locked⟩

/-- What the handler does to the memory and the device when it carries out a call. -/
def Callout.carryOut (mem disk : Mem) (junk : Option (List UInt8)) : Callout → Option (Mem × Mem)
  | .read _ _ [v] length offset =>
    let bytes := junk.getD (disk.load offset length)
    if bytes.length = length then some (mem.store v.base bytes, disk) else none
  | .write _ _ iov length offset =>
    let bytes := junk.getD ((gather iov mem).take length)
    if bytes.length = length then some (mem, disk.store offset bytes) else none
  | _ => none

/-- The command has taken `caw_lock` once at most, and it has released it as often unless it is
under way. It has been completed once if it has been processed and is not under way, and not at all
otherwise. -/
def CawCmd.Counted (x : CawCmd) : Prop :=
  x.taken ≤ 1 ∧ x.taken = x.released + (if x.life.jobs ≠ [] then 1 else 0) ∧
    x.life.completions.length = if x.life.begun = true ∧ x.life.jobs = [] then 1 else 0

section Step

variable {ι : Type} [DecidableEq ι]

/-- The system after the program of an event has ended, of which `n` completions are older. -/
def CawSys.put (s : CawSys ι) (i : ι) (n : ℕ) (x : Except Fault Unit) (v : CawView) : CawSys ι where
  cmds := Function.update s.cmds i { v.toCawCmd with life := settle (x, v.life) }
  locked := v.locked
  disk := s.disk
  log := s.log ++ (v.life.completions.drop n).map fun sts =>
    ⟨i, v.compared, v.failed, sts⟩

/-- The system after the handler has carried out a sub-command, or has failed to. -/
def CawSys.carry (s : CawSys ι) (i : ι) (mem disk : Mem) (carried : Bool) : CawSys ι where
  cmds := Function.update s.cmds i { s.cmds i with mem := mem, carried := carried }
  locked := s.locked
  disk := disk
  log := s.log

/-- One event. -/
def cawStep (b : CawBatch ι) (s : CawSys ι) : CawEvent ι → Option (CawSys ι)
  | .life i e =>
    ((s.cmds i).event (b.req i) (b.buf i) s.locked e).map fun (x, v) =>
      s.put i (s.cmds i).life.completions.length x v
  | .transfer i junk =>
    match (s.cmds i).life.jobs with
    | [(true, j)] =>
      ((j.callout (b.req i)).carryOut (s.cmds i).mem s.disk junk).map fun (mem, disk) =>
        s.carry i mem disk junk.isNone
    | _ => none

/-- A command that has dispatched its read and has not had its final callback. -/
def CawSys.Active (s : CawSys ι) (i : ι) : Prop := (s.cmds i).life.jobs ≠ []

instance (s : CawSys ι) (i : ι) : Decidable (s.Active i) :=
  inferInstanceAs (Decidable ((s.cmds i).life.jobs ≠ []))

end Step

/-! ### Executing commands at once -/

/-- The statuses with which a command is refused although nothing has failed: by the checks of the
command, and by the state of the device. -/
def cawRefusals : List TcmuSts :=
  [.capacityChanged, .frmtInProgress, .busy, .fenced, .transition, .implTransitionErr, .hwErr,
    .range]

/-- A device that is found in the state `r` refuses the command with the status. -/
inductive CawRefusal (c : Request) (r : TcmurDevice) : TcmuSts → Prop
  /-- Its capacity has changed. -/
  | changed (h : r.pendingUas % 2 = 1) : CawRefusal c r .capacityChanged
  /-- It is being formatted. -/
  | formatting (h : r.formatting = true) : CawRefusal c r .frmtInProgress
  /-- It is in recovery. -/
  | recovering (h : r.inRecovery = true) : CawRefusal c r .busy
  /-- Its lock is not held. -/
  | fenced (hlock : c.dev.handler.lock = true) (h : r.lockState ≠ .locked) :
      CawRefusal c r .fenced
  /-- Its lock is being acquired, or will be. -/
  | transition (hlock : c.dev.handler.lock = true) (h : r.lockState ≠ .locked) :
      CawRefusal c r .transition
  /-- Its lock would have to be acquired, but that could not be started. -/
  | notStarted (hlock : c.dev.handler.lock = true) (h : r.lockState ≠ .locked) :
      CawRefusal c r .implTransitionErr

/-- A compare-and-swap that is executed at once, on the bytes from `off` on, where `R` are the
statuses with which it may be refused. If a step has failed, it ends with the status of that step;
if that was the write, anything may be there afterwards. -/
inductive Cas (off : ℕ) (expected desired : List UInt8) (R : TcmuSts → Prop) :
    Bool → Option TcmuSts → TcmuSts → Mem → Mem → Prop
  /-- It has been refused, and does nothing. -/
  | refused {sts : TcmuSts} {d : Mem} (hsts : sts ∈ cawRefusals) (h : R sts) :
      Cas off expected desired R false none sts d d
  /-- It has failed before it has compared, and does nothing. -/
  | unread {sts : TcmuSts} {d : Mem} (hsts : sts ≠ .ok) :
      Cas off expected desired R false (some sts) sts d d
  | miscompared {d : Mem} (h : d.load off expected.length ≠ expected) :
      Cas off expected desired R true none .miscompare d d
  | swapped {d : Mem} (h : d.load off expected.length = expected) :
      Cas off expected desired R true none .ok d (d.store off desired)
  /-- The write has failed. -/
  | spoiled {sts : TcmuSts} {d : Mem} {junk : List UInt8}
      (h : d.load off expected.length = expected) (hsts : sts ≠ .ok)
      (hjunk : junk.length = desired.length) :
      Cas off expected desired R true (some sts) sts d (d.store off junk)

/-- A miscompare that no step has failed with is a difference. -/
theorem Cas.differs {off : ℕ} {expected desired : List UInt8} {R : TcmuSts → Prop}
    {compared : Bool} {failed : Option TcmuSts} {sts : TcmuSts} {d d' : Mem}
    (h : Cas off expected desired R compared failed sts d d') (hsts : sts = .miscompare)
    (hfailed : failed ≠ some .miscompare) : d.load off expected.length ≠ expected := by
  cases h with
  | refused hrefused => exact absurd (hsts ▸ hrefused) (by decide)
  | unread => exact absurd (congrArg some hsts) hfailed
  | miscompared h => exact h
  | swapped => exact absurd hsts (by simp)
  | spoiled => exact absurd (congrArg some hsts) hfailed

section Atomic

variable {ι : Type}

/-- What a command expects to find on the device: the first half of its buffer. -/
def CawBatch.expected (b : CawBatch ι) (mem : ι → Mem) (i : ι) : List UInt8 :=
  (mem i).load (b.buf i).base (b.buf i).half

/-- What it puts there instead: the second half. -/
def CawBatch.desired (b : CawBatch ι) (mem : ι → Mem) (i : ι) : List UInt8 :=
  (mem i).load ((b.buf i).base + (b.buf i).half) (b.buf i).half

/-- The command of an entry of the log, executed at once with the outcome of the entry. -/
def CawBatch.atomic (b : CawBatch ι) (mem : ι → Mem) (R : ι → TcmuSts → Prop) (e : CawEntry ι) :
    Mem → Mem → Prop :=
  Cas (b.req e.who).place (b.expected mem e.who) (b.desired mem e.who) (R e.who) e.compared
    e.failed e.sts

/-- The statuses with which a command may be refused in a run: its checks give the status, or the
device is found in a state that does when the command is fetched. -/
def CawBatch.Refusable (b : CawBatch ι) (es : List (CawEvent ι)) (i : ι) (sts : TcmuSts) : Prop :=
  sts = handleCawCheck (b.req i) ∨
    ∃ env n, .life i (.fetch env) ∈ es ∧ CawRefusal (b.req i) (env n .getRdev) sts

end Atomic

end Tcmu

end LioProject
