import LioProject.Lib.Circular
import LioProject.Lib.Run
import LioProject.Tcmu.Command

/-!
# The command ring

The mailbox and command ring of `target_core_user_local.h`, and the two functions of `libtcmu.c`
that walk it: `tcmulib_get_next_command` with the device's private tail, and
`tcmulib_command_complete` with the mailbox tail that the kernel sees.

Offsets are relative to `mb + cmdr_off`; two ring pointers are equal exactly when their offsets
are. The ring memory maps the offset of an entry to that entry. Tails are advanced in 32-bit
arithmetic before they are reduced modulo `cmdr_size`, as the C macros do.

## The request and the response share their memory

`req` and `rsp` are the members of one union, so posting a response destroys the request that was
there. `Body` makes that explicit: an entry holds one or the other, and a fetch that finds a
response where it expects a request has no defined result.

## Main definitions

* `CmdEntry`, `Ring` — entries, and the ring with its head and two tails
* `tcmulibGetNextCommand`, `tcmulibCommandComplete` — the two functions
* `Sys`, `Event`, `step` — the ring with a kernel that appends and a daemon that fetches and
  completes, in any order
-/

namespace LioProject

namespace Tcmu

/-! ### Entries -/

/-- `enum tcmu_opcode`, with every other value of the three opcode bits. -/
inductive TcmuOp where
  | pad
  | cmd
  | unknown
  deriving DecidableEq, Repr

/-- The union of `struct tcmu_cmd_entry`. A request is kept as the scatter list and the CDB that
its offsets point to. A response contains sense data only after a check condition. -/
inductive Body where
  | req (iov : List Iovec) (cdb : Cdb)
  | rsp (status : SamStat) (sense : Option Sense)
  deriving DecidableEq, Repr

/-- Whether the union holds a request. -/
def Body.isReq : Body → Bool
  | .req _ _ => true
  | .rsp _ _ => false

/-- `struct tcmu_cmd_entry`. -/
structure CmdEntry where
  /-- `hdr.len_op`: the length, with the opcode in the low three bits. -/
  lenOp : ℕ
  /-- `hdr.cmd_id`. -/
  cmdId : ℕ
  /-- `hdr.uflags`. -/
  uflags : ℕ
  /-- The request or the response. -/
  body : Body
  deriving DecidableEq, Repr

/-- `tcmu_hdr_get_op`: `len_op & TCMU_OP_MASK`. -/
def CmdEntry.op (e : CmdEntry) : TcmuOp :=
  match e.lenOp % 8 with
  | 0 => .pad
  | 1 => .cmd
  | _ => .unknown

/-- `tcmu_hdr_get_len`: `len_op & ~TCMU_OP_MASK`. -/
def CmdEntry.len (e : CmdEntry) : ℕ := e.lenOp - e.lenOp % 8

/-- Whether the entry is a command. -/
def CmdEntry.isCmd (e : CmdEntry) : Bool := e.op = .cmd

/-- `TCMU_UFLAG_UNKNOWN_OP` is set on entries that the daemon does not understand. -/
def CmdEntry.markUnknown (e : CmdEntry) : CmdEntry := { e with uflags := e.uflags ||| 1 }

@[simp] theorem CmdEntry.op_markUnknown (e : CmdEntry) : e.markUnknown.op = e.op := rfl

@[simp] theorem CmdEntry.len_markUnknown (e : CmdEntry) : e.markUnknown.len = e.len := rfl

/-- The entry with a response in it. -/
def CmdEntry.respond (e : CmdEntry) (id : ℕ) (body : Body) : CmdEntry :=
  { e with cmdId := id, body := body }

@[simp] theorem CmdEntry.op_respond (e : CmdEntry) (id : ℕ) (b : Body) :
    (e.respond id b).op = e.op := rfl

@[simp] theorem CmdEntry.len_respond (e : CmdEntry) (id : ℕ) (b : Body) :
    (e.respond id b).len = e.len := rfl

@[simp] theorem CmdEntry.isCmd_respond (e : CmdEntry) (id : ℕ) (b : Body) :
    (e.respond id b).isCmd = e.isCmd := rfl

/-- `sizeof(struct tcmu_cmd_entry)`: header, union of request and response. -/
def sizeofCmdEntry : ℕ := 112

/-- What the kernel puts into the ring: a positive length in 32 bits, and in a command entry a
request and room for the whole structure, response included. -/
structure CmdEntry.WellFormed (e : CmdEntry) : Prop where
  /-- The length is positive; that it is a multiple of eight is how `len` reads it. -/
  len_pos : 0 < e.len
  /-- A command entry carries a request. -/
  request : e.isCmd → e.body.isReq
  /-- A command entry is a whole `struct tcmu_cmd_entry`. -/
  size : e.isCmd → sizeofCmdEntry ≤ e.len

/-! ### The ring -/

/-- The mailbox, the ring memory, and the device's own tail. -/
structure Ring where
  /-- `mb->cmdr_size`. -/
  cmdrSize : ℕ
  /-- `mb->cmd_head`, written by the kernel. -/
  cmdHead : ℕ
  /-- `mb->cmd_tail`, up to which the kernel takes entries back. -/
  cmdTail : ℕ
  /-- `dev->cmd_tail`, up to which the daemon has looked at entries. -/
  devTail : ℕ
  /-- The address of the mailbox, to which the scatter lists of requests are relative. -/
  map : ℕ
  /-- The ring memory: the entry that starts at an offset. -/
  ent : ℕ → CmdEntry

/-- Move a tail past an entry: `(tail + len) % cmdr_size` in 32 bits. -/
def Ring.advance (r : Ring) (off : ℕ) (e : CmdEntry) : ℕ := (off + e.len) % 2 ^ 32 % r.cmdrSize

/-- `TCMU_UPDATE_DEV_TAIL`. -/
def Ring.updateDevTail (r : Ring) (e : CmdEntry) : Ring :=
  { r with devTail := r.advance r.devTail e }

/-- `TCMU_UPDATE_RB_TAIL`. -/
def Ring.updateRbTail (r : Ring) (e : CmdEntry) : Ring :=
  { r with cmdTail := r.advance r.cmdTail e }

/-- Overwrite the entry at an offset. -/
def Ring.setEnt (r : Ring) (off : ℕ) (e : CmdEntry) : Ring :=
  { r with ent := Function.update r.ent off e }

/-- The command built from a request, whose scatter list is relative to the mailbox at `map`. The
memory for it comes from `malloc`, so its sense buffer starts with whatever was there. -/
def buildCmd (map id : ℕ) (iov : List Iovec) (cdb : Cdb) (cdbLen : ℕ) (junk : Sense) :
    TcmulibCmd where
  cmdId := id
  cdb := some (cdb.take cdbLen)
  iovec := iov.map fun v => { v with base := map + v.base }
  iovCnt := iov.length
  sense := junk

/-- The loop of `tcmulib_get_next_command`. `malloc` is what the allocation of a command yields:
`none` when it fails, else the contents of the fresh sense buffer.

The result is `none` when the loop has none: it runs around the ring for ever, or it reads a
request that a response has overwritten. -/
def getNextCommandLoop (malloc : Option Sense) : ℕ → Ring → Option (Ring × Option TcmulibCmd)
  | 0, _ => none
  | fuel + 1, r =>
    if r.devTail = r.cmdHead then some (r, none)
    else
      let ent := r.ent r.devTail
      match ent.op with
      | .pad => getNextCommandLoop malloc fuel (r.updateDevTail ent)
      | .cmd =>
        match ent.body with
        | .rsp _ _ => none
        | .req iov cdb =>
          match tcmuGetCdbLength cdb with
          -- "This should never happen so just drop cmd for now"
          | none => getNextCommandLoop malloc fuel (r.updateDevTail ent)
          | some cdbLen =>
            match malloc with
            | none => some (r, none)
            | some junk =>
              some (r.updateDevTail ent, some (buildCmd r.map ent.cmdId iov cdb cdbLen junk))
      | .unknown =>
        getNextCommandLoop malloc fuel ((r.setEnt r.devTail ent.markUnknown).updateDevTail ent)

/-- `tcmulib_get_next_command`. Every turn of the loop consumes an entry, so as many turns as the
ring has bytes are enough. -/
def tcmulibGetNextCommand (malloc : Option Sense) (r : Ring) : Option (Ring × Option TcmulibCmd) :=
  getNextCommandLoop malloc (r.cmdrSize + 1) r

/-- The first loop of `tcmulib_command_complete`: skip to the first command entry at or after the
mailbox tail. The entries that the tail leaves behind are returned with the ring. -/
def skipToCmd : ℕ → Ring → Option (Ring × List CmdEntry)
  | 0, _ => none
  | fuel + 1, r =>
    if r.cmdTail = r.cmdHead then some (r, [])
    else
      let ent := r.ent r.cmdTail
      if ent.op = .cmd then some (r, [])
      else (skipToCmd fuel (r.updateRbTail ent)).map fun p => (p.1, ent :: p.2)

/-- The response that a command and its result amount to. -/
def responseBody (result : TcmuSts) (sense : Sense) : Body :=
  let p := tcmuStsToScsi result sense
  .rsp p.1 (if p.1 = .checkCondition then some p.2 else none)

/-- `tcmulib_command_complete`: the response goes into the first command entry at the mailbox
tail, whichever command that entry asked for. Besides the ring this returns the entries that the
tail passes, as the kernel finds them. -/
def tcmulibCommandComplete (r : Ring) (cmd : TcmulibCmd) (result : TcmuSts) :
    Option (Ring × List CmdEntry) :=
  match skipToCmd (r.cmdrSize + 1) r with
  | none => none
  | some (r', skipped) =>
    let ent := (r'.ent r'.cmdTail).respond cmd.cmdId (responseBody result cmd.sense)
    some ((r'.setEnt r'.cmdTail ent).updateRbTail ent, skipped ++ [ent])

/-- `tcmu_flush_device` sleeps until this holds. -/
def Ring.isClear (r : Ring) : Bool := r.cmdHead = r.cmdTail

/-! ### The system -/

/-- A completed command: its identifier, the result, and the sense buffer it was completed with. -/
structure Completion where
  /-- `cmd->cmd_id`. -/
  cmdId : ℕ
  /-- The `result` argument. -/
  result : TcmuSts
  /-- `cmd->sense_buf`. -/
  sense : Sense
  deriving DecidableEq, Repr

/-- The ring, the commands that have been fetched and not yet completed, and two records of what
happened: the entries that the mailbox tail has passed, and the completions. -/
structure Sys where
  /-- The ring. -/
  ring : Ring
  /-- Fetched and not yet completed. -/
  outstanding : List TcmulibCmd
  /-- What the kernel has been given back, in order. -/
  passed : List CmdEntry
  /-- The completions, in order. -/
  completed : List Completion

/-- What can happen. The sense buffer of a command belongs to whoever handles it, so its contents
are fixed only when it is completed. -/
inductive Event where
  | append (e : CmdEntry)
  | fetch (malloc : Option Sense)
  | complete (i : ℕ) (result : TcmuSts) (sense : Sense)

/-- The kernel has room for `e` at its head: in one piece, and without catching up with the
mailbox tail. -/
def Ring.HasRoom (r : Ring) (e : CmdEntry) : Prop :=
  r.cmdHead + e.len ≤ r.cmdrSize ∧ ringDist r.cmdrSize r.cmdTail r.cmdHead + e.len < r.cmdrSize

instance (r : Ring) (e : CmdEntry) : Decidable (r.HasRoom e) :=
  inferInstanceAs (Decidable (_ ∧ _))

instance (e : CmdEntry) : Decidable e.WellFormed :=
  decidable_of_iff (0 < e.len ∧ (e.isCmd → e.body.isReq) ∧ (e.isCmd → sizeofCmdEntry ≤ e.len))
    ⟨fun h => ⟨h.1, h.2.1, h.2.2⟩, fun h => ⟨h.len_pos, h.request, h.size⟩⟩

/-- The kernel writes an entry at its head and moves the head. -/
def Ring.append (r : Ring) (e : CmdEntry) : Ring :=
  { r.setEnt r.cmdHead e with cmdHead := (r.cmdHead + e.len) % r.cmdrSize }

/-- One step of the kernel or of the daemon. -/
def step (s : Sys) : Event → Option Sys
  | .append e =>
    if e.WellFormed ∧ s.ring.HasRoom e then some { s with ring := s.ring.append e } else none
  | .fetch malloc =>
    (tcmulibGetNextCommand malloc s.ring).map fun p =>
      { s with ring := p.1, outstanding := s.outstanding ++ p.2.toList }
  | .complete i result sense =>
    match s.outstanding[i]? with
    | none => none
    | some cmd =>
      (tcmulibCommandComplete s.ring { cmd with sense := sense } result).map fun p =>
        { ring := p.1
          outstanding := s.outstanding.eraseIdx i
          passed := s.passed ++ p.2
          completed := s.completed ++ [⟨cmd.cmdId, result, sense⟩] }

end Tcmu

end LioProject
