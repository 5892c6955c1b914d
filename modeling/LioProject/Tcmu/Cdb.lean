import LioProject.Lib.Bytes
import Mathlib.Data.Nat.Bitwise
import Mathlib.Tactic.NormNum

/-!
# Command descriptor blocks

The opcodes that `tcmur_cmd_handler.c` switches on, and the three decoders of `api.c`:
`tcmu_get_cdb_length`, `tcmu_get_lba` and `tcmu_get_xfer_length`.

A CDB is the list of its bytes. The decoders answer `none` where the C code returns `-EINVAL`
(an operation code whose group is not supported) or runs into its `assert_perror`.
-/

namespace LioProject

namespace Tcmu

/-- The bytes of a command descriptor block. -/
abbrev Cdb := List UInt8

/-! ### Operation codes -/

/-- Operation codes of `scsi/scsi.h` and `scsi_defs.h`, as far as tcmu-runner looks at them. -/
inductive Opcode where
  | testUnitReady
  | requestSense
  | formatUnit
  | read6
  | write6
  | inquiry
  | modeSelect
  | modeSense
  | startStop
  | readCapacity
  | read10
  | write10
  | writeVerify
  | synchronizeCache
  | writeSame
  | unmap
  | modeSelect10
  | modeSense10
  | extendedCopy
  | receiveCopyResults
  | read16
  | compareAndWrite
  | write16
  | writeVerify16
  | synchronizeCache16
  | writeSame16
  | serviceActionIn16
  | maintenanceIn
  | maintenanceOut
  | read12
  | write12
  | unknown
  deriving DecidableEq, Repr

/-- The operation code in byte 0. -/
def Opcode.ofByte (b : ℕ) : Opcode :=
  match b with
  | 0x00 => .testUnitReady
  | 0x03 => .requestSense
  | 0x04 => .formatUnit
  | 0x08 => .read6
  | 0x0a => .write6
  | 0x12 => .inquiry
  | 0x15 => .modeSelect
  | 0x1a => .modeSense
  | 0x1b => .startStop
  | 0x25 => .readCapacity
  | 0x28 => .read10
  | 0x2a => .write10
  | 0x2e => .writeVerify
  | 0x35 => .synchronizeCache
  | 0x41 => .writeSame
  | 0x42 => .unmap
  | 0x55 => .modeSelect10
  | 0x5a => .modeSense10
  | 0x83 => .extendedCopy
  | 0x84 => .receiveCopyResults
  | 0x88 => .read16
  | 0x89 => .compareAndWrite
  | 0x8a => .write16
  | 0x8e => .writeVerify16
  | 0x91 => .synchronizeCache16
  | 0x93 => .writeSame16
  | 0x9e => .serviceActionIn16
  | 0xa3 => .maintenanceIn
  | 0xa4 => .maintenanceOut
  | 0xa8 => .read12
  | 0xaa => .write12
  | _ => .unknown

/-- The operation code of a CDB. -/
def opcode (cdb : Cdb) : Opcode := Opcode.ofByte (byteAt cdb 0)

/-! ### Decoders -/

/-- `tcmu_get_cdb_length`: the length that the group code in the top three bits stands for. -/
def tcmuGetCdbLength (cdb : Cdb) : Option ℕ :=
  match byteAt cdb 0 >>> 5 with
  | 0 => some 6
  | 1 => some 10
  | 2 => some 10
  | 3 => if byteAt cdb 0 = 0x7f then some (8 + byteAt cdb 7) else none
  | 4 => some 16
  | 5 => some 12
  | _ => none

/-- `tcmu_get_lba`. -/
def tcmuGetLba (cdb : Cdb) : Option ℕ :=
  match tcmuGetCdbLength cdb with
  | some 6 => some (((byteAt cdb 1 &&& 0x1f) <<< 16) ||| beAt cdb 2 2)
  | some 10 => some (beAt cdb 2 4)
  | some 12 => some (beAt cdb 2 4)
  | some 16 => some (beAt cdb 2 8)
  | _ => none

/-- `tcmu_get_xfer_length`. -/
def tcmuGetXferLength (cdb : Cdb) : Option ℕ :=
  match tcmuGetCdbLength cdb with
  | some 6 => some (byteAt cdb 4)
  | some 10 => some (beAt cdb 7 2)
  | some 12 => some (beAt cdb 6 4)
  | some 16 => some (beAt cdb 10 4)
  | _ => none

/-- A decoded block address is a `uint64_t`. -/
theorem tcmuGetLba_lt {cdb : Cdb} {lba : ℕ} (h : tcmuGetLba cdb = some lba) : lba < 2 ^ 64 := by
  rw [tcmuGetLba] at h
  split at h <;> simp only [Option.some.injEq, reduceCtorEq] at h <;> subst h
  · have hlow : beAt cdb 2 2 < 2 ^ 16 := beAt_lt cdb 2 2
    have hand : byteAt cdb 1 &&& 0x1f < 2 ^ 5 := Nat.and_lt_two_pow _ (by norm_num)
    have hhigh : (byteAt cdb 1 &&& 0x1f) <<< 16 < 2 ^ 64 := by rw [Nat.shiftLeft_eq]; omega
    exact Nat.or_lt_two_pow hhigh (by omega)
  · exact (beAt_lt cdb 2 4).trans (by norm_num)
  · exact (beAt_lt cdb 2 4).trans (by norm_num)
  · exact (beAt_lt cdb 2 8).trans_eq (by norm_num)

/-- A decoded transfer length is a `uint32_t`. -/
theorem tcmuGetXferLength_lt {cdb : Cdb} {n : ℕ} (h : tcmuGetXferLength cdb = some n) :
    n < 2 ^ 32 := by
  rw [tcmuGetXferLength] at h
  split at h <;> simp only [Option.some.injEq, reduceCtorEq] at h <;> subst h
  · exact (byteAt_lt cdb 4).trans (by norm_num)
  · exact (beAt_lt cdb 7 2).trans (by norm_num)
  · exact (beAt_lt cdb 6 4).trans_eq (by norm_num)
  · exact (beAt_lt cdb 10 4).trans_eq (by norm_num)

end Tcmu

end LioProject
