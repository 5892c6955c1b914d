import LioProject.Tcmu.Command

/-!
# Devices and the checks on a command's range

What `dev_added` in `main.c` makes of the configfs attributes of a device, and the three checks in
`tcmur_cmd_handler.c` that stand between a CDB and a handler: `check_iovec_length`, `check_lbas`
and `check_lba_and_length`.

Two of the computations are done in fewer bits than they need. The byte count of a transfer is a
32-bit product, and the length of a scatter list is a 64-bit sum. The lemmas at the end say what a
passed check means over the natural numbers, wrap-around included.
-/

namespace LioProject

namespace Tcmu

/-! ### Devices -/

/-- The fields of `struct tcmu_device` that describe its geometry. -/
structure Device where
  /-- `block_size`, a `uint32_t`. -/
  blockSize : ℕ
  /-- `num_lbas`, a `uint64_t`. -/
  numLbas : ℕ
  /-- `max_xfer_len`, a `uint32_t` number of blocks. -/
  maxXferLen : ℕ
  /-- `opt_unmap_gran`, a `uint32_t` number of blocks. -/
  optUnmapGran : ℕ
  /-- `unmap_gran_align`, a `uint32_t` number of blocks. -/
  unmapGranAlign : ℕ
  deriving DecidableEq, Repr

/-- The attributes of a device as `dev_added` reads them from configfs. -/
structure DevAttrs where
  /-- `hw_block_size`, an `int32_t`. -/
  hwBlockSize : ℤ
  /-- The size in bytes, an `int64_t`. -/
  devSize : ℤ
  /-- `hw_max_sectors`, an `int32_t`. -/
  hwMaxSectors : ℤ
  /-- The block size fits its type. -/
  hwBlockSize_lt : hwBlockSize < 2 ^ 31
  /-- The device size fits its type. -/
  devSize_lt : devSize < 2 ^ 63
  /-- The maximal transfer fits its type. -/
  hwMaxSectors_lt : hwMaxSectors < 2 ^ 31

/-- `dev_added`: the geometry of the device, or nothing when an attribute is refused. -/
def devAdded (a : DevAttrs) : Option Device :=
  if a.hwBlockSize ≤ 0 then none
  else if a.devSize < 0 then none
  else if a.hwMaxSectors < 0 then none
  else some
    { blockSize := a.hwBlockSize.toNat
      numLbas := a.devSize.toNat / a.hwBlockSize.toNat
      maxXferLen := a.hwMaxSectors.toNat
      optUnmapGran := a.hwMaxSectors.toNat
      unmapGranAlign := 0 }

/-- A device of `size` bytes, as `dev_added` leaves it. -/
structure Device.Added (d : Device) (size : ℕ) : Prop where
  /-- Blocks are not empty. -/
  blockSize_pos : 0 < d.blockSize
  /-- The block size came out of an `int32_t`. -/
  blockSize_lt : d.blockSize < 2 ^ 31
  /-- The size came out of an `int64_t`. -/
  size_lt : size < 2 ^ 63
  /-- The device has as many blocks as fit into its size. -/
  numLbas_eq : d.numLbas = size / d.blockSize
  /-- The maximal transfer came out of an `int32_t`. -/
  maxXferLen_lt : d.maxXferLen < 2 ^ 31
  /-- The unmap granularity is the maximal transfer. -/
  optUnmapGran_eq : d.optUnmapGran = d.maxXferLen
  /-- Unmap alignment starts at the beginning of the device. -/
  unmapGranAlign_eq : d.unmapGranAlign = 0

/-- What `dev_added` accepts it leaves in this shape. -/
theorem Device.added_of_devAdded {a : DevAttrs} {d : Device} (h : devAdded a = some d) :
    d.Added a.devSize.toNat := by
  have hblock := a.hwBlockSize_lt
  have hsize := a.devSize_lt
  have hmax := a.hwMaxSectors_lt
  rw [devAdded] at h
  split at h
  · exact absurd h (by simp)
  · split at h
    · exact absurd h (by simp)
    · split at h
      · exact absurd h (by simp)
      · obtain rfl := (Option.some.inj h).symm
        refine ⟨?_, ?_, ?_, rfl, ?_, rfl, rfl⟩
        · change 0 < a.hwBlockSize.toNat
          omega
        · change a.hwBlockSize.toNat < 2 ^ 31
          omega
        · omega
        · change a.hwMaxSectors.toNat < 2 ^ 31
          omega

/-- All blocks lie inside the device. -/
theorem Device.Added.blocks_le {d : Device} {size : ℕ} (h : d.Added size) :
    d.numLbas * d.blockSize ≤ size := by
  rw [h.numLbas_eq]
  exact Nat.div_mul_le_self size d.blockSize

/-! ### Checks -/

/-- The scatter list of a command: `iov_cnt` entries of its array. -/
def TcmulibCmd.iov (cmd : TcmulibCmd) : List Iovec := cmd.iovec.take cmd.iovCnt

/-- The block address in a CDB of fixed length. -/
def lbaOf (cdb : Cdb) : ℕ := (tcmuGetLba cdb).getD 0

/-- The transfer length in a CDB of fixed length. -/
def xferLengthOf (cdb : Cdb) : ℕ := (tcmuGetXferLength cdb).getD 0

theorem lbaOf_lt (cdb : Cdb) : lbaOf cdb < 2 ^ 64 := by
  rw [lbaOf]
  cases h : tcmuGetLba cdb with
  | none => norm_num
  | some lba => exact tcmuGetLba_lt h

theorem xferLengthOf_lt (cdb : Cdb) : xferLengthOf cdb < 2 ^ 32 := by
  rw [xferLengthOf]
  cases h : tcmuGetXferLength cdb with
  | none => norm_num
  | some n => exact tcmuGetXferLength_lt h

/-- `check_iovec_length`: `sectors * block_size` is computed in 32 bits. -/
def checkIovecLength (d : Device) (cmd : TcmulibCmd) (sectors : ℕ) : TcmuSts :=
  if tcmuIovecLength cmd.iov ≠ sectors * d.blockSize % 2 ^ 32 then .hwErr else .ok

/-- `check_lbas`: the sum is computed in 64 bits. -/
def checkLbas (d : Device) (startLba lbaCnt : ℕ) : TcmuSts :=
  if (startLba + lbaCnt) % 2 ^ 64 > d.numLbas ∨ (startLba + lbaCnt) % 2 ^ 64 < startLba then .range
  else .ok

/-- `check_lba_and_length`. -/
def checkLbaAndLength (d : Device) (cmd : TcmulibCmd) (cdb : Cdb) (sectors : ℕ) : TcmuSts :=
  if checkIovecLength d cmd sectors ≠ .ok then checkIovecLength d cmd sectors
  else checkLbas d (lbaOf cdb) sectors

/-! ### What a passed check means -/

theorem tcmuIovecLength_eq (iov : List Iovec) : tcmuIovecLength iov = iovTotal iov % 2 ^ 64 := by
  have hgen : ∀ n, iov.foldl (fun n v => (n + v.len) % 2 ^ 64) (n % 2 ^ 64)
      = (n + iovTotal iov) % 2 ^ 64 := by
    induction iov with
    | nil => simp [iovTotal]
    | cons v iov ih =>
      intro n
      rw [List.foldl_cons, Nat.mod_add_mod, ih, iovTotal, iovTotal, List.map_cons, List.sum_cons,
        Nat.add_assoc]
  simpa [tcmuIovecLength] using hgen 0

theorem checkIovecLength_ok {d : Device} {cmd : TcmulibCmd} {sectors : ℕ} :
    checkIovecLength d cmd sectors = .ok ↔
      iovTotal cmd.iov % 2 ^ 64 = sectors * d.blockSize % 2 ^ 32 := by
  rw [checkIovecLength, tcmuIovecLength_eq]
  simp

/-- The sum of a passed range check did not wrap, when the operands are in range. -/
theorem checkLbas_ok {d : Device} {startLba lbaCnt : ℕ} (hstart : startLba < 2 ^ 64)
    (hcnt : lbaCnt < 2 ^ 64) (h : checkLbas d startLba lbaCnt = .ok) :
    startLba + lbaCnt ≤ d.numLbas := by
  rw [checkLbas] at h
  split at h
  · exact absurd h (by simp)
  · rename_i hnot
    omega

theorem checkLbaAndLength_ok {d : Device} {cmd : TcmulibCmd} {cdb : Cdb} {sectors : ℕ}
    (h : checkLbaAndLength d cmd cdb sectors = .ok) :
    checkIovecLength d cmd sectors = .ok ∧ checkLbas d (lbaOf cdb) sectors = .ok := by
  rw [checkLbaAndLength] at h
  split at h
  · rename_i hne
    exact absurd h hne
  · rename_i heq
    exact ⟨not_not.mp heq, h⟩

/-- An accepted transfer lies inside the device. -/
theorem transfer_le_size {d : Device} {size : ℕ} {cmd : TcmulibCmd} {cdb : Cdb} (hd : d.Added size)
    (h : checkLbaAndLength d cmd cdb (xferLengthOf cdb) = .ok) :
    (lbaOf cdb + xferLengthOf cdb) * d.blockSize ≤ size := by
  have hlbas := checkLbas_ok (lbaOf_lt cdb) ((xferLengthOf_lt cdb).trans (by norm_num))
    (checkLbaAndLength_ok h).2
  exact (Nat.mul_le_mul_right _ hlbas).trans hd.blocks_le

end Tcmu

end LioProject
