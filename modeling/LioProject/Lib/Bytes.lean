import Mathlib.Data.List.Basic
import Mathlib.Algebra.Order.Ring.Nat
import Mathlib.Tactic.Ring

/-!
# Big-endian fields of byte strings

Wire formats are read field by field: a byte at an offset (`byteAt`), or a big-endian number made
of `k` consecutive bytes (`beAt`). Both are total; a byte past the end reads as zero, and the
bound `beAt_lt` holds in every case.

They are written the same way, by `List.set` and by `putBe`. A field that was written is read back
(`beAt_putBe`), and writing it leaves the bytes around it alone (`beAt_set_of_outside`,
`byteAt_putBe_of_outside`).

Records that the machine lays out itself have little-endian fields, `leAt`. They are given as the
bytes `leBytes` between other bytes, and read back there (`leAt_append`).
-/

namespace LioProject

/-- The byte at offset `i`, as a number. -/
def byteAt (bs : List UInt8) (i : ℕ) : ℕ := (bs.getD i 0).toNat

theorem byteAt_lt (bs : List UInt8) (i : ℕ) : byteAt bs i < 256 := UInt8.toNat_lt _

/-- The big-endian number in the `k` bytes that start at offset `i`. -/
def beAt (bs : List UInt8) (i : ℕ) : ℕ → ℕ
  | 0 => 0
  | k + 1 => beAt bs i k * 256 + byteAt bs (i + k)

/-- A field of `k` bytes is below `256 ^ k`. -/
theorem beAt_lt (bs : List UInt8) (i k : ℕ) : beAt bs i k < 256 ^ k := by
  induction k with
  | zero => simp [beAt]
  | succ k ih =>
    have hbyte : byteAt bs (i + k) < 256 := byteAt_lt bs (i + k)
    calc beAt bs i (k + 1) = beAt bs i k * 256 + byteAt bs (i + k) := rfl
      _ < (beAt bs i k + 1) * 256 := by omega
      _ ≤ 256 ^ k * 256 := Nat.mul_le_mul_right _ ih
      _ = 256 ^ (k + 1) := by ring

/-! ### Writing -/

theorem byteAt_set_self {bs : List UInt8} {i : ℕ} (h : i < bs.length) (b : UInt8) :
    byteAt (bs.set i b) i = b.toNat := by
  simp [byteAt, h]

theorem byteAt_set_of_ne {i j : ℕ} (bs : List UInt8) (b : UInt8) (h : j ≠ i) :
    byteAt (bs.set j b) i = byteAt bs i := by
  simp [byteAt, List.getElem?_set_ne h]

/-- A byte outside the field is not part of it. -/
theorem beAt_set_of_outside {i j k : ℕ} (bs : List UInt8) (b : UInt8) (h : j < i ∨ i + k ≤ j) :
    beAt (bs.set j b) i k = beAt bs i k := by
  induction k with
  | zero => rfl
  | succ k ih => rw [beAt, beAt, ih (by omega), byteAt_set_of_ne bs b (by omega)]

/-- The bytes with `v` in the `k` bytes that start at offset `i`, most significant byte first. -/
def putBe (bs : List UInt8) (i v : ℕ) : ℕ → List UInt8
  | 0 => bs
  | k + 1 => (putBe bs i (v / 256) k).set (i + k) (UInt8.ofNat (v % 256))

@[simp] theorem length_putBe (bs : List UInt8) (i v k : ℕ) :
    (putBe bs i v k).length = bs.length := by
  induction k generalizing v with
  | zero => rfl
  | succ k ih => rw [putBe, List.length_set, ih]

/-- What has been written is read back. -/
theorem beAt_putBe {bs : List UInt8} {i v k : ℕ} (h : i + k ≤ bs.length) (hv : v < 256 ^ k) :
    beAt (putBe bs i v k) i k = v := by
  induction k generalizing v with
  | zero => exact (Nat.lt_one_iff.mp hv).symm
  | succ k ih =>
    have hhigh : v / 256 < 256 ^ k := Nat.div_lt_of_lt_mul (by rwa [Nat.pow_succ'] at hv)
    have hlow : (UInt8.ofNat (v % 256)).toNat = v % 256 :=
      UInt8.toNat_ofNat_of_lt' (Nat.mod_lt _ (by decide))
    rw [putBe, beAt, beAt_set_of_outside _ _ (by omega), ih (by omega) hhigh,
      byteAt_set_self (by rw [length_putBe]; omega), hlow, Nat.mul_comm]
    exact Nat.div_add_mod v 256

/-- Another field is left alone. -/
theorem beAt_putBe_of_outside {i j k n : ℕ} (bs : List UInt8) (v : ℕ)
    (h : i + k ≤ j ∨ j + n ≤ i) : beAt (putBe bs j v n) i k = beAt bs i k := by
  induction n generalizing v with
  | zero => rfl
  | succ n ih => rw [putBe, beAt_set_of_outside _ _ (by omega), ih _ (by omega)]

theorem byteAt_putBe_of_outside {i j k : ℕ} (bs : List UInt8) (v : ℕ) (h : j < i ∨ i + k ≤ j) :
    byteAt (putBe bs i v k) j = byteAt bs j := by
  induction k generalizing v with
  | zero => rfl
  | succ k ih => rw [putBe, byteAt_set_of_ne _ _ (by omega), ih _ (by omega)]

/-- An array of numbers of `n` bytes: one is written, and the others are left alone. -/
theorem beAt_putBe_mul {bs : List UInt8} {i j v n : ℕ} (hi : (i + 1) * n ≤ bs.length)
    (hv : v < 256 ^ n) : beAt (putBe bs (n * i) v n) (n * j) n =
      if j = i then v else beAt bs (n * j) n := by
  split
  · rename_i hij
    rw [hij, beAt_putBe (by rw [← Nat.mul_succ, Nat.mul_comm]; exact hi) hv]
  · rename_i hij
    refine beAt_putBe_of_outside _ _ ?_
    rcases Nat.lt_or_gt_of_ne hij with hlt | hgt
    · exact Or.inl ((Nat.mul_succ ..).symm.trans_le (Nat.mul_le_mul_left _ hlt))
    · exact Or.inr ((Nat.mul_succ ..).symm.trans_le (Nat.mul_le_mul_left _ hgt))

/-! ### Little-endian fields -/

/-- The little-endian number in the `k` bytes that start at offset `i`. -/
def leAt (bs : List UInt8) : ℕ → ℕ → ℕ
  | _, 0 => 0
  | i, k + 1 => leAt bs (i + 1) k * 256 + byteAt bs i

/-- The `k` bytes of `v`, least significant byte first. -/
def leBytes : ℕ → ℕ → List UInt8
  | _, 0 => []
  | v, k + 1 => UInt8.ofNat (v % 256) :: leBytes (v / 256) k

@[simp] theorem length_leBytes (v k : ℕ) : (leBytes v k).length = k := by
  induction k generalizing v with
  | zero => rfl
  | succ k ih => rw [leBytes, List.length_cons, ih]

/-- A field is read where it is. -/
theorem leAt_append {v k : ℕ} (hv : v < 256 ^ k) (bs cs : List UInt8) :
    leAt (bs ++ leBytes v k ++ cs) bs.length k = v := by
  induction k generalizing v bs with
  | zero => exact (Nat.lt_one_iff.mp hv).symm
  | succ k ih =>
    have hhigh : v / 256 < 256 ^ k := Nat.div_lt_of_lt_mul (by rwa [Nat.pow_succ'] at hv)
    have hlow : (UInt8.ofNat (v % 256)).toNat = v % 256 :=
      UInt8.toNat_ofNat_of_lt' (Nat.mod_lt _ (by decide))
    have hsplit : bs ++ leBytes v (k + 1) ++ cs =
        bs ++ [UInt8.ofNat (v % 256)] ++ leBytes (v / 256) k ++ cs := by
      rw [leBytes]
      simp
    have hbyte : byteAt (bs ++ leBytes v (k + 1) ++ cs) bs.length = v % 256 := by
      rw [byteAt, leBytes]
      simp [hlow]
    have hrest : leAt (bs ++ leBytes v (k + 1) ++ cs) (bs.length + 1) k = v / 256 := by
      have h := ih hhigh (bs ++ [UInt8.ofNat (v % 256)])
      rw [List.length_append, List.length_singleton] at h
      rw [hsplit, h]
    rw [leAt, hrest, hbyte, Nat.mul_comm]
    exact Nat.div_add_mod v 256

end LioProject
