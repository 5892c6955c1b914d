import Mathlib.Data.Nat.Bitwise

/-!
# Fields of some bits

A number of `n` bits that consists of fields of `w` bits each. A field is read by shifting and
masking (`bitField`), and written by clearing its bits and putting the new ones there (`putBits`).
-/

namespace LioProject

/-- The `w` bits from bit `k` on. -/
def bitField (w k x : ℕ) : ℕ := (x >>> k) &&& (2 ^ w - 1)

/-- The number of `n` bits with `v` in the `w` bits from bit `k` on. -/
def putBits (n w k x v : ℕ) : ℕ :=
  (x &&& ((2 ^ n - 1) ^^^ ((2 ^ w - 1) <<< k))) ||| (v <<< k)

variable {n w k j x v : ℕ}

theorem testBit_bitField (w k x i : ℕ) :
    (bitField w k x).testBit i = (decide (i < w) && x.testBit (k + i)) := by
  rw [bitField, Nat.testBit_and, Nat.testBit_shiftRight, Nat.testBit_two_pow_sub_one,
    Bool.and_comm]

theorem testBit_putBits (n w k x v i : ℕ) :
    (putBits n w k x v).testBit i =
      (x.testBit i && xor (decide (i < n)) (decide (k ≤ i) && decide (i - k < w)) ||
        decide (k ≤ i) && v.testBit (i - k)) := by
  rw [putBits, Nat.testBit_or, Nat.testBit_and, Nat.testBit_xor, Nat.testBit_shiftLeft,
    Nat.testBit_shiftLeft, Nat.testBit_two_pow_sub_one, Nat.testBit_two_pow_sub_one]

theorem testBit_of_lt (hv : v < 2 ^ w) {i : ℕ} (hi : w ≤ i) : v.testBit i = false :=
  Nat.testBit_lt_two_pow (hv.trans_le (Nat.pow_le_pow_right (by decide) hi))

/-- A field that has been written is read back. -/
theorem bitField_putBits (hk : k + w ≤ n) (hv : v < 2 ^ w) :
    bitField w k (putBits n w k x v) = v := by
  refine Nat.eq_of_testBit_eq fun i => ?_
  rw [testBit_bitField, testBit_putBits, Nat.add_sub_cancel_left]
  rcases Nat.lt_or_ge i w with hlt | hge
  · have hin : k + i < n := by omega
    simp [hlt, hin]
  · rw [testBit_of_lt hv hge]
    simp [Nat.not_lt.mpr hge]

/-- The other fields are left alone. -/
theorem bitField_putBits_of_ne (hj : j + w ≤ n) (hv : v < 2 ^ w)
    (h : j + w ≤ k ∨ k + w ≤ j) : bitField w j (putBits n w k x v) = bitField w j x := by
  refine Nat.eq_of_testBit_eq fun i => ?_
  rw [testBit_bitField, testBit_bitField, testBit_putBits]
  rcases Nat.lt_or_ge i w with hlt | hge
  · have hin : j + i < n := by omega
    rcases h with hbefore | hbehind
    · have hout : ¬ k ≤ j + i := by omega
      simp [hin, hout]
    · have hout : ¬ j + i - k < w := by omega
      rw [testBit_of_lt hv (Nat.not_lt.mp hout)]
      simp [hin, hout]
  · simp [Nat.not_lt.mpr hge]

theorem putBits_lt (hx : x < 2 ^ n) (hk : k + w ≤ n) (hv : v < 2 ^ w) :
    putBits n w k x v < 2 ^ n := by
  refine Nat.lt_pow_two_of_testBit _ fun i hi => ?_
  have hout : w ≤ i - k := by omega
  rw [testBit_putBits, testBit_of_lt hx hi, testBit_of_lt hv hout]
  simp

end LioProject
