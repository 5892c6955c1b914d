import LioProject.Tcmu.IovecCopy
import Mathlib.Order.Bounds.Basic

/-!
# Comparing with scatter lists

`tcmu_compare_with_iovec` compares entry by entry with `memcmp`. Where an entry differs it looks
for the byte with a loop of its own, whose counter is added to the number of bytes of the entries
before. The commands that compare are about what it returns: here it is computed as in the source,
down to the type of the result, and an array that ends too early is noticed.
-/

namespace LioProject

namespace Tcmu

/-! ### The loops -/

/-- `memcmp`: only the sign of the result matters. -/
def memcmp (mem : Mem) : (a b n : ℕ) → ℤ
  | _, _, 0 => 0
  | a, b, n + 1 =>
    if mem a = mem b then memcmp mem (a + 1) (b + 1) n else if mem a < mem b then -1 else 1

/-- The byte-by-byte loop, when `left` bytes of the part are left. -/
def searchByte (mem : Mem) : (left spos dpos pos : ℕ) → ℕ
  | 0, _, _, pos => pos
  | left + 1, spos, dpos, pos =>
    if mem spos = mem dpos then searchByte mem left (spos + 1) (dpos + 1) (pos + 1) else pos

/-- A number of 64 bits as an `off_t`. -/
def offT (n : ℕ) : ℤ := Int.bmod n (2 ^ 64)

/-- The loop of `tcmu_compare_with_iovec`. It fails when it reads an entry that the array does not
have. -/
def compareLoop (mem : Mem) (a : ℕ) : List Iovec → (size memOff : ℕ) → Option ℤ
  | [], size, _ => if size = 0 then some (-1) else none
  | v :: vs, size, memOff =>
    if size = 0 then some (-1)
    else
      let part := min size v.len
      if memcmp mem (a + memOff) v.base part ≠ 0 then
        some (offT (searchByte mem part (a + memOff) v.base 0 + memOff))
      else compareLoop mem a vs (size - part) (memOff + part)

/-- `tcmu_compare_with_iovec`, for a buffer at address `a`. -/
def Mem.tcmuCompareWithIovec (mem : Mem) (a : ℕ) (iov : List Iovec) (size : ℕ) : Option ℤ :=
  compareLoop mem a iov size 0

/-- What is returned for the offset of a difference. -/
def compareResult : Option ℕ → ℤ
  | none => -1
  | some i => offT i

/-! ### One entry -/

section Entry

variable {mem : Mem} {a b n i pos : ℕ}

theorem memcmp_eq_zero_iff : memcmp mem a b n = 0 ↔ ∀ i < n, mem (a + i) = mem (b + i) := by
  induction n generalizing a b with
  | zero => exact iff_of_true rfl fun i hi => absurd hi (Nat.not_lt_zero i)
  | succ n ih =>
    rw [Nat.forall_lt_succ_left, memcmp]
    split
    · rename_i heq
      rw [ih]
      refine ⟨fun h => ⟨heq, fun i hi => ?_⟩, fun h i hi => ?_⟩
      · rw [Nat.add_comm i, ← Nat.add_assoc, ← Nat.add_assoc]
        exact h i hi
      · rw [Nat.add_assoc, Nat.add_assoc, Nat.add_comm 1]
        exact h.2 i hi
    · rename_i hne
      refine iff_of_false ?_ fun h => hne h.1
      split
      · decide
      · decide

/-- The counter of the loop ends at the first difference. -/
theorem searchByte_of_least (hi : i < n) (hsame : ∀ j < i, mem (a + j) = mem (b + j))
    (hne : mem (a + i) ≠ mem (b + i)) : searchByte mem n a b pos = pos + i := by
  induction i generalizing n a b pos with
  | zero =>
    obtain ⟨m, rfl⟩ := Nat.exists_eq_succ_of_ne_zero hi.ne'
    exact if_neg hne
  | succ i ih =>
    obtain ⟨m, rfl⟩ := Nat.exists_eq_succ_of_ne_zero (Nat.ne_zero_of_lt hi)
    have hfirst : mem a = mem b := hsame 0 (Nat.succ_pos i)
    rw [searchByte, if_pos hfirst, ih (Nat.lt_of_succ_lt_succ hi)]
    · omega
    · intro j hj
      rw [Nat.add_assoc, Nat.add_assoc, Nat.add_comm 1]
      exact hsame (j + 1) (Nat.succ_lt_succ hj)
    · rwa [Nat.add_assoc, Nat.add_assoc, Nat.add_comm 1]

theorem offT_of_lt (h : n < 2 ^ 63) : offT n = n := by
  have hcast : ((2 ^ 64 : ℕ) : ℤ) = 18446744073709551616 := by norm_num
  refine Int.bmod_eq_of_le_mul_two ?_ ?_
  · rw [hcast]
    omega
  · rw [hcast]
    omega

end Entry

/-! ### Scatter lists -/

section Compare

variable {mem : Mem} {iov : List Iovec} {a n memOff : ℕ}

/-- **The loop** finds what `tcmuCompareWithIovec` finds, and does not leave the array. -/
theorem compareLoop_eq (h : n ≤ iovTotal iov) :
    compareLoop mem a iov n memOff =
      some (compareResult ((tcmuCompareWithIovec mem (a + memOff) iov n).map (· + memOff))) := by
  induction iov generalizing n memOff with
  | nil =>
    obtain rfl : n = 0 := Nat.le_zero.mp h
    rfl
  | cons v iov ih =>
    rw [iovTotal_cons] at h
    rw [compareLoop, tcmuCompareWithIovec]
    split
    · rfl
    · dsimp only
      cases hfind : (List.range (min n v.len)).find?
          (fun i => decide (mem (a + memOff + i) ≠ mem (v.base + i))) with
      | none =>
        have hsame : ∀ i < min n v.len, mem (a + memOff + i) = mem (v.base + i) := by
          intro i hi
          simpa using List.find?_eq_none.mp hfind i (List.mem_range.mpr hi)
        have hoffset : ((· + memOff) ∘ (min n v.len + ·) : ℕ → ℕ) =
            (· + (memOff + min n v.len)) := by
          funext i
          rw [Function.comp_apply]
          omega
        rw [if_neg (not_not.mpr (memcmp_eq_zero_iff.mpr hsame)), ih (by omega), Option.map_map,
          hoffset, Nat.add_assoc]
      | some i =>
        obtain ⟨hne, hi, hleast⟩ := List.find?_range_eq_some.mp hfind
        have hi := List.mem_range.mp hi
        have hne : mem (a + memOff + i) ≠ mem (v.base + i) := of_decide_eq_true hne
        have hsame : ∀ j < i, mem (a + memOff + j) = mem (v.base + j) := by
          intro j hj
          simpa using hleast j hj
        rw [if_pos fun hzero => hne (memcmp_eq_zero_iff.mp hzero i hi),
          searchByte_of_least hi hsame hne, Nat.zero_add]
        rfl

theorem tcmuCompareWithIovec_result (h : n ≤ iovTotal iov) :
    mem.tcmuCompareWithIovec a iov n = some (compareResult (tcmuCompareWithIovec mem a iov n)) := by
  rw [Mem.tcmuCompareWithIovec, compareLoop_eq h, Nat.add_zero]
  cases tcmuCompareWithIovec mem a iov n with
  | none => rfl
  | some i => rfl

theorem compare_of_isLeast {i : ℕ} (h : n ≤ iovTotal iov)
    (hi : IsLeast {i | i < n ∧ mem (a + i) ≠ (gather iov mem).getD i 0} i) :
    mem.tcmuCompareWithIovec a iov n = some (offT i) := by
  obtain ⟨⟨hlt, hne⟩, hleast⟩ := hi
  have hfind : (List.range n).find?
      (fun i => decide (mem (a + i) ≠ (gather iov mem).getD i 0)) = some i := by
    refine List.find?_range_eq_some.mpr ⟨decide_eq_true hne, List.mem_range.mpr hlt, ?_⟩
    intro j hj
    rw [Bool.not_eq_true', decide_eq_false_iff_not]
    exact fun hdiff => absurd (hleast ⟨hj.trans hlt, hdiff⟩) (Nat.not_le.mpr hj)
  rw [tcmuCompareWithIovec_result h, tcmuCompareWithIovec_eq h, hfind]
  rfl

theorem compare_of_same (h : n ≤ iovTotal iov)
    (hsame : ∀ i < n, mem (a + i) = (gather iov mem).getD i 0) :
    mem.tcmuCompareWithIovec a iov n = some (-1) := by
  have hfind : (List.range n).find?
      (fun i => decide (mem (a + i) ≠ (gather iov mem).getD i 0)) = none := by
    refine List.find?_range_eq_none.mpr fun i hi => ?_
    rw [Bool.not_eq_true', decide_eq_false_iff_not, not_not]
    exact hsame i hi
  rw [tcmuCompareWithIovec_result h, tcmuCompareWithIovec_eq h, hfind]
  rfl

/-- Only the bytes that are compared matter. -/
theorem compare_congr {mem' : Mem} {a' : ℕ} {iov' : List Iovec} (h : n ≤ iovTotal iov)
    (h' : n ≤ iovTotal iov') (hload : mem'.load a' n = mem.load a n)
    (hgather : (gather iov' mem').take n = (gather iov mem).take n) :
    mem'.tcmuCompareWithIovec a' iov' n = mem.tcmuCompareWithIovec a iov n := by
  rw [tcmuCompareWithIovec_result h, tcmuCompareWithIovec_result h', tcmuCompareWithIovec_eq h,
    tcmuCompareWithIovec_eq h']
  congr 2
  refine List.find?_congr fun i hi => ?_
  have hlt := List.mem_range.mp hi
  have hget : (gather iov' mem').getD i 0 = (gather iov mem).getD i 0 := by
    have hat := congrArg (fun l => l.getD i 0) hgather
    simpa [List.getElem?_take, hlt] using hat
  rw [hget, Mem.load_eq_load.mp hload i hlt]

/-- Entries that are not reached are not read. -/
theorem compare_take {k : ℕ} (h : n ≤ iovTotal (iov.take k)) :
    mem.tcmuCompareWithIovec a (iov.take k) n = mem.tcmuCompareWithIovec a iov n := by
  have hsplit : gather iov mem = gather (iov.take k) mem ++ gather (iov.drop k) mem := by
    rw [← gather_append, List.take_append_drop]
  have hlen := length_gather (iov.take k) mem
  have htotal : n ≤ iovTotal iov := by
    rw [← length_gather iov mem, hsplit, List.length_append]
    omega
  refine compare_congr htotal h rfl ?_
  rw [hsplit, List.take_append_of_le_length (by omega)]

/-- **Comparing with a scatter list** of at least `n` bytes returns the first offset below `n` at
which the buffer differs from the bytes that the entries describe, or -1 if there is none. It does
not matter how these bytes are split, and the entries behind the byte `n - 1` are not read. -/
theorem compare_iovec (h : n ≤ iovTotal iov) :
    (∀ i, IsLeast {i | i < n ∧ mem (a + i) ≠ (gather iov mem).getD i 0} i →
        mem.tcmuCompareWithIovec a iov n = some (offT i)) ∧
      (n ≤ 2 ^ 63 → ∀ i < n, offT i = i) ∧
      ((∀ i < n, mem (a + i) = (gather iov mem).getD i 0) →
        mem.tcmuCompareWithIovec a iov n = some (-1)) ∧
      (∀ (mem' : Mem) a' iov', n ≤ iovTotal iov' → mem'.load a' n = mem.load a n →
        (gather iov' mem').take n = (gather iov mem).take n →
          mem'.tcmuCompareWithIovec a' iov' n = mem.tcmuCompareWithIovec a iov n) ∧
      ∀ k, n ≤ iovTotal (iov.take k) →
        mem.tcmuCompareWithIovec a (iov.take k) n = mem.tcmuCompareWithIovec a iov n :=
  ⟨fun _ hi => compare_of_isLeast h hi, fun hn _ hi => offT_of_lt (hi.trans_le hn),
    compare_of_same h, fun _ _ _ h' hload hgather => compare_congr h h' hload hgather,
    fun _ hk => compare_take hk⟩

/-- The third byte of a buffer differs from that of a scatter list with an empty entry. -/
theorem compare_iovec_third :
    Mem.tcmuCompareWithIovec (fun x => if x = 52 then 1 else 0) 50 [⟨0, 2⟩, ⟨9, 0⟩, ⟨20, 3⟩] 4 =
      some 2 := by
  have hleast : IsLeast {i | i < 4 ∧ (if 50 + i = 52 then 1 else 0 : UInt8) ≠
      (gather [⟨0, 2⟩, ⟨9, 0⟩, ⟨20, 3⟩] fun x => if x = 52 then 1 else 0).getD i 0} 2 := by
    refine ⟨⟨by decide, by decide⟩, fun i hi => ?_⟩
    by_contra hlt
    have hcases : i = 0 ∨ i = 1 := by omega
    rcases hcases with rfl | rfl
    · exact hi.2 (by decide)
    · exact hi.2 (by decide)
  exact (compare_iovec (by decide)).1 2 hleast

end Compare

end Tcmu

end LioProject
