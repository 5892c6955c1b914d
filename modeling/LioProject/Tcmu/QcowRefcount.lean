import LioProject.Tcmu.Qcow

/-!
# Entries of a block of reference counts

A reference count has `2 ^ order` bits. Counts of less than a byte are packed into bytes from the
low bits on, and longer ones are big-endian numbers. `set_refcount` has a case for each of the seven
orders, as has `get_refcount`. What the one puts into a block is what the other finds there, and
the other entries stay as they are (`setRefcount_eq`). After any number of them the last one counts
(`refcounts_read_back`).

The case for counts of 64 bits is of no use. The assertion in front of it shifts a number of 64 bits
by 64, and so it refuses every count but zero (`setRefcount_six`).
-/

namespace LioProject

namespace Tcmu

/-- The entry is in the block, and has 32 bits at most. -/
def EntryIn (order : ℕ) (block : List UInt8) (index : ℕ) : Prop :=
  order ≤ 5 ∧ (index + 1) * 2 ^ order ≤ 8 * block.length

instance (order : ℕ) (block : List UInt8) (index : ℕ) : Decidable (EntryIn order block index) :=
  inferInstanceAs (Decidable (_ ∧ _))

section Entries

variable {block : List UInt8} {w i j v : ℕ}

@[simp] theorem length_setBits (block : List UInt8) (i w k v : ℕ) :
    (setBits block i w k v).length = block.length :=
  List.length_set

/-- A field of a byte that has been written is read back. -/
theorem bitField_setBits {k : ℕ} (hi : i < block.length) (hk : k + w ≤ 8) (hv : v < 2 ^ w) :
    bitField w k (byteAt (setBits block i w k v) i) = v := by
  have hlt : putBits 8 w k (byteAt block i) v < 2 ^ 8 := putBits_lt (byteAt_lt block i) hk hv
  rw [setBits, byteAt_set_self hi, UInt8.toNat_ofNat_of_lt' hlt, bitField_putBits hk hv]

/-- The other fields, of this byte and of the others, are left alone. -/
theorem bitField_setBits_of_ne {k l : ℕ} (hi : i < block.length) (hk : k + w ≤ 8)
    (hl : l + w ≤ 8) (hv : v < 2 ^ w) (h : j ≠ i ∨ l + w ≤ k ∨ k + w ≤ l) :
    bitField w l (byteAt (setBits block i w k v) j) = bitField w l (byteAt block j) := by
  by_cases hij : j = i
  · subst hij
    have hlt : putBits 8 w k (byteAt block j) v < 2 ^ 8 := putBits_lt (byteAt_lt block j) hk hv
    have hfield : l + w ≤ k ∨ k + w ≤ l := h.resolve_left fun hne => hne rfl
    rw [setBits, byteAt_set_self hi, UInt8.toNat_ofNat_of_lt' hlt,
      bitField_putBits_of_ne hl hv hfield]
  · rw [setBits, byteAt_set_of_ne _ _ (fun heq => hij heq.symm)]

/-- Fields of `w` bits, of which `n` are in a byte. -/
theorem bitField_setBits_iff {n : ℕ} (hn : n * w = 8) (hi : i / n < block.length)
    (hv : v < 2 ^ w) :
    bitField w (w * (j % n)) (byteAt (setBits block (i / n) w (w * (i % n)) v) (j / n)) =
      if j = i then v else bitField w (w * (j % n)) (byteAt block (j / n)) := by
  have hpos : 0 < n := Nat.pos_of_ne_zero fun h0 => by
    rw [h0, Nat.zero_mul] at hn
    exact absurd hn (by decide)
  have hroom : ∀ m, w * (m % n) + w ≤ 8 := by
    intro m
    calc w * (m % n) + w = w * (m % n + 1) := (Nat.mul_succ ..).symm
      _ ≤ w * n := Nat.mul_le_mul_left _ (Nat.mod_lt m hpos)
      _ = 8 := by rw [Nat.mul_comm, hn]
  split
  · rename_i hij
    rw [hij, bitField_setBits hi (hroom i) hv]
  · rename_i hij
    refine bitField_setBits_of_ne hi (hroom i) (hroom j) hv ?_
    by_cases hbyte : j / n = i / n
    · refine Or.inr ?_
      have hne : j % n ≠ i % n := by
        intro hmod
        refine hij ?_
        rw [← Nat.div_add_mod j n, ← Nat.div_add_mod i n, hbyte, hmod]
      rcases Nat.lt_or_gt_of_ne hne with hlt | hgt
      · exact Or.inl ((Nat.mul_succ ..).symm.trans_le (Nat.mul_le_mul_left _ hlt))
      · exact Or.inr ((Nat.mul_succ ..).symm.trans_le (Nat.mul_le_mul_left _ hgt))
    · exact Or.inl hbyte

end Entries

/-- Of the counts of 64 bits only zero can be set. -/
theorem setRefcount_six {block : List UInt8} {i v : ℕ} (hv : v ≠ 0) :
    setRefcount 6 block i v = none :=
  if_pos (by simpa using hv)

/-- A count that fits into an entry can be put there, for each of the orders below. It is what is
found there afterwards, and every other entry of the block is what it was. -/
theorem setRefcount_eq {order : ℕ} {block : List UInt8} {i v : ℕ}
    (hi : EntryIn order block i) (hv : v < 2 ^ 2 ^ order) :
    ∃ block', setRefcount order block i v = some block' ∧ block'.length = block.length ∧
      ∀ j, getRefcount order block' j = if j = i then some v else getRefcount order block j := by
  obtain ⟨horder, hin⟩ := hi
  have hshift : 2 ^ order % 64 = 2 ^ order := by
    refine Nat.mod_eq_of_lt ?_
    calc 2 ^ order ≤ 2 ^ 5 := Nat.pow_le_pow_right (by decide) horder
      _ < 64 := by decide
  have hfits : v >>> (2 ^ order % 64) = 0 := by
    rw [hshift, Nat.shiftRight_eq_div_pow]
    exact Nat.div_eq_of_lt hv
  have hcases : order = 0 ∨ order = 1 ∨ order = 2 ∨ order = 3 ∨ order = 4 ∨ order = 5 := by
    omega
  unfold setRefcount
  rw [if_neg (not_not.mpr hfits)]
  rcases hcases with rfl | rfl | rfl | rfl | rfl | rfl
  · refine ⟨_, rfl, length_setBits .., fun j => ?_⟩
    have hfield := bitField_setBits_iff (j := j) (n := 8) (w := 1) rfl
      (show i / 8 < block.length by omega) hv
    rw [Nat.one_mul, Nat.one_mul] at hfield
    rw [getRefcount, hfield, apply_ite some]
    rfl
  · refine ⟨_, rfl, length_setBits .., fun j => ?_⟩
    rw [getRefcount, bitField_setBits_iff (n := 4) (w := 2) rfl (by omega) hv, apply_ite some]
    rfl
  · refine ⟨_, rfl, length_setBits .., fun j => ?_⟩
    rw [getRefcount, bitField_setBits_iff (n := 2) (w := 4) rfl (by omega) hv, apply_ite some]
    rfl
  · refine ⟨_, rfl, List.length_set, fun j => ?_⟩
    rw [getRefcount]
    by_cases hij : j = i
    · rw [hij, if_pos rfl, byteAt_set_self (by omega), UInt8.toNat_ofNat_of_lt' hv]
    · rw [if_neg hij, byteAt_set_of_ne _ _ (fun heq => hij heq.symm)]
      rfl
  · refine ⟨_, rfl, length_putBe .., fun j => ?_⟩
    rw [getRefcount, beAt_putBe_mul (by omega) hv, apply_ite some]
    rfl
  · refine ⟨_, rfl, length_putBe .., fun j => ?_⟩
    rw [getRefcount, beAt_putBe_mul (by omega) hv, apply_ite some]
    rfl

/-- Counts are put into a block, one after the other. -/
def setRefcounts (order : ℕ) : List (ℕ × ℕ) → List UInt8 → Option (List UInt8)
  | [], block => some block
  | w :: ws, block => (setRefcount order block w.1 w.2).bind (setRefcounts order ws)

theorem EntryIn.of_length {order i : ℕ} {block block' : List UInt8} (h : EntryIn order block i)
    (hlen : block'.length = block.length) : EntryIn order block' i := by
  rw [EntryIn] at h ⊢
  rw [hlen]
  exact h

/-- **Reference counts are read back.** However many counts are put into a block, each entry has the
last one that was put there, or what it had. -/
theorem refcounts_read_back {order : ℕ} {block : List UInt8} {ws : List (ℕ × ℕ)}
    (h : ∀ w ∈ ws, EntryIn order block w.1 ∧ w.2 < 2 ^ 2 ^ order) :
    ∃ block', setRefcounts order ws block = some block' ∧ block'.length = block.length ∧
      ∀ j, getRefcount order block' j =
        ((ws.reverse.find? fun w => w.1 = j).map Prod.snd).or (getRefcount order block j) := by
  induction ws generalizing block with
  | nil => exact ⟨block, rfl, rfl, fun j => rfl⟩
  | cons w ws ih =>
    obtain ⟨hin, hfits⟩ := h w (List.mem_cons_self ..)
    obtain ⟨block₁, hset, hlen, hread⟩ := setRefcount_eq hin hfits
    have hws : ∀ w ∈ ws, EntryIn order block₁ w.1 ∧ w.2 < 2 ^ 2 ^ order := fun w' hmem =>
      have hw := h w' (List.mem_cons_of_mem _ hmem)
      ⟨hw.1.of_length hlen, hw.2⟩
    obtain ⟨block₂, hset', hlen', hread'⟩ := ih hws
    refine ⟨block₂, ?_, hlen'.trans hlen, fun j => ?_⟩
    · rw [setRefcounts, hset]
      exact hset'
    · rw [hread' j, hread j, List.reverse_cons, List.find?_append]
      cases hfind : ws.reverse.find? fun w => w.1 = j with
      | some w' => rfl
      | none =>
        by_cases hj : j = w.1
        · rw [if_pos hj, List.find?_singleton, if_pos (by simp [hj])]
          rfl
        · rw [if_neg hj, List.find?_singleton, if_neg (by simpa using fun heq => hj heq.symm)]
          rfl

/-- Three counts of two bits each, two of them in one entry. -/
theorem refcounts_read_back_three : ∃ block', setRefcounts 1 [(2, 3), (5, 1), (2, 2)]
    [0xff, 0xff] = some block' ∧ block'.length = 2 ∧ ∀ j, getRefcount 1 block' j =
      (([(2, 3), (5, 1), (2, 2)].reverse.find? fun w => w.1 = j).map Prod.snd).or
        (getRefcount 1 [0xff, 0xff] j) :=
  refcounts_read_back (by decide)

end Tcmu

end LioProject
