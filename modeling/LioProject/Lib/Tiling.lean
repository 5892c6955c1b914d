import Mathlib.Algebra.Order.Ring.Nat
import Mathlib.Data.List.Basic

/-!
# Tilings

Pieces of an interval, each given by its start and its length, tile the interval if each of them
begins where the one before it ends. `Tiles.countP_eq` says what this is for: every point of the
interval is in exactly one piece, and no piece reaches outside.

A loop that cuts an interval into pieces adds one piece at a time at the end: `tiles_concat` is its
step.
-/

namespace LioProject

/-- The pieces tile the interval from `lo` to `hi`, one after the other. -/
def Tiles : ℕ → ℕ → List (ℕ × ℕ) → Prop
  | lo, hi, [] => lo = hi
  | lo, hi, p :: ps => p.1 = lo ∧ Tiles (lo + p.2) hi ps

instance decidableTiles : ∀ lo hi ps, Decidable (Tiles lo hi ps)
  | lo, hi, [] => inferInstanceAs (Decidable (lo = hi))
  | lo, hi, p :: ps =>
    have := decidableTiles (lo + p.2) hi ps
    inferInstanceAs (Decidable (_ ∧ _))

section Tiles

variable {lo hi a n : ℕ} {ps qs : List (ℕ × ℕ)}

theorem tiles_nil : Tiles lo hi [] ↔ lo = hi := Iff.rfl

theorem Tiles.eq_add_sum : ∀ {lo : ℕ} {ps : List (ℕ × ℕ)}, Tiles lo hi ps →
    hi = lo + (ps.map Prod.snd).sum
  | _, [], h => h.symm
  | lo, p :: ps, h => by
    have hrest := h.2.eq_add_sum
    rw [List.map_cons, List.sum_cons]
    omega

theorem Tiles.le (h : Tiles lo hi ps) : lo ≤ hi := by
  rw [h.eq_add_sum]
  exact Nat.le_add_right _ _

/-- Pieces that are not shorter than `m` are not too many. -/
theorem Tiles.length_mul_le {m : ℕ} : ∀ {lo : ℕ} {ps : List (ℕ × ℕ)}, Tiles lo hi ps →
    (∀ p ∈ ps, m ≤ p.2) → lo + ps.length * m ≤ hi
  | lo, [], h, _ => by
    have h : lo = hi := h
    rw [List.length_nil, Nat.zero_mul, h]
    exact Nat.le_refl _
  | lo, p :: ps, h, hm => by
    have hp := hm p (List.mem_cons_self ..)
    have hrest := h.2.length_mul_le fun q hq => hm q (List.mem_cons_of_mem _ hq)
    rw [List.length_cons, Nat.add_mul]
    omega

theorem tiles_append : ∀ {lo : ℕ} {ps : List (ℕ × ℕ)},
    Tiles lo hi (ps ++ qs) ↔ ∃ mid, Tiles lo mid ps ∧ Tiles mid hi qs
  | lo, [] => by
    refine ⟨fun h => ⟨lo, rfl, h⟩, ?_⟩
    rintro ⟨mid, rfl, h⟩
    exact h
  | lo, p :: ps => by
    rw [List.cons_append, Tiles, tiles_append]
    constructor
    · rintro ⟨hp, mid, hps, hqs⟩
      exact ⟨mid, ⟨hp, hps⟩, hqs⟩
    · rintro ⟨mid, ⟨hp, hps⟩, hqs⟩
      exact ⟨hp, mid, hps, hqs⟩

/-- One more piece at the end. -/
theorem tiles_concat : Tiles lo hi (ps ++ [(a, n)]) ↔ Tiles lo a ps ∧ hi = a + n := by
  rw [tiles_append]
  constructor
  · rintro ⟨mid, hps, rfl, hmid⟩
    exact ⟨hps, hmid.symm⟩
  · rintro ⟨hps, rfl⟩
    exact ⟨a, hps, rfl, rfl⟩

/-- Every point of the interval is in exactly one piece, and no other point is in any. -/
theorem Tiles.countP_eq (x : ℕ) : ∀ {lo : ℕ} {ps : List (ℕ × ℕ)}, Tiles lo hi ps →
    ps.countP (fun p => p.1 ≤ x ∧ x < p.1 + p.2) = if lo ≤ x ∧ x < hi then 1 else 0
  | lo, [], h => by
    have h : lo = hi := h
    rw [if_neg (by omega)]
    rfl
  | lo, p :: ps, h => by
    obtain ⟨hp, hps⟩ := h
    have hle := hps.le
    rw [List.countP_cons, hps.countP_eq x]
    by_cases hx : lo ≤ x ∧ x < lo + p.2
    · rw [if_neg (by omega), if_pos (by rw [hp]; exact decide_eq_true hx), if_pos (by omega)]
    · have hnot : ¬ (decide (p.1 ≤ x ∧ x < p.1 + p.2) = true) := by
        rw [decide_eq_true_eq, hp]
        exact hx
      rw [if_neg hnot, Nat.add_zero]
      by_cases hy : lo + p.2 ≤ x ∧ x < hi
      · rw [if_pos hy, if_pos (by omega)]
      · rw [if_neg hy, if_neg (by omega)]

end Tiles

end LioProject
