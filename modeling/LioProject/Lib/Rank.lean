import Mathlib.Data.List.Basic

/-!
# Ranks

The rank of an index of a list, with respect to a property, is the number of elements with the
property in front of it. Elements with the property have different ranks (`rank_lt_of_lt`), and
every rank below another one is taken (`exists_rank_eq`): the ranks number the elements with the
property from left to right.
-/

namespace LioProject

variable {α : Type*}

/-- The number of elements with the property in front of the index. -/
def rank (p : α → Bool) (l : List α) (i : ℕ) : ℕ := (l.take i).countP p

section Rank

variable {p : α → Bool} {l : List α} {a : α} {i j : ℕ}

theorem rank_succ (h : l[i]? = some a) : rank p l (i + 1) = rank p l i + if p a then 1 else 0 := by
  rw [rank, rank, List.take_add_one, h, List.countP_append]
  by_cases hp : p a <;> simp [hp]

theorem rank_succ_none (h : l[i]? = none) : rank p l (i + 1) = rank p l i := by
  rw [rank, rank, List.take_add_one, h, List.countP_append]
  rfl

theorem rank_mono (hij : i ≤ j) : rank p l i ≤ rank p l j :=
  (List.take_sublist_take_left hij).countP_le

theorem rank_lt_of_lt (h : l[i]? = some a) (hp : p a = true) (hij : i < j) :
    rank p l i < rank p l j := by
  have hsucc : rank p l (i + 1) = rank p l i + 1 := by rw [rank_succ h, if_pos hp]
  have hle : rank p l (i + 1) ≤ rank p l j := rank_mono hij
  omega

theorem rank_inj {b : α} (hi : l[i]? = some a) (hj : l[j]? = some b) (hp : p a = true)
    (hq : p b = true) (h : rank p l i = rank p l j) : i = j := by
  rcases Nat.lt_trichotomy i j with hij | hij | hij
  · exact absurd h (Nat.ne_of_lt (rank_lt_of_lt hi hp hij))
  · exact hij
  · exact absurd h.symm (Nat.ne_of_lt (rank_lt_of_lt hj hq hij))

theorem exists_rank_eq {n : ℕ} :
    ∀ {j : ℕ}, n < rank p l j → ∃ i a, i < j ∧ l[i]? = some a ∧ p a = true ∧ rank p l i = n
  | 0, h => absurd h (Nat.not_lt_zero _)
  | j + 1, h => by
    by_cases hn : n < rank p l j
    · obtain ⟨i, a, hij, hrest⟩ := exists_rank_eq hn
      exact ⟨i, a, Nat.lt_succ_of_lt hij, hrest⟩
    · cases hget : l[j]? with
      | none =>
        rw [rank_succ_none hget] at h
        exact absurd h hn
      | some a =>
        rw [rank_succ hget] at h
        by_cases hp : p a = true
        · rw [if_pos hp] at h
          exact ⟨j, a, j.lt_succ_self, hget, hp, by omega⟩
        · rw [if_neg hp] at h
          exact absurd h hn

end Rank

end LioProject
