import Mathlib.Logic.Function.Basic
import Mathlib.Data.List.GetD
import Mathlib.Tactic.Common

/-!
# Layers over a store

A layer has values for some of the cells of a store, and the store behind it has values for all of
them. What is seen is the value in the layer, or else the one behind it (`seen`).

A layer may be made in granules of `g` cells, so that cells of one granule come into the layer
together. A write into some cells of a granule then brings the others in as well. `put` is the layer
after a write that gives them a value of its own, `z`, if they have not been there. A write is the
same whether it is done at once or in parts (`put_append`), but it is not what a store does
(`overwrite`), unless what is behind the touched cells is `z` as well (`seen_put_iff`).
-/

namespace LioProject

namespace Layer

section Layer

variable {β : Type*} {g x n y : ℕ} {z : β} {l : ℕ → Option β} {bs cs : List β} {back disk : ℕ → β}

/-- Cell `y` is in a granule with one of the `n` cells from `x` on. -/
def Touches (g x n y : ℕ) : Prop := ∃ i < n, (x + i) / g = y / g

instance (g x n y : ℕ) : Decidable (Touches g x n y) :=
  inferInstanceAs (Decidable (∃ i < n, (x + i) / g = y / g))

theorem not_touches_zero : ¬Touches g x 0 y := fun ⟨_, h, _⟩ => absurd h (Nat.not_lt_zero _)

theorem touches_add {m : ℕ} :
    Touches g x (m + n) y ↔ Touches g x m y ∨ Touches g (x + m) n y := by
  constructor
  · rintro ⟨i, hi, h⟩
    rcases Nat.lt_or_ge i m with hlt | hge
    · exact Or.inl ⟨i, hlt, h⟩
    · refine Or.inr ⟨i - m, by omega, ?_⟩
      rw [Nat.add_assoc, Nat.add_sub_cancel' hge]
      exact h
  · rintro (⟨i, hi, h⟩ | ⟨i, hi, h⟩)
    · exact ⟨i, by omega, h⟩
    · exact ⟨m + i, by omega, by rw [← Nat.add_assoc, h]⟩

/-- The cells of a write are touched. -/
theorem touches_of_mem (hlo : x ≤ y) (hhi : y < x + n) : Touches g x n y :=
  ⟨y - x, by omega, by rw [Nat.add_sub_cancel' hlo]⟩

/-- The layer after a write, in granules of `g` cells. -/
def put (g : ℕ) (z : β) (l : ℕ → Option β) (x : ℕ) (bs : List β) (y : ℕ) : Option β :=
  if x ≤ y ∧ y < x + bs.length then some (bs.getD (y - x) z)
  else if Touches g x bs.length y then some ((l y).getD z)
  else l y

theorem put_of_mem (hlo : x ≤ y) (hhi : y < x + bs.length) :
    put g z l x bs y = some (bs.getD (y - x) z) :=
  if_pos ⟨hlo, hhi⟩

theorem put_of_touches (hout : ¬(x ≤ y ∧ y < x + bs.length)) (h : Touches g x bs.length y) :
    put g z l x bs y = some ((l y).getD z) :=
  (if_neg hout).trans (if_pos h)

theorem put_of_not_touches (h : ¬Touches g x bs.length y) : put g z l x bs y = l y :=
  (if_neg fun hin => h (touches_of_mem hin.1 hin.2)).trans (if_neg h)

/-- Only the cell itself matters. -/
theorem put_congr {l' : ℕ → Option β} (h : l' y = l y) : put g z l' x bs y = put g z l x bs y := by
  rw [put, put, h]

theorem put_nil (l : ℕ → Option β) (x y : ℕ) : put g z l x [] y = l y :=
  put_of_not_touches not_touches_zero

/-- **A write may be done in parts.** -/
theorem put_append (l : ℕ → Option β) (x : ℕ) (bs cs : List β) (y : ℕ) :
    put g z l x (bs ++ cs) y = put g z (put g z l x bs) (x + bs.length) cs y := by
  by_cases hsecond : x + bs.length ≤ y ∧ y < x + bs.length + cs.length
  · rw [put_of_mem (by omega) (by rw [List.length_append]; omega), put_of_mem hsecond.1 hsecond.2,
      List.getD_append_right _ _ _ _ (by omega), Nat.sub_sub]
  by_cases hfirst : x ≤ y ∧ y < x + bs.length
  · have hfirst' : put g z l x bs y = some (bs.getD (y - x) z) := put_of_mem hfirst.1 hfirst.2
    rw [put_of_mem hfirst.1 (by rw [List.length_append]; omega),
      List.getD_append _ _ _ _ (by omega)]
    by_cases htouch : Touches g (x + bs.length) cs.length y
    · rw [put_of_touches hsecond htouch, hfirst', Option.getD_some]
    · rw [put_of_not_touches htouch, hfirst']
  · have hout : ¬(x ≤ y ∧ y < x + (bs ++ cs).length) := by
      rw [List.length_append]
      omega
    have hboth : Touches g x (bs ++ cs).length y ↔
        Touches g x bs.length y ∨ Touches g (x + bs.length) cs.length y := by
      rw [List.length_append, touches_add]
    by_cases htouch : Touches g x bs.length y
    · have hfirst' : put g z l x bs y = some ((l y).getD z) := put_of_touches hfirst htouch
      rw [put_of_touches hout (hboth.mpr (Or.inl htouch))]
      by_cases htouch' : Touches g (x + bs.length) cs.length y
      · rw [put_of_touches hsecond htouch', hfirst', Option.getD_some]
      · rw [put_of_not_touches htouch', hfirst']
    · have hfirst' : put g z l x bs y = l y := put_of_not_touches htouch
      by_cases htouch' : Touches g (x + bs.length) cs.length y
      · rw [put_of_touches hout (hboth.mpr (Or.inr htouch')), put_of_touches hsecond htouch',
          hfirst']
      · rw [put_of_not_touches fun h => (hboth.mp h).elim htouch htouch',
          put_of_not_touches htouch', hfirst']

/-- What is seen through a layer. -/
def seen (l : ℕ → Option β) (back : ℕ → β) (y : ℕ) : β := (l y).getD (back y)

/-- A store after a write. -/
def overwrite (z : β) (disk : ℕ → β) (x : ℕ) (bs : List β) (y : ℕ) : β :=
  if x ≤ y ∧ y < x + bs.length then bs.getD (y - x) z else disk y

/-- **A write through a layer is one to a store** where what comes into the layer with it was there
already, or had the value `z`, and only there. -/
theorem seen_put_iff : seen (put g z l x bs) back y = overwrite z (seen l back) x bs y ↔
    (¬(x ≤ y ∧ y < x + bs.length) → Touches g x bs.length y → l y = none → back y = z) := by
  rw [seen, overwrite]
  split
  · rename_i hin
    rw [put_of_mem hin.1 hin.2, Option.getD_some]
    exact iff_of_true rfl fun hout => absurd hin hout
  · rename_i hout
    rw [forall_prop_of_true hout]
    by_cases htouch : Touches g x bs.length y
    · rw [put_of_touches hout htouch, Option.getD_some, seen, forall_prop_of_true htouch]
      cases hl : l y with
      | none => exact ⟨fun h _ => h.symm, fun h => (h rfl).symm⟩
      | some v => exact iff_of_true rfl nofun
    · rw [put_of_not_touches htouch, seen]
      exact iff_of_true rfl fun h => absurd h htouch

/-- With nothing but `z` behind it, a layer is a store. -/
theorem seen_put (l : ℕ → Option β) (x : ℕ) (bs : List β) (y : ℕ) :
    seen (put g z l x bs) (fun _ => z) y = overwrite z (seen l fun _ => z) x bs y :=
  seen_put_iff.mpr fun _ _ _ => rfl

end Layer

end Layer

end LioProject
