import Mathlib.Logic.Function.Basic

/-!
# Linked lists

Nodes that point to each other. `Linked next a xs b` says that whoever starts at `a` and follows the
pointers comes through `xs` to `b`. A list with a head `h` is a path from `next h` back to `h`.

A node can be put on one list while another list is being walked, so most of the lemmas say what a
change of the pointers does to a path that it is not about.
-/

namespace LioProject

variable {α : Type*}

/-- The pointers lead from one node through others to a last one. -/
def Linked (next : α → α) : α → List α → α → Prop
  | a, [], b => a = b
  | a, x :: xs, b => a = x ∧ Linked next (next x) xs b

/-- Put a node on a list, behind the head. -/
def listAdd [DecidableEq α] (next : α → α) (h n : α) : α → α :=
  Function.update (Function.update next n (next h)) h n

section Path

variable {next next' : α → α} {a b : α} {xs ys : List α}

/-- There is one path at most from one node to another. -/
theorem Linked.unique (hx : Linked next a xs b) (hy : Linked next a ys b) (hbx : b ∉ xs)
    (hby : b ∉ ys) : xs = ys := by
  induction xs generalizing a ys with
  | nil =>
    cases ys with
    | nil => rfl
    | cons y ys =>
      obtain rfl : a = b := hx
      exact absurd (List.mem_cons.mpr (Or.inl hy.1)) hby
  | cons x xs ih =>
    cases ys with
    | nil =>
      obtain rfl : a = b := hy
      exact absurd (List.mem_cons.mpr (Or.inl hx.1)) hbx
    | cons y ys =>
      obtain rfl : x = y := hx.1.symm.trans hy.1
      rw [ih hx.2 hy.2 (fun h => hbx (List.mem_cons_of_mem _ h))
        (fun h => hby (List.mem_cons_of_mem _ h))]

/-- A path does not depend on the pointers of other nodes. -/
theorem Linked.congr (hx : Linked next a xs b) (h : ∀ x ∈ xs, next' x = next x) :
    Linked next' a xs b := by
  induction xs generalizing a with
  | nil => exact hx
  | cons x xs ih =>
    refine ⟨hx.1, ?_⟩
    rw [h x (List.mem_cons_self ..)]
    exact ih hx.2 fun y hy => h y (List.mem_cons_of_mem _ hy)

section Add

variable [DecidableEq α] {h n : α}

theorem listAdd_of_ne {x : α} (hn : x ≠ n) (hh : x ≠ h) : listAdd next h n x = next x := by
  rw [listAdd, Function.update_of_ne hh, Function.update_of_ne hn]

/-- A node that is put on a list comes first. -/
theorem Linked.add (hx : Linked next (next h) xs h) (hne : n ≠ h) (hn : n ∉ xs) (hh : h ∉ xs) :
    Linked (listAdd next h n) (listAdd next h n h) (n :: xs) h := by
  refine ⟨Function.update_self .., ?_⟩
  have hnext : listAdd next h n n = next h := by
    rw [listAdd, Function.update_of_ne hne, Function.update_self]
  rw [hnext]
  exact hx.congr fun x hmem => listAdd_of_ne (fun heq => hn (heq ▸ hmem)) fun heq => hh (heq ▸ hmem)

end Add

end Path

end LioProject
