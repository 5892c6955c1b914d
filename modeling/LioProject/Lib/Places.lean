import Mathlib.Data.List.Nodup
import Mathlib.Logic.Function.Basic

/-!
# Values at a list of places

A function is changed at some places, which are listed one after the other, and gets the values of
another list there. Values that find no place are dropped, and places that get no value keep the
one they have. This is what copying into a scatter list does to memory, if the list is looked at as
the addresses that it describes.

Two such changes, one behind the other, are one (`fill_drop`). If no place is listed twice, the new
values can be read back (`map_fill`).

A change may be made step by step, and a step may have to be made again. `FilledUpTo` says what is
known in between.
-/

namespace LioProject

section Places

variable {α β : Type*} [DecidableEq α]

/-- The function with the values at the places. -/
def fill (f : α → β) : List α → List β → α → β
  | x :: xs, y :: ys => fill (Function.update f x y) xs ys
  | _, _ => f

variable {f : α → β} {xs xs' : List α} {ys zs : List β} {a : α}

@[simp] theorem fill_nil_left (f : α → β) (ys : List β) : fill f [] ys = f := by
  cases ys <;> rfl

@[simp] theorem fill_nil_right (f : α → β) (xs : List α) : fill f xs [] = f := by
  cases xs <;> rfl

theorem fill_cons (f : α → β) (x : α) (xs : List α) (y : β) (ys : List β) :
    fill f (x :: xs) (y :: ys) = fill (Function.update f x y) xs ys := rfl

/-- Places that are not listed keep their values. -/
theorem fill_of_notMem (h : a ∉ xs) : fill f xs ys a = f a := by
  induction xs generalizing f ys with
  | nil => rw [fill_nil_left]
  | cons x xs ih =>
    cases ys with
    | nil => rfl
    | cons y ys =>
      rw [fill_cons, ih (List.not_mem_of_not_mem_cons h),
        Function.update_of_ne (List.ne_of_not_mem_cons h)]

/-- Values that find no place do not matter. -/
theorem fill_take (f : α → β) (xs : List α) (ys : List β) :
    fill f xs (ys.take xs.length) = fill f xs ys := by
  induction xs generalizing f ys with
  | nil => rw [fill_nil_left, fill_nil_left]
  | cons x xs ih =>
    cases ys with
    | nil => rfl
    | cons y ys => rw [List.length_cons, List.take_succ_cons, fill_cons, fill_cons, ih]

/-- Places that get no value do not matter. -/
theorem fill_take_left (f : α → β) (xs : List α) (ys : List β) :
    fill f (xs.take ys.length) ys = fill f xs ys := by
  induction xs generalizing f ys with
  | nil => rw [List.take_nil]
  | cons x xs ih =>
    cases ys with
    | nil => rw [fill_nil_right, fill_nil_right]
    | cons y ys => rw [List.length_cons, List.take_succ_cons, fill_cons, fill_cons, ih]

/-- Only the places that get a value are changed. -/
theorem fill_of_notMem_take (h : a ∉ xs.take ys.length) : fill f xs ys a = f a := by
  rw [← fill_take_left, fill_of_notMem h]

/-- **Two changes are one**: the second takes the places that the first has left. -/
theorem fill_drop (f : α → β) (xs : List α) (ys zs : List β) :
    fill (fill f xs ys) (xs.drop ys.length) zs = fill f xs (ys ++ zs) := by
  induction xs generalizing f ys with
  | nil => rw [List.drop_nil, fill_nil_left, fill_nil_left, fill_nil_left]
  | cons x xs ih =>
    cases ys with
    | nil => rfl
    | cons y ys =>
      rw [List.length_cons, List.drop_succ_cons, List.cons_append, fill_cons, fill_cons, ih]

/-- Places that come in two parts. -/
theorem fill_append (f : α → β) (xs xs' : List α) (ys : List β) :
    fill f (xs ++ xs') ys = fill (fill f xs (ys.take xs.length)) xs' (ys.drop xs.length) := by
  induction xs generalizing f ys with
  | nil => rfl
  | cons x xs ih =>
    cases ys with
    | nil => rw [List.take_nil, List.drop_nil, fill_nil_right, fill_nil_right, fill_nil_right]
    | cons y ys =>
      rw [List.cons_append, List.length_cons, List.take_succ_cons, List.drop_succ_cons, fill_cons,
        fill_cons, ih]

/-- What is read from other places is not changed. -/
theorem map_fill_of_disjoint (h : ∀ a ∈ xs', a ∉ xs) : xs'.map (fill f xs ys) = xs'.map f :=
  List.map_congr_left fun a ha => fill_of_notMem (h a ha)

/-- **The values can be read back**, as far as there are places. Behind them come the old values. -/
theorem map_fill (h : xs.Nodup) :
    xs.map (fill f xs ys) = ys.take xs.length ++ (xs.map f).drop ys.length := by
  induction xs generalizing f ys with
  | nil => rw [List.map_nil, List.map_nil, List.length_nil, List.take_zero, List.drop_nil]; rfl
  | cons x xs ih =>
    obtain ⟨hx, hxs⟩ := List.nodup_cons.mp h
    cases ys with
    | nil => rfl
    | cons y ys =>
      have hold : xs.map (Function.update f x y) = xs.map f :=
        List.map_congr_left fun a ha => Function.update_of_ne (ne_of_mem_of_not_mem ha hx) y f
      rw [List.map_cons, fill_cons, ih hxs, fill_of_notMem hx, Function.update_self, hold,
        List.length_cons, List.length_cons, List.take_succ_cons, List.map_cons, List.drop_succ_cons,
        List.cons_append]

/-! ### Changes that are under way -/

/-- The function `f` has become `g` on the way to having values at the places `xs`. The values `ys`
are there already. The places behind them may have any values. -/
def FilledUpTo (f g : α → β) (xs : List α) (ys : List β) : Prop :=
  ∀ a, a ∉ xs.drop ys.length → g a = fill f xs ys a

variable {g h : α → β}

theorem FilledUpTo.refl (f : α → β) (xs : List α) : FilledUpTo f f xs [] := fun _ _ => by
  rw [fill_nil_right]

theorem FilledUpTo.of_eq (hg : g = fill f xs ys) : FilledUpTo f g xs ys := fun a _ => congrFun hg a

/-- At least nothing else has changed. -/
theorem FilledUpTo.start (hfill : FilledUpTo f g xs ys) : FilledUpTo f g xs [] := by
  intro a ha
  rw [List.length_nil, List.drop_zero] at ha
  rw [hfill a fun hmem => ha (List.mem_of_mem_drop hmem), fill_nil_right, fill_of_notMem ha]

/-- More places. -/
theorem FilledUpTo.of_take {n : ℕ} (hfill : FilledUpTo f g (xs.take n) ys) (hlen : ys.length ≤ n) :
    FilledUpTo f g xs ys := by
  intro a ha
  have hnot : a ∉ (xs.take n).drop ys.length := fun hmem => by
    rw [List.drop_take] at hmem
    exact ha (List.mem_of_mem_take hmem)
  rw [hfill a hnot, ← fill_take_left f (xs.take n), List.take_take, Nat.min_eq_left hlen,
    fill_take_left]

/-- All values are there. -/
theorem FilledUpTo.eq (hfill : FilledUpTo f g xs ys) (hlen : xs.length ≤ ys.length) :
    g = fill f xs ys := by
  funext a
  refine hfill a ?_
  rw [List.drop_eq_nil_of_le hlen]
  exact List.not_mem_nil

/-- What a place is given does not depend on what was there. -/
theorem fill_of_mem_take (hmem : a ∈ xs.take ys.length) : fill f xs ys a = fill g xs ys a := by
  induction xs generalizing f g ys with
  | nil =>
    rw [List.take_nil] at hmem
    exact absurd hmem List.not_mem_nil
  | cons x xs ih =>
    cases ys with
    | nil => exact absurd hmem List.not_mem_nil
    | cons y ys =>
      rw [fill_cons, fill_cons]
      by_cases hin : a ∈ xs.take ys.length
      · exact ih hin
      · rw [List.length_cons, List.take_succ_cons, List.mem_cons] at hmem
        obtain rfl := hmem.resolve_right hin
        rw [fill_of_notMem_take hin, fill_of_notMem_take hin, Function.update_self,
          Function.update_self]

/-- The places that are left are filled next. -/
theorem FilledUpTo.trans (hfg : FilledUpTo f g xs ys)
    (hgh : FilledUpTo g h (xs.drop ys.length) zs) : FilledUpTo f h xs (ys ++ zs) := by
  intro a ha
  rw [List.length_append, ← List.drop_drop] at ha
  rw [hgh a ha, ← fill_drop]
  by_cases hin : a ∈ (xs.drop ys.length).take zs.length
  · exact fill_of_mem_take hin
  · rw [fill_of_notMem_take hin, fill_of_notMem_take hin]
    refine hfg a fun hmem => ?_
    rw [← List.take_append_drop zs.length (xs.drop ys.length), List.mem_append] at hmem
    exact hmem.elim hin ha

end Places

end LioProject
