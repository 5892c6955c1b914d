import Mathlib.Data.List.TakeWhile

/-!
# C strings

A C string is what stands in front of its `NUL`, so no character of it is one. It is cut at a
character by `before` and `after`, and cut to the size of an array by `truncate`. `agree` is the
test of `strncmp`. Where it looks at as many characters as the part of the string in front of a
separator has, it finds out if that part is a prefix (`agree_before_iff`).
-/

namespace LioProject

/-- A C string. -/
structure CStr where
  /-- The characters. -/
  chars : List UInt8
  /-- None of them is a `NUL`. -/
  noNul : (0 : UInt8) ∉ chars
  deriving DecidableEq

namespace CStr

@[ext]
theorem ext {s t : CStr} (h : s.chars = t.chars) : s = t := by
  cases s
  cases t
  congr

/-- The number of characters. -/
def length (s : CStr) : ℕ := s.chars.length

/-- One string behind the other. -/
def append (s t : CStr) : CStr := ⟨s.chars ++ t.chars, fun h => by
  rcases List.mem_append.mp h with h | h
  · exact s.noNul h
  · exact t.noNul h⟩

/-- What is stored in an array of `size` bytes: the end may be missing. -/
def truncate (size : ℕ) (s : CStr) : CStr :=
  ⟨s.chars.take (size - 1), fun h => s.noNul (List.mem_of_mem_take h)⟩

/-- What stands in front of the first `c`, or everything. -/
def before (c : UInt8) (s : CStr) : CStr :=
  ⟨s.chars.takeWhile (· ≠ c), fun h => s.noNul (List.takeWhile_subset _ h)⟩

/-- What stands behind the first `c`. -/
def after (c : UInt8) (s : CStr) : Option CStr :=
  match h : s.chars.dropWhile (· ≠ c) with
  | [] => none
  | _ :: l => some ⟨l, fun hl => s.noNul ((List.dropWhile_sublist _).subset
      (h ▸ List.mem_cons_of_mem _ hl))⟩

/-- `strncmp` finds no difference. -/
def agree (n : ℕ) (s t : CStr) : Bool := (s.chars ++ [0]).take n = (t.chars ++ [0]).take n

variable {s t u : CStr} {c : UInt8}

theorem not_mem_before (c : UInt8) (s : CStr) : c ∉ (s.before c).chars := by
  intro h
  exact absurd (List.mem_takeWhile_imp h) (by simp)

theorem begins_before (c : UInt8) (s : CStr) : (s.before c).chars <+: s.chars :=
  List.takeWhile_prefix _

/-- The first separator of a string determines what stands around it. -/
theorem cut_of_chars (hs : s.chars = t.chars ++ c :: u.chars) (ht : c ∉ t.chars) :
    s.before c = t ∧ s.after c = some u := by
  have hall : ∀ d ∈ t.chars, (decide (d ≠ c)) = true := by
    intro d hd
    rw [decide_eq_true_eq]
    rintro rfl
    exact ht hd
  refine ⟨CStr.ext ?_, ?_⟩
  · change s.chars.takeWhile (· ≠ c) = t.chars
    rw [hs, List.takeWhile_append_of_pos hall, List.takeWhile_cons_of_neg (by simp),
      List.append_nil]
  · have hdrop : s.chars.dropWhile (· ≠ c) = c :: u.chars := by
      rw [hs, List.dropWhile_append_of_pos hall, List.dropWhile_cons_of_neg (by simp)]
    rw [after]
    split
    · rename_i heq
      rw [hdrop] at heq
      exact absurd heq (by simp)
    · rename_i d l heq
      rw [hdrop] at heq
      exact congrArg some (CStr.ext (List.cons.inj heq).2.symm)

/-- **Cutting** a string at its first separator. -/
theorem after_eq_some_iff :
    s.after c = some u ↔ s.chars = (s.before c).chars ++ c :: u.chars := by
  refine ⟨fun h => ?_, fun h => (cut_of_chars h (not_mem_before c s)).2⟩
  rw [after] at h
  split at h
  · exact absurd h (by simp)
  · rename_i d l heq
    obtain rfl := Option.some.inj h
    have hd : d = c := by
      have hneg := List.head?_dropWhile_not (· ≠ c) s.chars
      rw [heq] at hneg
      exact not_not.mp (of_decide_eq_false hneg)
    subst hd
    rw [before]
    dsimp only
    rw [← heq, List.takeWhile_append_dropWhile]

theorem truncate_eq_self_iff {size : ℕ} (hsize : 0 < size) :
    s.truncate size = s ↔ s.length < size := by
  refine ⟨fun h => ?_, fun h => CStr.ext (List.take_of_length_le (by rw [length] at h; omega))⟩
  have hlen := congrArg CStr.length h
  rw [truncate, length, List.length_take] at hlen
  rw [length] at hlen ⊢
  omega

/-- **Comparing** only what stands in front of a separator. -/
theorem agree_before_iff (c : UInt8) (s t : CStr) :
    agree (s.before c).length s t = true ↔ (s.before c).chars <+: t.chars := by
  have hs : (s.chars ++ [0]).take (s.before c).length = (s.before c).chars :=
    (List.prefix_iff_eq_take.mp ((begins_before c s).trans (List.prefix_append _ _))).symm
  rw [agree, decide_eq_true_eq, hs, length, ← List.prefix_iff_eq_take]
  refine ⟨fun h => ?_, fun h => h.trans (List.prefix_append _ _)⟩
  rcases List.prefix_concat_iff.mp h with h | h
  · exact absurd (h ▸ List.mem_append_right _ (List.mem_singleton_self 0)) (s.before c).noNul
  · exact h

end CStr

end LioProject
