import Mathlib.Data.List.Basic
import Mathlib.Data.List.GetD
import Mathlib.Data.List.Induction

/-!
# Flat stores

A store is the list of its cells. It is read in slices and written in patches: `slice d a n` is the
content of the `n` cells from `a` on, and `splice d a bs` is the store after `bs` has been put
there.

After a whole history of patches each cell holds what the last patch covering it put there, or what
it held in the beginning. `lastCell` says that directly, by a look at the one cell, and
`getElem?_patchAll` says that this is what applying the patches one after the other amounts to.
-/

namespace LioProject

variable {α : Type*}

/-- The `n` cells from `a` on. -/
def slice (d : List α) (a n : ℕ) : List α := (d.drop a).take n

/-- The store with `bs` in the cells from `a` on. -/
def splice (d : List α) (a : ℕ) (bs : List α) : List α := d.take a ++ bs ++ d.drop (a + bs.length)

theorem getElem?_slice (d : List α) (a n i : ℕ) :
    (slice d a n)[i]? = if i < n then d[a + i]? else none := by
  rw [slice, List.getElem?_take]
  split
  · rw [List.getElem?_drop]
  · rfl

theorem length_slice {d : List α} {a n : ℕ} (h : a + n ≤ d.length) : (slice d a n).length = n := by
  rw [slice, List.length_take, List.length_drop]
  omega

/-- A part of a part. -/
theorem slice_slice {d : List α} {a m b n : ℕ} (h : b + n ≤ m) :
    slice (slice d a m) b n = slice d (a + b) n := by
  rw [slice, slice, slice, List.drop_take, List.take_take, List.drop_drop,
    Nat.min_eq_left (by omega)]

theorem length_splice {d bs : List α} {a : ℕ} (h : a + bs.length ≤ d.length) :
    (splice d a bs).length = d.length := by
  simp only [splice, List.length_append, List.length_take, List.length_drop]
  omega

/-- A patch sets the cells that it covers and leaves the others alone. -/
theorem getElem?_splice {d bs : List α} {a : ℕ} (h : a + bs.length ≤ d.length) (i : ℕ) :
    (splice d a bs)[i]? = if a ≤ i ∧ i < a + bs.length then bs[i - a]? else d[i]? := by
  have htake : (d.take a).length = a := by
    rw [List.length_take]
    omega
  rw [splice, List.append_assoc]
  rcases Nat.lt_or_ge i a with hlt | hge
  · rw [List.getElem?_append_left (by omega), List.getElem?_take_of_lt hlt, if_neg (by omega)]
  · rw [List.getElem?_append_right (by omega), htake]
    by_cases hin : i < a + bs.length
    · rw [List.getElem?_append_left (by omega), if_pos ⟨hge, hin⟩]
    · rw [List.getElem?_append_right (by omega), List.getElem?_drop, if_neg (by omega)]
      congr 1
      omega

/-- What has been put into a store is read again. -/
theorem slice_splice {d bs : List α} {a : ℕ} (h : a + bs.length ≤ d.length) :
    slice (splice d a bs) a bs.length = bs := by
  have htake : (d.take a).length = a := by
    rw [List.length_take]
    omega
  rw [slice, splice, List.append_assoc, List.drop_append, List.drop_eq_nil_of_le (by omega), htake,
    Nat.sub_self, List.nil_append, List.drop_zero, List.take_left]

theorem splice_nil (d : List α) (a : ℕ) : splice d a [] = d := by
  simp [splice]

/-- A patch at the front. -/
theorem splice_zero (d bs : List α) : splice d 0 bs = bs ++ d.drop bs.length := by
  rw [splice, List.take_zero, List.nil_append, Nat.zero_add]

/-! ### Stores that grow

A file is a store that grows when something is written behind its end. What was not written before
is `z`. -/

/-- The `n` cells from `a` on, with `z` for the cells behind the end. -/
def padded (z : α) (d : List α) (a n : ℕ) : List α := (List.range n).map fun i => d.getD (a + i) z

@[simp] theorem length_padded (z : α) (d : List α) (a n : ℕ) : (padded z d a n).length = n := by
  rw [padded, List.length_map, List.length_range]

/-- Inside the store these are its cells. -/
theorem padded_eq_slice (z : α) {d : List α} {a n : ℕ} (h : a + n ≤ d.length) :
    padded z d a n = slice d a n := by
  refine List.ext_getElem (by rw [length_padded, length_slice h]) fun i hi hi' => ?_
  rw [length_padded] at hi
  have hin : a + i < d.length := by omega
  simp [padded, slice, hin]

/-- Behind the end there is nothing but `z`. -/
theorem padded_of_length_le (z : α) {d : List α} {a : ℕ} (h : d.length ≤ a) (n : ℕ) :
    padded z d a n = List.replicate n z := by
  rw [padded, List.eq_replicate_iff]
  refine ⟨by rw [List.length_map, List.length_range], fun b hb => ?_⟩
  obtain ⟨i, -, rfl⟩ := List.mem_map.mp hb
  exact List.getD_eq_default _ _ (by omega)

theorem padded_add (z : α) (d : List α) (a m n : ℕ) :
    padded z d a (m + n) = padded z d a m ++ padded z d (a + m) n := by
  rw [padded, List.range_add, List.map_append, List.map_map, padded, padded]
  refine congrArg _ (List.map_congr_left fun i _ => ?_)
  rw [Function.comp_apply, Nat.add_assoc]

/-- Write `bs` into a store that grows. Without bytes nothing is written, and it does not grow. -/
def writeAt (z : α) (d : List α) (a : ℕ) (bs : List α) : List α :=
  if bs = [] then d else splice (d ++ List.replicate (a + bs.length - d.length) z) a bs

theorem writeAt_nil (z : α) (d : List α) (a : ℕ) : writeAt z d a [] = d := if_pos rfl

theorem length_writeAt (z : α) (d : List α) (a : ℕ) {bs : List α} (h : bs ≠ []) :
    (writeAt z d a bs).length = max d.length (a + bs.length) := by
  have hlen : (d ++ List.replicate (a + bs.length - d.length) z).length
      = max d.length (a + bs.length) := by
    rw [List.length_append, List.length_replicate]
    omega
  rw [writeAt, if_neg h, length_splice (by omega), hlen]

/-- The cells that are written have the new content, and the others the old one. -/
theorem getD_writeAt (z : α) (d : List α) (a : ℕ) (bs : List α) (i : ℕ) :
    (writeAt z d a bs).getD i z =
      if a ≤ i ∧ i < a + bs.length then bs.getD (i - a) z else d.getD i z := by
  rw [writeAt]
  split
  · rename_i hnil
    rw [hnil, List.length_nil, if_neg (by omega)]
  · have hlen : a + bs.length ≤ (d ++ List.replicate (a + bs.length - d.length) z).length := by
      rw [List.length_append, List.length_replicate]
      omega
    rw [List.getD_eq_getElem?_getD, getElem?_splice hlen]
    split
    · exact (List.getD_eq_getElem?_getD ..).symm
    · rw [← List.getD_eq_getElem?_getD]
      rcases Nat.lt_or_ge i d.length with hlt | hge
      · exact List.getD_append _ _ _ _ hlt
      · rw [List.getD_append_right _ _ _ _ hge, List.getD_eq_default _ _ hge,
          List.getD_eq_getElem?_getD]
        exact List.getElem?_getD_replicate_default_eq _ _ _

/-- Stores of one length with the same cells are equal. -/
theorem ext_getD {z : α} {d e : List α} (hlen : d.length = e.length)
    (h : ∀ i, d.getD i z = e.getD i z) : d = e := by
  refine List.ext_getElem hlen fun i hi hi' => ?_
  rw [← List.getD_eq_getElem _ z hi, ← List.getD_eq_getElem _ z hi', h]

theorem getD_slice (z : α) (d : List α) (a n i : ℕ) :
    (slice d a n).getD i z = if i < n then d.getD (a + i) z else z := by
  rw [List.getD_eq_getElem?_getD, getElem?_slice, List.getD_eq_getElem?_getD]
  split <;> rfl

theorem length_le_writeAt (z : α) (d : List α) (a : ℕ) (bs : List α) :
    d.length ≤ (writeAt z d a bs).length := by
  rcases eq_or_ne bs [] with rfl | hbs
  · exact Nat.le_of_eq (congrArg List.length (writeAt_nil z d a).symm)
  · rw [length_writeAt _ _ _ hbs]
    exact Nat.le_max_left _ _

/-- What has been written is there. -/
theorem slice_writeAt (z : α) (d : List α) (a : ℕ) {bs : List α} (hbs : bs ≠ []) :
    slice (writeAt z d a bs) a bs.length = bs := by
  have hin : a + bs.length ≤ (writeAt z d a bs).length := by
    rw [length_writeAt _ _ _ hbs]
    exact Nat.le_max_right _ _
  refine ext_getD (z := z) (length_slice hin) fun i => ?_
  rw [getD_slice, getD_writeAt, Nat.add_sub_cancel_left]
  split
  · rw [if_pos (by omega)]
  · exact (List.getD_eq_default _ _ (by omega)).symm

/-- A part of a table is written. The store has the table then, if it had what the table was before
it changed in that part. -/
theorem slice_writeAt_slice (z : α) {d t t' : List α} {a p n : ℕ} (hd : slice d a t.length = t)
    (hin : a + t.length ≤ d.length) (hlen : t'.length = t.length) (hp : p + n ≤ t.length)
    (hout : ∀ i, i < p ∨ p + n ≤ i → t'.getD i z = t.getD i z) :
    slice (writeAt z d (a + p) (slice t' p n)) a t.length = t' := by
  have hpiece : (slice t' p n).length = n := length_slice (by omega)
  have hgrow := length_le_writeAt z d (a + p) (slice t' p n)
  refine ext_getD (z := z) ((length_slice (by omega)).trans hlen.symm) fun i => ?_
  rw [getD_slice, getD_writeAt, hpiece]
  split
  · rename_i hi
    split
    · rename_i hcell
      rw [getD_slice, if_pos (by omega)]
      congr 1
      omega
    · rename_i hcell
      have hread : (slice d a t.length).getD i z = d.getD (a + i) z := by
        rw [getD_slice, if_pos hi]
      rw [hout i (by omega), ← hread, hd]
  · exact (List.getD_eq_default _ _ (by omega)).symm

/-- Two writes, one directly behind the other. -/
theorem writeAt_append (z : α) (d : List α) (a : ℕ) (bs cs : List α) :
    writeAt z d a (bs ++ cs) = writeAt z (writeAt z d a bs) (a + bs.length) cs := by
  rcases eq_or_ne bs [] with rfl | hbs
  · rw [writeAt_nil, List.nil_append, List.length_nil, Nat.add_zero]
  rcases eq_or_ne cs [] with rfl | hcs
  · rw [writeAt_nil, List.append_nil]
  refine ext_getD (z := z) ?_ fun i => ?_
  · rw [length_writeAt _ _ _ (by simp [hbs]), length_writeAt _ _ _ hcs, length_writeAt _ _ _ hbs,
      List.length_append]
    omega
  · rw [getD_writeAt, getD_writeAt, getD_writeAt, List.length_append]
    by_cases hsnd : a + bs.length ≤ i ∧ i < a + bs.length + cs.length
    · rw [if_pos (by omega), if_pos hsnd, List.getD_append_right _ _ _ _ (by omega), Nat.sub_sub]
    · rw [if_neg hsnd]
      by_cases hfst : a ≤ i ∧ i < a + bs.length
      · rw [if_pos (by omega), if_pos hfst, List.getD_append _ _ _ _ (by omega)]
      · rw [if_neg (by omega), if_neg hfst]

/-! ### Buffers

A buffer has a fixed size. Writing outside it has no result. A response that is longer than the
buffer is cut off, and behind a shorter one the buffer keeps what it had. -/

/-- Put `bs` into the buffer from cell `a` on, if they are inside. -/
def place (d : List α) (a : ℕ) (bs : List α) : Option (List α) :=
  if a + bs.length ≤ d.length then some (splice d a bs) else none

/-- The cells in the middle are replaced. -/
theorem place_append {front mid bs : List α} (back : List α) (h : mid.length = bs.length) :
    place (front ++ (mid ++ back)) front.length bs = some (front ++ (bs ++ back)) := by
  rw [place, if_pos (by simp only [List.length_append]; omega), splice, List.take_left,
    List.drop_append, List.drop_eq_nil_of_le (by omega), List.nil_append, ← h,
    Nat.add_sub_cancel_left, List.drop_left, List.append_assoc]

/-- A buffer of `n` cells with as much of `c` as fits, and `z` behind it. -/
def fit (z : α) (n : ℕ) (c : List α) : List α := c.take n ++ List.replicate (n - c.length) z

@[simp] theorem length_fit (z : α) (n : ℕ) (c : List α) : (fit z n c).length = n := by
  rw [fit, List.length_append, List.length_take, List.length_replicate]
  omega

/-- What is in front is there as a whole, if it fits. -/
theorem fit_append (z : α) {n : ℕ} {c : List α} (e : List α) (h : c.length ≤ n) :
    fit z n (c ++ e) = c ++ fit z (n - c.length) e := by
  rw [fit, fit, List.take_append, List.take_of_length_le h, List.length_append, Nat.sub_sub,
    List.append_assoc]

/-- What is behind a full buffer is lost. -/
theorem fit_append_of_le (z : α) {n : ℕ} {c : List α} (e : List α) (h : n ≤ c.length) :
    fit z n (c ++ e) = fit z n c := by
  rw [fit, fit, List.take_append_of_le_length h, List.length_append, Nat.sub_eq_zero_of_le h,
    Nat.sub_eq_zero_of_le (Nat.le_add_right_of_le h)]

/-- As much of `e` as fits is put behind `c`. -/
theorem place_fit (z : α) {n : ℕ} {c : List α} (e : List α) (h : c.length ≤ n) :
    place (fit z n c) c.length (e.take (n - c.length)) = some (fit z n (c ++ e)) := by
  have hfit : fit z n c = c ++ (List.replicate (min (n - c.length) e.length) z ++
      List.replicate (n - c.length - e.length) z) := by
    rw [List.replicate_append_replicate, fit, List.take_of_length_le h]
    congr 2
    omega
  rw [hfit, place_append _ (by rw [List.length_replicate, List.length_take]), fit_append z e h, fit]

/-- The front of a buffer is overwritten. -/
theorem place_fit_front (z : α) {n : ℕ} {c e : List α} (rest : List α) (hlen : c.length = e.length)
    (h : c.length ≤ n) : place (fit z n (c ++ rest)) 0 e = some (fit z n (e ++ rest)) := by
  have hplace : place ([] ++ (c ++ fit z (n - c.length) rest)) ([] : List α).length e = _ :=
    place_append _ hlen
  rw [List.nil_append, List.nil_append, List.length_nil] at hplace
  rw [fit_append z rest h, hplace, fit_append z rest (by omega), hlen]

/-! ### Histories -/

/-- New content for some consecutive cells. -/
structure Patch (α : Type*) where
  /-- The first cell. -/
  off : ℕ
  /-- The new content, one cell after the other. -/
  data : List α
  deriving DecidableEq, Repr

/-- The patch stays inside a store of `n` cells. -/
def Patch.Fits (p : Patch α) (n : ℕ) : Prop := p.off + p.data.length ≤ n

/-- Apply patches one after the other. -/
def patchAll (d : List α) (ps : List (Patch α)) : List α :=
  ps.foldl (fun d p => splice d p.off p.data) d

/-- The content of one cell after a history: what the last patch covering it put there, or what
was there in the beginning. -/
def lastCell (d : List α) (ps : List (Patch α)) (i : ℕ) : Option α :=
  ps.foldl
    (fun b p => if p.off ≤ i ∧ i < p.off + p.data.length then p.data[i - p.off]? else b) d[i]?

theorem patchAll_concat (d : List α) (ps : List (Patch α)) (p : Patch α) :
    patchAll d (ps ++ [p]) = splice (patchAll d ps) p.off p.data := by
  simp [patchAll]

theorem lastCell_concat (d : List α) (ps : List (Patch α)) (p : Patch α) (i : ℕ) :
    lastCell d (ps ++ [p]) i
      = if p.off ≤ i ∧ i < p.off + p.data.length then p.data[i - p.off]? else lastCell d ps i := by
  simp [lastCell]

theorem length_patchAll {d : List α} {ps : List (Patch α)} (h : ∀ p ∈ ps, p.Fits d.length) :
    (patchAll d ps).length = d.length := by
  induction ps using List.reverseRecOn with
  | nil => rfl
  | append_singleton ps p ih =>
    have hlen := ih fun q hq => h q (List.mem_append_left _ hq)
    have hfits : p.Fits d.length := h p (by simp)
    rw [patchAll_concat, length_splice (by rw [hlen]; exact hfits), hlen]

/-- **Reading back.** After a history each cell holds the last content given to it. -/
theorem getElem?_patchAll {d : List α} {ps : List (Patch α)} (h : ∀ p ∈ ps, p.Fits d.length)
    (i : ℕ) : (patchAll d ps)[i]? = lastCell d ps i := by
  induction ps using List.reverseRecOn with
  | nil => rfl
  | append_singleton ps p ih =>
    have hps : ∀ q ∈ ps, q.Fits d.length := fun q hq => h q (List.mem_append_left _ hq)
    have hfits : p.off + p.data.length ≤ (patchAll d ps).length := by
      rw [length_patchAll hps]
      exact h p (by simp)
    rw [patchAll_concat, lastCell_concat, getElem?_splice hfits, ih hps]

end LioProject
