import Mathlib.Logic.Function.Basic
import Mathlib.Algebra.BigOperators.Group.List.Basic
import Mathlib.Tactic.Ring

/-!
# Records laid out around a circle

A circular store of `n` cells holds records of varying length, each starting where the previous
one ends, modulo `n`, and none of them straddling the end of the store. The store is a total
function `mem : ℕ → α` from offsets to the record that starts there; `len` gives the length of a
record.

`Laid n len mem a rs b` says that walking from offset `a` meets exactly the records `rs` and stops
at `b`. The two facts every ring protocol needs are here: layouts concatenate (`laid_append`), and
overwriting a record that the walk does not start at changes nothing (`Laid.update`), as long as
the walk does not go all the way round.

`ringDist n a b` is how far `b` lies ahead of `a`.
-/

namespace LioProject

variable {α : Type*} {n : ℕ} {len : α → ℕ} {mem : ℕ → α}

/-- The number of cells taken by a list of records. -/
def span (len : α → ℕ) (rs : List α) : ℕ := (rs.map len).sum

@[simp] theorem span_nil (len : α → ℕ) : span len [] = 0 := rfl

@[simp] theorem span_cons (len : α → ℕ) (r : α) (rs : List α) :
    span len (r :: rs) = len r + span len rs := by simp [span]

@[simp] theorem span_append (len : α → ℕ) (rs ss : List α) :
    span len (rs ++ ss) = span len rs + span len ss := by simp [span]

/-- From offset `a` the store holds exactly the records `rs`, each in one piece, and the next
offset is `b`. -/
def Laid (n : ℕ) (len : α → ℕ) (mem : ℕ → α) : ℕ → List α → ℕ → Prop
  | a, [], b => a = b
  | a, r :: rs, b => mem a = r ∧ a + len r ≤ n ∧ Laid n len mem ((a + len r) % n) rs b

@[simp] theorem laid_nil {a b : ℕ} : Laid n len mem a [] b ↔ a = b := Iff.rfl

@[simp] theorem laid_cons {a b : ℕ} {r : α} {rs : List α} :
    Laid n len mem a (r :: rs) b ↔
      mem a = r ∧ a + len r ≤ n ∧ Laid n len mem ((a + len r) % n) rs b := Iff.rfl

theorem laid_append {a c : ℕ} {rs ss : List α} :
    Laid n len mem a (rs ++ ss) c ↔ ∃ b, Laid n len mem a rs b ∧ Laid n len mem b ss c := by
  induction rs generalizing a with
  | nil => simp
  | cons r rs ih => simp [ih, and_assoc]

/-- A walk that starts inside the circle stays inside it and ends where its length says. -/
theorem Laid.stop_eq {a b : ℕ} {rs : List α} (ha : a < n) (h : Laid n len mem a rs b) :
    b = (a + span len rs) % n := by
  induction rs generalizing a with
  | nil => rw [← laid_nil.mp h, span_nil, Nat.add_zero, Nat.mod_eq_of_lt ha]
  | cons r rs ih =>
    rw [ih (Nat.mod_lt _ (Nat.zero_lt_of_lt ha)) h.2.2, span_cons, Nat.mod_add_mod, Nat.add_assoc]

theorem Laid.stop_lt {a b : ℕ} {rs : List α} (ha : a < n) (h : Laid n len mem a rs b) : b < n := by
  rw [h.stop_eq ha]
  exact Nat.mod_lt _ (Nat.zero_lt_of_lt ha)

/-- Two offsets on the circle at a distance below `n` are different. -/
theorem add_mod_ne_self {a d : ℕ} (ha : a < n) (hd : 0 < d) (hdn : d < n) : (a + d) % n ≠ a := by
  rcases Nat.lt_or_ge (a + d) n with h | h
  · rw [Nat.mod_eq_of_lt h]
    omega
  · rw [Nat.mod_eq_sub_mod h, Nat.mod_eq_of_lt (show a + d - n < n by omega)]
    omega

/-- A walk that meets at least one record, and not more than fit, does not end where it starts. -/
theorem Laid.stop_ne {a b : ℕ} {rs : List α} (ha : a < n) (hpos : 0 < span len rs)
    (hn : span len rs < n) (h : Laid n len mem a rs b) : a ≠ b := by
  rw [h.stop_eq ha]
  exact (add_mod_ne_self ha hpos hn).symm

/-- **The frame rule.** A record may be overwritten behind the back of a walk that starts `d > 0`
cells further on and does not come round to it again. -/
theorem Laid.update {a b d : ℕ} {rs : List α} {x : α} (ha : a < n) (hd : 0 < d)
    (hpos : ∀ r ∈ rs, 0 < len r) (hdn : d + span len rs ≤ n)
    (h : Laid n len mem ((a + d) % n) rs b) :
    Laid n len (Function.update mem a x) ((a + d) % n) rs b := by
  induction rs generalizing d with
  | nil => exact h
  | cons r rs ih =>
    have hr : 0 < len r := hpos r (List.mem_cons_self ..)
    rw [span_cons] at hdn
    have hne : (a + d) % n ≠ a := add_mod_ne_self ha hd (by omega)
    refine ⟨by rw [Function.update_of_ne hne]; exact h.1, h.2.1, ?_⟩
    have hnext : ((a + d) % n + len r) % n = (a + (d + len r)) % n := by
      rw [Nat.mod_add_mod, Nat.add_assoc]
    rw [hnext]
    exact ih (by omega) (fun s hs => hpos s (List.mem_cons_of_mem _ hs)) (by omega)
      (hnext ▸ h.2.2)

/-- Rewriting a record in place, with one of the same length, at the head of a walk. -/
theorem Laid.replace {a b : ℕ} {r x : α} {rs : List α} (ha : a < n)
    (hpos : ∀ s ∈ r :: rs, 0 < len s) (hlen : len x = len r) (hn : span len (r :: rs) ≤ n)
    (h : Laid n len mem a (r :: rs) b) :
    Laid n len (Function.update mem a x) a (x :: rs) b := by
  rw [span_cons] at hn
  refine ⟨Function.update_self .., by rw [hlen]; exact h.2.1, ?_⟩
  rw [hlen]
  exact h.2.2.update ha (hpos r (List.mem_cons_self ..))
    (fun s hs => hpos s (List.mem_cons_of_mem _ hs)) hn

/-- A walk that ends where another record starts does not see that record being rewritten. -/
theorem Laid.update_stop {a b : ℕ} {x : α} {rs : List α} (ha : a < n)
    (hpos : ∀ r ∈ rs, 0 < len r) (hn : span len rs < n) (h : Laid n len mem a rs b) :
    Laid n len (Function.update mem b x) a rs b := by
  have hback : (b + (n - span len rs)) % n = a := by
    rw [h.stop_eq ha, Nat.mod_add_mod,
      show a + span len rs + (n - span len rs) = a + n by omega, Nat.add_mod_right,
      Nat.mod_eq_of_lt ha]
  have hkeep := Laid.update (x := x) (h.stop_lt ha) (show 0 < n - span len rs by omega) hpos
    (by omega) (hback.symm ▸ h)
  rwa [hback] at hkeep

/-- Writing a new record at the end of a walk. -/
theorem Laid.concat {a b : ℕ} {x : α} {rs : List α} (ha : a < n) (hpos : ∀ r ∈ rs, 0 < len r)
    (hn : span len rs < n) (hx : b + len x ≤ n) (h : Laid n len mem a rs b) :
    Laid n len (Function.update mem b x) a (rs ++ [x]) ((b + len x) % n) :=
  laid_append.mpr ⟨b, h.update_stop ha hpos hn, Function.update_self .., hx, rfl⟩

/-! ### Records of one cell -/

theorem span_one (rs : List α) : span (fun _ => 1) rs = rs.length := by
  induction rs with
  | nil => rfl
  | cons r rs ih => rw [span_cons, ih, List.length_cons, Nat.add_comm]

/-- Records of one cell each are met one after the other. -/
theorem Laid.map_range {a c : ℕ} {rs : List α} (ha : a < n)
    (h : Laid n (fun _ => 1) mem a rs c) :
    (List.range rs.length).map (fun i => mem ((a + i) % n)) = rs := by
  induction rs generalizing a with
  | nil => rfl
  | cons r rs ih =>
    obtain ⟨hr, -, hrest⟩ := h
    have hnext := ih (Nat.mod_lt _ (by omega)) hrest
    rw [List.length_cons, List.range_succ_eq_map, List.map_cons, List.map_map, Nat.add_zero,
      Nat.mod_eq_of_lt ha, hr]
    refine congrArg _ (Eq.trans (List.map_congr_left fun i _ => ?_) hnext)
    show mem ((a + (i + 1)) % n) = mem (((a + 1) % n + i) % n)
    rw [Nat.mod_add_mod, show a + 1 + i = a + (i + 1) by omega]

/-! ### Distance -/

/-- How far `b` lies ahead of `a` on a circle of `n` cells. -/
def ringDist (n a b : ℕ) : ℕ := (b + n - a) % n

theorem ringDist_add_mod {a d : ℕ} (ha : a < n) (hd : d < n) : ringDist n a ((a + d) % n) = d := by
  rw [ringDist]
  rcases Nat.lt_or_ge (a + d) n with h | h
  · rw [Nat.mod_eq_of_lt h, show a + d + n - a = d + n by omega, Nat.add_mod_right,
      Nat.mod_eq_of_lt hd]
  · rw [Nat.mod_eq_sub_mod h, Nat.mod_eq_of_lt (show a + d - n < n by omega),
      show a + d - n + n - a = d by omega, Nat.mod_eq_of_lt hd]

/-- The distance a walk covers is the number of cells of its records. -/
theorem Laid.ringDist_eq {a b : ℕ} {rs : List α} (ha : a < n) (hn : span len rs < n)
    (h : Laid n len mem a rs b) : ringDist n a b = span len rs := by
  rw [h.stop_eq ha, ringDist_add_mod ha hn]

end LioProject
