import Mathlib.Data.List.Basic

/-!
# Regular expressions that backtrack

A regular expression is run from a place in a text, and gives the places to which it can get, the
one that a backtracking matcher tries first in front. So a repetition gives the longest way first,
and the match is the first place that is given at all (`Re.first`).

The alphabet is arbitrary. A repetition repeats one letter of a class, which is what `\d+`, `.*` and
`\S+` do. Besides there are texts, looks ahead and behind, and groups.

`Re.findall` finds the matches in a text from left to right, none of which overlap, and gives their
groups. After a match of nothing it looks for a longer one in the same place, and goes on.
-/

namespace LioProject

variable {α : Type*}

/-- A place in a text, and the groups that were closed on the way there. -/
structure Place (α : Type*) where
  /-- What is behind the place, last letter first. -/
  before : List α
  /-- What is ahead of it. -/
  after : List α
  /-- The groups, first closed first. -/
  groups : List (List α)
  deriving DecidableEq, Repr

/-- The place `k` letters ahead. -/
def Place.advance (s : Place α) (k : ℕ) : Place α :=
  ⟨(s.after.take k).reverse ++ s.before, s.after.drop k, s.groups⟩

/-- Regular expressions. -/
inductive Re (α : Type*) where
  /-- A letter of a class. -/
  | one (p : α → Bool)
  /-- Letters of a class, as many as possible. -/
  | star (p : α → Bool)
  /-- A text. -/
  | text (l : List α)
  /-- One after the other. -/
  | seq (x y : Re α)
  /-- A look ahead. -/
  | ahead (x : Re α)
  /-- A look behind, at a text. -/
  | behind (l : List α)
  /-- A group. -/
  | group (x : Re α)

namespace Re

/-- A letter of a class and all that follow. -/
def plus (p : α → Bool) : Re α := .seq (.one p) (.star p)

/-- The ways to repeat a letter, longest first. -/
def starFrom (p : α → Bool) (groups : List (List α)) : List α → List α → List (Place α)
  | before, [] => [⟨before, [], groups⟩]
  | before, a :: l =>
    if p a then starFrom p groups (a :: before) l ++ [⟨before, a :: l, groups⟩]
    else [⟨before, a :: l, groups⟩]

theorem starFrom_nil (p : α → Bool) (g : List (List α)) (before : List α) :
    starFrom p g before [] = [⟨before, [], g⟩] := rfl

theorem starFrom_cons (p : α → Bool) (g : List (List α)) (before : List α) (a : α) (l : List α) :
    starFrom p g before (a :: l)
      = if p a then starFrom p g (a :: before) l ++ [⟨before, a :: l, g⟩]
        else [⟨before, a :: l, g⟩] := rfl

variable [DecidableEq α]

/-- The places to which an expression can get. -/
def run : Re α → Place α → List (Place α)
  | .one p, s =>
    match s.after with
    | [] => []
    | a :: l => if p a then [⟨a :: s.before, l, s.groups⟩] else []
  | .star p, s => starFrom p s.groups s.before s.after
  | .text l, s => if l <+: s.after then [s.advance l.length] else []
  | .seq x y, s => (x.run s).flatMap y.run
  | .ahead x, s => ((x.run s).head?.map fun r => { s with groups := r.groups }).toList
  | .behind l, s => if l.reverse <+: s.before then [s] else []
  | .group x, s => (x.run s).map fun r => { r with
      groups := r.groups ++ [(r.before.take (r.before.length - s.before.length)).reverse] }

/-- The match. -/
def first (x : Re α) (s : Place α) : Option (Place α) := (x.run s).head?

/-- The groups of the matches that begin in a place, and the length of the last of them. -/
def found (x : Re α) (s : Place α) : List (List (List α)) × ℕ :=
  match x.run s with
  | [] => ([], 0)
  | r :: rest =>
    if r.after.length < s.after.length then ([r.groups], s.after.length - r.after.length)
    else
      match rest.find? fun q => q.after.length < s.after.length with
      | none => ([r.groups], 0)
      | some q => ([r.groups, q.groups], s.after.length - q.after.length)

/-- Look for matches behind the next `skip` letters. -/
def scan (x : Re α) : List α → ℕ → List α → List (List (List α))
  | before, 0, [] => (x.found ⟨before, [], []⟩).1
  | _, _ + 1, [] => []
  | before, skip + 1, a :: l => scan x (a :: before) skip l
  | before, 0, a :: l =>
    (x.found ⟨before, a :: l, []⟩).1 ++
      scan x (a :: before) ((x.found ⟨before, a :: l, []⟩).2 - 1) l

/-- `re.findall`. -/
def findall (x : Re α) (text : List α) : List (List (List α)) := x.scan [] 0 text

/-! ### Case by case -/

section Cases

variable (p : α → Bool) (a : α) (l before after : List α) (g : List (List α)) (s : Place α)
  (x y : Re α)

theorem run_one_nil : (one p).run ⟨before, [], g⟩ = [] := rfl

theorem run_one_cons :
    (one p).run ⟨before, a :: l, g⟩ = if p a then [⟨a :: before, l, g⟩] else [] := rfl

theorem run_star : (star p).run ⟨before, after, g⟩ = starFrom p g before after := rfl

theorem run_text : (text l).run s = if l <+: s.after then [s.advance l.length] else [] := rfl

theorem run_seq : (seq x y).run s = (x.run s).flatMap y.run := rfl

theorem run_ahead : (ahead x).run s
    = ((x.run s).head?.map fun r => { s with groups := r.groups }).toList := rfl

theorem run_behind : (behind l).run s = if l.reverse <+: s.before then [s] else [] := rfl

theorem run_group : (group x).run s = (x.run s).map fun r => { r with
    groups := r.groups ++ [(r.before.take (r.before.length - s.before.length)).reverse] } := rfl

theorem first_eq : x.first s = (x.run s).head? := rfl

theorem scan_nil : x.scan before 0 [] = (x.found ⟨before, [], []⟩).1 := rfl

theorem scan_succ (skip : ℕ) :
    x.scan before (skip + 1) (a :: l) = x.scan (a :: before) skip l := rfl

theorem scan_cons : x.scan before 0 (a :: l) = (x.found ⟨before, a :: l, []⟩).1 ++
    x.scan (a :: before) ((x.found ⟨before, a :: l, []⟩).2 - 1) l := rfl

end Cases

/-! ### Repetitions -/

/-- A repetition gets to where all letters on the way are in the class. -/
theorem mem_star {p : α → Bool} {s q : Place α} :
    q ∈ (star p).run s ↔
      ∃ k ≤ s.after.length, (∀ a ∈ s.after.take k, p a) ∧ q = s.advance k := by
  obtain ⟨before, after, groups⟩ := s
  rw [run_star]
  induction after generalizing before with
  | nil => simp [starFrom_nil, Place.advance]
  | cons a l ih =>
    rw [starFrom_cons]
    constructor
    · intro hq
      split at hq
      · rename_i hpa
        rcases List.mem_append.mp hq with hq | hq
        · obtain ⟨k, hk, hall, rfl⟩ := (ih (a :: before)).mp hq
          refine ⟨k + 1, by simpa using hk, ?_, by simp [Place.advance]⟩
          simpa [hpa] using hall
        · exact ⟨0, by simp, by simp, by simpa [Place.advance] using hq⟩
      · exact ⟨0, by simp, by simp, by simpa [Place.advance] using hq⟩
    · rintro ⟨k, hk, hall, rfl⟩
      cases k with
      | zero =>
        split
        · simp [Place.advance]
        · simp [Place.advance]
      | succ k =>
        simp only [List.take_succ_cons, List.mem_cons, forall_eq_or_imp] at hall
        rw [if_pos hall.1]
        refine List.mem_append_left _ ((ih (a :: before)).mpr ⟨k, by simpa using hk, hall.2, ?_⟩)
        simp [Place.advance]

/-- The last way is not to move. -/
theorem star_eq (p : α → Bool) (s : Place α) : ∃ ways, (star p).run s = ways ++ [s] ∧
    ∀ q ∈ ways, ∃ k, 0 < k ∧ k ≤ s.after.length ∧ (∀ a ∈ s.after.take k, p a) ∧
      q = s.advance k := by
  obtain ⟨before, after, groups⟩ := s
  cases after with
  | nil => exact ⟨[], rfl, by simp⟩
  | cons a l =>
    rw [run_star, starFrom_cons]
    split
    · rename_i hpa
      refine ⟨_, rfl, fun q hq => ?_⟩
      obtain ⟨k, hk, hall, rfl⟩ := (mem_star (s := ⟨a :: before, l, groups⟩)).mp hq
      refine ⟨k + 1, by omega, by simpa using hk, ?_, by simp [Place.advance]⟩
      simpa [hpa] using hall
    · exact ⟨[], rfl, by simp⟩

/-- Through letters of the class the longest ways lead on. -/
theorem star_append {p : α → Bool} {v : List α} (hv : ∀ a ∈ v, p a) (before x : List α)
    (g : List (List α)) : ∃ ways, (star p).run ⟨before, v ++ x, g⟩
      = (star p).run ⟨v.reverse ++ before, x, g⟩ ++ ways := by
  induction v generalizing before with
  | nil => exact ⟨[], by simp⟩
  | cons a v ih =>
    obtain ⟨ways, heq⟩ := ih (fun b hb => hv b (List.mem_cons_of_mem _ hb)) (a :: before)
    refine ⟨ways ++ [⟨before, a :: v ++ x, g⟩], ?_⟩
    rw [run_star, List.cons_append, starFrom_cons, if_pos (hv a (List.mem_cons_self ..)),
      List.reverse_cons, List.append_assoc, List.singleton_append, ← List.append_assoc, ← heq]
    rfl

/-! ### Sequences -/

theorem seq_eq_nil {x y : Re α} {s : Place α} :
    (seq x y).run s = [] ↔ ∀ q ∈ x.run s, y.run q = [] := by
  rw [run_seq, List.flatMap_eq_nil_iff]

theorem mem_plus {p : α → Bool} {s q : Place α} :
    q ∈ (plus p).run s ↔
      ∃ k, 0 < k ∧ k ≤ s.after.length ∧ (∀ a ∈ s.after.take k, p a) ∧ q = s.advance k := by
  obtain ⟨before, after, groups⟩ := s
  cases after with
  | nil => simp [plus, run_seq, run_one_nil]
  | cons a l =>
    by_cases hpa : p a = true
    · simp only [plus, run_seq, run_one_cons, hpa, if_true, List.flatMap_cons, List.flatMap_nil,
        List.append_nil]
      constructor
      · intro hq
        obtain ⟨k, hk, hall, rfl⟩ := (mem_star (s := ⟨a :: before, l, groups⟩)).mp hq
        exact ⟨k + 1, by omega, by simpa using hk, by simpa [hpa] using hall,
          by simp [Place.advance]⟩
      · rintro ⟨k, hk, hle, hall, rfl⟩
        obtain ⟨k, rfl⟩ : ∃ j, k = j + 1 := ⟨k - 1, by omega⟩
        refine (mem_star (s := ⟨a :: before, l, groups⟩)).mpr ⟨k, by simpa using hle, ?_, ?_⟩
        · simpa [hpa] using hall
        · simp [Place.advance]
    · simp only [plus, run_seq, run_one_cons, hpa, if_false, List.flatMap_nil, List.not_mem_nil,
        false_iff, Bool.false_eq_true]
      rintro ⟨k, hk, -, hall, -⟩
      obtain ⟨k, rfl⟩ : ∃ j, k = j + 1 := ⟨k - 1, by omega⟩
      exact hpa (hall a (by simp))

theorem first_seq (x y : Re α) (s : Place α) :
    (seq x y).first s = (x.run s).findSome? y.first := by
  rw [first_eq, run_seq, List.head?_flatMap]
  rfl

/-- The match of a repetition and what follows it may be found behind letters of the class. -/
theorem first_star_append {p : α → Bool} {y : Re α} {v before x : List α} {g : List (List α)}
    {r : Place α} (hv : ∀ a ∈ v, p a)
    (h : (seq (star p) y).first ⟨v.reverse ++ before, x, g⟩ = some r) :
    (seq (star p) y).first ⟨before, v ++ x, g⟩ = some r := by
  obtain ⟨ways, heq⟩ := star_append hv before x g
  rw [first_seq] at h ⊢
  rw [heq, List.findSome?_append, h]
  rfl

/-- Or right here, if there is none further on. -/
theorem first_star_here {p : α → Bool} {y : Re α} {s r : Place α} (h : y.first s = some r)
    (hno : ∀ k, 0 < k → k ≤ s.after.length → (∀ a ∈ s.after.take k, p a) →
      y.run (s.advance k) = []) :
    (seq (star p) y).first s = some r := by
  obtain ⟨ways, heq, hways⟩ := star_eq p s
  have hnone : ways.findSome? y.first = none := by
    refine List.findSome?_eq_none_iff.mpr fun q hq => ?_
    obtain ⟨k, hk, hle, hall, rfl⟩ := hways q hq
    rw [first_eq, hno k hk hle hall]
    rfl
  rw [first_seq, heq, List.findSome?_append, hnone]
  simp [h]

/-- The match of a sequence, if the match of its first part can go on. -/
theorem first_seq_of_first {x y : Re α} {s q r : Place α} (hx : x.first s = some q)
    (hy : y.first q = some r) : (seq x y).first s = some r := by
  obtain ⟨rest, hrun⟩ := List.head?_eq_some_iff.mp hx
  rw [first_seq, hrun, List.findSome?_cons, hy]

/-- A repetition at least once goes through all the letters of the class. -/
theorem first_plus {p : α → Bool} {v before x : List α} {g : List (List α)} (hne : v ≠ [])
    (hv : ∀ a ∈ v, p a) (hx : ∀ a ∈ x.head?, p a = false) :
    (plus p).first ⟨before, v ++ x, g⟩ = some ⟨v.reverse ++ before, x, g⟩ := by
  obtain ⟨a, v, rfl⟩ := List.exists_cons_of_ne_nil hne
  have hstop : (star p).run ⟨v.reverse ++ a :: before, x, g⟩
      = [⟨v.reverse ++ a :: before, x, g⟩] := by
    cases x with
    | nil => rfl
    | cons b x => simp [run_star, starFrom_cons, hx b rfl]
  obtain ⟨ways, heq⟩ := star_append (fun b hb => hv b (List.mem_cons_of_mem _ hb))
    (a :: before) x g
  refine first_seq_of_first (q := ⟨a :: before, v ++ x, g⟩) ?_ ?_
  · simp [first_eq, run_one_cons, hv a (List.mem_cons_self ..)]
  · rw [first_eq, heq, hstop]
    simp

theorem first_group {x : Re α} {s r : Place α} (h : x.first s = some r) :
    (group x).first s = some { r with
      groups := r.groups ++ [(r.before.take (r.before.length - s.before.length)).reverse] } := by
  rw [first_eq] at h
  rw [first_eq, run_group, List.head?_map, h]
  rfl

theorem group_eq_nil {x : Re α} {s : Place α} : (group x).run s = [] ↔ x.run s = [] := by
  rw [run_group, List.map_eq_nil_iff]

theorem ahead_eq_nil {x : Re α} {s : Place α} : (ahead x).run s = [] ↔ x.run s = [] := by
  rw [run_ahead]
  cases x.run s with
  | nil => simp
  | cons r rest => simp

/-- A look ahead does not move. -/
theorem first_ahead {x : Re α} {s : Place α} (h : x.run s ≠ [])
    (hgroups : ∀ r ∈ x.run s, r.groups = s.groups) : (ahead x).first s = some s := by
  obtain ⟨r, rest, hrun⟩ := List.exists_cons_of_ne_nil h
  rw [first_eq, run_ahead, hrun]
  simp [hgroups r (by rw [hrun]; simp)]

theorem text_eq_nil {l : List α} {s : Place α} : (text l).run s = [] ↔ ¬ l <+: s.after := by
  simp [run_text]

theorem mem_text {l : List α} {s q : Place α} :
    q ∈ (text l).run s ↔ l <+: s.after ∧ q = s.advance l.length := by
  rw [run_text]
  split
  · rename_i h
    simp [h]
  · rename_i h
    simp [h]

theorem behind_eq_nil {l : List α} {s : Place α} :
    (behind l).run s = [] ↔ ¬ l.reverse <+: s.before := by
  simp [run_behind]

theorem mem_seq {x y : Re α} {s q : Place α} :
    q ∈ (seq x y).run s ↔ ∃ r ∈ x.run s, q ∈ y.run r := by
  rw [run_seq, List.mem_flatMap]

/-! ### The matches in a text -/

section Scan

variable {x : Re α}

theorem scan_skip (before v l : List α) :
    x.scan before v.length (v ++ l) = x.scan (v.reverse ++ before) 0 l := by
  induction v generalizing before with
  | nil => simp
  | cons a v ih =>
    rw [List.length_cons, List.cons_append, scan_succ, ih]
    simp

/-- Where no match begins the scan goes on. -/
theorem scan_none {before l : List α} {a : α} (h : x.run ⟨before, a :: l, []⟩ = []) :
    x.scan before 0 (a :: l) = x.scan (a :: before) 0 l := by
  rw [scan_cons, found, h]
  rfl

/-- The same for any number of letters. -/
theorem scan_none_append {before v l : List α}
    (h : ∀ u a w, v = u ++ a :: w → x.run ⟨u.reverse ++ before, a :: w ++ l, []⟩ = []) :
    x.scan before 0 (v ++ l) = x.scan (v.reverse ++ before) 0 l := by
  induction v generalizing before with
  | nil => simp
  | cons a v ih =>
    have hhere : x.run ⟨before, a :: (v ++ l), []⟩ = [] := by simpa using h [] a v rfl
    rw [List.cons_append, scan_none hhere, ih]
    · simp
    · intro u b w heq
      have := h (a :: u) b w (by rw [heq]; rfl)
      simpa using this

/-- A match is given, and the scan goes on behind it. -/
theorem scan_first {before v l : List α} {g : List (List α)} (hne : v ≠ [])
    (h : x.first ⟨before, v ++ l, []⟩ = some ⟨v.reverse ++ before, l, g⟩) :
    x.scan before 0 (v ++ l) = g :: x.scan (v.reverse ++ before) 0 l := by
  obtain ⟨a, v, rfl⟩ := List.exists_cons_of_ne_nil hne
  have hfound : x.found ⟨before, a :: v ++ l, []⟩ = ([g], (a :: v).length) := by
    rw [first_eq] at h
    rw [found]
    obtain ⟨rest, hrun⟩ := List.head?_eq_some_iff.mp h
    have hlen : (a :: v ++ l).length - l.length = (a :: v).length := by
      rw [List.length_append]
      omega
    have hlt : l.length < (a :: v ++ l).length := by
      rw [List.length_append, List.length_cons]
      omega
    rw [hrun]
    simp only
    rw [if_pos hlt, hlen]
  rw [List.cons_append] at hfound ⊢
  rw [scan_cons, hfound]
  simp only [List.length_cons, Nat.add_sub_cancel, List.cons_append, List.nil_append]
  rw [scan_skip]
  simp

end Scan

end Re

end LioProject
