import Mathlib.Data.List.Basic

/-!
# Caches of a fixed number of lines

A line of a cache is a copy of something that is kept elsewhere. Its tag says what it is a copy of,
and its count how often it has been asked for. Tag 0 is that of a line that has never been filled.

A cache is coherent (`Coherent mem`) if every line that has been filled is a copy of what `mem` has
under its tag, and no tag is there twice. A tag that is there twice does no harm as long as nothing
is written, but a write goes to one line only. The rules say what keeps a cache coherent: counting
(`Coherent.touch`), filling a line after a miss (`Coherent.fill`), writing through
(`Coherent.write`), and changes of `mem` that are not about a line (`Coherent.congr`).
-/

namespace LioProject

/-- A line of a cache. -/
structure CacheLine (α : Type*) where
  /-- What it is a copy of. -/
  tag : ℕ
  /-- How often it has been asked for since it was filled. -/
  count : ℕ
  /-- The copy. -/
  data : α
  deriving DecidableEq, Repr

namespace CacheLine

variable {α : Type*}

/-- The first line with a tag. -/
def hit (ls : List (CacheLine α)) (tag : ℕ) : Option ℕ := ls.findIdx? fun l => l.tag = tag

/-- The first of the lines with the smallest count below `m`; if there is none, `k`. The lines are
numbered from `i` on. -/
def leastUsed : List (CacheLine α) → ℕ → ℕ → ℕ → ℕ
  | [], _, k, _ => k
  | l :: ls, i, k, m =>
    if l.count < m then leastUsed ls (i + 1) i l.count else leastUsed ls (i + 1) k m

/-- Count that a line has been asked for. -/
def touch (ls : List (CacheLine α)) (i : ℕ) : List (CacheLine α) :=
  ls.modify i fun l => { l with count := l.count + 1 }

/-- Change the copy in a line. -/
def rewrite (ls : List (CacheLine α)) (i : ℕ) (f : α → α) : List (CacheLine α) :=
  ls.modify i fun l => { l with data := f l.data }

/-- Every line that has been filled is a copy of what `mem` has, and no tag is there twice. -/
structure Coherent (mem : ℕ → α) (ls : List (CacheLine α)) : Prop where
  data : ∀ {i : ℕ} {l : CacheLine α}, ls[i]? = some l → l.tag ≠ 0 → l.data = mem l.tag
  inj : ∀ {i j : ℕ} {l m : CacheLine α}, ls[i]? = some l → ls[j]? = some m → l.tag = m.tag →
    l.tag ≠ 0 → i = j

variable {mem mem' : ℕ → α} {ls : List (CacheLine α)} {l : CacheLine α} {i t : ℕ}

theorem hit_eq_some (h : hit ls t = some i) : ∃ l, ls[i]? = some l ∧ l.tag = t := by
  obtain ⟨hlt, htag, -⟩ := List.findIdx?_eq_some_iff_getElem.mp h
  exact ⟨ls[i], List.getElem?_eq_getElem hlt, of_decide_eq_true htag⟩

theorem hit_eq_none (h : hit ls t = none) (hl : ls[i]? = some l) : l.tag ≠ t :=
  of_decide_eq_false (List.findIdx?_eq_none_iff.mp h l (List.mem_of_getElem? hl))

/-- The least used line is one of the lines. -/
theorem leastUsed_lt {k m n : ℕ} (hk : k < n) (hn : i + ls.length ≤ n) :
    leastUsed ls i k m < n := by
  induction ls generalizing i k m with
  | nil => exact hk
  | cons l ls ih =>
    rw [List.length_cons] at hn
    rw [leastUsed]
    split
    · exact ih (by omega) (by omega)
    · exact ih hk (by omega)

@[simp] theorem length_touch (ls : List (CacheLine α)) (i : ℕ) : (touch ls i).length = ls.length :=
  List.length_modify _ _ _

@[simp] theorem length_rewrite (ls : List (CacheLine α)) (i : ℕ) (f : α → α) :
    (rewrite ls i f).length = ls.length :=
  List.length_modify _ _ _

/-- The lines of a cache in which one has been touched. -/
theorem getElem?_touch {j : ℕ} (h : (touch ls i)[j]? = some l) :
    ∃ l', ls[j]? = some l' ∧ l.tag = l'.tag ∧ l.data = l'.data := by
  rw [touch, List.getElem?_modify] at h
  obtain ⟨l', hl', rfl⟩ := Option.map_eq_some_iff.mp h
  refine ⟨l', hl', ?_, ?_⟩
  · split <;> rfl
  · split <;> rfl

/-- The lines of a cache in which one has been rewritten. -/
theorem getElem?_rewrite {j : ℕ} {f : α → α} (h : (rewrite ls i f)[j]? = some l) :
    ∃ l', ls[j]? = some l' ∧ l.tag = l'.tag ∧ l.data = if i = j then f l'.data else l'.data := by
  rw [rewrite, List.getElem?_modify] at h
  obtain ⟨l', hl', rfl⟩ := Option.map_eq_some_iff.mp h
  refine ⟨l', hl', ?_, ?_⟩
  · split <;> rfl
  · split <;> rfl

namespace Coherent

theorem touch (h : Coherent mem ls) (i : ℕ) : Coherent mem (touch ls i) where
  data hl htag := by
    obtain ⟨l', hl', htag', hdata⟩ := getElem?_touch hl
    rw [hdata, htag']
    exact h.data hl' (htag' ▸ htag)
  inj hl hm heq htag := by
    obtain ⟨l', hl', htag', -⟩ := getElem?_touch hl
    obtain ⟨m', hm', heq', -⟩ := getElem?_touch hm
    exact h.inj hl' hm' (htag'.symm.trans (heq.trans heq')) (htag' ▸ htag)

/-- A line is filled with something that is not in the cache yet. -/
theorem fill (h : Coherent mem ls) (hmiss : hit ls t = none) (i n : ℕ) :
    Coherent mem (ls.set i ⟨t, n, mem t⟩) := by
  have hline : ∀ {j : ℕ} {l : CacheLine α}, (ls.set i ⟨t, n, mem t⟩)[j]? = some l →
      (j = i ∧ l = ⟨t, n, mem t⟩) ∨ (j ≠ i ∧ ls[j]? = some l) := by
    intro j l hl
    rw [List.getElem?_set] at hl
    split at hl
    · rename_i hij
      split at hl
      · exact Or.inl ⟨hij.symm, (Option.some.inj hl).symm⟩
      · cases hl
    · rename_i hij
      exact Or.inr ⟨fun hji => hij hji.symm, hl⟩
  constructor
  · intro j l hl htag
    rcases hline hl with ⟨-, rfl⟩ | ⟨-, hl⟩
    · rfl
    · exact h.data hl htag
  · intro j k l m hl hm heq htag
    rcases hline hl with ⟨rfl, rfl⟩ | ⟨-, hl⟩
    · rcases hline hm with ⟨rfl, -⟩ | ⟨-, hm⟩
      · rfl
      · exact absurd heq.symm (hit_eq_none hmiss hm)
    · rcases hline hm with ⟨-, rfl⟩ | ⟨-, hm⟩
      · exact absurd heq (hit_eq_none hmiss hl)
      · exact h.inj hl hm heq htag

/-- What is written into a line is written to where it belongs as well. -/
theorem write (h : Coherent mem ls) (hl : ls[i]? = some l) {f : α → α}
    (hself : mem' l.tag = f (mem l.tag))
    (hothers : ∀ {j : ℕ} {m : CacheLine α}, ls[j]? = some m → m.tag ≠ l.tag → m.tag ≠ 0 →
      mem' m.tag = mem m.tag) :
    Coherent mem' (rewrite ls i f) where
  data hm htag := by
    obtain ⟨m, hm', htag', hdata⟩ := getElem?_rewrite hm
    rw [hdata, htag']
    rw [htag'] at htag
    split
    · rename_i hij
      subst hij
      obtain rfl := Option.some.inj (hl.symm.trans hm')
      rw [h.data hl htag, hself]
    · rename_i hij
      rw [h.data hm' htag]
      exact (hothers hm' (fun heq => hij (h.inj hm' hl heq htag).symm) htag).symm
  inj hl hm heq htag := by
    obtain ⟨l', hl', htag', -⟩ := getElem?_rewrite hl
    obtain ⟨m', hm', heq', -⟩ := getElem?_rewrite hm
    exact h.inj hl' hm' (htag'.symm.trans (heq.trans heq')) (htag' ▸ htag)

/-- What changes elsewhere is none of the lines. -/
theorem congr (h : Coherent mem ls)
    (hmem : ∀ {j : ℕ} {l : CacheLine α}, ls[j]? = some l → l.tag ≠ 0 → mem' l.tag = mem l.tag) :
    Coherent mem' ls where
  data hl htag := (h.data hl htag).trans (hmem hl htag).symm
  inj := h.inj

end Coherent

end CacheLine

end LioProject
