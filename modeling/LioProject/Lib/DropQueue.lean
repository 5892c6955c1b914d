import Mathlib.Data.List.Basic
import Mathlib.Data.List.Induction
import Mathlib.Data.List.ReduceOption
import Mathlib.Tactic.ByContra

/-!
# Queues that drop their oldest element

A machine answers operations: `answers` executes them one after the other and collects the
answers. Two machines that are related before an operation, give the same answer to it and are
related afterwards, give the same answers to every list of operations (`answers_eq_of_sim`).

`dropStep cap` is the machine of a queue of at most `cap` elements that an insertion never finds
full: it drops the oldest element instead. What goes in leaves at the other end in the same order,
and `left_of_answers` says how each element has left: as an answer, or dropped by an insertion that
found the queue full.
-/

namespace LioProject

variable {α σ τ ο ρ : Type*}

/-! ### Machines that answer -/

/-- Execute operations one after the other, and collect the answers. -/
def answers (step : σ → ο → σ × ρ) (s : σ) : List ο → σ × List ρ
  | [] => (s, [])
  | o :: os =>
    let next := step s o
    let rest := answers step next.1 os
    (rest.1, next.2 :: rest.2)

theorem answers_concat (step : σ → ο → σ × ρ) (s : σ) (os : List ο) (o : ο) :
    answers step s (os ++ [o]) =
      ((step (answers step s os).1 o).1,
        (answers step s os).2 ++ [(step (answers step s os).1 o).2]) := by
  induction os generalizing s with
  | nil => rfl
  | cons p os ih => simp [answers, ih]

/-- **The simulation rule.** -/
theorem answers_eq_of_sim {step : σ → ο → σ × ρ} {step' : τ → ο → τ × ρ} {R : σ → τ → Prop}
    (hstep : ∀ s t o, R s t → R (step s o).1 (step' t o).1 ∧ (step s o).2 = (step' t o).2)
    {s : σ} {t : τ} (h : R s t) (os : List ο) :
    R (answers step s os).1 (answers step' t os).1 ∧
      (answers step s os).2 = (answers step' t os).2 := by
  induction os generalizing s t with
  | nil => exact ⟨h, rfl⟩
  | cons o os ih =>
    obtain ⟨hnext, hanswer⟩ := hstep s t o h
    obtain ⟨hrest, hanswers⟩ := ih hnext
    exact ⟨hrest, congrArg₂ List.cons hanswer hanswers⟩

/-! ### The queue -/

/-- The operations of a queue. -/
inductive QueueOp (α : Type*) where
  /-- Put an element into it. -/
  | insert (x : α)
  /-- Take the oldest one out. -/
  | remove
  deriving DecidableEq, Repr

/-- The elements that operations put in, in their order. -/
def inserted (os : List (QueueOp α)) : List α :=
  os.filterMap fun
    | .insert x => some x
    | .remove => none

/-- A queue of at most `cap` elements. A removal answers with the oldest element, or with none when
the queue is empty. -/
def dropStep (cap : ℕ) (q : List α) : QueueOp α → List α × Option α
  | .insert x => (if (q ++ [x]).length > cap then (q ++ [x]).tail else q ++ [x], none)
  | .remove => (q.tail, q.head?)

section Queue

variable {cap : ℕ} {q : List α} {os : List (QueueOp α)} {x : α}

theorem dropStep_insert_of_lt (h : q.length < cap) (x : α) :
    dropStep cap q (.insert x) = (q ++ [x], none) := by
  rw [dropStep, if_neg (by rw [List.length_append, List.length_singleton]; omega)]

/-- A full queue loses its oldest element. -/
theorem dropStep_insert_of_full (y : α) (h : (y :: q).length = cap) (x : α) :
    dropStep cap (y :: q) (.insert x) = (q ++ [x], none) := by
  rw [dropStep, if_pos (by rw [List.length_append, List.length_singleton]; omega)]
  rfl

theorem length_dropStep (h : q.length ≤ cap) (o : QueueOp α) :
    (dropStep cap q o).1.length ≤ cap := by
  cases o with
  | insert x =>
    rw [dropStep]
    dsimp only
    split
    · rw [List.length_tail, List.length_append, List.length_singleton]
      omega
    · rename_i hle
      exact Nat.le_of_not_lt hle
  | remove =>
    rw [dropStep, List.length_tail]
    omega

/-- How an element has left the queue. -/
inductive Departure where
  /-- A removal has answered with it. -/
  | answered
  /-- An insertion has dropped it. -/
  | dropped
  deriving DecidableEq, Repr

/-- The elements of a list of departures that removals have answered with. -/
def answered (left : List (α × Departure)) : List α :=
  left.filterMap fun
    | (x, .answered) => some x
    | (_, .dropped) => none

theorem answered_sublist (left : List (α × Departure)) :
    (answered left).Sublist (left.map Prod.fst) := by
  induction left with
  | nil => exact List.Sublist.slnil
  | cons p left ih =>
    obtain ⟨x, _ | _⟩ := p
    · exact ih.cons_cons x
    · exact ih.cons x

/-- Operations on an empty queue, the departures they have caused and what is left in it. -/
structure Accounts (cap : ℕ) (os : List (QueueOp α)) (left : List (α × Departure)) (q : List α) :
    Prop where
  /-- Everything that has been put in has left, or is still there, in that order. -/
  inserted_eq : inserted os = left.map Prod.fst ++ q
  /-- The answers are the elements that have left so. -/
  answers_eq : (answers (dropStep cap) [] os).2.reduceOption = answered left
  /-- What is there. -/
  queue_eq : (answers (dropStep cap) [] os).1 = q
  /-- The `i`th element has been dropped by an insertion that found `cap` elements, and this one
  as the oldest. -/
  dropped : ∀ i y, left[i]? = some (y, .dropped) → ∃ fs x gs, os = fs ++ .insert x :: gs ∧
    (answers (dropStep cap) [] fs).1.length = cap ∧ (inserted fs).length = i + cap

theorem inserted_concat (os : List (QueueOp α)) (o : QueueOp α) :
    inserted (os ++ [o]) = inserted os ++ inserted [o] := List.filterMap_append

theorem Accounts.length_le {left : List (α × Departure)} (h : Accounts cap os left q) :
    q.length ≤ cap := by
  rw [← h.queue_eq]
  have hkeep : ∀ (s : List α) (os : List (QueueOp α)), s.length ≤ cap →
      (answers (dropStep cap) s os).1.length ≤ cap := by
    intro s os hs
    induction os generalizing s with
    | nil => exact hs
    | cons o os ih => exact ih _ (length_dropStep hs o)
  exact hkeep [] os (Nat.zero_le _)

/-- An earlier loss stays accounted for. -/
theorem dropped_concat {o : QueueOp α} {i : ℕ}
    (h : ∃ fs x gs, os = fs ++ .insert x :: gs ∧
      (answers (dropStep cap) [] fs).1.length = cap ∧ (inserted fs).length = i + cap) :
    ∃ fs x gs, os ++ [o] = fs ++ .insert x :: gs ∧
      (answers (dropStep cap) [] fs).1.length = cap ∧ (inserted fs).length = i + cap := by
  obtain ⟨fs, x, gs, rfl, hfull, hlen⟩ := h
  exact ⟨fs, x, gs ++ [o], by simp, hfull, hlen⟩

/-- An element of a list with one more at the end. -/
theorem getElem?_concat_cases {β : Type*} {l : List β} {a b : β} {i : ℕ}
    (h : (l ++ [a])[i]? = some b) : l[i]? = some b ∨ i = l.length ∧ b = a := by
  rcases Nat.lt_or_ge i l.length with hi | hi
  · rw [List.getElem?_append_left hi] at h
    exact Or.inl h
  · rw [List.getElem?_append_right hi, List.getElem?_singleton] at h
    split at h
    · exact Or.inr ⟨by omega, (Option.some.inj h).symm⟩
    · exact absurd h (by simp)

/-- The accounts after one more operation. -/
theorem Accounts.step {left : List (α × Departure)} (hcap : 0 < cap)
    (h : Accounts cap os left q) (o : QueueOp α) :
    ∃ left', Accounts cap (os ++ [o]) left' (dropStep cap q o).1 := by
  have hconcat := answers_concat (dropStep cap) [] os o
  rw [h.queue_eq] at hconcat
  have hqueue : (answers (dropStep cap) [] (os ++ [o])).1 = (dropStep cap q o).1 := by rw [hconcat]
  have hanswers : (answers (dropStep cap) [] (os ++ [o])).2.reduceOption =
      answered left ++ [(dropStep cap q o).2].reduceOption := by
    rw [hconcat, List.reduceOption_append, h.answers_eq]
  cases o with
  | insert x =>
    have hins : inserted (os ++ [QueueOp.insert x]) = left.map Prod.fst ++ q ++ [x] := by
      rw [inserted_concat, h.inserted_eq]
      rfl
    rcases Nat.lt_or_ge q.length cap with hlt | hge
    · rw [dropStep_insert_of_lt hlt] at hqueue hanswers ⊢
      refine ⟨left, ⟨?_, ?_, hqueue, fun i y hi => dropped_concat (h.dropped i y hi)⟩⟩
      · rw [hins, List.append_assoc]
      · rw [hanswers]
        exact List.append_nil _
    · have hfull : q.length = cap := Nat.le_antisymm h.length_le hge
      obtain ⟨y, q, rfl⟩ := List.exists_cons_of_length_pos (hfull ▸ hcap)
      rw [dropStep_insert_of_full y hfull] at hqueue hanswers ⊢
      refine ⟨left ++ [(y, .dropped)], ⟨?_, ?_, hqueue, fun i z hi => ?_⟩⟩
      · simp [hins]
      · rw [hanswers, answered, answered, List.filterMap_append]
        rfl
      · rcases getElem?_concat_cases hi with hi | ⟨hlast, -⟩
        · exact dropped_concat (h.dropped i z hi)
        · refine ⟨os, x, [], rfl, ?_, ?_⟩
          · rw [h.queue_eq, hfull]
          · rw [h.inserted_eq, List.length_append, List.length_map, hlast, hfull]
  | remove =>
    have hins : inserted (os ++ [QueueOp.remove]) = left.map Prod.fst ++ q := by
      rw [inserted_concat, h.inserted_eq]
      exact List.append_nil _
    cases q with
    | nil =>
      refine ⟨left, ⟨hins, ?_, hqueue, fun i y hi => dropped_concat (h.dropped i y hi)⟩⟩
      rw [hanswers]
      exact List.append_nil _
    | cons y q =>
      refine ⟨left ++ [(y, .answered)], ⟨?_, ?_, hqueue, fun i z hi => ?_⟩⟩
      · rw [hins, List.map_append, List.append_assoc]
        rfl
      · rw [hanswers, answered, answered, List.filterMap_append]
        rfl
      · rcases getElem?_concat_cases hi with hi | ⟨-, hi⟩
        · exact dropped_concat (h.dropped i z hi)
        · exact absurd (Prod.mk.inj hi).2 (by simp)

/-- **Every element is accounted for.** -/
theorem left_of_answers (hcap : 0 < cap) (os : List (QueueOp α)) :
    ∃ left, Accounts cap os left (answers (dropStep cap) [] os).1 := by
  induction os using List.reverseRecOn with
  | nil => exact ⟨[], rfl, rfl, rfl, fun i y hi => absurd hi (by simp)⟩
  | append_singleton os o ih =>
    obtain ⟨left, h⟩ := ih
    obtain ⟨left', h'⟩ := h.step hcap o
    refine ⟨left', ?_⟩
    rw [answers_concat]
    exact h'

/-- The answers are some of the elements that were put in, in their order. -/
theorem answers_sublist (hcap : 0 < cap) (os : List (QueueOp α)) :
    (answers (dropStep cap) [] os).2.reduceOption.Sublist (inserted os) := by
  obtain ⟨left, h⟩ := left_of_answers hcap os
  rw [h.answers_eq, h.inserted_eq]
  exact (answered_sublist left).trans (List.sublist_append_left ..)

end Queue

end LioProject
