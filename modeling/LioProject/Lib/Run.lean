import Mathlib.Data.List.Basic

/-!
# Runs of a partial step function

A system is a state type, an event type and a partial function `step`: `step s e = none` says
that `e` cannot happen in `s`. A run is a list of events, executed from left to right, and it
exists when every one of its events can happen.

Everything proved about a whole run in this development goes through `run_invariant`: a property
that one step keeps is kept by every run. `run_invariant_meets` is the same for the runs whose
events meet a condition on the state in which they happen (`Meets`), and `run_good_iff_meets` is for
conditions that are exact. `run_append` and `run_concat` split a run where a statement singles out
its last event.

`Serial` is for what a run is compared with: operations that are executed one after the other, each
at once, where an operation may have several outcomes.
-/

namespace LioProject

variable {σ ε : Type*}

/-- Execute the events of a run one after the other. -/
def run (step : σ → ε → Option σ) (s : σ) (es : List ε) : Option σ := es.foldlM step s

@[simp] theorem run_nil (step : σ → ε → Option σ) (s : σ) : run step s [] = some s := rfl

theorem run_cons (step : σ → ε → Option σ) (s : σ) (e : ε) (es : List ε) :
    run step s (e :: es) = (step s e).bind fun t => run step t es := by
  simp [run, List.foldlM_cons, Option.bind_eq_bind]

theorem run_singleton (step : σ → ε → Option σ) (s : σ) (e : ε) : run step s [e] = step s e := by
  simp [run_cons]

theorem run_append (step : σ → ε → Option σ) (s : σ) (es fs : List ε) :
    run step s (es ++ fs) = (run step s es).bind fun t => run step t fs := by
  simp [run, List.foldlM_append, Option.bind_eq_bind]

/-- The last event of a run, seen from the state the rest of the run reaches. -/
theorem run_concat {step : σ → ε → Option σ} {s t : σ} {es : List ε} {e : ε} :
    run step s (es ++ [e]) = some t ↔ ∃ u, run step s es = some u ∧ step u e = some t := by
  rw [run_append, Option.bind_eq_some_iff]
  simp [run_cons]

/-- **The invariant rule**, for runs of events that keep to a condition. -/
theorem run_invariant_of {step : σ → ε → Option σ} {P : ε → Prop} {Inv : σ → Prop}
    (hstep : ∀ s e t, P e → Inv s → step s e = some t → Inv t) :
    ∀ {es : List ε} {s t : σ}, (∀ e ∈ es, P e) → Inv s → run step s es = some t → Inv t := by
  intro es
  induction es with
  | nil =>
    intro s t _ hs h
    rw [run_nil, Option.some.injEq] at h
    exact h ▸ hs
  | cons e es ih =>
    intro s t hes hs h
    rw [run_cons, Option.bind_eq_some_iff] at h
    obtain ⟨u, hu, ht⟩ := h
    have hinv := hstep s e u (hes e (List.mem_cons_self ..)) hs hu
    exact ih (fun e' he' => hes e' (List.mem_cons_of_mem _ he')) hinv ht

/-- **The invariant rule.** What every single step keeps, every run keeps. -/
theorem run_invariant {step : σ → ε → Option σ} {Inv : σ → Prop}
    (hstep : ∀ s e t, Inv s → step s e = some t → Inv t) {es : List ε} {s t : σ} (hs : Inv s)
    (h : run step s es = some t) : Inv t :=
  run_invariant_of (P := fun _ => True) (fun s e t _ => hstep s e t) (fun _ _ => trivial) hs h

/-- Every event of the run meets the condition `C` in the state in which it happens. -/
def Meets (step : σ → ε → Option σ) (C : σ → ε → Prop) : σ → List ε → Prop
  | _, [] => True
  | s, e :: es => C s e ∧ ∀ t, step s e = some t → Meets step C t es

instance decidableMeets (step : σ → ε → Option σ) (C : σ → ε → Prop) [∀ s e, Decidable (C s e)] :
    ∀ s es, Decidable (Meets step C s es)
  | _, [] => isTrue trivial
  | s, e :: es =>
    match h : step s e with
    | none => decidable_of_iff (C s e) ⟨fun hc => ⟨hc, fun t ht => by simp [h] at ht⟩, And.left⟩
    | some t =>
      have := decidableMeets step C t es
      decidable_of_iff (C s e ∧ Meets step C t es)
        ⟨fun hc => ⟨hc.1, fun u hu => Option.some.inj (h.symm.trans hu) ▸ hc.2⟩,
          fun hc => ⟨hc.1, hc.2 t h⟩⟩

/-- Two conditions that every event of the run meets. -/
theorem Meets.and {step : σ → ε → Option σ} {C D : σ → ε → Prop} :
    ∀ {es : List ε} {s : σ}, Meets step C s es → Meets step D s es →
      Meets step (fun s e => C s e ∧ D s e) s es
  | [], _, _, _ => trivial
  | _ :: _, _, hc, hd => ⟨⟨hc.1, hd.1⟩, fun t ht => Meets.and (hc.2 t ht) (hd.2 t ht)⟩

/-- **The invariant rule**, for runs whose events keep to a condition on the state. -/
theorem run_invariant_meets {step : σ → ε → Option σ} {C : σ → ε → Prop} {Inv : σ → Prop}
    (hstep : ∀ s e t, C s e → Inv s → step s e = some t → Inv t) :
    ∀ {es : List ε} {s t : σ}, Meets step C s es → Inv s → run step s es = some t → Inv t := by
  intro es
  induction es with
  | nil =>
    intro s t _ hs h
    rw [run_nil, Option.some.injEq] at h
    exact h ▸ hs
  | cons e es ih =>
    intro s t hes hs h
    rw [run_cons, Option.bind_eq_some_iff] at h
    obtain ⟨u, hu, ht⟩ := h
    exact ih (hes.2 u hu) (hstep s e u hes.1 hs hu) ht

/-- The condition is exact if a step that does not meet it leads to a state that is not good: then
the states on the way of a run are good if and only if every event meets the condition. -/
theorem run_good_iff_meets {step : σ → ε → Option σ} {C : σ → ε → Prop} {Inv Good : σ → Prop}
    (hgood : ∀ s, Inv s → Good s) (hstep : ∀ s e t, C s e → Inv s → step s e = some t → Inv t)
    (hbad : ∀ s e, Inv s → ¬ C s e → ∃ t, step s e = some t ∧ ¬ Good t) :
    ∀ {es : List ε} {s : σ}, Inv s →
      ((∀ fs t, fs <+: es → run step s fs = some t → Good t) ↔ Meets step C s es) := by
  intro es
  induction es with
  | nil =>
    intro s hs
    refine ⟨fun _ => trivial, fun _ fs t hfs h => ?_⟩
    rw [List.prefix_nil.mp hfs, run_nil, Option.some.injEq] at h
    exact hgood t (h ▸ hs)
  | cons e es ih =>
    intro s hs
    refine ⟨fun hall => ?_, fun hmeets fs t hfs h => ?_⟩
    · have hC : C s e := by
        by_contra hC
        obtain ⟨t, ht, hnot⟩ := hbad s e hs hC
        refine hnot (hall [e] t (List.prefix_append [e] es) ?_)
        rw [run_singleton, ht]
      refine ⟨hC, fun t ht => (ih (hstep s e t hC hs ht)).mp fun fs u hfs hu => ?_⟩
      refine hall (e :: fs) u (List.cons_prefix_cons.mpr ⟨rfl, hfs⟩) ?_
      rw [run_cons, ht]
      exact hu
    · cases fs with
      | nil =>
        rw [run_nil, Option.some.injEq] at h
        exact hgood t (h ▸ hs)
      | cons f fs =>
        obtain ⟨rfl, hrest⟩ := List.cons_prefix_cons.mp hfs
        rw [run_cons, Option.bind_eq_some_iff] at h
        obtain ⟨u, hu, ht⟩ := h
        exact (ih (hstep s f u hmeets.1 hs hu)).mpr (hmeets.2 u hu) fs t hrest ht

/-- Operations executed one after the other, each at once. -/
inductive Serial {α : Type*} (atomic : α → σ → σ → Prop) : σ → List α → σ → Prop
  | nil (s : σ) : Serial atomic s [] s
  | concat {s t u : σ} {as : List α} {a : α} (h : Serial atomic s as t) (ha : atomic a t u) :
      Serial atomic s (as ++ [a]) u

/-- What each action finds is what those before it have left. -/
theorem Serial.before {α : Type*} {atomic : α → σ → σ → Prop} {s u : σ} {as : List α}
    (h : Serial atomic s as u) : ∀ {l : List α} {a : α} {l' : List α}, as = l ++ a :: l' →
      ∃ t t', Serial atomic s l t ∧ atomic a t t' := by
  induction h with
  | nil =>
    intro l a l' heq
    exact absurd heq.symm (by simp)
  | @concat t u as x h hx ih =>
    intro l a l' heq
    obtain rfl | ⟨l'', y, rfl⟩ := List.eq_nil_or_concat l'
    · obtain ⟨rfl, hxa⟩ := List.append_inj' heq rfl
      obtain rfl := List.singleton_inj.mp hxa
      exact ⟨t, u, h, hx⟩
    · rw [List.concat_eq_append, ← List.cons_append, ← List.append_assoc] at heq
      exact ih (List.append_inj' heq rfl).1

end LioProject
