import Mathlib.Data.List.Basic

/-!
# Programs that ask their surroundings

A program does some computing of its own, and in between it asks its surroundings to do something
(`op`) and goes on with the answer. It ends with a value, or in a failure that nobody catches.

What an operation does is said apart from the programs, by an interpretation: a partial function
that takes the state, the operation and the answer that the environment proposes, and gives the
real answer and the next state. An operation of which the state decides the answer ignores the
proposal, one that fails or not at the whim of the environment follows it, and one that has to wait
is undefined. The environment is thus an input like any other, and a program is executed (`exec`)
on a state and an environment.

Where it matters what has been answered, `logged` writes it down along with the state.

`wp` turns a program and a postcondition into the condition on the state before it under which the
program ends as it should in every environment; `exec_of_wp` says that it does. The rules `wp_bind`
and `wp_mono` are the ones to reason with.

Some facts about a program need no state: it asks for certain operations only, and fails in certain
ways only. `All` says so, and `exec_of_all` turns it into an invariant of the states. `Spends` adds
a budget: every operation has a price, which may depend on the answer, and the program can pay for
everything it asks for (`exec_of_spends`).
-/

namespace LioProject

/-- A program with operations `Op`, answers `Ans`, failures `ε` and values in `α`. -/
inductive Prog (Op : Type) (Ans : Op → Type) (ε α : Type) where
  | ret (a : α)
  | fail (e : ε)
  | op (o : Op) (k : Ans o → Prog Op Ans ε α)

namespace Prog

variable {Op : Type} {Ans : Op → Type} {ε α β γ σ : Type}

/-- One program after the other. -/
protected def bind : Prog Op Ans ε α → (α → Prog Op Ans ε β) → Prog Op Ans ε β
  | ret a, f => f a
  | fail e, _ => fail e
  | op o k, f => op o fun r => (k r).bind f

instance : Monad (Prog Op Ans ε) where
  pure := ret
  bind := Prog.bind

/-- Ask for one operation. -/
def ask (o : Op) : Prog Op Ans ε (Ans o) := op o ret

/-! ### Execution -/

/-- What the operations do: the proposed answer becomes the real one, and the state changes. -/
abbrev Interp (Op : Type) (Ans : Op → Type) (σ : Type) :=
  σ → (o : Op) → Ans o → Option (Ans o × σ)

/-- What the environment proposes, operation by operation. -/
abbrev Env (Op : Type) (Ans : Op → Type) := ℕ → (o : Op) → Ans o

/-- Execute a program. The result is undefined when an operation is. -/
def exec (I : Interp Op Ans σ) :
    Prog Op Ans ε α → Env Op Ans → σ → Option (Except ε α × σ)
  | ret a, _, s => some (.ok a, s)
  | fail e, _, s => some (.error e, s)
  | op o k, env, s =>
    match I s o (env 0 o) with
    | none => none
    | some (r, s') => (k r).exec I (fun n => env (n + 1)) s'

/-- An operation, and what comes after it. -/
theorem exec_ask_bind {I : Interp Op Ans σ} {env : Env Op Ans} {s s' : σ} {o : Op} {r : Ans o}
    (h : I s o (env 0 o) = some (r, s')) (f : Ans o → Prog Op Ans ε β) :
    (ask o >>= f).exec I env s = (f r).exec I (fun n => env (n + 1)) s' := by
  change exec I (op o fun r => f r) env s = _
  rw [exec, h]

theorem bind_assoc (p : Prog Op Ans ε α) (f : α → Prog Op Ans ε β) (g : β → Prog Op Ans ε γ) :
    (p >>= f) >>= g = p >>= fun a => f a >>= g := by
  induction p with
  | ret a => rfl
  | fail e => rfl
  | op o k ih => exact congrArg (op o) (funext ih)

theorem bind_pure (p : Prog Op Ans ε α) : p >>= pure = p := by
  induction p with
  | ret a => rfl
  | fail e => rfl
  | op o k ih => exact congrArg (op o) (funext ih)

/-- Where no operation has to wait, every execution ends. -/
theorem exec_total {I : Interp Op Ans σ} (hI : ∀ s o a, ∃ x, I s o a = some x)
    (p : Prog Op Ans ε α) (env : Env Op Ans) (s : σ) : ∃ x, p.exec I env s = some x := by
  induction p generalizing env s with
  | ret a => exact ⟨_, rfl⟩
  | fail e => exact ⟨_, rfl⟩
  | op o k ih =>
    obtain ⟨⟨r, s'⟩, hr⟩ := hI s o (env 0 o)
    rw [exec, hr]
    exact ih r _ s'

/-- Where what the environment proposes is always possible and keeps an invariant, every execution
ends and keeps the invariant. -/
theorem exec_of_invariant {I : Interp Op Ans σ} {g : (o : Op) → Ans o} {Inv : σ → Prop}
    (hI : ∀ s o, Inv s → ∃ r s', I s o (g o) = some (r, s') ∧ Inv s') (p : Prog Op Ans ε α) {s : σ}
    (hs : Inv s) : ∃ x s', p.exec I (fun _ => g) s = some (x, s') ∧ Inv s' := by
  induction p generalizing s with
  | ret a => exact ⟨_, s, rfl, hs⟩
  | fail e => exact ⟨_, s, rfl, hs⟩
  | op o k ih =>
    obtain ⟨r, s', hr, hs'⟩ := hI s o hs
    rw [exec, hr]
    exact ih r hs'

/-- A sequence, in an environment that always proposes the same. -/
theorem exec_bind_const (I : Interp Op Ans σ) (g : (o : Op) → Ans o) (p : Prog Op Ans ε α)
    (f : α → Prog Op Ans ε β) (s : σ) :
    (p >>= f).exec I (fun _ => g) s =
      (p.exec I (fun _ => g) s).bind fun y =>
        match y with
        | (.ok a, s') => (f a).exec I (fun _ => g) s'
        | (.error e, s') => some (.error e, s') := by
  induction p generalizing s with
  | ret a => rfl
  | fail e => rfl
  | op o k ih =>
    change exec I (op o fun r => (k r).bind f) (fun _ => g) s = _
    rw [exec, exec]
    cases I s o (g o) with
    | none => rfl
    | some y => exact ih y.1 y.2

/-- A sequence whose first part ends with a value. The second part goes on where the environment has
been left. -/
theorem exec_bind_of_ok {I : Interp Op Ans σ} {p : Prog Op Ans ε α} {env : Env Op Ans} {s s' : σ}
    {a : α} (h : p.exec I env s = some (.ok a, s')) :
    ∃ n, ∀ f : α → Prog Op Ans ε β,
      (p >>= f).exec I env s = (f a).exec I (fun k => env (k + n)) s' := by
  induction p generalizing env s with
  | ret b =>
    rw [exec, Option.some.injEq, Prod.mk.injEq, Except.ok.injEq] at h
    obtain ⟨rfl, rfl⟩ := h
    exact ⟨0, fun f => rfl⟩
  | fail e =>
    rw [exec, Option.some.injEq, Prod.mk.injEq] at h
    exact absurd h.1 (by simp)
  | op o k ih =>
    rw [exec] at h
    cases hI : I s o (env 0 o) with
    | none =>
      rw [hI] at h
      exact absurd h (by simp)
    | some y =>
      obtain ⟨r, u⟩ := y
      rw [hI] at h
      obtain ⟨n, hn⟩ := ih r h
      refine ⟨n + 1, fun f => ?_⟩
      change exec I (op o fun r => (k r).bind f) env s = _
      rw [exec, hI]
      exact hn f

/-- The two ways in which a sequence ends. -/
theorem exec_bind_cases {I : Interp Op Ans σ} {p : Prog Op Ans ε α} {f : α → Prog Op Ans ε β}
    {env : Env Op Ans} {s s' : σ} {x : Except ε β} (h : (p >>= f).exec I env s = some (x, s')) :
    (∃ e, p.exec I env s = some (.error e, s') ∧ x = .error e) ∨
      ∃ a u n, p.exec I env s = some (.ok a, u) ∧
        (f a).exec I (fun k => env (k + n)) u = some (x, s') := by
  induction p generalizing env s with
  | ret a => exact Or.inr ⟨a, s, 0, rfl, h⟩
  | fail e =>
    obtain ⟨rfl, rfl⟩ := Prod.mk.inj (Option.some.inj h)
    exact Or.inl ⟨e, rfl, rfl⟩
  | op o k ih =>
    change exec I (op o fun r => (k r).bind f) env s = _ at h
    rw [exec] at h ⊢
    cases hI : I s o (env 0 o) with
    | none =>
      rw [hI] at h
      exact absurd h (by simp)
    | some y =>
      obtain ⟨r, u⟩ := y
      rw [hI] at h
      rcases ih r h with herr | ⟨a, v, n, ha, hf⟩
      · exact Or.inl herr
      · exact Or.inr ⟨a, v, n + 1, ha, hf⟩

/-! ### Logs -/

/-- What has been asked and answered. -/
abbrev Log (Op : Type) (Ans : Op → Type) := List ((o : Op) × Ans o)

/-- The interpretation that also writes down what is asked and answered. -/
def logged (I : Interp Op Ans σ) : Interp Op Ans (σ × Log Op Ans) := fun s o a =>
  (I s.1 o a).map fun x => (x.1, x.2, s.2 ++ [⟨o, x.1⟩])

/-- Writing it down changes nothing. -/
theorem exec_logged (I : Interp Op Ans σ) (p : Prog Op Ans ε α) (env : Env Op Ans) (s : σ)
    (l : Log Op Ans) :
    (p.exec (logged I) env (s, l)).map (fun y => (y.1, y.2.1)) = p.exec I env s := by
  induction p generalizing env s l with
  | ret a => rfl
  | fail e => rfl
  | op o k ih =>
    rw [exec, exec, logged]
    cases I s o (env 0 o) with
    | none => rfl
    | some x => exact ih x.1 _ x.2 _

/-- Every execution can be written down. -/
theorem exists_logged {I : Interp Op Ans σ} {p : Prog Op Ans ε α} {env : Env Op Ans} {s s' : σ}
    {x : Except ε α} (h : p.exec I env s = some (x, s')) (l : Log Op Ans) :
    ∃ l', p.exec (logged I) env (s, l) = some (x, s', l') := by
  rw [← exec_logged I p env s l] at h
  obtain ⟨⟨y, t, l'⟩, hy, heq⟩ := Option.map_eq_some_iff.mp h
  obtain ⟨rfl, rfl⟩ := Prod.mk.inj heq
  exact ⟨l', hy⟩

/-! ### Preconditions -/

section Wp

variable (I : Interp Op Ans σ) (A : (o : Op) → Ans o → Prop) (E : ε → σ → Prop)

/-- The weakest precondition: in every environment that keeps to `A`, the program ends with a value
and a state in `Q`, or with a failure and a state in `E`. -/
def wp : Prog Op Ans ε α → (α → σ → Prop) → σ → Prop
  | ret a, Q, s => Q a s
  | fail e, _, s => E e s
  | op o k, Q, s => ∀ a, A o a → ∀ r s', I s o a = some (r, s') → (k r).wp Q s'

variable {I A E}

theorem wp_ask_bind {o : Op} {f : Ans o → Prog Op Ans ε β} {Q : β → σ → Prop} {s : σ} :
    wp I A E (ask o >>= f) Q s ↔
      ∀ a, A o a → ∀ r s', I s o a = some (r, s') → wp I A E (f r) Q s' := Iff.rfl

/-- **The rule for sequences.** -/
theorem wp_bind {p : Prog Op Ans ε α} {f : α → Prog Op Ans ε β} {Q : β → σ → Prop} {s : σ} :
    wp I A E (p >>= f) Q s ↔ wp I A E p (fun a => wp I A E (f a) Q) s := by
  induction p generalizing s with
  | ret a => exact Iff.rfl
  | fail e => exact Iff.rfl
  | op o k ih =>
    constructor
    · intro h a ha r s' hr
      exact (ih r).mp (h a ha r s' hr)
    · intro h a ha r s' hr
      exact (ih r).mpr (h a ha r s' hr)

/-- **The rule of consequence.** -/
theorem wp_mono {p : Prog Op Ans ε α} {Q R : α → σ → Prop} {s : σ} (h : wp I A E p Q s)
    (hQR : ∀ a s', Q a s' → R a s') : wp I A E p R s := by
  induction p generalizing s with
  | ret a => exact hQR a s h
  | fail e => exact h
  | op o k ih =>
    intro a ha r s' hr
    exact ih r (h a ha r s' hr)

/-- A sequence, with the postcondition of its first part spelled out. -/
theorem wp_seq {p : Prog Op Ans ε α} {f : α → Prog Op Ans ε β} {R : α → σ → Prop}
    {Q : β → σ → Prop} {s : σ} (hp : wp I A E p R s)
    (hf : ∀ a s', R a s' → wp I A E (f a) Q s') : wp I A E (p >>= f) Q s :=
  wp_bind.mpr (wp_mono hp hf)

/-- **The rule for loops** over a list. The invariant speaks of what is left of the list. -/
theorem wp_forM {f : γ → Prog Op Ans ε PUnit} {J : List γ → σ → Prop}
    (hf : ∀ a l s, J (a :: l) s → wp I A E (f a) (fun _ => J l) s) (l : List γ) {s : σ}
    (hs : J l s) : wp I A E (l.forM f) (fun _ => J []) s := by
  induction l generalizing s with
  | nil => exact hs
  | cons a l ih => exact wp_seq (hf a l s hs) fun _ _ ht => ih ht

/-- **Soundness.** A program whose precondition holds ends as it should. -/
theorem exec_of_wp {p : Prog Op Ans ε α} {Q : α → σ → Prop} {s s' : σ} {env : Env Op Ans}
    {x : Except ε α} (h : wp I A E p Q s) (henv : ∀ n o, A o (env n o))
    (hexec : p.exec I env s = some (x, s')) :
    (∃ a, x = .ok a ∧ Q a s') ∨ ∃ e, x = .error e ∧ E e s' := by
  induction p generalizing s env with
  | ret a =>
    rw [exec, Option.some.injEq, Prod.mk.injEq] at hexec
    exact Or.inl ⟨a, hexec.1.symm, hexec.2 ▸ h⟩
  | fail e =>
    rw [exec, Option.some.injEq, Prod.mk.injEq] at hexec
    exact Or.inr ⟨e, hexec.1.symm, hexec.2 ▸ h⟩
  | op o k ih =>
    rw [exec] at hexec
    cases hI : I s o (env 0 o) with
    | none =>
      rw [hI] at hexec
      exact absurd hexec (by simp)
    | some p =>
      obtain ⟨r, u⟩ := p
      rw [hI] at hexec
      exact ih r (h _ (henv 0 o) r u hI) (fun n => henv (n + 1)) hexec

end Wp

/-! ### What a program can ask for -/

section All

variable {P : Op → Prop} {F : ε → Prop}

/-- Every operation that the program can ask for is in `P`, every failure in `F`, and every value in
`Q`, whatever is answered. -/
def All (P : Op → Prop) (F : ε → Prop) : Prog Op Ans ε α → (α → Prop) → Prop
  | ret a, Q => Q a
  | fail e, _ => F e
  | op o k, Q => P o ∧ ∀ r, (k r).All P F Q

theorem all_pure {a : α} {Q : α → Prop} (h : Q a) : (pure a : Prog Op Ans ε α).All P F Q := h

theorem all_fail {e : ε} {Q : α → Prop} (h : F e) : (fail e : Prog Op Ans ε α).All P F Q := h

theorem all_ask {o : Op} (h : P o) : (ask o : Prog Op Ans ε (Ans o)).All P F fun _ => True :=
  ⟨h, fun _ => trivial⟩

theorem all_bind {p : Prog Op Ans ε α} {f : α → Prog Op Ans ε β} {R : α → Prop} {Q : β → Prop}
    (hp : p.All P F R) (hf : ∀ a, R a → (f a).All P F Q) : (p >>= f).All P F Q := by
  induction p with
  | ret a => exact hf a hp
  | fail e => exact hp
  | op o k ih => exact ⟨hp.1, fun r => ih r (hp.2 r)⟩

/-- The rule of consequence, for operations and failures as well. -/
theorem all_mono {P' : Op → Prop} {F' : ε → Prop} {p : Prog Op Ans ε α} {Q R : α → Prop}
    (hp : p.All P F Q) (hP : ∀ o, P o → P' o) (hF : ∀ e, F e → F' e) (hQR : ∀ a, Q a → R a) :
    p.All P' F' R := by
  induction p with
  | ret a => exact hQR a hp
  | fail e => exact hF e hp
  | op o k ih => exact ⟨hP o hp.1, fun r => ih r (hp.2 r)⟩

/-- Every program asks for some operations and fails in some ways. -/
theorem all_true (p : Prog Op Ans ε α) :
    p.All (fun _ => True) (fun _ => True) fun _ => True := by
  induction p with
  | ret a => trivial
  | fail e => trivial
  | op o k ih => exact ⟨trivial, ih⟩

theorem all_forM {f : γ → Prog Op Ans ε PUnit} (hf : ∀ a, (f a).All P F fun _ => True)
    (l : List γ) : (l.forM f).All P F fun _ => True := by
  induction l with
  | nil => exact all_pure trivial
  | cons a l ih => exact all_bind (hf a) fun _ _ => ih

/-- An invariant that the operations of a program keep is kept by the program. -/
theorem exec_of_all {I : Interp Op Ans σ} {Inv : σ → Prop} {p : Prog Op Ans ε α} {Q : α → Prop}
    {env : Env Op Ans} {s s' : σ} {x : Except ε α} (h : p.All P F Q)
    (hI : ∀ o, P o → ∀ s a r s', Inv s → I s o a = some (r, s') → Inv s')
    (hexec : p.exec I env s = some (x, s')) (hs : Inv s) :
    Inv s' ∧ ((∃ a, x = .ok a ∧ Q a) ∨ ∃ e, x = .error e ∧ F e) := by
  induction p generalizing s env with
  | ret a =>
    rw [exec, Option.some.injEq, Prod.mk.injEq] at hexec
    obtain ⟨rfl, rfl⟩ := hexec
    exact ⟨hs, Or.inl ⟨a, rfl, h⟩⟩
  | fail e =>
    rw [exec, Option.some.injEq, Prod.mk.injEq] at hexec
    obtain ⟨rfl, rfl⟩ := hexec
    exact ⟨hs, Or.inr ⟨e, rfl, h⟩⟩
  | op o k ih =>
    rw [exec] at hexec
    cases hop : I s o (env 0 o) with
    | none =>
      rw [hop] at hexec
      exact absurd hexec (by simp)
    | some p =>
      obtain ⟨r, u⟩ := p
      rw [hop] at hexec
      exact ih r (h.2 r) hexec (hI o h.1 s _ r u hs hop)

/-- The value that a program ends with. -/
theorem value_of_all {I : Interp Op Ans σ} {p : Prog Op Ans ε α} {Q : α → Prop} {env : Env Op Ans}
    {s s' : σ} {a : α} (h : p.All P F Q) (hexec : p.exec I env s = some (.ok a, s')) : Q a := by
  have hI : ∀ o, P o → ∀ s a r s', True → I s o a = some (r, s') → True :=
    fun _ _ _ _ _ _ _ _ => trivial
  rcases (exec_of_all h hI hexec trivial).2 with ⟨b, hb, hQ⟩ | ⟨e, he, -⟩
  · rw [Except.ok.inj hb]
    exact hQ
  · exact absurd he (by simp)

/-- The same as a precondition. -/
theorem wp_of_all {I : Interp Op Ans σ} {A : (o : Op) → Ans o → Prop} {E : ε → σ → Prop}
    {Inv : σ → Prop} {p : Prog Op Ans ε α} {Q : α → Prop} {s : σ} (h : p.All P F Q)
    (hI : ∀ o, P o → ∀ s a r s', Inv s → I s o a = some (r, s') → Inv s')
    (hE : ∀ e s, F e → Inv s → E e s) (hs : Inv s) :
    wp I A E p (fun a s' => Q a ∧ Inv s') s := by
  induction p generalizing s with
  | ret a => exact ⟨h, hs⟩
  | fail e => exact hE e s h hs
  | op o k ih =>
    intro a _ r s' hr
    exact ih r (h.2 r) (hI o h.1 s a r s' hs hr)

end All

/-! ### What a program can spend -/

section Spends

variable {P : Op → Prop} {w : (o : Op) → Ans o → ℕ} {F : ε → Prop}

/-- As `All`, and the prices `w` of the operations come to `n` at most, whatever is answered. -/
def Spends (P : Op → Prop) (w : (o : Op) → Ans o → ℕ) (F : ε → Prop) :
    Prog Op Ans ε α → ℕ → (α → Prop) → Prop
  | ret a, _, Q => Q a
  | fail e, _, _ => F e
  | op o k, n, Q => P o ∧ ∀ r, w o r ≤ n ∧ (k r).Spends P w F (n - w o r) Q

theorem spends_pure {a : α} {n : ℕ} {Q : α → Prop} (h : Q a) :
    (pure a : Prog Op Ans ε α).Spends P w F n Q := h

theorem spends_fail {e : ε} {n : ℕ} {Q : α → Prop} (h : F e) :
    (fail e : Prog Op Ans ε α).Spends P w F n Q := h

theorem spends_ask {o : Op} {n : ℕ} (h : P o) (hw : ∀ r, w o r ≤ n) :
    (ask o : Prog Op Ans ε (Ans o)).Spends P w F n fun _ => True :=
  ⟨h, fun r => ⟨hw r, trivial⟩⟩

theorem spends_mono {p : Prog Op Ans ε α} {n m : ℕ} {Q R : α → Prop} (hp : p.Spends P w F n Q)
    (hnm : n ≤ m) (hQR : ∀ a, Q a → R a) : p.Spends P w F m R := by
  induction p generalizing n m with
  | ret a => exact hQR a hp
  | fail e => exact hp
  | op o k ih =>
    refine ⟨hp.1, fun r => ⟨Nat.le_trans (hp.2 r).1 hnm, ih r (hp.2 r).2 ?_⟩⟩
    omega

theorem spends_bind {p : Prog Op Ans ε α} {f : α → Prog Op Ans ε β} {n m : ℕ} {R : α → Prop}
    {Q : β → Prop} (hp : p.Spends P w F n R) (hf : ∀ a, R a → (f a).Spends P w F m Q) :
    (p >>= f).Spends P w F (n + m) Q := by
  induction p generalizing n with
  | ret a => exact spends_mono (hf a hp) (Nat.le_add_left _ _) fun _ h => h
  | fail e => exact hp
  | op o k ih =>
    refine ⟨hp.1, fun r => ⟨Nat.le_trans (hp.2 r).1 (Nat.le_add_right _ _), ?_⟩⟩
    have hle := (hp.2 r).1
    exact spends_mono (ih r (hp.2 r).2) (by omega) fun _ h => h

/-- A program whose operations are free. -/
theorem spends_of_all {P' : Op → Prop} {p : Prog Op Ans ε α} {Q : α → Prop} (hp : p.All P' F Q)
    (hP : ∀ o, P' o → P o ∧ ∀ r, w o r = 0) (n : ℕ) : p.Spends P w F n Q := by
  induction p with
  | ret a => exact hp
  | fail e => exact hp
  | op o k ih =>
    refine ⟨(hP o hp.1).1, fun r => ?_⟩
    rw [(hP o hp.1).2 r]
    exact ⟨Nat.zero_le _, ih r (hp.2 r)⟩

/-- A measure of the state that the operations raise by their price at most is raised by the program
by its budget at most. -/
theorem exec_of_spends {I : Interp Op Ans σ} {Inv : σ → Prop} {μ : σ → ℕ} {p : Prog Op Ans ε α}
    {n : ℕ} {Q : α → Prop} {env : Env Op Ans} {s s' : σ} {x : Except ε α}
    (h : p.Spends P w F n Q)
    (hI : ∀ o, P o → ∀ s a r s', Inv s → I s o a = some (r, s') → Inv s' ∧ μ s' ≤ μ s + w o r)
    (hexec : p.exec I env s = some (x, s')) (hs : Inv s) :
    Inv s' ∧ μ s' ≤ μ s + n ∧ ∀ e, x = .error e → F e := by
  induction p generalizing s env n with
  | ret a =>
    rw [exec, Option.some.injEq, Prod.mk.injEq] at hexec
    obtain ⟨rfl, rfl⟩ := hexec
    exact ⟨hs, Nat.le_add_right _ _, nofun⟩
  | fail e =>
    rw [exec, Option.some.injEq, Prod.mk.injEq] at hexec
    obtain ⟨rfl, rfl⟩ := hexec
    refine ⟨hs, Nat.le_add_right _ _, fun e' he => ?_⟩
    rw [← Except.error.inj he]
    exact h
  | op o k ih =>
    rw [exec] at hexec
    cases hop : I s o (env 0 o) with
    | none =>
      rw [hop] at hexec
      exact absurd hexec (by simp)
    | some p =>
      obtain ⟨r, u⟩ := p
      rw [hop] at hexec
      obtain ⟨hu, hle⟩ := hI o h.1 s _ r u hs hop
      obtain ⟨hs', hle', hx⟩ := ih r (h.2 r).2 hexec hu
      have hw := (h.2 r).1
      exact ⟨hs', by omega, hx⟩

end Spends

end Prog

end LioProject
