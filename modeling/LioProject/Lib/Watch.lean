import LioProject.Lib.Prog

/-!
# Programs that look things up

Some of the operations of a program only look: the answer is there, and nothing changes. In a model
the answer is often put into the program itself, and what has been looked at is lost. Here it is
kept. A program asks for what it looks at, and `look` gives the answers.

A program that does nothing else has a value, and a trail of what it has looked at. The two are
computed by `value` and `trail`, with a rule for sequences each.

In a program with other operations, `blind` puts the answers back in. What remains are the other
operations. `watch` executes the whole program and writes down what is looked at, and `exec_blind`
says that apart from that it is the execution of what remains.
-/

namespace LioProject

namespace Prog

variable {Op Q : Type} {Ans : Op → Type} {R : Q → Type} {ε α β σ : Type}

/-! ### Programs that only look -/

section Value

variable (look : (q : Q) → R q)

/-- What the program ends with. -/
def value : Prog Q R ε α → Except ε α
  | ret a => .ok a
  | fail e => .error e
  | op q k => (k (look q)).value

/-- What the program looks at, in this order. -/
def trail : Prog Q R ε α → List Q
  | ret _ => []
  | fail _ => []
  | op q k => q :: (k (look q)).trail

variable {look}

@[simp] theorem value_pure (a : α) : (pure a : Prog Q R ε α).value look = .ok a := rfl

@[simp] theorem value_fail (e : ε) : (fail e : Prog Q R ε α).value look = .error e := rfl

@[simp] theorem value_ask (q : Q) : (ask q : Prog Q R ε (R q)).value look = .ok (look q) := rfl

@[simp] theorem trail_pure (a : α) : (pure a : Prog Q R ε α).trail look = [] := rfl

@[simp] theorem trail_fail (e : ε) : (fail e : Prog Q R ε α).trail look = [] := rfl

@[simp] theorem trail_ask (q : Q) : (ask q : Prog Q R ε (R q)).trail look = [q] := rfl

theorem value_bind (p : Prog Q R ε α) (f : α → Prog Q R ε β) :
    (p >>= f).value look = p.value look >>= fun a => (f a).value look := by
  induction p with
  | ret a => rfl
  | fail e => rfl
  | op q k ih => exact ih (look q)

/-- The value of a sequence whose first part ends with a value. -/
theorem value_bind_ok {p : Prog Q R ε α} {a : α} (h : p.value look = .ok a)
    (f : α → Prog Q R ε β) : (p >>= f).value look = (f a).value look := by
  rw [value_bind, h]
  rfl

/-- The trail of a sequence whose first part ends with a value. -/
theorem trail_bind_ok {p : Prog Q R ε α} {a : α} (h : p.value look = .ok a)
    (f : α → Prog Q R ε β) : (p >>= f).trail look = p.trail look ++ (f a).trail look := by
  induction p with
  | ret b =>
    obtain rfl : b = a := Except.ok.inj h
    rfl
  | fail e => exact absurd h (by simp [value])
  | op q k ih => exact congrArg (q :: ·) (ih (look q) h)

/-- The trail of a sequence whose first part fails. -/
theorem trail_bind_error {p : Prog Q R ε α} {e : ε} (h : p.value look = .error e)
    (f : α → Prog Q R ε β) : (p >>= f).trail look = p.trail look := by
  induction p with
  | ret b => exact absurd h (by simp [value])
  | fail e => rfl
  | op q k ih => exact congrArg (q :: ·) (ih (look q) h)

/-- Whatever a sequence looks at, one of its parts does. -/
theorem forall_trail_bind {P : Q → Prop} {p : Prog Q R ε α} {f : α → Prog Q R ε β}
    (hp : ∀ q ∈ p.trail look, P q)
    (hf : ∀ a, p.value look = .ok a → ∀ q ∈ (f a).trail look, P q) :
    ∀ q ∈ (p >>= f).trail look, P q := by
  cases h : p.value look with
  | ok a =>
    rw [trail_bind_ok h]
    exact List.forall_mem_append.mpr ⟨hp, hf a h⟩
  | error e =>
    rw [trail_bind_error h]
    exact hp

end Value

/-! ### Programs that look and do -/

/-- Nothing is looked at. -/
def lift : Prog Op Ans ε α → Prog (Op ⊕ Q) (Sum.elim Ans R) ε α
  | ret a => ret a
  | fail e => fail e
  | op o k => op (.inl o) fun r => (k r).lift

/-- Look at one thing. -/
def see (q : Q) : Prog (Op ⊕ Q) (Sum.elim Ans R) ε (R q) := op (.inr q) ret

section Watch

variable (I : Interp Op Ans σ) (look : (q : Q) → R q)

/-- The program with the answers in it. -/
def blind : Prog (Op ⊕ Q) (Sum.elim Ans R) ε α → Prog Op Ans ε α
  | ret a => ret a
  | fail e => fail e
  | op (.inl o) k => op o fun r => (k r).blind
  | op (.inr q) k => (k (look q)).blind

/-- Execute a program, and write down what it looks at. -/
def watch : Prog (Op ⊕ Q) (Sum.elim Ans R) ε α → Env Op Ans → σ →
    Option (Except ε α × σ × List Q)
  | ret a, _, s => some (.ok a, s, [])
  | fail e, _, s => some (.error e, s, [])
  | op (.inl o) k, env, s =>
    match I s o (env 0 o) with
    | none => none
    | some (r, s') => (k r).watch (fun n => env (n + 1)) s'
  | op (.inr q) k, env, s =>
    ((k (look q)).watch env s).map fun y => (y.1, y.2.1, q :: y.2.2)

variable {I look}

/-- **Watching changes nothing.** -/
theorem exec_blind (p : Prog (Op ⊕ Q) (Sum.elim Ans R) ε α) (env : Env Op Ans) (s : σ) :
    (p.blind look).exec I env s = (p.watch I look env s).map fun y => (y.1, y.2.1) := by
  induction p generalizing env s with
  | ret a => rfl
  | fail e => rfl
  | op o k ih =>
    cases o with
    | inl o =>
      rw [blind, exec, watch]
      cases I s o (env 0 o) with
      | none => rfl
      | some y => exact ih y.1 _ y.2
    | inr q =>
      rw [blind, watch, ih (look q), Option.map_map]
      rfl

theorem blind_lift (p : Prog Op Ans ε α) :
    (p.lift : Prog (Op ⊕ Q) (Sum.elim Ans R) ε α).blind look = p := by
  induction p with
  | ret a => rfl
  | fail e => rfl
  | op o k ih => exact congrArg (op o) (funext ih)

theorem blind_bind (p : Prog (Op ⊕ Q) (Sum.elim Ans R) ε α)
    (f : α → Prog (Op ⊕ Q) (Sum.elim Ans R) ε β) :
    (p >>= f).blind look = p.blind look >>= fun a => (f a).blind look := by
  induction p with
  | ret a => rfl
  | fail e => rfl
  | op o k ih =>
    cases o with
    | inl o => exact congrArg (op o) (funext ih)
    | inr q => exact ih (look q)

/-- An operation, and what comes after it. -/
theorem watch_ask_bind {env : Env Op Ans} {s s' : σ} {o : Op} {r : Ans o}
    (h : I s o (env 0 o) = some (r, s')) (f : Ans o → Prog (Op ⊕ Q) (Sum.elim Ans R) ε β) :
    ((ask o).lift >>= f).watch I look env s = (f r).watch I look (fun n => env (n + 1)) s' := by
  change watch I look (op (.inl o) fun r => f r) env s = _
  rw [watch, h]

/-- A program that looks at nothing leaves no trail. -/
theorem watch_lift (p : Prog Op Ans ε α) (env : Env Op Ans) (s : σ) :
    (p.lift : Prog (Op ⊕ Q) (Sum.elim Ans R) ε α).watch I look env s =
      (p.exec I env s).map fun y => (y.1, y.2, []) := by
  induction p generalizing env s with
  | ret a => rfl
  | fail e => rfl
  | op o k ih =>
    rw [lift, watch, exec]
    cases I s o (env 0 o) with
    | none => rfl
    | some y => exact ih y.1 _ y.2

/-- The trail of a sequence: that of its first part, if it fails, or those of both. -/
theorem watch_bind_cases {p : Prog (Op ⊕ Q) (Sum.elim Ans R) ε α}
    {f : α → Prog (Op ⊕ Q) (Sum.elim Ans R) ε β} {env : Env Op Ans} {s s' : σ} {x : Except ε β}
    {l : List Q} (h : (p >>= f).watch I look env s = some (x, s', l)) :
    (∃ e, p.watch I look env s = some (.error e, s', l) ∧ x = .error e) ∨
      ∃ a t n l₁ l₂, p.watch I look env s = some (.ok a, t, l₁) ∧
        (f a).watch I look (fun k => env (k + n)) t = some (x, s', l₂) ∧ l = l₁ ++ l₂ := by
  induction p generalizing env s l with
  | ret a => exact Or.inr ⟨a, s, 0, [], l, rfl, h, rfl⟩
  | fail e =>
    obtain ⟨rfl, rfl, rfl⟩ : .error e = x ∧ s = s' ∧ [] = l := by
      simpa [watch, bind, Prog.bind] using h
    exact Or.inl ⟨e, rfl, rfl⟩
  | op o k ih =>
    cases o with
    | inl o =>
      change watch I look (op (.inl o) fun r => (k r).bind f) env s = _ at h
      rw [watch] at h ⊢
      cases hI : I s o (env 0 o) with
      | none =>
        rw [hI] at h
        exact absurd h (by simp)
      | some y =>
        rw [hI] at h
        rcases ih y.1 h with ⟨e, he, hx⟩ | ⟨a, t, n, l₁, l₂, hp, hf, hl⟩
        · exact Or.inl ⟨e, he, hx⟩
        · exact Or.inr ⟨a, t, n + 1, l₁, l₂, hp, hf, hl⟩
    | inr q =>
      change watch I look (op (.inr q) fun r => (k r).bind f) env s = _ at h
      rw [watch] at h ⊢
      obtain ⟨⟨x', t, l'⟩, hwatch, heq⟩ := Option.map_eq_some_iff.mp h
      obtain ⟨rfl, rfl, rfl⟩ : x' = x ∧ t = s' ∧ q :: l' = l := by simpa using heq
      rcases ih (look q) hwatch with ⟨e, he, hx⟩ | ⟨a, u, n, l₁, l₂, hp, hf, hl⟩
      · refine Or.inl ⟨e, ?_, hx⟩
        rw [he]
        rfl
      · refine Or.inr ⟨a, u, n, q :: l₁, l₂, ?_, hf, congrArg (q :: ·) hl⟩
        rw [hp]
        rfl

end Watch

end Prog

end LioProject
