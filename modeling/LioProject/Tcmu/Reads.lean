import LioProject.Lib.Watch
import LioProject.Tcmu.Runner

/-!
# Reads of memory

What a parser looks at: a read is a number of bytes at an address, and it finds what is there. The
parsers of parameter lists are meant to read inside the buffer that the list has been copied to. In
a `ReadingDaemon` each read is an operation of its own.
-/

namespace LioProject

namespace Tcmu

/-- The memory when the parameter list of a command has been copied to address `par`. -/
def Request.paramMem (c : Request) (mem : Mem) (par : ℕ) : Mem :=
  copyParam mem par (xferLengthOf c.cdb) c.cmd.iov

/-- A read of some bytes of memory: an address and a number. -/
abbrev Read := ℕ × ℕ

/-- What a read finds. -/
def Mem.look (mem : Mem) (r : Read) : List UInt8 := mem.load r.1 r.2

@[simp] theorem Mem.be_one (mem : Mem) (a : ℕ) : mem.be a 1 = mem.byte a := by
  simp [Mem.be, beAt, byteAt, Mem.load, Mem.byte]

/-- The reads are reads of bytes from address `lo` up to, but not including, address `hi`. -/
def Inside (lo hi : ℕ) (rs : List Read) : Prop := ∀ r ∈ rs, lo ≤ r.1 ∧ r.1 + r.2 ≤ hi

instance (lo hi : ℕ) (rs : List Read) : Decidable (Inside lo hi rs) :=
  inferInstanceAs (Decidable (∀ r ∈ rs, _))

section Inside

variable {lo hi : ℕ} {rs rs' : List Read}

@[simp] theorem inside_nil : Inside lo hi [] := fun _ hr => absurd hr (by simp)

@[simp] theorem inside_cons {a k : ℕ} :
    Inside lo hi ((a, k) :: rs) ↔ (lo ≤ a ∧ a + k ≤ hi) ∧ Inside lo hi rs :=
  List.forall_mem_cons

theorem inside_append : Inside lo hi (rs ++ rs') ↔ Inside lo hi rs ∧ Inside lo hi rs' :=
  List.forall_mem_append

theorem Inside.mono {lo' hi' : ℕ} (h : Inside lo hi rs) (hlo : lo' ≤ lo) (hhi : hi ≤ hi') :
    Inside lo' hi' rs :=
  fun r hr => ⟨hlo.trans (h r hr).1, (h r hr).2.trans hhi⟩

end Inside

/-! ### Programs that read -/

/-- A program of the runner that reads memory. A read says which memory it is for. -/
abbrev ReadingDaemon := Prog (Op ⊕ (Mem × Read)) (Sum.elim Ans fun _ => List UInt8) Fault

/-- What is found. -/
def lookIn (q : Mem × Read) : List UInt8 := q.1.look q.2

/-- Read a big-endian number of `k` bytes. -/
def lookBe (mem : Mem) (a k : ℕ) : ReadingDaemon ℕ := do
  let bs ← Prog.see (mem, a, k)
  pure (beAt bs 0 k)

/-- Ask for an operation. -/
abbrev askLifted (o : Op) : ReadingDaemon (Ans o) := (ask o).lift

section Reading

variable {α β σ : Type} {mem : Mem} {I : Prog.Interp Op Ans σ} {env : Prog.Env Op Ans} {s s' : σ}

theorem blind_lookBe_bind (a k : ℕ) (f : ℕ → ReadingDaemon α) :
    (lookBe mem a k >>= f).blind lookIn = (f (mem.be a k)).blind lookIn := rfl

/-- A read is the first of the trail. -/
theorem watch_lookBe_bind {a k : ℕ} {f : ℕ → ReadingDaemon α} {x : Except Fault α}
    {l : List (Mem × Read)}
    (h : (lookBe mem a k >>= f).watch I lookIn env s = some (x, s', l)) :
    ∃ l', l = (mem, a, k) :: l' ∧
      (f (mem.be a k)).watch I lookIn env s = some (x, s', l') := by
  have hmap : ((f (mem.be a k)).watch I lookIn env s).map
      (fun y => (y.1, y.2.1, (mem, a, k) :: y.2.2)) = some (x, s', l) := h
  obtain ⟨⟨x', t, l'⟩, hwatch, heq⟩ := Option.map_eq_some_iff.mp hmap
  obtain ⟨rfl, rfl, rfl⟩ : x' = x ∧ t = s' ∧ (mem, a, k) :: l' = l := by simpa using heq
  exact ⟨l', rfl, hwatch⟩

/-- What a part that reads nothing leaves to the rest. -/
theorem watch_lift_cases {p : Daemon α} {f : α → ReadingDaemon β}
    {x : Except Fault β} {l : List (Mem × Read)}
    (h : (p.lift >>= f).watch I lookIn env s = some (x, s', l)) :
    (∃ e, p.exec I env s = some (.error e, s') ∧ x = .error e ∧ l = []) ∨
      ∃ a t m, p.exec I env s = some (.ok a, t) ∧
        (f a).watch I lookIn (fun k => env (k + m)) t = some (x, s', l) := by
  rcases Prog.watch_bind_cases h with ⟨e, he, rfl⟩ | ⟨a, t, m, l₁, l₂, hp, hf, rfl⟩
  · rw [Prog.watch_lift] at he
    obtain ⟨⟨y, t⟩, hexec, heq⟩ := Option.map_eq_some_iff.mp he
    obtain ⟨rfl, rfl, rfl⟩ : y = .error e ∧ t = s' ∧ [] = l := by simpa using heq
    exact Or.inl ⟨e, hexec, rfl, rfl⟩
  · rw [Prog.watch_lift] at hp
    obtain ⟨⟨y, u⟩, hexec, heq⟩ := Option.map_eq_some_iff.mp hp
    obtain ⟨rfl, rfl, rfl⟩ : y = .ok a ∧ u = t ∧ [] = l₁ := by simpa using heq
    exact Or.inr ⟨a, u, m, hexec, hf⟩

end Reading

end Tcmu

end LioProject
