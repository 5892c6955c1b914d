import LioProject.Lib.FileTree
import Mathlib.Data.List.Infix

/-!
# Scripts over a file tree

A script runs over a file tree. Every call it makes to the system may raise an error that the tree
alone does not explain (permissions, a full disk, a kernel that refuses), so a run is given a list
of what the coming calls do: `none` lets a call go ahead, `some text` makes it raise.

A script ends with a value, with an error of the system (`OSError`), or with another exception,
which in the scripts modelled here nobody catches.
-/

namespace LioProject

/-- How a piece of a script ends. -/
inductive Outcome (α : Type*) where
  | done (a : α)
  | osError (text : String)
  | exception
  deriving DecidableEq, Repr

/-- The tree, and what the coming calls raise. -/
structure World where
  /-- The file tree. -/
  tree : Tree
  /-- For each coming call, the error it raises in spite of the tree. No more entries, no errors. -/
  raises : List (Option String)
  deriving Repr

/-- A script: it turns a world into an outcome and a world. -/
def Script (α : Type) := World → Outcome α × World

namespace Script

variable {α β : Type}

/-- A value. -/
protected def pure (a : α) : Script α := fun w => (.done a, w)

/-- One script after the other. -/
protected def bind (x : Script α) (f : α → Script β) : Script β := fun w =>
  match x w with
  | (.done a, w') => f a w'
  | (.osError e, w') => (.osError e, w')
  | (.exception, w') => (.exception, w')

instance : Monad Script where
  pure := Script.pure
  bind := Script.bind

/-- Look at the tree. -/
def look : Script Tree := fun w => (.done w.tree, w)

/-- An exception that is not an `OSError`. -/
def throw : Script α := fun w => (.exception, w)

/-- `try: x except OSError as e: f e`. -/
def attempt (x : Script α) (f : String → Script α) : Script α := fun w =>
  match x w with
  | (.osError e, w') => f e w'
  | r => r

/-- A call to the system. -/
def call (f : Tree → Except String Tree) : Script Unit := fun w =>
  match w.raises with
  | some e :: rest => (.osError e, { w with raises := rest })
  | _ =>
    match f w.tree with
    | .ok t => (.done (), ⟨t, w.raises.tail⟩)
    | .error e => (.osError e, { w with raises := w.raises.tail })

theorem pure_apply (a : α) (w : World) : (pure a : Script α) w = (.done a, w) := rfl

theorem bind_apply (x : Script α) (f : α → Script β) (w : World) :
    (x >>= f) w = match x w with
      | (.done a, w') => f a w'
      | (.osError e, w') => (.osError e, w')
      | (.exception, w') => (.exception, w') := rfl

theorem bind_assoc {γ : Type} (x : Script α) (f : α → Script β) (g : β → Script γ) :
    (x >>= f) >>= g = x >>= fun a => f a >>= g := by
  funext w
  simp only [bind_apply]
  rcases x w with ⟨outcome, w'⟩
  cases outcome <;> rfl

theorem bind_pure (x : Script α) : (x >>= fun a => pure a) = x := by
  funext w
  rw [bind_apply]
  rcases x w with ⟨outcome, w'⟩
  cases outcome <;> rfl

theorem look_apply (w : World) : look w = (.done w.tree, w) := rfl

theorem throw_apply (w : World) : (throw : Script α) w = (.exception, w) := rfl

/-- A call succeeds with the tree that the operation makes, or raises and leaves the tree alone. -/
theorem call_cases (f : Tree → Except String Tree) (w : World) :
    (∃ t, f w.tree = .ok t ∧ call f w = (.done (), ⟨t, w.raises.tail⟩)) ∨
      ∃ e, call f w = (.osError e, ⟨w.tree, w.raises.tail⟩) := by
  rw [call]
  split
  · rename_i e rest heq
    refine Or.inr ⟨e, ?_⟩
    rw [heq]
    rfl
  · cases hf : f w.tree with
    | ok t => exact Or.inl ⟨t, rfl, rfl⟩
    | error e => exact Or.inr ⟨e, rfl⟩

/-! ### Calls -/

/-- `os.mkdir`. -/
def mkdir (p : Path) : Script Unit := call fun t => t.mkdir p

/-- The ancestors of a path, from the top. -/
def ancestors (raw : List String) : List (List String) := raw.inits.tail.dropLast

/-- `os.makedirs`: make every ancestor that does not exist, and then the directory itself, which
must not exist. -/
def makedirs (raw : List String) : Script Unit := do
  (ancestors raw).forM fun q => do
    let t ← look
    if t.has (resolve q) then pure () else mkdir (resolve q)
  mkdir (resolve raw)

/-- `os.symlink`. -/
def symlink (dest p : Path) : Script Unit := call fun t => t.symlink dest p

/-- Open a file for writing. -/
def openW (p : Path) : Script Unit := call fun t => t.openW p

/-- Replace the content of an open file. -/
def setContent (p : Path) (content : List UInt8) : Script Unit :=
  call fun t => .ok (t.put (t.target p) (.file content))

/-- `open(p, 'w').write(text)`. -/
def writeText (p : Path) (text : String) : Script Unit := do
  openW p
  setContent p text.toUTF8.toList

/-- What the kernel does on its own. -/
def kernel (f : Tree → Tree) : Script Unit := fun w => (.done (), { w with tree := f w.tree })

/-! ### What every run of a script does to the tree -/

/-- However the script runs, the tree before and the tree after are related by `R`. -/
def Always (R : Tree → Tree → Prop) (x : Script α) : Prop := ∀ w, R w.tree (x w).2.tree

/-- Relations that hold across any number of steps. -/
structure Steady (R : Tree → Tree → Prop) : Prop where
  /-- No step at all. -/
  refl : ∀ t, R t t
  /-- One step after the other. -/
  trans : ∀ {a b c}, R a b → R b c → R a c

section Always

variable {R : Tree → Tree → Prop}

theorem Steady.pure (hR : Steady R) (a : α) : Always R (pure a : Script α) := fun _ => hR.refl _

theorem Steady.look (hR : Steady R) : Always R look := fun _ => hR.refl _

theorem Steady.throw (hR : Steady R) : Always R (throw : Script α) := fun _ => hR.refl _

theorem Steady.bind (hR : Steady R) {x : Script α} {f : α → Script β} (hx : Always R x)
    (hf : ∀ a, Always R (f a)) : Always R (x >>= f) := by
  intro w
  have hw := hx w
  rw [bind_apply]
  rcases hxw : x w with ⟨outcome, w'⟩
  rw [hxw] at hw
  cases outcome with
  | done a => exact hR.trans hw (hf a w')
  | osError e => exact hw
  | exception => exact hw

theorem Steady.attempt (hR : Steady R) {x : Script α} {f : String → Script α} (hx : Always R x)
    (hf : ∀ e, Always R (f e)) : Always R (attempt x f) := by
  intro w
  have hw := hx w
  rw [Script.attempt]
  rcases hxw : x w with ⟨outcome, w'⟩
  rw [hxw] at hw
  cases outcome with
  | done a => exact hw
  | osError e => exact hR.trans hw (hf e w')
  | exception => exact hw

/-- A call is as steady as its operation. -/
theorem Steady.call (hR : Steady R) {f : Tree → Except String Tree}
    (hf : ∀ t t', f t = .ok t' → R t t') : Always R (call f) := by
  intro w
  rcases call_cases f w with ⟨t, hok, heq⟩ | ⟨e, heq⟩
  · rw [heq]
    exact hf w.tree t hok
  · rw [heq]
    exact hR.refl _

theorem Steady.forM (hR : Steady R) {γ : Type} {f : γ → Script Unit} {l : List γ}
    (hf : ∀ a ∈ l, Always R (f a)) : Always R (l.forM f) := by
  induction l with
  | nil => exact hR.pure ()
  | cons a l ih =>
    exact hR.bind (hf a (List.mem_cons_self ..)) fun _ =>
      ih fun b hb => hf b (List.mem_cons_of_mem _ hb)

/-- Make a directory unless it exists. -/
def ensureDir (q : Path) : Script Unit := do
  let t ← look
  if t.has q then pure () else mkdir q

theorem Steady.ensureDir (hR : Steady R) {q : Path} (h : Always R (mkdir q)) :
    Always R (ensureDir q) := by
  refine hR.bind hR.look fun t => ?_
  split
  · exact hR.pure ()
  · exact h

theorem makedirs_eq (raw : List String) : makedirs raw
    = (ancestors raw).forM (fun q => ensureDir (resolve q)) >>= fun _ => mkdir (resolve raw) := rfl

theorem isPrefix_of_mem_ancestors {raw q : List String} (h : q ∈ ancestors raw) : q <+: raw :=
  (List.mem_inits ..).mp (List.mem_of_mem_tail (List.mem_of_mem_dropLast h))

theorem Steady.makedirs (hR : Steady R) {raw : List String}
    (h : ∀ q, q <+: raw → Always R (mkdir (resolve q))) : Always R (makedirs raw) := by
  rw [makedirs_eq]
  exact hR.bind (hR.forM fun q hq => hR.ensureDir (h q (isPrefix_of_mem_ancestors hq)))
    fun _ => h raw (List.prefix_refl raw)

end Always

/-! ### Directories stay -/

/-- Every directory of the first tree is one of the second. -/
def DirsStay (t t' : Tree) : Prop := ∀ p, t.node p = some .dir → t'.node p = some .dir

/-- Writing a text changes one node at most, which is neither a directory nor a link, and makes it
a file. -/
theorem writeText_cases (q : Path) (text : String) (w : World) :
    (writeText q text w).2.tree = w.tree ∨
      ∃ p, w.tree.node p ≠ some .dir ∧ w.tree.isLink p = false ∧
        (∀ p', p' ≠ p → (writeText q text w).2.tree.node p' = w.tree.node p') ∧
        ∃ content, (writeText q text w).2.tree.node p = some (.file content) := by
  rw [writeText, bind_apply, openW]
  rcases call_cases (fun t => t.openW q) w with ⟨t, hok, heq⟩ | ⟨e, heq⟩
  · have hlink := (Tree.openW_ok hok).2.1
    refine Or.inr ⟨w.tree.target q, Tree.target_of_openW_ok hok, hlink, ?_⟩
    have hnil : w.tree.target q ≠ [] := by
      intro hnil
      have hdir := Tree.target_of_openW_ok hok
      rw [hnil] at hdir
      exact hdir (by simp [Tree.node])
    obtain ⟨-, -, rfl⟩ := Tree.openW_ok hok
    rw [heq, setContent]
    simp only
    rcases call_cases (fun t => .ok (t.put (t.target q) (.file text.toUTF8.toList)))
      ⟨w.tree.put (w.tree.target q) (.file []), w.raises.tail⟩ with ⟨t, hok', heq'⟩ | ⟨e, heq'⟩
    · rw [heq', ← Except.ok.inj hok', Tree.target_put_target hlink]
      refine ⟨fun p' hp => ?_, _, Tree.node_put_self hnil⟩
      rw [Tree.node_put_of_ne hp, Tree.node_put_of_ne hp]
    · rw [heq']
      exact ⟨fun p' hp => Tree.node_put_of_ne hp, _, Tree.node_put_self hnil⟩
  · rw [heq]
    exact Or.inl rfl

/-- Whatever exists in the first tree exists in the second. -/
def NodesStay (t t' : Tree) : Prop := ∀ p, t.node p ≠ none → t'.node p ≠ none

theorem steady_nodesStay : Steady NodesStay := ⟨fun _ _ h => h, fun hab hbc p h => hbc p (hab p h)⟩

/-- The trees have the same directories and the same links in `S`. -/
def AlikeOn (S : Path → Prop) (t t' : Tree) : Prop :=
  ∀ p, S p → (t'.node p = some .dir ↔ t.node p = some .dir) ∧
    ∀ q, t'.node p = some (.link q) ↔ t.node p = some (.link q)

theorem nodesStay_writeText (q : Path) (text : String) : Always NodesStay (writeText q text) := by
  intro w p h
  rcases writeText_cases q text w with heq | ⟨p', -, -, hother, content, hfile⟩
  · rw [heq]
    exact h
  · by_cases hp : p = p'
    · subst hp
      rw [hfile]
      simp
    · rwa [hother p hp]

theorem mkdir_done {q : Path} {w w' : World} (h : mkdir q w = (.done (), w')) :
    w.tree.node q = none ∧ w'.tree = w.tree.put q .dir := by
  rw [mkdir] at h
  rcases call_cases (fun t => t.mkdir q) w with ⟨t, hok, heq⟩ | ⟨e, heq⟩
  · rw [heq] at h
    obtain ⟨hnone, rfl⟩ := Tree.mkdir_ok hok
    exact ⟨hnone, by rw [← (Prod.mk.inj h).2]⟩
  · rw [heq] at h
    exact absurd h (by simp)

theorem eq_of_done {x : Script α} {w : World} {a : α} (h : (x w).1 = .done a) :
    x w = (.done a, (x w).2) := by
  rw [← h]

/-- The first part of a script that ends with a value ends with one too. -/
theorem bind_done {x : Script α} {f : α → Script β} {w w' : World} {b : β}
    (h : (x >>= f) w = (.done b, w')) : ∃ a u, x w = (.done a, u) ∧ f a u = (.done b, w') := by
  rw [bind_apply] at h
  rcases hx : x w with ⟨outcome, u⟩
  rw [hx] at h
  cases outcome with
  | done a => exact ⟨a, u, rfl, h⟩
  | osError e => exact absurd h (by simp)
  | exception => exact absurd h (by simp)

/-- After `makedirs` the directory is there. -/
theorem makedirs_done {raw : List String} {w w' : World} (h : makedirs raw w = (.done (), w')) :
    w'.tree.node (resolve raw) = some .dir := by
  rw [makedirs_eq] at h
  obtain ⟨-, u, -, hmkdir⟩ := bind_done h
  obtain ⟨hnone, htree⟩ := mkdir_done hmkdir
  rw [htree, Tree.node_put_self (Tree.ne_nil_of_node_eq_none hnone)]

/-! ### Steps that keep a part of the tree -/

/-- Directories and nodes stay, and in `S` directories and links are the same. -/
structure Keeps (S : Path → Prop) (t t' : Tree) : Prop where
  /-- Directories stay. -/
  dirs : DirsStay t t'
  /-- Nodes stay. -/
  nodes : NodesStay t t'
  /-- In `S` nothing is different. -/
  alike : AlikeOn S t t'

/-- No link leads into `S`. -/
def LinksAvoid (S : Path → Prop) (t : Tree) : Prop := ∀ p q, t.node p = some (.link q) → ¬ S q

/-- As long as no link leads into `S`, all that is new there is in `P`, and nothing there is
replaced. -/
def AddsIn (S P : Path → Prop) (t t' : Tree) : Prop :=
  LinksAvoid S t → LinksAvoid S t' ∧ ∀ p, S p → t'.node p = t.node p ∨ t.node p = none ∧ P p

section AddsIn

variable {S P : Path → Prop}

theorem steady_addsIn (S P : Path → Prop) : Steady (AddsIn S P) where
  refl _ h := ⟨h, fun _ _ => Or.inl rfl⟩
  trans hab hbc h := by
    obtain ⟨hb, hab⟩ := hab h
    obtain ⟨hc, hbc⟩ := hbc hb
    refine ⟨hc, fun p hp => ?_⟩
    rcases hbc p hp with heq | ⟨hnone, hP⟩
    · rw [heq]
      exact hab p hp
    · rcases hab p hp with heq | hnew
      · exact Or.inr ⟨heq ▸ hnone, hP⟩
      · exact Or.inr hnew

/-- A node that is no link is put in a place that is outside `S`, or new and in `P`. -/
theorem addsIn_put {t : Tree} {p : Path} {n : Node} (hn : ∀ q, n ≠ .link q)
    (hp : LinksAvoid S t → S p → t.node p = none ∧ P p) : AddsIn S P t (t.put p n) := by
  intro hlinks
  refine ⟨fun q r hq => ?_, fun q hq => ?_⟩
  · by_cases heq : q = p
    · subst heq
      by_cases hnil : q = []
      · exact absurd hq (by simp [Tree.node, hnil])
      · rw [Tree.node_put_self hnil] at hq
        exact absurd (Option.some.inj hq) (hn r)
    · rw [Tree.node_put_of_ne heq] at hq
      exact hlinks q r hq
  · by_cases heq : q = p
    · subst heq
      exact Or.inr (hp hlinks hq)
    · exact Or.inl (Tree.node_put_of_ne heq)

theorem addsIn_mkdir {q : Path} (hq : S q → P q) : Always (AddsIn S P) (mkdir q) := by
  refine (steady_addsIn S P).call fun t t' hok => ?_
  obtain ⟨hnone, rfl⟩ := Tree.mkdir_ok hok
  exact addsIn_put (by simp) fun _ hS => ⟨hnone, hq hS⟩

theorem addsIn_makedirs {raw : List String} (hraw : ".." ∉ raw) (hP : ∀ q, q <+: raw → S q → P q) :
    Always (AddsIn S P) (makedirs raw) := by
  refine (steady_addsIn S P).makedirs fun q hq => ?_
  rw [resolve_eq fun hmem => hraw (hq.subset hmem)]
  exact addsIn_mkdir (hP q hq)

/-- What a path leads to is outside `S` if the path is. -/
theorem not_target {t : Tree} {q : Path} (hlinks : LinksAvoid S t) (hq : ¬ S q) :
    ¬ S (t.target q) := by
  rcases t.target_spec q with heq | ⟨r, hnode⟩
  · rwa [heq]
  · exact hlinks r _ hnode

theorem addsIn_openW {q : Path} (hq : ¬ S q) : Always (AddsIn S P) (openW q) := by
  refine (steady_addsIn S P).call fun t t' hok => ?_
  obtain ⟨-, -, rfl⟩ := Tree.openW_ok hok
  exact addsIn_put (by simp) fun hlinks hS => absurd hS (not_target hlinks hq)

theorem addsIn_setContent {q : Path} (content : List UInt8) (hq : ¬ S q) :
    Always (AddsIn S P) (setContent q content) := by
  refine (steady_addsIn S P).call fun t t' hok => ?_
  obtain rfl := Except.ok.inj hok
  exact addsIn_put (by simp) fun hlinks hS => absurd hS (not_target hlinks hq)

theorem addsIn_writeText {q : Path} (text : String) (hq : ¬ S q) :
    Always (AddsIn S P) (writeText q text) :=
  (steady_addsIn S P).bind (addsIn_openW hq) fun _ => addsIn_setContent _ hq

end AddsIn

/-! ### Scripts without exceptions -/

/-- However the script runs, it ends with a value or with an `OSError`. -/
def NoException (x : Script α) : Prop := ∀ w, (x w).1 ≠ .exception

theorem noException_pure (a : α) : NoException (pure a : Script α) := by
  intro w
  simp [pure_apply]

theorem noException_look : NoException look := by
  intro w
  simp [look_apply]

theorem noException_call (f : Tree → Except String Tree) : NoException (call f) := by
  intro w
  rcases call_cases f w with ⟨t, -, heq⟩ | ⟨e, heq⟩
  · simp [heq]
  · simp [heq]

theorem NoException.bind {x : Script α} {f : α → Script β} (hx : NoException x)
    (hf : ∀ a, NoException (f a)) : NoException (x >>= f) := by
  intro w
  have hw := hx w
  rw [bind_apply]
  rcases hxw : x w with ⟨outcome, w'⟩
  rw [hxw] at hw
  cases outcome with
  | done a => exact hf a w'
  | osError e => simp
  | exception => exact absurd rfl hw

theorem noException_forM {γ : Type} {f : γ → Script Unit} (hf : ∀ a, NoException (f a))
    (l : List γ) : NoException (l.forM f) := by
  induction l with
  | nil => exact noException_pure ()
  | cons a l ih => exact (hf a).bind fun _ => ih

theorem noException_makedirs (raw : List String) : NoException (makedirs raw) := by
  refine (noException_forM (fun q => noException_look.bind fun t => ?_) _).bind
    fun _ => noException_call _
  split
  · exact noException_pure ()
  · exact noException_call _

/-! ### The first directory to be made -/

end Script

end LioProject
