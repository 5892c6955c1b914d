import Mathlib.Data.List.Basic
import Mathlib.Data.List.Dedup

/-!
# File trees

A file tree as the system calls see it: absolute paths, and at each of them a directory, a file or
a symbolic link. A tree is the list of its entries, newest first, so that putting an entry is a
`cons` and looking one up finds the newest. Two trees are the same (`Tree.Same`) when they have the
same node at every path.

The operations fail as the system calls do, with the text of the error. A link may lead to another
link, and so on; after 40 links the system gives up (`Tree.follow`). The target of a link is
recorded without links among its directories, so that a chain of links is all there is to follow
from it. A path that is given as a text may lead through links anywhere, and up again (`Tree.walk`).

`fnmatch` and `glob` follow the patterns of the shell.
-/

namespace LioProject

/-! ### Paths and nodes -/

/-- An absolute path, component by component. -/
abbrev Path := List String

/-- The components of a path in text form. Empty components do not count. -/
def parts (s : String) : List String :=
  ((s.toList.splitOn '/').map String.ofList).filter fun c => c ≠ ""

/-- The components of a path in text form, without `.`. -/
def comps (s : String) : List String :=
  ((s.toList.splitOn '/').map String.ofList).filter fun c => c ≠ "" ∧ c ≠ "."

/-- There is a slash at the end, or nothing at all: the path is that of a directory. -/
def slashed (s : String) : Bool := s.toList.getLast?.getD '/' = '/'

theorem splitOn_slash {name : String} (hslash : '/' ∉ name.toList) :
    name.toList.splitOn '/' = [name.toList] := by
  refine List.splitOnP_eq_singleton fun c hc => ?_
  simp only [beq_eq_false_iff_ne, ne_eq]
  rintro rfl
  exact hslash hc

/-- The name of a file is one component. -/
theorem comps_eq {name : String} (hslash : '/' ∉ name.toList) (hne : name ≠ "")
    (hdot : name ≠ ".") : comps name = [name] := by
  simp [comps, splitOn_slash hslash, hne, hdot]

theorem parts_eq {name : String} (hslash : '/' ∉ name.toList) (hne : name ≠ "") :
    parts name = [name] := by
  simp [parts, splitOn_slash hslash, hne]

theorem slashed_eq {name : String} (hslash : '/' ∉ name.toList) (hne : name ≠ "") :
    slashed name = false := by
  rw [slashed, decide_eq_false_iff_not]
  cases hlast : name.toList.getLast? with
  | none => exact absurd (List.getLast?_eq_none_iff.mp hlast) (by simpa using hne)
  | some c =>
    rintro rfl
    exact hslash (List.mem_of_getLast? hlast)

/-- Follow `..` upwards. -/
def resolve (raw : List String) : Path :=
  raw.foldl (fun p c => if c = ".." then p.dropLast else p ++ [c]) []

/-- A path without `..` is what it says. -/
theorem resolve_eq {raw : List String} (h : ".." ∉ raw) : resolve raw = raw := by
  have hgen : ∀ p : Path, raw.foldl (fun p c => if c = ".." then p.dropLast else p ++ [c]) p
      = p ++ raw := by
    induction raw with
    | nil => simp
    | cons c raw ih =>
      intro p
      have hc : c ≠ ".." := fun heq => h (heq ▸ List.mem_cons_self ..)
      rw [List.foldl_cons, if_neg hc, ih fun hmem => h (List.mem_cons_of_mem _ hmem),
        List.append_assoc, List.singleton_append]
  simpa [resolve] using hgen []

/-- A path in text form. -/
def Path.text (p : Path) : String := String.join (p.map fun c => "/" ++ c)

/-- What a path can lead to. -/
inductive Node where
  | dir
  | file (content : List UInt8)
  | link (target : Path)
  deriving DecidableEq, Repr

/-- A file tree: its entries, newest first. -/
abbrev Tree := List (Path × Node)

namespace Tree

/-- The node at a path. The root is always a directory. -/
def node (t : Tree) (p : Path) : Option Node := if p = [] then some .dir else t.lookup p

/-- The tree with a node put at a path. -/
def put (t : Tree) (p : Path) (n : Node) : Tree := (p, n) :: t

theorem node_put_self {t : Tree} {p : Path} {n : Node} (h : p ≠ []) :
    (t.put p n).node p = some n := by
  simp [node, put, h]

theorem node_put_of_ne {t : Tree} {p q : Path} {n : Node} (h : q ≠ p) :
    (t.put p n).node q = t.node q := by
  have hbeq : (q == p) = false := beq_eq_false_iff_ne.mpr h
  simp [node, put, List.lookup_cons, hbeq]

/-- Two trees with the same nodes. -/
def Same (t t' : Tree) : Prop := ∀ p, t'.node p = t.node p

theorem Same.refl (t : Tree) : t.Same t := fun _ => rfl

/-- `os.path.exists`, up to links to nowhere. -/
def has (t : Tree) (p : Path) : Bool := (t.node p).isSome

/-- The number of links that are followed. -/
def maxLinks : ℕ := 40

/-- Follow the links at a path: how many more may be followed, and the place where they end. -/
def follow (t : Tree) : ℕ → Path → Option (ℕ × Path)
  | 0, p =>
    match t.node p with
    | some (.link _) => none
    | _ => some (0, p)
  | n + 1, p =>
    match t.node p with
    | some (.link q) => t.follow n q
    | _ => some (n + 1, p)

/-- `os.path.isdir`: a directory, or a link that leads to one. -/
def isDir (t : Tree) (p : Path) : Bool :=
  match t.follow maxLinks p with
  | some (_, q) => t.node q = some .dir
  | none => false

/-- `os.path.islink`. -/
def isLink (t : Tree) (p : Path) : Bool :=
  match t.node p with
  | some (.link _) => true
  | _ => false

/-! ### System calls -/

/-- The text of an error of a system call. -/
def errno (code : ℕ) (text : String) (p : Path) : String :=
  "[Errno " ++ toString code ++ "] " ++ text ++ ": '" ++ p.text ++ "'"

/-- `mkdir`. -/
def mkdir (t : Tree) (p : Path) : Except String Tree :=
  if t.has p then .error (errno 17 "File exists" p)
  else if t.isDir p.dropLast then .ok (t.put p .dir)
  else .error (errno 2 "No such file or directory" p)

/-- The place that opening a path really opens. -/
def target (t : Tree) (p : Path) : Path := ((t.follow maxLinks p).map Prod.snd).getD p

/-- `open(path, 'w')`: create the file, or empty it. -/
def openW (t : Tree) (p : Path) : Except String Tree :=
  if t.isDir p then .error (errno 21 "Is a directory" p)
  else if t.isLink (t.target p) then .error (errno 40 "Too many levels of symbolic links" p)
  else if t.isDir (t.target p).dropLast then .ok (t.put (t.target p) (.file []))
  else .error (errno 2 "No such file or directory" p)

/-- `symlink`. -/
def symlink (t : Tree) (dest : Path) (p : Path) : Except String Tree :=
  if t.has p then .error (errno 17 "File exists" p)
  else if t.isDir p.dropLast then .ok (t.put p (.link dest))
  else .error (errno 2 "No such file or directory" p)

/-- Where a path in text form leads to, from a directory on. All components but the last have to be
directories. -/
def walk (t : Tree) : ℕ → Path → List String → Except String Path
  | _, p, [] => .ok p
  | n, p, "." :: cs => t.walk n p cs
  | n, p, ".." :: cs => t.walk n p.dropLast cs
  | n, p, c :: cs =>
    match t.follow n (p ++ [c]) with
    | none => .error "[Errno 40] Too many levels of symbolic links"
    | some (n, q) =>
      if cs = [] then .ok q
      else
        match t.node q with
        | some .dir => t.walk n q cs
        | some _ => .error "[Errno 20] Not a directory"
        | none => .error "[Errno 2] No such file or directory"

/-- The place of a file that is opened for writing under a path in text form. It cannot be created
under a path that ends in a slash. -/
def place (t : Tree) (s : String) : Except String Path :=
  match t.walk maxLinks [] (if slashed s then (parts s).dropLast ++ ["."] else parts s) with
  | .error e => .error e
  | .ok p => if slashed s || t.isDir p then .error "[Errno 21] Is a directory" else .ok p

/-- `os.path.islink` of a path in text form: the last component is not followed. A path with a NUL
in it is none. -/
def isLinkText (t : Tree) (s : String) : Bool :=
  match slashed s || s.toList.contains '\x00', (parts s).getLast? with
  | false, some c =>
    match t.walk maxLinks [] ((parts s).dropLast ++ ["."]) with
    | .ok p => c ≠ "." && c ≠ ".." && t.isLink (p ++ [c])
    | .error _ => false
  | _, _ => false

/-- A path at which there is no link leads nowhere else. -/
theorem follow_of_not_link {t : Tree} {p : Path} (h : t.isLink p = false) (n : ℕ) :
    t.follow n p = some (n, p) := by
  rw [isLink] at h
  cases n with
  | zero =>
    rw [follow]
    split
    · rename_i q hnode
      exact absurd h (by simp [hnode])
    · rfl
  | succ n =>
    rw [follow]
    split
    · rename_i q hnode
      exact absurd h (by simp [hnode])
    · rfl

/-- Links end at a place where there is none: the path itself, or what some link leads to. -/
theorem follow_spec {t : Tree} {n k : ℕ} {p q : Path} (h : t.follow n p = some (k, q)) :
    t.isLink q = false ∧ (q = p ∨ ∃ r, t.node r = some (.link q)) := by
  induction n generalizing p with
  | zero =>
    rw [follow] at h
    split at h
    · exact absurd h (by simp)
    · rename_i hnode
      obtain ⟨-, rfl⟩ := Prod.mk.inj (Option.some.inj h)
      refine ⟨?_, Or.inl rfl⟩
      rw [isLink]
      split
      · rename_i r hlink
        exact absurd hlink (hnode r)
      · rfl
  | succ n ih =>
    rw [follow] at h
    split at h
    · rename_i r hnode
      obtain ⟨hlink, hq⟩ := ih h
      exact ⟨hlink, Or.inr (hq.elim (fun heq => ⟨p, heq ▸ hnode⟩) id)⟩
    · rename_i hnode
      obtain ⟨-, rfl⟩ := Prod.mk.inj (Option.some.inj h)
      refine ⟨?_, Or.inl rfl⟩
      rw [isLink]
      split
      · rename_i r hlink
        exact absurd hlink (hnode r)
      · rfl

theorem isLink_put_self (t : Tree) (q : Path) (content : List UInt8) :
    (t.put q (.file content)).isLink q = false := by
  by_cases hnil : q = []
  · simp [isLink, node, hnil]
  · simp [isLink, node_put_self hnil]

/-- A file that is put at the end of the links does not change where they lead. -/
theorem follow_put {t : Tree} {n k : ℕ} {p q : Path} (h : t.follow n p = some (k, q))
    (content : List UInt8) : (t.put q (.file content)).follow n p = some (k, q) := by
  by_cases hpq : p = q
  · subst hpq
    rw [follow_of_not_link (follow_spec h).1] at h
    rw [follow_of_not_link (isLink_put_self t p content), h]
  · induction n generalizing p with
    | zero =>
      rw [follow] at h ⊢
      rw [node_put_of_ne hpq]
      exact h
    | succ n ih =>
      rw [follow] at h ⊢
      rw [node_put_of_ne hpq]
      split at h
      · rename_i r hnode
        by_cases hrq : r = q
        · subst hrq
          rw [follow_of_not_link (follow_spec h).1] at h
          rw [follow_of_not_link (isLink_put_self t r content), h]
        · exact ih h hrq
      · exact h

theorem target_spec (t : Tree) (p : Path) :
    t.target p = p ∨ ∃ r, t.node r = some (.link (t.target p)) := by
  rw [target]
  cases hfollow : t.follow maxLinks p with
  | none => exact Or.inl rfl
  | some x => exact (follow_spec hfollow).2

/-- Opening a file for writing does not change what the path leads to. -/
theorem target_put_target {t : Tree} {p : Path} (h : t.isLink (t.target p) = false)
    (content : List UInt8) : (t.put (t.target p) (.file content)).target p = t.target p := by
  cases hfollow : t.follow maxLinks p with
  | none =>
    have hp : t.target p = p := by
      rw [target, hfollow]
      rfl
    rw [hp] at h
    rw [follow_of_not_link h] at hfollow
    exact absurd hfollow (by simp)
  | some x =>
    obtain ⟨k, q⟩ := x
    have hq : t.target p = q := by
      rw [target, hfollow]
      rfl
    rw [hq, target, follow_put hfollow]
    rfl

/-- What `mkdir` does when it succeeds. -/
theorem mkdir_ok {t t' : Tree} {p : Path} (h : t.mkdir p = .ok t') :
    t.node p = none ∧ t' = t.put p .dir := by
  rw [mkdir] at h
  split at h
  · exact absurd h (by simp)
  · rename_i hhas
    split at h
    · exact ⟨by simpa [has] using hhas, (Except.ok.inj h).symm⟩
    · exact absurd h (by simp)

/-- What `openW` does when it succeeds. -/
theorem openW_ok {t t' : Tree} {p : Path} (h : t.openW p = .ok t') :
    t.isDir p = false ∧ t.isLink (t.target p) = false ∧
      t' = t.put (t.target p) (.file []) := by
  rw [openW] at h
  split at h
  · exact absurd h (by simp)
  · rename_i hdir
    split at h
    · exact absurd h (by simp)
    · rename_i hlink
      split at h
      · exact ⟨by simpa using hdir, by simpa using hlink, (Except.ok.inj h).symm⟩
      · exact absurd h (by simp)

/-- What a file opened for writing replaces is not a directory. -/
theorem target_of_openW_ok {t t' : Tree} {p : Path} (h : t.openW p = .ok t') :
    t.node (t.target p) ≠ some .dir := by
  obtain ⟨hdir, hlink, -⟩ := openW_ok h
  intro hnode
  cases hfollow : t.follow maxLinks p with
  | none =>
    have hp : t.target p = p := by
      rw [target, hfollow]
      rfl
    rw [hp] at hlink
    rw [follow_of_not_link hlink] at hfollow
    exact absurd hfollow (by simp)
  | some x =>
    rw [target, hfollow] at hnode
    rw [isDir, hfollow] at hdir
    exact absurd hnode (by simpa using hdir)

/-- The root is never absent. -/
theorem ne_nil_of_node_eq_none {t : Tree} {p : Path} (h : t.node p = none) : p ≠ [] := by
  rintro rfl
  exact absurd h (by simp [node])

/-- A path below the root has a node exactly if the tree has an entry for it. -/
theorem node_ne_none_iff {t : Tree} {p : Path} (h : p ≠ []) :
    t.node p ≠ none ↔ p ∈ t.map Prod.fst := by
  induction t with
  | nil => simp [node, h]
  | cons e t ih =>
    obtain ⟨q, n⟩ := e
    by_cases hp : p = q
    · subst hp
      simp [node, h]
    · have hput : node ((q, n) :: t) p = node t p := node_put_of_ne (t := t) hp
      rw [hput, ih, List.map_cons, List.mem_cons]
      simp [hp]

end Tree

/-! ### Patterns -/

/-- Whether a character is in the set between brackets: single characters and ranges. -/
def inCharSet (c : Char) : List Char → Bool
  | a :: '-' :: b :: rest => (a ≤ c && c ≤ b) || inCharSet c rest
  | a :: rest => a = c || inCharSet c rest
  | [] => false

/-- The set after an opening bracket and what comes behind its closing one. A closing bracket in
the first place belongs to the set. -/
def charSet (pat : List Char) : Option (Bool × List Char × List Char) :=
  let neg := pat.head? = some '!'
  let body := if neg then pat.tail else pat
  let (first, more) := if body.head? = some ']' then ([']'], body.tail) else ([], body)
  match more.span (· ≠ ']') with
  | (set, ']' :: rest) => some (neg, first ++ set, rest)
  | _ => none

/-- The patterns of `fnmatch`: `*`, `?`, `[set]` and `[!set]`. The fuel is used up by the
characters of pattern and name. -/
def fnmatchFuel : ℕ → List Char → List Char → Bool
  | 0, _, _ => false
  | _ + 1, [], name => name = []
  | fuel + 1, '*' :: pat, name =>
    fnmatchFuel fuel pat name || match name with
      | [] => false
      | _ :: name => fnmatchFuel fuel ('*' :: pat) name
  | fuel + 1, '?' :: pat, name =>
    match name with
    | [] => false
    | _ :: name => fnmatchFuel fuel pat name
  | fuel + 1, c :: pat, name =>
    match name with
    | [] => false
    | d :: name =>
      match if c = '[' then charSet pat else none with
      | some (neg, set, rest) => (inCharSet d set != neg) && fnmatchFuel fuel rest name
      | none => c = d && fnmatchFuel fuel pat name

/-- `fnmatch.fnmatch`, for one component of a path. -/
def fnmatch (pat name : String) : Bool :=
  fnmatchFuel (pat.length + name.length + 1) pat.toList name.toList

/-- A character that stands for itself in a pattern. -/
def literal (c : Char) : Bool := c ≠ '*' && c ≠ '?' && c ≠ '['

/-- Characters that stand for themselves have to be there. -/
theorem fnmatchFuel_append {cs pat name : List Char} {fuel : ℕ} (hcs : ∀ c ∈ cs, literal c) :
    fnmatchFuel (fuel + cs.length) (cs ++ pat) name = true ↔
      ∃ rest, name = cs ++ rest ∧ fnmatchFuel fuel pat rest = true := by
  induction cs generalizing name with
  | nil => simp
  | cons c cs ih =>
    have hc := hcs c (List.mem_cons_self ..)
    simp only [literal, Bool.and_eq_true, decide_eq_true_eq] at hc
    obtain ⟨⟨hstar, hany⟩, hset⟩ := hc
    rw [List.length_cons, ← Nat.add_assoc, List.cons_append]
    cases name with
    | nil =>
      rw [fnmatchFuel]
      · simp
      · exact hstar
      · exact hany
    | cons d name =>
      rw [fnmatchFuel]
      · simp only [hset, if_false, Bool.and_eq_true, decide_eq_true_eq]
        rw [ih fun e he => hcs e (List.mem_cons_of_mem _ he)]
        constructor
        · rintro ⟨rfl, rest, rfl, hrest⟩
          exact ⟨rest, rfl, hrest⟩
        · rintro ⟨rest, heq, hrest⟩
          obtain ⟨rfl, rfl⟩ := List.cons.inj heq
          exact ⟨rfl, rest, rfl, hrest⟩
      · exact hstar
      · exact hany

/-- A star matches everything. -/
theorem fnmatchFuel_star {name : List Char} {fuel : ℕ} (h : name.length + 1 < fuel) :
    fnmatchFuel fuel ['*'] name = true := by
  induction name generalizing fuel with
  | nil =>
    obtain ⟨fuel, rfl⟩ : ∃ f, fuel = f + 2 := ⟨fuel - 2, by simp at h; omega⟩
    simp [fnmatchFuel]
  | cons c name ih =>
    obtain ⟨fuel, rfl⟩ : ∃ f, fuel = f + 1 := ⟨fuel - 1, by omega⟩
    rw [fnmatchFuel]
    simp only [Bool.or_eq_true]
    exact Or.inr (ih (by simp at h; omega))

/-- A name of characters that stand for themselves matches itself only. -/
theorem fnmatch_literal {pat name : String} (h : ∀ c ∈ pat.toList, literal c) :
    fnmatch pat name = true ↔ name = pat := by
  have hfuel : pat.length + name.length + 1 = (name.length + 1) + pat.toList.length := by
    rw [String.length_toList]
    omega
  have hiff :
      fnmatchFuel (name.length + 1 + pat.toList.length) (pat.toList ++ []) name.toList = true ↔
        ∃ rest, name.toList = pat.toList ++ rest ∧ fnmatchFuel (name.length + 1) [] rest = true :=
    fnmatchFuel_append h
  rw [List.append_nil] at hiff
  rw [fnmatch, hfuel, hiff]
  constructor
  · rintro ⟨rest, heq, hrest⟩
    have hnil : rest = [] := by simpa [fnmatchFuel] using hrest
    rw [hnil, List.append_nil] at heq
    exact String.toList_injective heq
  · rintro rfl
    exact ⟨[], by simp, by simp [fnmatchFuel]⟩

/-- A literal beginning and a star match what begins so. -/
theorem fnmatch_star {pre name : String} (h : ∀ c ∈ pre.toList, literal c) :
    fnmatch (pre ++ "*") name = true ↔ pre.toList <+: name.toList := by
  have hfuel : (pre ++ "*").length + name.length + 1 = (name.length + 2) + pre.toList.length := by
    rw [String.length_append, String.length_toList]
    have : "*".length = 1 := rfl
    omega
  rw [fnmatch, hfuel, String.toList_append, fnmatchFuel_append h]
  constructor
  · rintro ⟨rest, heq, -⟩
    exact ⟨rest, heq.symm⟩
  · rintro ⟨rest, heq⟩
    refine ⟨rest, heq.symm, fnmatchFuel_star ?_⟩
    have hlen := congrArg List.length heq
    simp only [List.length_append, String.length_toList] at hlen
    omega

/-- Whether one component of a pattern lets a name through: hidden names have to be asked for. -/
def globComp (pat name : String) : Bool :=
  fnmatch pat name && !(name.toList.head? = some '.' && pat.toList.head? ≠ some '.')

/-- `glob.glob`: the paths of the tree that match the pattern component by component. With
`dirOnly` (a pattern that ends with a slash) only directories do. -/
def Tree.glob (t : Tree) (pat : Path) (dirOnly : Bool) : List Path :=
  ((t.map Prod.fst).dedup).filter fun p =>
    p.length = pat.length && (List.zipWith globComp pat p).all id && (!dirOnly || t.isDir p)

/-- What one more component of a pattern finds in the given directories. -/
def Tree.globStep (t : Tree) (ps : List Path) (pat : String) : List Path :=
  (ps.filter t.isDir).flatMap fun p =>
    if pat = ".." then [(t.target p).dropLast]
    else ((t.map Prod.fst).dedup).filter fun q =>
      q.dropLast = t.target p && q.getLast?.any (globComp pat)

/-- `glob.glob` of a pattern that goes up, component by component. -/
def Tree.globUp (t : Tree) (pat : List String) (dirOnly : Bool) : List Path :=
  (pat.foldl t.globStep [[]]).filter fun p => !dirOnly || t.isDir p

/-- What a pattern finds, node by node. -/
theorem Tree.mem_glob {t : Tree} {pat p : Path} (h : pat ≠ []) :
    p ∈ t.glob pat false ↔
      t.node p ≠ none ∧ p.length = pat.length ∧ (List.zipWith globComp pat p).all id = true := by
  by_cases hnil : p = []
  · subst hnil
    have hlen : ¬ ([] : Path).length = pat.length := by
      simpa [eq_comm, List.length_eq_zero_iff] using h
    simp only [Tree.glob, List.mem_filter, hlen]
    simp
  · rw [Tree.node_ne_none_iff hnil]
    simp [Tree.glob]

end LioProject
