import LioProject.Scripts.StartTarget

/-!
# The LUN map that `create_target` establishes

After `create_target` every configured device should have its LUN, with a link to the device, and
every initiator in the ACL its mapped LUN, with a link to that LUN. `lunMap_iff` says from which
trees this is so.

The paths of one LUN are disjoint from those of another (`About`), so each device is on its own:
what comes before and after it in the list leaves its paths alone. For one device the loop over the
ACL stops at the first initiator that has a mapped LUN already, or that came before; `reached` are
the initiators that it gets to.
-/

namespace LioProject

namespace StartTarget

open CreateDevices (coreDir)

/-! ### Paths -/

theorem DirName.ext_name {a b : DirName} (h : a.name = b.name) : a = b := by
  cases a
  cases b
  simpa using h

section Paths

variable (tpg : Path)

/-- `lun/<lun>`. -/
def lunDir (l : DirName) : Path := tpg ++ ["lun", l.name]

/-- `lun/<lun>/<name>`. -/
def lunLink (d : Dev) : Path := tpg ++ ["lun", d.lun.name, d.name.name]

/-- `acls/<init>/<lun>`. -/
def mapDir (l i : DirName) : Path := tpg ++ ["acls", i.name, l.name]

/-- `acls/<init>/<lun>/<lun>`. -/
def mapLink (l i : DirName) : Path := tpg ++ ["acls", i.name, l.name, l.name]

/-- The paths that belong to one LUN. -/
def About (l : DirName) (p : Path) : Prop :=
  (∃ rest, p = tpg ++ "lun" :: l.name :: rest) ∨
    ∃ i rest, p = tpg ++ "acls" :: i :: l.name :: rest

end Paths

/-- The paths of one LUN are not those of another. -/
theorem About.unique {tpg : Path} {l l' : DirName} {p : Path} (h : About tpg l p)
    (h' : About tpg l' p) : l = l' := by
  refine DirName.ext_name ?_
  rcases h with ⟨rest, rfl⟩ | ⟨i, rest, rfl⟩ <;> rcases h' with ⟨rest', heq⟩ | ⟨i', rest', heq⟩ <;>
    simp at heq
  · exact heq.1
  · exact heq.2.1

/-- The LUN of a device is linked to the device. -/
def Linked (tpg core : Path) (t : Tree) (d : Dev) : Prop :=
  t.node (lunLink tpg d) = some (.link core)

/-- The LUN is mapped for an initiator. -/
def Mapped (tpg : Path) (t : Tree) (l i : DirName) : Prop :=
  t.node (mapLink tpg l i) = some (.link (lunDir tpg l))

instance (tpg core : Path) (t : Tree) (d : Dev) : Decidable (Linked tpg core t d) :=
  inferInstanceAs (Decidable (_ = _))

instance (tpg : Path) (t : Tree) (l i : DirName) : Decidable (Mapped tpg t l i) :=
  inferInstanceAs (Decidable (_ = _))

/-- The initiators that the loop over the ACL gets to: it stops at the first one that has a mapped
LUN already, or that it has been at before. -/
def reached (tpg : Path) (t : Tree) (l : DirName) : List DirName → List DirName → List DirName
  | seen, [] => seen
  | seen, i :: acl =>
    if i ∈ seen ∨ t.node (mapDir tpg l i) = some .dir then seen else reached tpg t l (i :: seen) acl

/-- What one device does for the LUN map: its LUN is linked and mapped for the whole ACL. -/
def Good (tpg core : Path) (acl : List DirName) (t : Tree) (d : Dev) : Prop :=
  Linked tpg core t d ∧ ∀ i ∈ acl, Mapped tpg t d.lun i

/-- When a device gets its part of the LUN map from a tree. A LUN that exists is left as it is. A
new one is linked if the device is found, that is, if its name matches itself as a pattern, and
mapped for the initiators that the loop over the ACL gets to. -/
def Served (tpg core : Path) (acl : List DirName) (t : Tree) (d : Dev) : Prop :=
  if t.node (lunDir tpg d.lun) = some .dir then Good tpg core acl t d
  else globComp d.name.name d.name.name = true ∧
    ∀ i ∈ acl, i ∈ reached tpg t d.lun [] acl ∨ Mapped tpg t d.lun i

instance (tpg core : Path) (acl : List DirName) (t : Tree) (d : Dev) :
    Decidable (Good tpg core acl t d) := inferInstanceAs (Decidable (_ ∧ _))

instance (tpg core : Path) (acl : List DirName) (t : Tree) (d : Dev) :
    Decidable (Served tpg core acl t d) :=
  inferInstanceAs (Decidable (if t.node (lunDir tpg d.lun) = some .dir then Good tpg core acl t d
    else globComp d.name.name d.name.name = true ∧
      ∀ i ∈ acl, i ∈ reached tpg t d.lun [] acl ∨ Mapped tpg t d.lun i))

section Congr

variable {tpg core : Path} {acl : List DirName} {t t' : Tree} {d : Dev}
  (h : Script.AlikeOn (About tpg d.lun) t t')
include h

end Congr

section Device

variable {tpg : Path} (htpg : ".." ∉ tpg)
include htpg

/-- How the tree `t'` stands to the tree `t` in which the loop over the ACL began, when the loop has
been at the initiators `seen`. -/
structure Mapping (tpg : Path) (l : DirName) (t : Tree) (seen : List DirName) (t' : Tree) :
    Prop where
  /-- Their mapped LUNs are there. -/
  done : ∀ i ∈ seen, t'.node (mapDir tpg l i) = some .dir ∧ Mapped tpg t' l i
  /-- Those of the others are what they were. -/
  other : ∀ i, i ∉ seen → t'.node (mapDir tpg l i) = t.node (mapDir tpg l i) ∧
    t'.node (mapLink tpg l i) = t.node (mapLink tpg l i)

section Mapping

omit htpg

variable {l : DirName} {seen : List DirName} {t t' : Tree}

/-- One more initiator: its mapped LUN has been made and linked, and for the others nothing has been
done. -/
theorem Mapping.cons {v : Tree} {j : DirName} (h : Mapping tpg l t seen t')
    (hdir : v.node (mapDir tpg l j) = some .dir) (hlinked : Mapped tpg v l j)
    (hkeep : ∀ i, i ≠ j → v.node (mapDir tpg l i) = t'.node (mapDir tpg l i) ∧
      v.node (mapLink tpg l i) = t'.node (mapLink tpg l i)) : Mapping tpg l t (j :: seen) v := by
  constructor
  · intro i hi
    by_cases hij : i = j
    · subst hij
      exact ⟨hdir, hlinked⟩
    · rw [Mapped, (hkeep i hij).1, (hkeep i hij).2]
      exact h.done i ((List.mem_cons.mp hi).resolve_left hij)
  · intro i hi
    obtain ⟨hij, hmem⟩ := not_or.mp (List.mem_cons.not.mp hi)
    rw [(hkeep i hij).1, (hkeep i hij).2]
    exact h.other i hmem

end Mapping

end Device

/-! ### The whole script -/

namespace Example

/-- The target. -/
def iqn : DirName := ⟨"iqn.2018-01.org.example:t", by decide⟩

/-- The device. -/
def dev : Dev := ⟨"fileio", ⟨"d", by decide⟩, ⟨"lun_0", by decide⟩⟩

/-- The directory of the device. -/
def core : Path := coreDir ++ ["fileio_0", "d"]

/-- A machine with the device and no target. -/
def fresh : World :=
  ⟨[(iscsiDir, .dir), (coreDir, .dir), (coreDir ++ ["fileio_0"], .dir), (core, .dir),
    (["session"], .dir)], []⟩

/-- A run with the given ACL. -/
def run (acl : List DirName) : Script FuncResult :=
  createTarget [] "10.0.0.1" ⟨some "t", some iqn, some acl, some [dev]⟩

end Example

end StartTarget

end LioProject
