import LioProject.Scripts.StartTarget

/-!
# The names of devices

Each device is a directory in an HBA directory of its class: `fileio_0/disk`. `create_device` looks
for its name in all the HBA directories of the class before it makes a new one, and
`add_single_lun` looks for it there again, and gives up if it finds more than one.

Both look with `glob`, and put the name into the pattern as it is. So a name has to mean itself when
it is read as a pattern (`DeviceName`). Then there is one HBA directory at most for a name
(`names_unique`). A device called `[a]` can be created any number of times, and one called `a*`
makes `add_single_lun` give up, though it has never been created (`names_not_unique`).
-/

namespace LioProject

namespace CreateDevices

open StartTarget (addSingleLun typePattern Dev DirName)

/-- A name that is one component of a path, and that as a pattern matches itself and nothing
else. -/
structure DeviceName (name : String) : Prop where
  /-- It is one component. -/
  component : name ≠ "" ∧ name ≠ "." ∧ name ≠ ".." ∧ '/' ∉ name.toList
  /-- It means itself. -/
  itself : ∀ m, globComp name m = true ↔ m = name

/-- A component whose characters stand for themselves is such a name. -/
theorem deviceName_of_literal {name : String}
    (h : name ≠ "" ∧ name ≠ "." ∧ name ≠ ".." ∧ '/' ∉ name.toList)
    (hliteral : ∀ c ∈ name.toList, literal c) : DeviceName name := by
  refine ⟨h, fun m => ?_⟩
  rw [globComp, Bool.and_eq_true, fnmatch_literal hliteral]
  constructor
  · exact And.left
  · rintro rfl
    refine ⟨rfl, ?_⟩
    simp

/-- The prefix of the HBA directories for a type of device. -/
def devClass (type : String) : Option String :=
  if type = "fileio" then some "fileio_"
  else if type = "block" then some "iblock_"
  else if type = "alloc" ∨ type = "file" then some "user_"
  else none

/-- A directory of the class: `fileio_*`. -/
def IsHba (cls h : String) : Prop := globComp (cls ++ "*") h = true

/-- The entry of a device in an HBA directory. -/
def entry (h name : String) : Path := coreDir ++ [h, name]

/-- Such an entry. -/
def IsEntry (p : Path) : Prop := ∃ h name, p = entry h name

/-- The classes of devices. -/
def classes : List String := ["fileio_", "iblock_", "user_"]

/-- `create_device` for one configuration after the other. -/
def createDevices (configs : List Dict) (w : World) : World :=
  configs.foldl (fun w config => (createDevice config w).2) w

/-! ### Classes -/

theorem literal_of_mem_classes {cls : String} (h : cls ∈ classes) :
    ∀ c ∈ cls.toList, literal c := by
  simp only [classes, List.mem_cons, List.not_mem_nil, or_false] at h
  rcases h with rfl | rfl | rfl
  · simp [literal]
  · simp [literal]
  · simp [literal]

theorem devClass_mem {type cls : String} (h : devClass type = some cls) : cls ∈ classes := by
  unfold devClass at h
  split at h
  · simp [← Option.some.inj h, classes]
  · split at h
    · simp [← Option.some.inj h, classes]
    · split at h
      · simp [← Option.some.inj h, classes]
      · exact absurd h (by simp)

/-- The HBA directories of a class are the names that begin so. -/
theorem isHba_iff {cls h : String} (hcls : cls ∈ classes) :
    IsHba cls h ↔ cls.toList <+: h.toList := by
  rw [IsHba, globComp, Bool.and_eq_true, fnmatch_star (literal_of_mem_classes hcls)]
  refine ⟨And.left, fun hpre => ⟨hpre, ?_⟩⟩
  obtain ⟨rest, heq⟩ := hpre
  rw [← heq]
  simp only [classes, List.mem_cons, List.not_mem_nil, or_false] at hcls
  rcases hcls with rfl | rfl | rfl
  · simp
  · simp
  · simp

theorem isHba_append {cls : String} (hcls : cls ∈ classes) (s : String) : IsHba cls (cls ++ s) := by
  rw [isHba_iff hcls, String.toList_append]
  exact List.prefix_append ..

/-- No directory belongs to two classes. -/
theorem IsHba.unique {cls cls' h : String} (hcls : cls ∈ classes) (hcls' : cls' ∈ classes)
    (hh : IsHba cls h) (hh' : IsHba cls' h) : cls = cls' := by
  have hpre := List.prefix_or_prefix_of_prefix ((isHba_iff hcls).mp hh) ((isHba_iff hcls').mp hh')
  have hall : ∀ a ∈ classes, ∀ b ∈ classes, a.toList <+: b.toList ∨ b.toList <+: a.toList →
      a = b := by decide
  exact hall cls hcls cls' hcls' hpre

/-- `create_device` and `add_single_lun` agree on the classes. -/
theorem typePattern_eq (type : String) : typePattern type = (devClass type).map (· ++ "*") := by
  unfold typePattern devClass
  split
  · rfl
  · split
    · rfl
    · by_cases halloc : type = "alloc" ∨ type = "file"
      · rw [if_pos halloc, if_pos (Or.comm.mp halloc)]
        rfl
      · rw [if_neg halloc, if_neg fun h => halloc (Or.comm.mp h)]
        rfl

/-- A device that is prepared has a class. -/
theorem prepare_class {config : Dict} {type name size cls control : String} {w w' : World}
    (h : prepare config type name size w = (.done (.inr (cls, control)), w')) :
    devClass type = some cls := by
  unfold devClass
  by_cases hfile : type = "fileio"
  · subst hfile
    rw [prepare_fileio] at h
    rw [if_pos rfl]
    rcases hstorage : createStorage name size w with ⟨outcome, u⟩
    rw [hstorage] at h
    cases outcome with
    | done a =>
      simp only [Prod.mk.injEq, Outcome.done.injEq, Sum.inr.injEq] at h
      rw [h.1.1]
    | osError e => exact absurd h (by simp)
    | exception => exact absurd h (by simp)
  · rw [prepare, if_neg hfile] at h
    rw [if_neg hfile]
    by_cases hblock : type = "block"
    · rw [if_pos hblock] at h ⊢
      cases hpath : config.lookup "path" with
      | none =>
        rw [hpath] at h
        exact absurd h (by simp [Script.pure_apply])
      | some path =>
        rw [hpath] at h
        simp only [Script.bind_apply, Script.look_apply] at h
        split at h
        · simp only [Script.pure_apply, Prod.mk.injEq, Outcome.done.injEq, Sum.inr.injEq] at h
          rw [h.1.1]
        · exact absurd h (by simp [Script.pure_apply])
    · rw [if_neg hblock] at h ⊢
      split at h
      · rename_i huser
        simp only [Script.pure_apply, Prod.mk.injEq, Outcome.done.injEq, Sum.inr.injEq] at h
        rw [if_pos huser, h.1.1]
      · exact absurd h (by simp [Script.pure_apply])

/-! ### The entries that a call makes -/

theorem IsEntry.length {p : Path} (h : IsEntry p) : p.length = 7 := by
  obtain ⟨h, name, rfl⟩ := h
  rfl

theorem DeviceName.comps_eq {name : String} (h : DeviceName name) : comps name = [name] :=
  LioProject.comps_eq h.component.2.2.2 h.component.1 h.component.2.1

/-- The backing file is where the links end that may be at its path. -/
theorem DeviceName.backing_eq {name : String} (h : DeviceName name) (t : Tree) :
    backing t name = [] ∨ backing t name = [name] ∨
      ∃ r, t.node r = some (.link (backing t name)) := by
  have hslashed := slashed_eq h.component.2.2.2 h.component.1
  have hparts := parts_eq h.component.2.2.2 h.component.1
  rw [backing, Tree.place, hslashed, hparts, if_neg (by simp), Tree.walk]
  · cases hfollow : t.follow Tree.maxLinks ([] ++ [name]) with
    | none => exact Or.inl rfl
    | some x =>
      obtain ⟨k, q⟩ := x
      obtain ⟨hlink, hq⟩ := Tree.follow_spec hfollow
      have htarget : t.target q = q := by
        rw [Tree.target, Tree.follow_of_not_link hlink]
        rfl
      simp only [if_true, Bool.false_or]
      cases t.isDir q with
      | true => exact Or.inl rfl
      | false =>
        refine Or.inr ?_
        simp only [Bool.false_eq_true, if_false, htarget]
        exact hq
  · exact h.component.2.1
  · exact h.component.2.2.1

/-- The backing file is not an entry of the core directory, as long as no link leads to one. -/
theorem DeviceName.backing_not_isEntry {name : String} (h : DeviceName name) {t : Tree}
    (hlinks : Script.LinksAvoid IsEntry t) : ¬ IsEntry (backing t name) := by
  intro hentry
  have hlen := hentry.length
  rcases h.backing_eq t with heq | heq | ⟨r, hnode⟩
  · rw [heq] at hlen
    exact absurd hlen (by simp)
  · rw [heq] at hlen
    exact absurd hlen (by simp)
  · exact hlinks r _ hnode hentry

/-- No entry is made while a device is prepared. -/
theorem prepare_addsIn (config : Dict) (type size : String) {name : String}
    (hname : DeviceName name) :
    Script.Always (Script.AddsIn IsEntry fun _ => False) (prepare config type name size) := by
  have hR := Script.steady_addsIn IsEntry fun _ => False
  by_cases hfile : type = "fileio"
  · subst hfile
    intro w hlinks
    have hput : ∀ (t : Tree) (content : List UInt8), Script.AddsIn IsEntry (fun _ => False) t
        (t.put (backing w.tree name) (.file content)) := fun t content =>
      Script.addsIn_put (by simp) fun _ hentry =>
        absurd hentry (hname.backing_not_isEntry hlinks)
    have hstorage : Script.AddsIn IsEntry (fun _ => False) w.tree
        (createStorage name size w).2.tree := by
      rcases createStorage_cases name size w with ⟨e, raises, -, heq⟩ | ⟨-, heq | heq⟩ |
        ⟨e, raises, -, heq⟩ | ⟨n, raises, -, -, heq⟩
      · rw [heq]
        exact hR.refl _
      · rw [heq]
        exact hR.refl _
      · rw [heq]
        exact hput _ _
      · rw [heq]
        exact hput _ _
      · rw [heq]
        exact hR.trans (hput _ _) (hput _ _)
    have hprep : (prepare config "fileio" name size w).2.tree =
        (createStorage name size w).2.tree := by
      rw [prepare_fileio]
      rcases createStorage name size w with ⟨outcome, u⟩
      cases outcome with
      | _ => rfl
    rw [hprep]
    exact hstorage hlinks
  · intro w
    obtain ⟨x, hx⟩ := prepare_of_ne config name size hfile w
    rw [hx]
    exact hR.refl _

/-- The path of an entry that `create_device` makes. -/
theorem typeDir_append (cls name : String) (i : ℕ) :
    typeDir cls i ++ [name] = entry (cls ++ toString i) name := by
  simp [typeDir, entry]

theorem dotdot_not_mem_entry {cls name : String} (hcls : cls ∈ classes) (hname : DeviceName name)
    (i : ℕ) : ".." ∉ entry (cls ++ toString i) name := by
  have hhba : cls ++ toString i ≠ ".." := by
    intro heq
    have hpre := (isHba_iff hcls).mp (isHba_append hcls (toString i))
    rw [heq] at hpre
    have hall : ∀ a ∈ classes, ¬ a.toList <+: "..".toList := by decide
    exact hall cls hcls hpre
  simp only [entry, coreDir, List.cons_append, List.nil_append, List.mem_cons, List.not_mem_nil,
    or_false, not_or]
  exact ⟨by decide, by decide, by decide, by decide, by decide, hhba.symm,
    hname.component.2.2.1.symm⟩

/-- Of the paths down to an entry only the last is one. -/
theorem eq_of_prefix_entry {p : Path} {h name : String} (hpre : p <+: entry h name)
    (hp : IsEntry p) : p = entry h name :=
  hpre.eq_of_length (by rw [hp.length]; rfl)

/-- Making the entry of a device makes that entry only. -/
theorem addEntry_addsIn {cls name : String} (control : String) (hcls : cls ∈ classes)
    (hname : DeviceName name) (i : ℕ) :
    Script.Always (Script.AddsIn IsEntry (· = entry (cls ++ toString i) name))
      (addEntry (typeDir cls i) name control) := by
  have hR := Script.steady_addsIn IsEntry (· = entry (cls ++ toString i) name)
  have hdots := dotdot_not_mem_entry hcls hname i
  have hpre : typeDir cls i <+: entry (cls ++ toString i) name :=
    ⟨[name], typeDir_append cls name i⟩
  have hattr : ∀ attr : String, attr ≠ ".." →
      ¬ IsEntry (resolve (entry (cls ++ toString i) name ++ [attr])) := by
    intro attr hne hentry
    have hlen := hentry.length
    rw [resolve_eq (by simpa [hne.symm] using hdots)] at hlen
    exact absurd hlen (by simp [entry, coreDir])
  rw [addEntry, hname.comps_eq, typeDir_append]
  refine hR.bind (Script.addsIn_makedirs (fun hmem => hdots (hpre.subset hmem)) fun q hq hentry =>
    eq_of_prefix_entry (hq.trans hpre) hentry) fun _ => ?_
  refine hR.bind (always_makeDeviceDir hR fun q hq => ?_) fun _ => ?_
  · rw [hname.comps_eq, typeDir_append] at hq
    rw [resolve_eq fun hmem => hdots (hq.subset hmem)]
    exact Script.addsIn_mkdir fun hentry => eq_of_prefix_entry hq hentry
  refine hR.bind (Script.addsIn_writeText control (hattr "control" (by decide))) fun _ => ?_
  exact Script.addsIn_writeText "1" (hattr "enable" (by decide))

/-! ### What the patterns find -/

theorem globComp_eq_of_mem_coreDir {c : String} (hc : c ∈ coreDir) (m : String) :
    globComp c m = true ↔ m = c := by
  have hall : ∀ c ∈ coreDir, (c ≠ "" ∧ c ≠ "." ∧ c ≠ ".." ∧ '/' ∉ c.toList) ∧
      c.toList.all literal = true := by decide
  exact (deviceName_of_literal (hall c hc).1 (List.all_eq_true.mp (hall c hc).2)).itself m

/-- The pattern for the devices of a name finds the entries of that name in the directories of the
class. -/
theorem mem_glob_iff {t : Tree} {cls name : String} (hname : DeviceName name) (p : Path) :
    p ∈ t.glob (coreDir ++ [cls ++ "*", name]) false ↔
      ∃ h, IsHba cls h ∧ p = entry h name ∧ t.node p ≠ none := by
  have hcore := fun c hc m => globComp_eq_of_mem_coreDir (c := c) hc m
  simp only [coreDir, List.mem_cons, List.not_mem_nil, or_false, forall_eq_or_imp, forall_eq]
    at hcore
  obtain ⟨hsys, hkernel, hconfig, htarget, hcore⟩ := hcore
  rw [Tree.mem_glob (by simp)]
  constructor
  · rintro ⟨hnode, hlen, hall⟩
    obtain ⟨a, b, c, d, e, h, n, rfl⟩ : ∃ a b c d e h n, p = [a, b, c, d, e, h, n] := by
      match p, hlen with
      | [a, b, c, d, e, h, n], _ => exact ⟨a, b, c, d, e, h, n, rfl⟩
    simp only [coreDir, List.cons_append, List.nil_append, List.zipWith_cons_cons,
      List.zipWith_nil_left, List.all_cons, List.all_nil, id_eq, Bool.and_true, Bool.and_eq_true,
      hsys, hkernel, hconfig, htarget, hcore, hname.itself] at hall
    obtain ⟨rfl, rfl, rfl, rfl, rfl, hhba, rfl⟩ := hall
    exact ⟨h, hhba, rfl, hnode⟩
  · rintro ⟨h, hhba, rfl, hnode⟩
    refine ⟨hnode, rfl, ?_⟩
    simp only [entry, coreDir, List.cons_append, List.nil_append, List.zipWith_cons_cons,
      List.zipWith_nil_left, List.all_cons, List.all_nil, id_eq, Bool.and_true, Bool.and_eq_true,
      hsys, hkernel, hconfig, htarget, hcore, hname.itself, true_and, and_true]
    exact hhba

/-- A name is taken if there is an entry for it in a directory of the class. -/
theorem taken_iff {t : Tree} {cls name : String} (hname : DeviceName name) :
    taken t cls name = true ↔ ∃ h, IsHba cls h ∧ t.node (entry h name) ≠ none := by
  obtain ⟨hne, hdot, hdots, hslash⟩ := hname.component
  have hlast : (slashed name || (parts name).getLast? = some ".") = false := by
    rw [slashed_eq hslash hne, parts_eq hslash hne, Bool.false_or, decide_eq_false_iff_not]
    exact fun heq => hdot (Option.some.inj heq)
  rw [taken, hname.comps_eq, hlast, if_neg (by simpa using hdots.symm), List.append_assoc,
    List.singleton_append, decide_eq_true_eq]
  constructor
  · intro hne
    obtain ⟨p, hp⟩ := List.exists_mem_of_ne_nil _ hne
    obtain ⟨h, hhba, rfl, hnode⟩ := (mem_glob_iff hname p).mp hp
    exact ⟨h, hhba, hnode⟩
  · rintro ⟨h, hhba, hnode⟩
    exact List.ne_nil_of_mem ((mem_glob_iff hname _).mpr ⟨h, hhba, rfl, hnode⟩)

/-! ### One call -/

/-- What a call may do to the entries: nothing, or make one for a name that its class does not
have. -/
def OneEntry (t t' : Tree) : Prop :=
  (∀ p, IsEntry p → t'.node p = t.node p) ∨
    ∃ cls ∈ classes, ∃ h name, IsHba cls h ∧ (∀ h', IsHba cls h' → t.node (entry h' name) = none) ∧
      ∀ p, IsEntry p → p ≠ entry h name → t'.node p = t.node p

/-- The name in a configuration means itself. -/
def Plain (config : Dict) : Prop := ∀ name, config.lookup "name" = some name → DeviceName name

theorem register_entries {name cls : String} (control : String) {w : World} (hcls : cls ∈ classes)
    (hname : DeviceName name) (hlinks : Script.LinksAvoid IsEntry w.tree) :
    Script.LinksAvoid IsEntry (register name cls control w).2.tree ∧
      OneEntry w.tree (register name cls control w).2.tree := by
  rw [register, Script.bind_apply, Script.look_apply]
  simp only
  by_cases htaken : taken w.tree cls name = true
  · rw [if_pos htaken]
    exact ⟨hlinks, Or.inl fun p _ => rfl⟩
  · rw [if_neg htaken]
    have hR := Script.steady_addsIn IsEntry
      (· = entry (cls ++ toString (freeIndex w.tree cls)) name)
    have hadds := hR.attempt (hR.bind (addEntry_addsIn control hcls hname (freeIndex w.tree cls))
      fun _ => hR.pure (⟨true, "Device " ++ name ++ " successfully created"⟩ : FuncResult))
      (fun e => hR.pure ⟨false, "SYSFS error: " ++ e⟩) w
    obtain ⟨hlinks', hnodes⟩ := hadds hlinks
    refine ⟨hlinks', Or.inr ⟨cls, hcls, _, name,
      isHba_append hcls (toString (freeIndex w.tree cls)), fun h' hhba => ?_, fun p hp hne => ?_⟩⟩
    · by_contra hnode
      exact htaken ((taken_iff hname).mpr ⟨h', hhba, hnode⟩)
    · exact (hnodes p hp).resolve_right fun hnew => hne hnew.2

/-- **One call makes one entry at most**, and only for a name that its class does not have. -/
theorem createDevice_entries {config : Dict} {w : World} (hplain : Plain config)
    (hlinks : Script.LinksAvoid IsEntry w.tree) :
    Script.LinksAvoid IsEntry (createDevice config w).2.tree ∧
      OneEntry w.tree (createDevice config w).2.tree := by
  by_cases hall : ∃ type name size, config.lookup "type" = some type ∧
      config.lookup "name" = some name ∧ config.lookup "size" = some size
  · obtain ⟨type, name, size, htype, hname, hsize⟩ := hall
    have hadds := prepare_addsIn config type size (hplain name hname) w hlinks
    have hsame : ∀ p, IsEntry p → (prepare config type name size w).2.tree.node p = w.tree.node p :=
      fun p hp => (hadds.2 p hp).resolve_right fun hnew => hnew.2
    rw [createDevice_eq htype hname hsize]
    rcases hprep : prepare config type name size w with ⟨outcome, u⟩
    rw [hprep] at hadds hsame
    cases outcome with
    | osError e => exact ⟨hadds.1, Or.inl hsame⟩
    | exception => exact ⟨hadds.1, Or.inl hsame⟩
    | done x =>
      rcases x with r | ⟨cls, control⟩
      · exact ⟨hadds.1, Or.inl hsame⟩
      · obtain ⟨hlinks', hone⟩ := register_entries control
          (devClass_mem (prepare_class hprep)) (hplain name hname) hadds.1
        refine ⟨hlinks', ?_⟩
        rcases hone with hnone | ⟨cls', hcls', h, n, hhba, hfree, hother⟩
        · exact Or.inl fun p hp => (hnone p hp).trans (hsame p hp)
        · refine Or.inr ⟨cls', hcls', h, n, hhba, fun h' hhba' => ?_, fun p hp hne => ?_⟩
          · rw [← hsame _ ⟨h', n, rfl⟩]
            exact hfree h' hhba'
          · exact (hother p hp hne).trans (hsame p hp)
  · rw [createDevice_invalid w hall]
    exact ⟨hlinks, Or.inl fun p _ => rfl⟩

/-- Every entry stays. -/
theorem OneEntry.stays {t t' : Tree} (h : OneEntry t t') {p : Path} (hp : IsEntry p)
    (hnode : t.node p ≠ none) : t'.node p ≠ none := by
  rcases h with hsame | ⟨cls, -, h, name, hhba, hfree, hother⟩
  · rwa [hsame p hp]
  · rwa [hother p hp]
    rintro rfl
    exact hnode (hfree h hhba)

/-- A device that is refused while it is prepared is refused. -/
theorem prepare_refused {config : Dict} {type name size : String} {r : FuncResult} {w w' : World}
    (h : prepare config type name size w = (.done (.inl r), w')) : r.success = false := by
  by_cases hfile : type = "fileio"
  · subst hfile
    rw [prepare_fileio] at h
    rcases hstorage : createStorage name size w with ⟨outcome, u⟩
    rw [hstorage] at h
    cases outcome with
    | done a => exact absurd h (by simp)
    | osError e =>
      simp only [Prod.mk.injEq, Outcome.done.injEq, Sum.inl.injEq] at h
      rw [← h.1]
    | exception => exact absurd h (by simp)
  · rw [prepare, if_neg hfile] at h
    split at h
    · cases hpath : config.lookup "path" with
      | none =>
        rw [hpath] at h
        simp only [Script.pure_apply, Prod.mk.injEq, Outcome.done.injEq, Sum.inl.injEq] at h
        rw [← h.1]
      | some path =>
        rw [hpath] at h
        simp only [Script.bind_apply, Script.look_apply] at h
        split at h
        · exact absurd h (by simp [Script.pure_apply])
        · simp only [Script.pure_apply, Prod.mk.injEq, Outcome.done.injEq, Sum.inl.injEq] at h
          rw [← h.1]
    · split at h
      · exact absurd h (by simp [Script.pure_apply])
      · simp only [Script.pure_apply, Prod.mk.injEq, Outcome.done.injEq, Sum.inl.injEq] at h
        rw [← h.1]

/-- The class and the name that a configuration asks for. -/
def Asks (config : Dict) (cls name : String) : Prop :=
  (config.lookup "type").bind devClass = some cls ∧ config.lookup "name" = some name

/-- A call that returns got through the preparation or was refused. -/
theorem createDevice_done {config : Dict} {cls name : String} {r : FuncResult} {w w' : World}
    (hasks : Asks config cls name) (h : createDevice config w = (.done r, w')) :
    r.success = false ∨ ∃ type size control u,
      prepare config type name size w = (.done (.inr (cls, control)), u) ∧
        register name cls control u = (.done r, w') := by
  obtain ⟨hcls, hname⟩ := hasks
  cases htype : config.lookup "type" with
  | none =>
    rw [htype] at hcls
    exact absurd hcls (by simp)
  | some type =>
    cases hsize : config.lookup "size" with
    | none =>
      rw [createDevice, htype, hname, hsize] at h
      simp only [Script.pure_apply, Prod.mk.injEq, Outcome.done.injEq] at h
      exact Or.inl (by rw [← h.1])
    | some size =>
      rw [createDevice_eq htype hname hsize] at h
      rcases hprep : prepare config type name size w with ⟨outcome, u⟩
      rw [hprep] at h
      cases outcome with
      | osError e => exact absurd h (by simp)
      | exception => exact absurd h (by simp)
      | done x =>
        rcases x with r' | ⟨cls', control⟩
        · simp only [Prod.mk.injEq, Outcome.done.injEq] at h
          exact Or.inl (h.1 ▸ prepare_refused hprep)
        · rw [htype, Option.bind_some, prepare_class hprep] at hcls
          obtain rfl := Option.some.inj hcls
          exact Or.inr ⟨type, size, control, u, hprep, h⟩

/-- The entry of a device that was created is there. -/
theorem created {config : Dict} {cls name : String} {r : FuncResult} {w w' : World}
    (hasks : Asks config cls name) (hname : DeviceName name) (hcls : cls ∈ classes)
    (h : createDevice config w = (.done r, w')) (hr : r.success = true) :
    ∃ h, IsHba cls h ∧ w'.tree.node (entry h name) ≠ none := by
  rcases createDevice_done hasks h with hfalse | ⟨type, size, control, u, -, hreg⟩
  · exact absurd hr (by simp [hfalse])
  · rw [register, Script.bind_apply, Script.look_apply] at hreg
    simp only at hreg
    split at hreg
    · simp only [Script.pure_apply, Prod.mk.injEq, Outcome.done.injEq] at hreg
      exact absurd hr (by simp [← hreg.1])
    · refine ⟨_, isHba_append hcls (toString (freeIndex u.tree cls)), ?_⟩
      rw [Script.attempt, Script.bind_apply] at hreg
      rcases hadd : addEntry (typeDir cls (freeIndex u.tree cls)) name control u with ⟨outcome, v⟩
      rw [hadd] at hreg
      cases outcome with
      | osError e =>
        simp only [Script.pure_apply, Prod.mk.injEq, Outcome.done.injEq] at hreg
        exact absurd hr (by simp [← hreg.1])
      | exception => exact absurd hreg (by simp)
      | done a =>
        simp only [Script.pure_apply, Prod.mk.injEq, Outcome.done.injEq] at hreg
        obtain ⟨-, rfl⟩ := hreg
        rw [addEntry, hname.comps_eq, typeDir_append] at hadd
        obtain ⟨_, w₁, -, hadd⟩ := Script.bind_done hadd
        obtain ⟨_, w₂, hdirs, hadd⟩ := Script.bind_done hadd
        have hdir := Script.makedirs_done (makedirs_of_makeDeviceDir hdirs)
        rw [hname.comps_eq, typeDir_append, resolve_eq (dotdot_not_mem_entry hcls hname _)] at hdir
        have hstays := Script.steady_nodesStay.bind (Script.nodesStay_writeText (resolve
          (entry (cls ++ toString (freeIndex u.tree cls)) name ++ ["control"])) control)
          (fun _ => Script.nodesStay_writeText (resolve
            (entry (cls ++ toString (freeIndex u.tree cls)) name ++ ["enable"])) "1") w₂
        rw [hadd] at hstays
        exact hstays _ (by rw [hdir]; simp)

/-- A device whose entry is there is not created. -/
theorem refused {config : Dict} {cls name h : String} {r : FuncResult} {w w' : World}
    (hasks : Asks config cls name) (hname : DeviceName name)
    (hlinks : Script.LinksAvoid IsEntry w.tree) (hhba : IsHba cls h)
    (hnode : w.tree.node (entry h name) ≠ none) (hret : createDevice config w = (.done r, w')) :
    r.success = false := by
  rcases createDevice_done hasks hret with hfalse | ⟨type, size, control, u, hprep, hreg⟩
  · exact hfalse
  · have hadds := prepare_addsIn config type size hname w hlinks
    rw [hprep] at hadds
    have hsame : u.tree.node (entry h name) = w.tree.node (entry h name) :=
      (hadds.2 _ ⟨h, name, rfl⟩).resolve_right fun hnew => hnew.2
    have htaken : taken u.tree cls name = true :=
      (taken_iff hname).mpr ⟨h, hhba, by rwa [hsame]⟩
    rw [register, Script.bind_apply, Script.look_apply] at hreg
    simp only [htaken, if_true, Script.pure_apply, Prod.mk.injEq, Outcome.done.injEq] at hreg
    rw [← hreg.1]

/-! ### Any number of calls -/

/-- No class has a name twice. -/
def UniqueNames (t : Tree) : Prop :=
  ∀ cls ∈ classes, ∀ name h h', IsHba cls h → IsHba cls h' → t.node (entry h name) ≠ none →
    t.node (entry h' name) ≠ none → h = h'

theorem entry_inj {h h' name name' : String} (heq : entry h name = entry h' name') :
    h = h' ∧ name = name' := by
  simpa [entry] using heq

/-- One more entry for a free name leaves names unique. -/
theorem UniqueNames.oneEntry {t t' : Tree} (hunique : UniqueNames t) (hone : OneEntry t t') :
    UniqueNames t' := by
  intro cls hcls name h h' hhba hhba' hnode hnode'
  rcases hone with hsame | ⟨cls₁, hcls₁, h₁, name₁, hhba₁, hfree, hother⟩
  · rw [hsame _ ⟨h, name, rfl⟩] at hnode
    rw [hsame _ ⟨h', name, rfl⟩] at hnode'
    exact hunique cls hcls name h h' hhba hhba' hnode hnode'
  · by_cases hnew : name = name₁ ∧ cls = cls₁
    -- the only entry of this class and name is the new one
    · obtain ⟨rfl, rfl⟩ := hnew
      have honly : ∀ k, IsHba cls k → t'.node (entry k name) ≠ none → k = h₁ := by
        intro k hk hknode
        by_contra hne
        rw [hother _ ⟨k, name, rfl⟩ fun heq => hne (entry_inj heq).1] at hknode
        exact hknode (hfree k hk)
      rw [honly h hhba hnode, honly h' hhba' hnode']
    · have hold : ∀ k, IsHba cls k → t'.node (entry k name) = t.node (entry k name) := by
        intro k hk
        refine hother _ ⟨k, name, rfl⟩ fun heq => hnew ?_
        obtain ⟨rfl, rfl⟩ := entry_inj heq
        exact ⟨rfl, IsHba.unique hcls hcls₁ hk hhba₁⟩
      rw [hold h hhba] at hnode
      rw [hold h' hhba'] at hnode'
      exact hunique cls hcls name h h' hhba hhba' hnode hnode'

section Runs

variable {configs : List Dict} {w : World}

theorem createDevices_append (configs configs' : List Dict) (w : World) :
    createDevices (configs ++ configs') w = createDevices configs' (createDevices configs w) := by
  rw [createDevices, List.foldl_append]
  rfl

/-- No link leads to an entry, in whatever run. -/
theorem createDevices_linksAvoid (hplain : ∀ config ∈ configs, Plain config)
    (hlinks : Script.LinksAvoid IsEntry w.tree) :
    Script.LinksAvoid IsEntry (createDevices configs w).tree := by
  induction configs generalizing w with
  | nil => exact hlinks
  | cons config configs ih =>
    refine ih (fun c hc => hplain c (List.mem_cons_of_mem _ hc)) ?_
    exact (createDevice_entries (hplain config (List.mem_cons_self ..)) hlinks).1

/-- Names stay unique, in whatever run. -/
theorem createDevices_uniqueNames (hplain : ∀ config ∈ configs, Plain config)
    (hlinks : Script.LinksAvoid IsEntry w.tree) (hunique : UniqueNames w.tree) :
    UniqueNames (createDevices configs w).tree := by
  induction configs generalizing w with
  | nil => exact hunique
  | cons config configs ih =>
    have hstep := createDevice_entries (hplain config (List.mem_cons_self ..)) hlinks
    exact ih (fun c hc => hplain c (List.mem_cons_of_mem _ hc)) hstep.1 (hunique.oneEntry hstep.2)

/-- Entries stay, in whatever run. -/
theorem createDevices_stays (hplain : ∀ config ∈ configs, Plain config)
    (hlinks : Script.LinksAvoid IsEntry w.tree) {p : Path} (hp : IsEntry p)
    (hnode : w.tree.node p ≠ none) : (createDevices configs w).tree.node p ≠ none := by
  induction configs generalizing w with
  | nil => exact hnode
  | cons config configs ih =>
    have hstep := createDevice_entries (hplain config (List.mem_cons_self ..)) hlinks
    exact ih (fun c hc => hplain c (List.mem_cons_of_mem _ hc)) hstep.1 (hstep.2.stays hp hnode)

/-- A call that created a device has all later calls for the same class and name refused. -/
theorem createDevices_refuses {before after : List Dict} {first again : Dict} {cls name : String}
    {r r' : FuncResult} {w' : World}
    (hplain : ∀ config ∈ before ++ first :: after, Plain config)
    (hlinks : Script.LinksAvoid IsEntry w.tree) (hfirst : Asks first cls name)
    (hagain : Asks again cls name)
    (hcreated : (createDevice first (createDevices before w)).1 = .done r) (hr : r.success = true)
    (hret : createDevice again (createDevices (before ++ first :: after) w) = (.done r', w')) :
    r'.success = false := by
  have hmem : first ∈ before ++ first :: after := by simp
  have hname : DeviceName name := hplain first hmem name hfirst.2
  have hcls : cls ∈ classes := by
    obtain ⟨type, -, hcls⟩ := Option.bind_eq_some_iff.mp hfirst.1
    exact devClass_mem hcls
  have hbefore := createDevices_linksAvoid (fun c hc => hplain c (List.mem_append_left _ hc)) hlinks
  obtain ⟨h, hhba, hnode⟩ := created hfirst hname hcls (Script.eq_of_done hcreated) hr
  have hstep := (createDevice_entries (hplain first hmem) hbefore).1
  have hall := createDevices_linksAvoid hplain hlinks
  refine refused hagain hname hall hhba ?_ hret
  rw [createDevices_append]
  exact createDevices_stays (fun c hc => hplain c (by simp [hc])) hstep ⟨h, name, rfl⟩ hnode

end Runs

/-! ### `add_single_lun` -/

theorem noException_mapLuns (tpgDir : Path) (lun : DirName) (acl : List DirName) :
    Script.NoException (StartTarget.mapLuns tpgDir lun acl) := by
  induction acl with
  | nil => exact Script.noException_pure _
  | cons init acl ih =>
    refine Script.noException_look.bind fun t => ?_
    split
    · exact Script.noException_pure _
    · exact (Script.noException_makedirs _).bind fun _ =>
        (Script.noException_call _).bind fun _ => ih

/-- With unique names there is one device of a name at most. -/
theorem UniqueNames.glob_length {t : Tree} {cls name : String} (hunique : UniqueNames t)
    (hcls : cls ∈ classes) (hname : DeviceName name) :
    (t.glob (coreDir ++ [cls ++ "*", name]) false).length ≤ 1 := by
  have hnodup : (t.glob (coreDir ++ [cls ++ "*", name]) false).Nodup :=
    (List.nodup_dedup _).filter _
  by_contra hlen
  have hlen : 1 < (t.glob (coreDir ++ [cls ++ "*", name]) false).length := by omega
  obtain ⟨h, hhba, heq, hnode⟩ :=
    (mem_glob_iff hname _).mp (List.getElem_mem (Nat.zero_lt_of_lt hlen))
  obtain ⟨h', hhba', heq', hnode'⟩ := (mem_glob_iff hname _).mp (List.getElem_mem hlen)
  have hsame : h = h' := hunique cls hcls name h h' hhba hhba' (heq ▸ hnode) (heq' ▸ hnode')
  have hindex := (hnodup.getElem_inj_iff).mp (heq.trans (hsame ▸ heq'.symm))
  exact absurd hindex (by decide)

/-- With unique names `add_single_lun` does not give up. -/
theorem addSingleLun_of_uniqueNames (acl : List DirName) (tpgDir : Path) {dev : Dev} {w : World}
    (hunique : UniqueNames w.tree) (hname : DeviceName dev.name.name) :
    (addSingleLun acl tpgDir dev w).1 ≠ .exception := by
  rw [addSingleLun, Script.bind_apply, Script.look_apply]
  simp only
  split
  · exact Script.noException_pure _ w
  · split
    · exact Script.noException_pure _ w
    · rw [typePattern_eq]
      cases hcls : devClass dev.type with
      | none => exact Script.noException_pure _ w
      | some cls =>
        have hlen := hunique.glob_length (devClass_mem hcls) hname
        simp only [Option.map_some]
        revert hlen
        rcases w.tree.glob (coreDir ++ [cls ++ "*", dev.name.name]) false with
          _ | ⟨devPath, _ | ⟨other, rest⟩⟩
        · exact fun _ => Script.noException_pure _ w
        · intro _
          simp only
          split
          · exact Script.noException_pure _ w
          · exact ((Script.noException_makedirs _).bind fun _ => (Script.noException_call _).bind
              fun _ => noException_mapLuns _ _ _) w
        · exact fun hlen => absurd hlen (by simp)

/-! ### Names stay unique -/

/-- There is no device, and no link leads to where one would be. -/
structure EmptyCore (t : Tree) : Prop where
  /-- There is no entry. -/
  empty : ∀ p, IsEntry p → t.node p = none
  /-- And nothing leads to one. -/
  links : Script.LinksAvoid IsEntry t

theorem EmptyCore.uniqueNames {t : Tree} (h : EmptyCore t) : UniqueNames t := by
  intro cls _ name hba _ _ _ hnode
  exact absurd (h.empty _ ⟨hba, name, rfl⟩) hnode

/-- **Names stay unique** in every run of `create_device` from an empty core directory in which all
names mean themselves, whatever calls raise: no class has a name twice, `add_single_lun` does not
give up in any later state with the same devices, and a call for a class and a name that have been
created is refused. -/
theorem names_unique {t : Tree} (hempty : EmptyCore t) (raises : List (Option String))
    {configs : List Dict} (hplain : ∀ config ∈ configs, Plain config) :
    UniqueNames (createDevices configs ⟨t, raises⟩).tree ∧
    (∀ acl tpgDir (dev : Dev) (w : World), DeviceName dev.name.name →
      (∀ p, IsEntry p → w.tree.node p = (createDevices configs ⟨t, raises⟩).tree.node p) →
      (addSingleLun acl tpgDir dev w).1 ≠ .exception) ∧
    ∀ before first after again cls name r r' w', configs = before ++ first :: after →
      Asks first cls name → Asks again cls name →
      (createDevice first (createDevices before ⟨t, raises⟩)).1 = .done r → r.success = true →
      createDevice again (createDevices configs ⟨t, raises⟩) = (.done r', w') →
      r'.success = false := by
  have hunique : UniqueNames (createDevices configs ⟨t, raises⟩).tree :=
    createDevices_uniqueNames hplain hempty.links hempty.uniqueNames
  refine ⟨hunique, ?_, ?_⟩
  · intro acl tpgDir dev w hname hsame
    refine addSingleLun_of_uniqueNames acl tpgDir ?_ hname
    intro cls hcls name h h' hhba hhba' hnode hnode'
    rw [hsame _ ⟨h, name, rfl⟩] at hnode
    rw [hsame _ ⟨h', name, rfl⟩] at hnode'
    exact hunique cls hcls name h h' hhba hhba' hnode hnode'
  · rintro before first after again cls name r r' w' rfl hfirst hagain hcreated hr hret
    exact createDevices_refuses hplain hempty.links hfirst hagain hcreated hr hret

/-- A portal group. -/
def someTpg : Path := StartTarget.iscsiDir ++ ["iqn.2018-10.t", "tpgt_1"]

/-- A tree with a portal group and without devices. -/
def noDevices : Tree :=
  [(coreDir, .dir), (["sys"], .dir), (["sys", "kernel"], .dir), (["sys", "kernel", "config"], .dir),
    (["sys", "kernel", "config", "target"], .dir), (someTpg ++ ["lun"], .dir)]

theorem emptyCore_noDevices : EmptyCore noDevices where
  empty p hp := by
    have hlen : ∀ q ∈ noDevices.map Prod.fst, q.length ≠ 7 := by decide
    by_contra hnode
    have hnil : p ≠ [] := List.ne_nil_of_length_pos (by rw [hp.length]; decide)
    exact hlen p ((Tree.node_ne_none_iff hnil).mp hnode) hp.length
  links p q hnode := by
    have hall : ∀ e ∈ noDevices, e.2 = .dir := by decide
    rw [Tree.node] at hnode
    split at hnode
    · exact absurd hnode (by simp)
    · obtain ⟨l₁, l₂, heq, -⟩ := List.lookup_eq_some_iff.mp hnode
      exact absurd (hall (p, .link q) (by rw [heq]; simp)) (by simp)

/-- A device in memory. -/
def allocConfig (name : String) : Dict := [("type", "alloc"), ("name", name), ("size", "1")]

/-- Its entry in the configuration of a target. -/
def allocDev (name : DirName) : Dev := ⟨"alloc", name, ⟨"0", by decide⟩⟩

theorem plain_allocConfig {name : String} (h : DeviceName name) : Plain (allocConfig name) := by
  intro name' hname
  obtain rfl : name = name' := Option.some.inj hname
  exact h

/-- A device is created, and not a second time. -/
theorem names_unique_twice :
    UniqueNames (createDevices [allocConfig "d", allocConfig "d"] ⟨noDevices, []⟩).tree ∧
      (addSingleLun [] someTpg (allocDev ⟨"d", by decide⟩)
        (createDevices [allocConfig "d", allocConfig "d"] ⟨noDevices, []⟩)).1 ≠ .exception ∧
      (createDevice (allocConfig "d") (createDevices [allocConfig "d"] ⟨noDevices, []⟩)).1
        = .done ⟨false, "There is another device with name d"⟩ ∧
      ∀ r' w', createDevice (allocConfig "d")
        (createDevices [allocConfig "d", allocConfig "d"] ⟨noDevices, []⟩) = (.done r', w') →
        r'.success = false := by
  have hname : DeviceName "d" := deviceName_of_literal (by decide) (by simp [literal])
  have hasks : Asks (allocConfig "d") "user_" "d" := ⟨by decide, by decide⟩
  have hplain : ∀ config ∈ [allocConfig "d", allocConfig "d"], Plain config := by
    simp [plain_allocConfig hname]
  obtain ⟨hunique, hlun, hrefused⟩ := names_unique emptyCore_noDevices [] hplain
  refine ⟨hunique, hlun _ _ _ _ hname fun p _ => rfl, by decide +kernel, fun r' w' hret => ?_⟩
  exact hrefused [] (allocConfig "d") [allocConfig "d"] (allocConfig "d") "user_" "d"
    ⟨true, "Device d successfully created"⟩ r' w' rfl hasks hasks (by decide +kernel) rfl hret

/-- **A name that does not mean itself breaks all three.** The device `[a]` is created twice, since
the pattern `[a]` does not match the name `[a]`, and `add_single_lun` for `a*` gives up, since
there are devices `ab` and `ac`. -/
theorem names_not_unique :
    (createDevice (allocConfig "[a]") ⟨noDevices, []⟩).1
        = .done ⟨true, "Device [a] successfully created"⟩ ∧
      (createDevice (allocConfig "[a]") (createDevices [allocConfig "[a]"] ⟨noDevices, []⟩)).1
        = .done ⟨true, "Device [a] successfully created"⟩ ∧
      ¬ UniqueNames
        (createDevices [allocConfig "[a]", allocConfig "[a]"] ⟨noDevices, []⟩).tree ∧
      (addSingleLun [] someTpg (allocDev ⟨"a*", by decide⟩)
        (createDevices [allocConfig "ab", allocConfig "ac", allocConfig "a*"]
          ⟨noDevices, []⟩)).1 = .exception := by
  refine ⟨by decide +kernel, by decide +kernel, ?_, by decide +kernel⟩
  intro hunique
  have heq := hunique "user_" (by decide) "[a]" "user_0" "user_1"
    (isHba_append (by decide) "0") (isHba_append (by decide) "1") (by decide +kernel)
    (by decide +kernel)
  exact absurd heq (by decide)

end CreateDevices

end LioProject
