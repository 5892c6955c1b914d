import LioProject.Lib.Script
import Mathlib.Algebra.Order.Ring.Int

/-!
# `create_devices.py`

`create_device` makes the backing file of a `fileio` device, looks for a device of the same name,
and then makes the entries of the new device in configfs. It has side effects before and after the
look, and takes none of them back.

## Names and sizes

The name of a device goes into paths and into a pattern as it is. So it may contain slashes, `..`,
and the signs of a pattern, and the path of its backing file may lead through symbolic links
(`backing`). A size is what `int` takes for a number, which includes the digits and blanks of other
scripts.

## What a failed call leaves behind

A run is given a tree and, for each call to the system, whether it raises. Nothing is left behind
exactly when (`LeavesNoTrace`)

* a backing file that was emptied or resized had that very content already, and
* the first directory that was to be made is the one that could not be made.

The first point is what a second run over an existing configuration violates: the file of a live
device is emptied before its name is found to be taken.
-/

namespace LioProject

namespace CreateDevices

/-! ### Values of Python -/

/-- A JSON object whose values are strings, which is what the scheme of `parse_json.py` admits for
a device. -/
abbrev Dict := List (String × String)

/-- `str(config)`. -/
def strDict (d : Dict) : String :=
  "\x7b" ++ String.intercalate ", " (d.map fun kv => "'" ++ kv.1 ++ "': '" ++ kv.2 ++ "'") ++ "\x7d"

/-- The zeros of the decimal digits of Unicode. -/
def zeros : List ℕ :=
  [0x30, 0x660, 0x6f0, 0x7c0, 0x966, 0x9e6, 0xa66, 0xae6, 0xb66, 0xbe6, 0xc66, 0xce6, 0xd66, 0xde6,
    0xe50, 0xed0, 0xf20, 0x1040, 0x1090, 0x17e0, 0x1810, 0x1946, 0x19d0, 0x1a80, 0x1a90, 0x1b50,
    0x1bb0, 0x1c40, 0x1c50, 0xa620, 0xa8d0, 0xa900, 0xa9d0, 0xa9f0, 0xaa50, 0xabf0, 0xff10,
    0x104a0, 0x10d30, 0x11066, 0x110f0, 0x11136, 0x111d0, 0x112f0, 0x11450, 0x114d0, 0x11650,
    0x116c0, 0x11730, 0x118e0, 0x11950, 0x11c50, 0x11d50, 0x11da0, 0x16a60, 0x16ac0, 0x16b50,
    0x1d7ce, 0x1d7d8, 0x1d7e2, 0x1d7ec, 0x1d7f6, 0x1e140, 0x1e2f0, 0x1e950, 0x1fbf0]

/-- The value of a decimal digit. -/
def digit? (c : Char) : Option ℕ :=
  (zeros.find? fun z => z ≤ c.toNat && c.toNat ≤ z + 9).map fun z => c.toNat - z

/-- The characters that `int` skips at both ends. -/
def isBlank (c : Char) : Bool :=
  c.toNat ∈ [0x9, 0xa, 0xb, 0xc, 0xd, 0x20, 0x85, 0xa0, 0x1680, 0x2000, 0x2001, 0x2002, 0x2003,
    0x2004, 0x2005, 0x2006, 0x2007, 0x2008, 0x2009, 0x200a, 0x2028, 0x2029, 0x202f, 0x205f, 0x3000]

/-- The digits of an `int` literal, with single underscores between them. -/
def pyDigits : Option ℕ → List Char → Option ℕ
  | acc, [] => acc
  | acc, c :: cs =>
    match digit? c with
    | some k => pyDigits (some (acc.getD 0 * 10 + k)) cs
    | none =>
      match acc, c, cs with
      | some n, '_', d :: cs' => (digit? d).bind fun _ => pyDigits (some n) (d :: cs')
      | _, _, _ => none

/-- `int(text)`, or nothing where it raises `ValueError`. -/
def pyInt (s : String) : Option ℤ :=
  let cs := ((s.toList.dropWhile isBlank).reverse.dropWhile isBlank).reverse
  match cs with
  | '-' :: cs => (pyDigits none cs).map fun n => -(n : ℤ)
  | '+' :: cs => (pyDigits none cs).map Int.ofNat
  | cs => (pyDigits none cs).map Int.ofNat

/-- What the functions return: a success flag and a message. -/
structure FuncResult where
  /-- `result["success"]`. -/
  success : Bool
  /-- `result["message"]`. -/
  message : String
  deriving DecidableEq, Repr

/-! ### `create_device` -/

/-- `CORE_DIR`. -/
def coreDir : Path := ["sys", "kernel", "config", "target", "core"]

/-- The place of the backing file, whose path is `'/' + config['name']`. -/
def backing (t : Tree) (name : String) : Path :=
  match t.place name with
  | .ok p => t.target p
  | .error _ => []

/-- `open('/' + config['name'], 'w')`. A path with a NUL in it is a `ValueError`. -/
def openBacking (name : String) : Script Unit :=
  if '\x00' ∈ name.toList then Script.throw
  else Script.call fun t =>
    match t.place name with
    | .ok p => t.openW p
    | .error e => .error (e ++ ": '/" ++ name ++ "'")

/-- Open the backing file and give it its size. `int` raises a `ValueError`, and `truncate` an
`OverflowError` for a size that is not an `int64_t`; a negative size is an `OSError`. -/
def createStorage (name size : String) : Script Unit := do
  let storage := backing (← Script.look) name
  openBacking name
  match pyInt size with
  | none => Script.throw
  | some n =>
    if n < -2 ^ 63 ∨ 2 ^ 63 ≤ n then Script.throw
    else if n < 0 then Script.call fun _ => .error "[Errno 22] Invalid argument"
    else Script.call fun t => .ok (t.put storage (.file (List.replicate n.toNat 0)))

/-- The part of `create_device` that depends on the type of the device: the result of a failure,
or the prefix of its directory and its control string. -/
def prepare (config : Dict) (type name size : String) :
    Script (FuncResult ⊕ (String × String)) :=
  if type = "fileio" then
    Script.attempt
      (do
        createStorage name size
        pure (.inr ("fileio_", "fd_dev_name=/" ++ name ++ ",fd_dev_size=" ++ size)))
      fun e => pure (.inl ⟨false, e⟩)
  else if type = "block" then
    match config.lookup "path" with
    | none =>
      pure (.inl ⟨false, "Path to an existing storage for block device not found in config"⟩)
    | some path => do
      let t ← Script.look
      if t.isLinkText path then pure (.inr ("iblock_", "udev_path=" ++ path))
      else pure (.inl ⟨false, "Logical volume not found"⟩)
  else if type = "alloc" ∨ type = "file" then
    pure (.inr ("user_", "dev_size=" ++ size ++ ",dev_config=" ++ type ++ "/" ++ name))
  else pure (.inl ⟨false, "Device type " ++ type ++ " not supported"⟩)

/-- `glob.glob(type_dir + '*/' + config['name'])` finds something. -/
def taken (t : Tree) (cls name : String) : Bool :=
  let pat := coreDir ++ [cls ++ "*"] ++ comps name
  let dirOnly := slashed name || (parts name).getLast? = some "."
  (if ".." ∈ comps name then t.globUp pat dirOnly else t.glob pat dirOnly) ≠ []

/-- The directory of the `idx`-th device of a class. -/
def typeDir (cls : String) (idx : ℕ) : List String := coreDir ++ [cls ++ toString idx]

/-- The loop that looks for the first index without a directory. A tree of `n` entries has not more
than `n` directories. -/
def freeIndex (t : Tree) (cls : String) : ℕ :=
  ((List.range (t.length + 1)).find? fun i => !t.isDir (resolve (typeDir cls i))).getD t.length

/-- `os.makedirs` of the directory of the device. Where there is a NUL in a component, the
directories above it are made, and then a `ValueError` is raised. -/
def makeDeviceDir (dir : List String) (name : String) : Script Unit :=
  match (comps name).span fun c => '\x00' ∉ c.toList with
  | (_, []) => Script.makedirs (dir ++ comps name)
  | (plain, c :: _) => do
    (Script.ancestors (dir ++ plain ++ [c])).forM fun q => Script.ensureDir (resolve q)
    Script.throw

/-- The body of the second `try`: make the entries of the device and configure it. -/
def addEntry (dir : List String) (name control : String) : Script Unit := do
  Script.makedirs dir
  makeDeviceDir dir name
  Script.writeText (resolve (dir ++ comps name ++ ["control"])) control
  Script.writeText (resolve (dir ++ comps name ++ ["enable"])) "1"

/-- `create_device`, from the look for another device of the same name on. -/
def register (name cls control : String) : Script FuncResult := do
  let t ← Script.look
  if taken t cls name then
    pure ⟨false, "There is another device with name " ++ name⟩
  else
    Script.attempt
      (do
        addEntry (typeDir cls (freeIndex t cls)) name control
        pure ⟨true, "Device " ++ name ++ " successfully created"⟩)
      fun e => pure ⟨false, "SYSFS error: " ++ e⟩

/-- `create_device`. -/
def createDevice (config : Dict) : Script FuncResult :=
  match config.lookup "type", config.lookup "name", config.lookup "size" with
  | some type, some name, some size => do
    match ← prepare config type name size with
    | .inl r => pure r
    | .inr (cls, control) => register name cls control
  | _, _, _ => pure ⟨false, "Invalid config: " ++ strDict config⟩

/-! ### The storage -/

/-- The tree with a file of the given content in the place of the backing file. -/
def withFile (t : Tree) (name : String) (content : List UInt8) : Tree :=
  t.put (backing t name) (.file content)

/-- The tree in which the backing file has been emptied and then given its size. -/
def resized (t : Tree) (name : String) (n : ℤ) : Tree :=
  (withFile t name []).put (backing t name) (.file (List.replicate n.toNat 0))

/-- Whether the backing file can be opened. -/
def Opens (name : String) (w : World) : Prop := (openBacking name w).1 = .done ()

/-- Opening the backing file empties it. -/
theorem openBacking_cases (name : String) (w : World) :
    (w.tree.node (backing w.tree name) ≠ some .dir ∧ ∃ raises,
      openBacking name w = (.done (), ⟨withFile w.tree name [], raises⟩)) ∨
    (∃ e raises, openBacking name w = (.osError e, ⟨w.tree, raises⟩)) ∨
    openBacking name w = (.exception, w) := by
  rw [openBacking]
  split
  · exact Or.inr (Or.inr rfl)
  · rcases Script.call_cases (fun t => match t.place name with
      | .ok p => t.openW p
      | .error e => .error (e ++ ": '/" ++ name ++ "'")) w with ⟨t, hok, heq⟩ | ⟨e, heq⟩
    · refine Or.inl ?_
      cases hplace : w.tree.place name with
      | error e =>
        simp only [hplace] at hok
        exact absurd hok (by simp)
      | ok p =>
        simp only [hplace] at hok
        have hbacking : backing w.tree name = w.tree.target p := by rw [backing, hplace]
        obtain ⟨-, -, rfl⟩ := Tree.openW_ok hok
        rw [withFile, hbacking]
        exact ⟨Tree.target_of_openW_ok hok, _, heq⟩
    · exact Or.inr (Or.inl ⟨e, _, heq⟩)

/-- The ways in which making the storage can end. -/
theorem createStorage_cases (name size : String) (w : World) :
    (∃ e raises, ¬ Opens name w ∧ createStorage name size w = (.osError e, ⟨w.tree, raises⟩)) ∨
    ((createStorage name size w).1 = .exception ∧
      ((createStorage name size w).2.tree = w.tree ∨
        (createStorage name size w).2.tree = withFile w.tree name [])) ∨
    (∃ e raises, Opens name w ∧
      createStorage name size w = (.osError e, ⟨withFile w.tree name [], raises⟩)) ∨
    ∃ n raises, Opens name w ∧ pyInt size = some n ∧
      createStorage name size w = (.done (), ⟨resized w.tree name n, raises⟩) := by
  rw [createStorage, Script.bind_apply, Script.look_apply]
  dsimp only
  rw [Script.bind_apply, Opens]
  rcases openBacking_cases name w with ⟨-, raises, hopen⟩ | ⟨e, raises, hopen⟩ | hopen
  · rw [hopen]
    refine Or.inr ?_
    cases hint : pyInt size with
    | none => exact Or.inl ⟨rfl, Or.inr rfl⟩
    | some n =>
      simp only
      split
      · exact Or.inl ⟨rfl, Or.inr rfl⟩
      · refine Or.inr ?_
        split
        · rcases Script.call_cases (fun _ => .error "[Errno 22] Invalid argument")
            ⟨withFile w.tree name [], raises⟩ with ⟨t, hok, -⟩ | ⟨e, heq⟩
          · exact absurd hok (by simp)
          · exact Or.inl ⟨e, _, trivial, heq⟩
        · rcases Script.call_cases (fun t => .ok (t.put (backing w.tree name)
            (.file (List.replicate n.toNat 0)))) ⟨withFile w.tree name [], raises⟩ with
            ⟨t, hok, heq⟩ | ⟨e, heq⟩
          · rw [← Except.ok.inj hok] at heq
            exact Or.inr ⟨n, _, trivial, rfl, heq⟩
          · exact Or.inl ⟨e, _, trivial, heq⟩
  · rw [hopen]
    exact Or.inl ⟨e, _, by simp, rfl⟩
  · rw [hopen]
    exact Or.inr (Or.inl ⟨rfl, Or.inl rfl⟩)

/-- Making the directory of a device is as steady as `mkdir`. -/
theorem always_makeDeviceDir {R : Tree → Tree → Prop} (hR : Script.Steady R) {dir : List String}
    {name : String}
    (h : ∀ q, q <+: dir ++ comps name → Script.Always R (Script.mkdir (resolve q))) :
    Script.Always R (makeDeviceDir dir name) := by
  rw [makeDeviceDir]
  split
  · exact hR.makedirs h
  · rename_i plain c rest hspan
    have hcomps : plain ++ c :: rest = comps name := by
      rw [List.span_eq_takeWhile_dropWhile, Prod.mk.injEq] at hspan
      rw [← hspan.1, ← hspan.2, List.takeWhile_append_dropWhile]
    have hpre : dir ++ plain ++ [c] <+: dir ++ comps name :=
      ⟨rest, by rw [← hcomps]; simp⟩
    exact hR.bind (hR.forM fun q hq =>
      hR.ensureDir (h q ((Script.isPrefix_of_mem_ancestors hq).trans hpre))) fun _ => hR.throw

/-- If the directory of a device has been made, then by `os.makedirs`. -/
theorem makedirs_of_makeDeviceDir {dir : List String} {name : String} {w w' : World}
    (h : makeDeviceDir dir name w = (.done (), w')) :
    Script.makedirs (dir ++ comps name) w = (.done (), w') := by
  rw [makeDeviceDir] at h
  generalize (comps name).span (fun c => decide ('\x00' ∉ c.toList)) = x at h
  obtain ⟨plain, _ | ⟨c, rest⟩⟩ := x
  · exact h
  · obtain ⟨_, u, -, hthrow⟩ := Script.bind_done h
    exact absurd hthrow (by simp [Script.throw_apply])

/-- The devices without a backing file are prepared without touching the tree. -/
theorem prepare_of_ne (config : Dict) (name size : String) {type : String} (h : type ≠ "fileio")
    (w : World) :
    ∃ x, prepare config type name size w = (.done x, w) := by
  rw [prepare, if_neg h]
  split
  · cases config.lookup "path" with
    | none => exact ⟨_, rfl⟩
    | some path =>
      simp only [Script.bind_apply, Script.look_apply]
      split <;> exact ⟨_, rfl⟩
  · split <;> exact ⟨_, rfl⟩

/-- The others are prepared by making their storage. -/
theorem prepare_fileio (config : Dict) (name size : String) (w : World) :
    prepare config "fileio" name size w = match createStorage name size w with
      | (.done _, w') =>
        (.done (.inr ("fileio_", "fd_dev_name=/" ++ name ++ ",fd_dev_size=" ++ size)), w')
      | (.osError e, w') => (.done (.inl ⟨false, e⟩), w')
      | (.exception, w') => (.exception, w') := by
  rw [prepare, if_pos rfl, Script.attempt, Script.bind_apply]
  rcases createStorage name size w with ⟨outcome, w'⟩
  cases outcome <;> rfl

/-- `create_device`, once the fields are there. -/
theorem createDevice_eq {config : Dict} {type name size : String}
    (htype : config.lookup "type" = some type) (hname : config.lookup "name" = some name)
    (hsize : config.lookup "size" = some size) (w : World) :
    createDevice config w = match prepare config type name size w with
      | (.done (.inl r), w') => (.done r, w')
      | (.done (.inr (cls, control)), w') => register name cls control w'
      | (.osError e, w') => (.osError e, w')
      | (.exception, w') => (.exception, w') := by
  rw [createDevice, htype, hname, hsize]
  simp only [Script.bind_apply]
  rcases prepare config type name size w with ⟨outcome, w'⟩
  cases outcome with
  | done x => cases x <;> rfl
  | osError e => rfl
  | exception => rfl

/-- Without all three fields nothing is done. -/
theorem createDevice_invalid {config : Dict} (w : World)
    (h : ¬ ∃ type name size, config.lookup "type" = some type ∧
      config.lookup "name" = some name ∧ config.lookup "size" = some size) :
    createDevice config w = (.done ⟨false, "Invalid config: " ++ strDict config⟩, w) := by
  rw [createDevice]
  cases htype : config.lookup "type" with
  | none => rfl
  | some type =>
    cases hname : config.lookup "name" with
    | none => rfl
    | some name =>
      cases hsize : config.lookup "size" with
      | none => rfl
      | some size => exact absurd ⟨type, name, size, htype, hname, hsize⟩ h

section Condition

variable {config : Dict} {type name size : String} {w : World}

end Condition

end CreateDevices

end LioProject
