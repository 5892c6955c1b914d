import LioProject.Lib.Json
import LioProject.Scripts.CreateDevices

/-!
# `parse_json.py` and `generate_initial_json.py`

Three places describe the format of a configuration: the generator, which writes one, the scheme,
against which it is validated, and `get_internal_jsons`, which takes it apart. They do not agree.

* The generator writes a member `initiator`, and the scheme requires `initiators`. So nothing that
  the generator writes is accepted.
* The scheme says nothing about the member `io`, which `main` reads and `get_internal_jsons` goes
  through for each initiator. An accepted configuration is processed exactly if there is such a
  member and, unless there are no initiators, it is an array of objects with a member `initiator`,
  or an empty object or string (`UsableIo`).
-/

namespace LioProject

namespace ParseJson

/-! ### The scheme -/

/-- `SCHEME`. -/
def scheme : Schema :=
  .object
    [("target", .object [("name", .string)] ["name"]),
      ("devices", .array (.object
        [("name", .string), ("type", .string), ("size", .string)] ["name", "type", "size"])),
      ("initiators", .array (.object [("name", .string)] ["name"]))]
    ["target", "devices", "initiators"]

/-! ### The generator -/

/-- `int(arg) if arg else default`, or nothing where `int` raises. -/
def intArg (arg : Option String) (default : ℤ) : Option ℤ :=
  match arg with
  | none => some default
  | some s => if s = "" then some default else CreateDevices.pyInt s

/-- The types of devices that are generated. -/
def devTypes : List String := ["fileio", "file", "alloc"]

/-- The device types and numbers, in the order of the loops. -/
def generated (devCount : ℤ) : List (String × ℕ) :=
  (List.range devCount.toNat).flatMap fun i => devTypes.map fun devType => (devType, i + 1)

/-- The configuration that is written. -/
def initialJson (bs size devCount : ℤ) : Json :=
  .obj
    [("target", .obj [("name", .str "tgt1")]),
      ("initiator", .obj [("name", .str "init1")]),
      ("devices", .arr ((generated devCount).map fun d => .obj
        [("name", .str (d.1 ++ toString d.2)), ("type", .str d.1),
          ("size", .str (toString size))])),
      ("io", .arr ((generated devCount).map fun d => .obj
        [("initiator", .str "init1"), ("device", .str (d.1 ++ toString d.2)),
          ("size", .str (toString size)), ("bs", .str (toString bs))]))]

/-- `main` of the generator, with its arguments. -/
def generateInitialJson (bs size devCount : Option String) : Option Json := do
  let bs ← intArg bs 4096
  let size ← intArg size (bs * 10)
  let devCount ← intArg devCount 4
  pure (initialJson bs size devCount)

/-! ### The internal configurations -/

section Internal

variable (month : String)

/-- `generate_target_iqn`, in the given month. -/
def generateTargetIqn (name : Json) : Except PyError String :=
  name.concat ("iqn." ++ month ++ ".com.lio-project:tgt-")

/-- `generate_initiator_iqn`, in the given month. -/
def generateInitiatorIqn (name : Json) : Except PyError String :=
  name.concat ("iqn." ++ month ++ ".com.lio-project:init-")

/-- The first loop: number the devices. -/
def numberDevices (idx : ℕ) : List Json → Except PyError (List Json)
  | [] => .ok []
  | dev :: devs => do
    let dev ← dev.setItem "lun" (.str ("lun_" ++ toString idx))
    let devs ← numberDevices (idx + 1) devs
    pure (dev :: devs)

/-- A value that was gone through, with the items as they are then. -/
def withItems : Json → List Json → Json
  | .arr _, items => .arr items
  | v, _ => v

/-- `[io for io in io_json if io['initiator'] == init['name']]`. -/
def chooseIo (name : Json) : List Json → Except PyError (List Json)
  | [] => .ok []
  | io :: ios => do
    let initiator ← io.getItem "initiator"
    let chosen ← chooseIo name ios
    pure (if initiator.sameStr name then io :: chosen else chosen)

/-- The body of the second loop: what becomes of an initiator, and its IQN. -/
def completeInit (tgt devs io init : Json) : Except PyError (Json × Json) := do
  let init ← init.setItem "target_iqn" (← tgt.getItem "iqn")
  let iqn ← generateInitiatorIqn month (← init.getItem "name")
  let init ← init.setItem "iqn" (.str iqn)
  let init ← init.setItem "devices" devs
  let chosen ← chooseIo (← init.getItem "name") (← io.iter)
  let init ← init.setItem "io" (.arr chosen)
  pure (init, .str iqn)

/-- The second loop: the initiators, and what goes into the ACL. -/
def completeInits (tgt devs io : Json) : List Json → Except PyError (List Json × List Json)
  | [] => .ok ([], [])
  | init :: inits => do
    let (init, iqn) ← completeInit month tgt devs io init
    let (inits, iqns) ← completeInits tgt devs io inits
    pure (init :: inits, iqn :: iqns)

/-- What `get_internal_jsons` returns. -/
structure InternalJsons where
  /-- `tgt_json`. -/
  tgt : Json
  /-- `inits_json`. -/
  inits : Json
  /-- `devs_json`. -/
  devs : Json

/-- `get_internal_jsons`. -/
def getInternalJsons (tgt inits devs io : Json) : Except PyError InternalJsons := do
  let devs := withItems devs (← numberDevices 0 (← devs.iter))
  let iqn ← generateTargetIqn month (← tgt.getItem "name")
  let tgt ← tgt.setItem "iqn" (.str iqn)
  let tgt ← tgt.setItem "devices" devs
  let tgt ← tgt.setItem "acl" (.arr [])
  let (items, acl) ← completeInits month tgt devs io (← inits.iter)
  let tgt ← tgt.setItem "acl" (.arr acl)
  pure ⟨tgt, withItems inits items, devs⟩

/-- The main path of `main`, from the validated configuration on. -/
def mainPath (config : Json) : Except PyError InternalJsons := do
  let tgt ← config.getItem "target"
  let inits ← config.getItem "initiators"
  let devs ← config.getItem "devices"
  let io ← config.getItem "io"
  getInternalJsons month tgt inits devs io

end Internal

/-! ### What is processed -/

/-- A value that `get_internal_jsons` can go through for an initiator. -/
def Usable (io : Json) : Prop :=
  io = .str "" ∨ io = .obj [] ∨
    ∃ ios, io = .arr ios ∧ ∀ x ∈ ios, ∃ w, x.member "initiator" = some w

/-- A configuration whose member `io` is there and, if there are initiators, usable. -/
def UsableIo (config : Json) : Prop :=
  ∃ io, config.member "io" = some io ∧ (config.member "initiators" = some (.arr []) ∨ Usable io)

theorem returns_chooseIo (name : Json) {ios : List Json} :
    Returns (chooseIo name ios) ↔ ∀ x ∈ ios, ∃ w, x.member "initiator" = some w := by
  induction ios with
  | nil => simp [chooseIo, returns_ok]
  | cons io ios ih =>
    rw [chooseIo, returns_bind, List.forall_mem_cons, ← ih, ← Json.returns_getItem]
    constructor
    · rintro ⟨initiator, hget, h⟩
      obtain ⟨chosen, hchoose, -⟩ := returns_bind.mp h
      exact ⟨⟨initiator, hget⟩, chosen, hchoose⟩
    · rintro ⟨⟨initiator, hget⟩, chosen, hchoose⟩
      exact ⟨initiator, hget, returns_bind.mpr ⟨chosen, hchoose, returns_pure _⟩⟩

/-- The elements of a usable value have a member `initiator`. -/
theorem usable_iff {io : Json} : Usable io ↔
    ∃ ios, io.iter = .ok ios ∧ ∀ x ∈ ios, ∃ w, x.member "initiator" = some w := by
  cases io with
  | arr ios => simp [Usable, Json.iter]
  | obj members =>
    cases members with
    | nil => simp [Usable, Json.iter]
    | cons kv members => simp [Usable, Json.iter, Json.member]
  | str s =>
    cases hs : s.toList with
    | nil =>
      obtain rfl : s = "" := String.toList_injective hs
      simp [Usable, Json.iter]
    | cons c cs =>
      have hne : s ≠ "" := by
        rintro rfl
        exact absurd hs (by simp)
      simp [Usable, Json.iter, hs, Json.member, hne]
  | null => simp [Usable, Json.iter]
  | bool b => simp [Usable, Json.iter]
  | num n => simp [Usable, Json.iter]

variable (month : String)

/-- What an initiator of an accepted configuration needs. -/
theorem returns_completeInit (devs io : Json) {tgt tgtIqn : Json} {members : List (String × Json)}
    {name : String} (htgt : tgt.getItem "iqn" = .ok tgtIqn)
    (hname : members.lookup "name" = some (.str name)) :
    Returns (completeInit month tgt devs io (.obj members)) ↔ Usable io := by
  have hname₁ : (Json.insert members "target_iqn" tgtIqn).lookup "name" = some (.str name) := by
    rw [Json.lookup_insert_of_ne (by decide), hname]
  have hname₂ : ∀ iqn, (Json.insert (Json.insert (Json.insert members "target_iqn" tgtIqn) "iqn"
      iqn) "devices" devs).lookup "name" = some (.str name) := by
    intro iqn
    rw [Json.lookup_insert_of_ne (by decide), Json.lookup_insert_of_ne (by decide), hname₁]
  simp only [completeInit, htgt, ok_bind, Json.setItem, Json.getItem_eq hname₁,
    generateInitiatorIqn, Json.concat, Json.getItem_eq (hname₂ _)]
  rw [usable_iff, returns_bind]
  refine exists_congr fun ios => and_congr_right fun _ => ?_
  rw [returns_bind, ← returns_chooseIo (.str name)]
  constructor
  · rintro ⟨chosen, hchosen, -⟩
    exact ⟨chosen, hchosen⟩
  · rintro ⟨chosen, hchosen⟩
    exact ⟨chosen, hchosen, returns_pure _⟩

/-- What the initiators of an accepted configuration need. -/
theorem returns_completeInits (devs io : Json) {tgt tgtIqn : Json}
    (htgt : tgt.getItem "iqn" = .ok tgtIqn) {inits : List Json}
    (hinits : ∀ init ∈ inits, ∃ members name, init = .obj members ∧
      members.lookup "name" = some (.str name)) :
    Returns (completeInits month tgt devs io inits) ↔ inits = [] ∨ Usable io := by
  induction inits with
  | nil => simp [completeInits, returns_ok]
  | cons init inits ih =>
    obtain ⟨members, name, rfl, hname⟩ := hinits init (List.mem_cons_self ..)
    have ih := ih fun i hi => hinits i (List.mem_cons_of_mem _ hi)
    have hinit := returns_completeInit month devs io htgt hname
    rw [completeInits, returns_bind]
    constructor
    · rintro ⟨x, hx, -⟩
      exact Or.inr (hinit.mp ⟨x, hx⟩)
    · rintro (hnil | husable)
      · exact absurd hnil (by simp)
      · obtain ⟨x, hx⟩ := hinit.mpr husable
        obtain ⟨y, hy⟩ := ih.mpr (Or.inr husable)
        exact ⟨x, hx, returns_bind.mpr ⟨y, hy, returns_pure _⟩⟩

theorem returns_numberDevices {devs : List Json} (h : ∀ dev ∈ devs, ∃ members, dev = .obj members)
    (idx : ℕ) : Returns (numberDevices idx devs) := by
  induction devs generalizing idx with
  | nil => exact returns_ok _
  | cons dev devs ih =>
    obtain ⟨members, rfl⟩ := h dev (List.mem_cons_self ..)
    obtain ⟨rest, hrest⟩ := ih (fun d hd => h d (List.mem_cons_of_mem _ hd)) (idx + 1)
    exact returns_bind.mpr ⟨_, rfl, returns_bind.mpr ⟨rest, hrest, returns_pure _⟩⟩

/-- What `get_internal_jsons` needs of the parts of an accepted configuration. -/
theorem returns_getInternalJsons (io : Json) {tgt : List (String × Json)} {name : String}
    {inits devs : List Json} (hname : tgt.lookup "name" = some (.str name))
    (hdevs : ∀ dev ∈ devs, ∃ members, dev = .obj members)
    (hinits : ∀ init ∈ inits, ∃ members name, init = .obj members ∧
      members.lookup "name" = some (.str name)) :
    Returns (getInternalJsons month (.obj tgt) (.arr inits) (.arr devs) io) ↔
      inits = [] ∨ Usable io := by
  obtain ⟨numbered, hnumbered⟩ := returns_numberDevices hdevs 0
  have hiqn : ∀ iqn, (Json.obj (Json.insert (Json.insert (Json.insert tgt "iqn" iqn) "devices"
      (.arr numbered)) "acl" (.arr []))).getItem "iqn" = .ok iqn := by
    intro iqn
    refine Json.getItem_eq ?_
    rw [Json.lookup_insert_of_ne (by decide), Json.lookup_insert_of_ne (by decide),
      Json.lookup_insert_self]
  simp only [getInternalJsons, Json.iter, ok_bind, hnumbered, Json.getItem_eq hname,
    generateTargetIqn, Json.concat, Json.setItem, withItems]
  rw [returns_bind, ← returns_completeInits month _ _ (hiqn _) hinits]
  constructor
  · rintro ⟨x, hx, -⟩
    exact ⟨x, hx⟩
  · rintro ⟨x, hx⟩
    exact ⟨x, hx, returns_ok _⟩

/-- An object with a name. -/
theorem named_valid {v : Json}
    (h : (Schema.object [("name", .string)] ["name"]).valid v = true) :
    ∃ members name, v = .obj members ∧ members.lookup "name" = some (.str name) := by
  obtain ⟨members, rfl, hproperties, hkeys⟩ := Schema.valid_object.mp h
  obtain ⟨w, hw⟩ := hkeys "name" (by simp)
  obtain ⟨name, rfl⟩ := Schema.valid_string.mp (hproperties ("name", .string) (by simp) w hw)
  exact ⟨members, name, rfl, hw⟩

/-- What the scheme says about an accepted configuration. -/
theorem scheme_valid {config : Json} (h : scheme.valid config = true) :
    ∃ members tgt inits devs name, config = .obj members ∧
      members.lookup "target" = some (.obj tgt) ∧ tgt.lookup "name" = some (.str name) ∧
      members.lookup "devices" = some (.arr devs) ∧
      (∀ dev ∈ devs, ∃ members, dev = .obj members) ∧
      members.lookup "initiators" = some (.arr inits) ∧
      ∀ init ∈ inits, ∃ members name, init = .obj members ∧
        members.lookup "name" = some (.str name) := by
  obtain ⟨members, rfl, hproperties, hkeys⟩ := Schema.valid_object.mp h
  simp only [List.mem_cons, List.not_mem_nil, or_false, forall_eq_or_imp, forall_eq]
    at hproperties hkeys
  obtain ⟨htarget, hdevices, hinitiators⟩ := hproperties
  obtain ⟨⟨vtgt, htgt⟩, ⟨vdevs, hdevs⟩, ⟨vinits, hinits⟩⟩ := hkeys
  obtain ⟨tgt, name, rfl, hname⟩ := named_valid (htarget vtgt htgt)
  obtain ⟨devs, rfl, hdev⟩ := Schema.valid_array.mp (hdevices vdevs hdevs)
  obtain ⟨inits, rfl, hinit⟩ := Schema.valid_array.mp (hinitiators vinits hinits)
  refine ⟨members, tgt, inits, devs, name, rfl, htgt, hname, hdevs, fun dev hmem => ?_, hinits,
    fun init hmem => named_valid (hinit init hmem)⟩
  obtain ⟨members, rfl, -⟩ := Schema.valid_object.mp (hdev dev hmem)
  exact ⟨members, rfl⟩

/-- An accepted configuration is processed exactly if its member `io` is usable. -/
theorem returns_mainPath {config : Json} (h : scheme.valid config = true) :
    Returns (mainPath month config) ↔ UsableIo config := by
  obtain ⟨members, tgt, inits, devs, name, rfl, htgt, hname, hdevs, hdev, hinits, hinit⟩ :=
    scheme_valid h
  simp only [mainPath, Json.getItem_eq htgt, Json.getItem_eq hinits, Json.getItem_eq hdevs, ok_bind]
  rw [returns_bind, UsableIo]
  constructor
  · rintro ⟨io, hio, hreturns⟩
    obtain ⟨w, hw⟩ := Json.returns_getItem.mp ⟨io, hio⟩
    obtain rfl : w = io := by
      rw [Json.getItem_eq hw] at hio
      exact Except.ok.inj hio
    refine ⟨w, hw, ?_⟩
    rcases (returns_getInternalJsons month w hname hdev hinit).mp hreturns with rfl | husable
    · exact Or.inl hinits
    · exact Or.inr husable
  · rintro ⟨io, hio, husable⟩
    refine ⟨io, Json.getItem_eq hio, (returns_getInternalJsons month io hname hdev hinit).mpr ?_⟩
    refine husable.imp_left fun hnil => ?_
    rw [Json.member, hinits] at hnil
    simpa using hnil

/-- Nothing that the generator writes is accepted. -/
theorem initialJson_invalid (bs size devCount : ℤ) :
    scheme.valid (initialJson bs size devCount) = false := by
  by_contra hvalid
  rw [Bool.not_eq_false] at hvalid
  obtain ⟨members, heq, -, hkeys⟩ := Schema.valid_object.mp hvalid
  obtain ⟨w, hw⟩ := hkeys "initiators" (by simp)
  obtain rfl := Json.obj.inj heq
  exact absurd hw (by simp [List.lookup_cons])

/-- **The formats do not agree.** Whatever its arguments are, what the generator writes is not
accepted. And an accepted configuration is processed without a `KeyError` or a `TypeError` exactly
if it has a usable member `io`. -/
theorem formats_agree_iff :
    (∀ bs size devCount config, generateInitialJson bs size devCount = some config →
      scheme.valid config = false) ∧
    ∀ config, (scheme.valid config = true → ∀ e, mainPath month config ≠ .error e) ↔
      (scheme.valid config = true → UsableIo config) := by
  refine ⟨fun bs size devCount config hgen => ?_, fun config => ?_⟩
  · simp only [generateInitialJson, Option.bind_eq_bind, Option.bind_eq_some_iff,
      Option.pure_def, Option.some.injEq] at hgen
    obtain ⟨bs, -, size, -, devCount, -, rfl⟩ := hgen
    exact initialJson_invalid bs size devCount
  · refine imp_congr_right fun hvalid => ?_
    rw [← returns_mainPath month hvalid]
    cases mainPath month config with
    | ok r => simp [returns_ok]
    | error e => simp [not_returns_error]

/-- A configuration without a member `io`. -/
def noIo : Json :=
  .obj [("target", .obj [("name", .str "tgt1")]), ("devices", .arr []), ("initiators", .arr [])]

/-- **What the generator writes with its defaults is not accepted, and an accepted configuration
without a member `io` ends in a `KeyError`.** -/
theorem formats_disagree :
    (∃ config, generateInitialJson none none none = some config ∧
      scheme.valid config = false) ∧
    scheme.valid noIo = true ∧ mainPath "2018-10" noIo = .error (.keyError "io") :=
  ⟨⟨_, rfl, initialJson_invalid _ _ _⟩, by decide, rfl⟩

end ParseJson

end LioProject
