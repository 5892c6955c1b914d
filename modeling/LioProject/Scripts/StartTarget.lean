import LioProject.Lib.Script
import LioProject.Scripts.CreateDevices

/-!
# `start_target.py`

`create_target` makes a target, its portal group, its ACL and its portal in configfs, and then, for
each configured device, a LUN with a link to the device and, for each initiator in the ACL, a
mapped LUN with a link to that LUN.

Directories that exist already are kept. For a LUN this means that the device is skipped as a
whole, and for a mapped LUN that the initiators behind it are skipped: both are early returns of
`add_single_lun`, and `add_luns` does not look at its results.
-/

namespace LioProject

namespace StartTarget

open CreateDevices (coreDir)

/-! ### Configurations -/

/-- A name that configfs takes for a directory: one component of a path. -/
structure DirName where
  /-- The name. -/
  name : String
  /-- It is one component. -/
  plain : name ≠ "" ∧ name ≠ "." ∧ name ≠ ".." ∧ '/' ∉ name.toList
  deriving DecidableEq

/-- A device of a target. -/
structure Dev where
  /-- `dev['type']`. -/
  type : String
  /-- `dev['name']`. -/
  name : DirName
  /-- `dev['lun']`. -/
  lun : DirName
  deriving DecidableEq

/-- The configuration of a target. A missing key is `none`. -/
structure TargetConfig where
  /-- `config['name']`. -/
  name : Option String
  /-- `config['iqn']`. -/
  iqn : Option DirName
  /-- `config['acl']`. -/
  acl : Option (List DirName)
  /-- `config['devices']`. -/
  devices : Option (List Dev)

/-- What `build_func_result` builds. -/
structure FuncResult where
  /-- `result["success"]`. -/
  success : Bool
  /-- `result["message"]`. -/
  message : String
  /-- `result["args"]`. -/
  args : List Path
  deriving DecidableEq, Repr

/-- `re.match` with the pattern for IQNs, which looks at a beginning of the text: `iqn.`, some
character, digits and hyphens, and a dot. The rest of the pattern may match nothing. -/
def matchIqn (iqn : String) : Bool :=
  match iqn.toList with
  | 'i' :: 'q' :: 'n' :: '.' :: c :: cs =>
    c ≠ '\n' && (cs.dropWhile fun d => d.isDigit || d = '-').head? = some '.'
  | _ => false

/-! ### The script -/

/-- The directory of all targets. -/
def iscsiDir : Path := ["sys", "kernel", "config", "target", "iscsi"]

/-- `create_main_target_dir`. -/
def createMainTargetDir (iqn : DirName) : Script FuncResult := do
  let tgtDir := iscsiDir ++ [iqn.name]
  if matchIqn iqn.name then
    let t ← Script.look
    if !t.isDir iscsiDir then
      pure ⟨false, "Directory for target configuration does not exist", []⟩
    else if t.isDir tgtDir then pure ⟨false, "Target exists: " ++ iqn.name, [tgtDir]⟩
    else
      Script.attempt
        (do
          Script.makedirs tgtDir
          pure ⟨true, "Successfully created", [tgtDir]⟩)
        fun e => pure ⟨false, "Failed to create target: " ++ e, []⟩
  else pure ⟨false, "IQN does not match standards: " ++ iqn.name, []⟩

/-- The directories that the kernel makes in a new portal group. -/
def populate (tpgDir : Path) (t : Tree) : Tree :=
  ["lun", "acls", "np", "attrib", "param"].foldl (fun t d => t.put (tpgDir ++ [d]) .dir) t

/-- `create_tpg`. -/
def createTpg (tgtDir : Path) : Script FuncResult := do
  let tpgDir := tgtDir ++ ["tpgt_1"]
  let t ← Script.look
  if t.isDir tpgDir then pure ⟨false, "Target Portal Group already exists", [tpgDir]⟩
  else
    Script.makedirs tpgDir
    Script.kernel (populate tpgDir)
    pure ⟨true, "Target Portal Group successfully created", [tpgDir]⟩

/-- The loop at the end of `add_single_lun`: make the mapped LUNs of a device. -/
def mapLuns (tpgDir : Path) (lun : DirName) : List DirName → Script FuncResult
  | [] => pure ⟨true, "LUN successfully created", []⟩
  | init :: acl => do
    let mapDir := tpgDir ++ ["acls", init.name, lun.name]
    let t ← Script.look
    if t.isDir mapDir then pure ⟨false, "Mapping already exists", []⟩
    else
      Script.makedirs mapDir
      Script.symlink (tpgDir ++ ["lun", lun.name]) (mapDir ++ [lun.name])
      mapLuns tpgDir lun acl

/-- The pattern for the directories of a type of device. -/
def typePattern (type : String) : Option String :=
  if type = "fileio" then some "fileio_*"
  else if type = "block" then some "iblock_*"
  else if type = "file" ∨ type = "alloc" then some "user_*"
  else none

/-- `add_single_lun`. More than one device of the name ends the script. -/
def addSingleLun (acl : List DirName) (tpgDir : Path) (dev : Dev) : Script FuncResult := do
  let t ← Script.look
  if !t.isDir (tpgDir ++ ["lun"]) then pure ⟨false, "No sysfs entry for luns", []⟩
  else if !t.isDir coreDir then pure ⟨false, "No sysfs entry for devices", []⟩
  else
    match typePattern dev.type with
    | none => pure ⟨false, "Device type " ++ dev.type ++ " not supported", []⟩
    | some pattern =>
      match t.glob (coreDir ++ [pattern, dev.name.name]) false with
      | [] => pure ⟨false, "Device " ++ dev.name.name ++ " not found", []⟩
      | [devPath] =>
        if t.isDir (tpgDir ++ ["lun", dev.lun.name]) then pure ⟨false, "LUN already exists", []⟩
        else do
          Script.makedirs (tpgDir ++ ["lun", dev.lun.name])
          Script.symlink devPath (tpgDir ++ ["lun", dev.lun.name, dev.name.name])
          mapLuns tpgDir dev.lun acl
      | _ => Script.throw

/-- `add_luns`: the results are not looked at. -/
def addLuns (acl : List DirName) (devices : List Dev) (tpgDir : Path) : Script FuncResult := do
  devices.forM fun dev => do
    let _ ← addSingleLun acl tpgDir dev
    pure ()
  pure ⟨true, "Successfully created all luns", []⟩

/-- The middle part of `create_target`: enable the target, switch authentication off, fill the ACL
and make the portal. -/
def setUp (acl : List DirName) (tpgDir : Path) (ipaddr : String) : Script Unit := do
  Script.writeText (tpgDir ++ ["enable"]) "1"
  let t ← Script.look
  if !t.isDir (tpgDir ++ ["attrib"]) || !t.isDir (tpgDir ++ ["param"]) then Script.throw
  else
    Script.writeText (tpgDir ++ ["attrib", "authentication"]) "0"
    Script.writeText (tpgDir ++ ["param", "AuthMethod"]) "None"
    let t ← Script.look
    if !t.isDir (tpgDir ++ ["acls"]) then Script.throw
    else
      acl.forM fun init => do
        let t ← Script.look
        if t.isDir (tpgDir ++ ["acls", init.name]) then pure ()
        else Script.makedirs (tpgDir ++ ["acls", init.name])
      -- the address comes from a datagram socket, and connecting it may fail
      Script.call .ok
      let t ← Script.look
      if !t.isDir (tpgDir ++ ["np"]) then Script.throw
      else if t.isDir (tpgDir ++ ["np", ipaddr ++ ":3260"]) then pure ()
      else Script.makedirs (tpgDir ++ ["np", ipaddr ++ ":3260"])

/-- `create_target`, run in the directory `cwd` on a machine with the given address. -/
def createTarget (cwd : Path) (ipaddr : String) (config : TargetConfig) : Script FuncResult :=
  match config.name, config.iqn, config.acl, config.devices with
  | some _, some iqn, some acl, some devices => do
    let result ← createMainTargetDir iqn
    match result.args with
    | [] => Script.throw
    | tgtDir :: _ => do
      let result ← createTpg tgtDir
      match result.args with
      | [] => Script.throw
      | tpgDir :: _ => do
        setUp acl tpgDir ipaddr
        let result ← addLuns acl devices tpgDir
        if !result.success then Script.throw
        else
          Script.writeText (cwd ++ ["session", "target_ip"]) ipaddr
          pure ⟨true, "Successfully create target", []⟩
  | _, _, _, _ => pure ⟨false, "Invalid config", []⟩

end StartTarget

end LioProject
