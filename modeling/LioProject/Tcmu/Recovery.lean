import LioProject.Lib.Linked
import LioProject.Lib.Run
import Mathlib.Data.Int.Notation
import Mathlib.Data.List.Infix
import Mathlib.Data.List.Nodup

/-!
# Recovering the devices of a target port group

A device that has lost its connection is put on the list of its target port group, and the group on
`tpg_recovery_list` if it is not there. The recovery thread of a group disables it, takes it off
`tpg_recovery_list`, reopens the devices on its list one after the other, and enables it again.

Two locks are involved. `tcmu_notify_conn_lost` holds the `state_lock` of its device all the time,
and `tpg_recovery_lock` while it works on the lists. The recovery thread holds `tpg_recovery_lock`
when it takes its group off the list and `state_lock` when it clears `IN_RECOVERY`, but none while
it follows the pointers from device to device. Devices are never taken off the list of a group: the
entry of a device that has been reopened may be put on the list of another group while the thread is
on its way to the next device. So the lists are modelled with their pointers. Only `next` is: nobody
reads the `prev` of an entry.

Each place where a thread takes a lock or reads a pointer is a step of its own. The groups are
numbered in the order in which they are set up. `cause` is not in the program: it says on the list
of which group the `tcmu_notify_conn_lost` has put the device that has set its `IN_RECOVERY`.
-/

namespace LioProject

namespace Tcmu

/-! ### Ports and groups -/

/-- The name of a target port group. -/
structure TpgName where
  /-- `fabric`. -/
  fabric : String
  /-- `wwn`. -/
  wwn : String
  /-- `tpgt`. -/
  tpgt : ℕ
  deriving DecidableEq, Repr

/-- The fields of `struct tgt_port` that recovery needs. -/
structure TgtPort where
  /-- The group that it is on. -/
  tpg : TpgName
  /-- `enabled`. -/
  enabled : Bool
  deriving DecidableEq, Repr

/-- An entry of the list of a group, or its head. -/
inductive Node (δ : Type*) where
  /-- `devs` of a group. -/
  | head (g : ℕ)
  /-- `recovery_entry` of a device. -/
  | dev (d : δ)
  deriving DecidableEq, Repr

/-- Where a recovery thread is in `tgt_port_grp_recovery_thread_fn`. -/
inductive RecoveryPc (δ : Type*) where
  /-- There is no such group yet. -/
  | unborn
  /-- It disables the group. -/
  | disable
  /-- It takes the group off `tpg_recovery_list`. -/
  | unlink (ret : ℤ)
  /-- It reads the first pointer. -/
  | walk (enableTpg : Bool)
  /-- It is at a node, and reads the pointer to the next one. -/
  | look (enableTpg : Bool) (i : Node δ)
  /-- It looks whether it is at the head again, or calls `__tcmu_reopen_dev`. -/
  | test (enableTpg : Bool) (i nxt : Node δ)
  /-- It is in `__tcmu_reopen_dev`. -/
  | reopen (enableTpg : Bool) (d : δ) (nxt : Node δ)
  /-- It takes the head of another list for a device. -/
  | wild
  /-- It enables the group, if it is to. -/
  | enable (enableTpg : Bool)
  /-- It has ended. -/
  | ended
  deriving DecidableEq, Repr

/-- Where a thread that holds the `state_lock` of a device is in `tcmu_notify_conn_lost`. -/
inductive LostPc where
  /-- There is none. -/
  | out
  /-- It calls `tcmu_add_dev_to_recovery_list`. -/
  | entered
  /-- It has put the device on the list of a group, and sets `IN_RECOVERY`. -/
  | listed (g : ℕ)
  deriving DecidableEq, Repr

/-- The devices and the groups. -/
structure Recovery (δ : Type*) where
  /-- `TCMUR_DEV_FLAG_STOPPING`. -/
  stopping : δ → Bool
  /-- `TCMUR_DEV_FLAG_IN_RECOVERY`. -/
  inRecovery : δ → Bool
  /-- A thread that is no recovery thread is in `__tcmu_reopen_dev`. -/
  reopening : δ → Bool
  /-- The thread in `tcmu_notify_conn_lost`. -/
  lost : δ → LostPc
  /-- The group on whose list the device has been put when `IN_RECOVERY` was set. -/
  cause : δ → Option ℕ
  /-- The pointers of the lists of devices. -/
  next : Node δ → Node δ
  /-- `tpg_recovery_list`. -/
  recoveryList : List ℕ
  /-- The names of the groups. -/
  tpg : ℕ → TpgName
  /-- The recovery threads of the groups. -/
  pc : ℕ → RecoveryPc δ
  /-- The number of groups that have been set up. -/
  groups : ℕ

/-- What happens. -/
inductive RecoveryEvent (δ : Type*) where
  /-- A thread calls `tcmu_notify_conn_lost`. -/
  | connLost (d : δ)
  /-- It goes on in `tcmu_add_dev_to_recovery_list`. `tcmu_get_alua_grps` returns `ret` and the
  ports of the groups of the device, there is memory for a group or not, and `pthread_create`
  returns `created`. -/
  | add (d : δ) (ret : ℤ) (ports : List (List TgtPort)) (memory : Bool) (created : ℤ)
  /-- It sets `IN_RECOVERY`. -/
  | flag (d : δ)
  /-- A thread that is no recovery thread calls `tcmu_reopen_dev`. -/
  | reopenDev (d : δ)
  /-- It ends the reopen. -/
  | reopened (d : δ)
  /-- Somebody removes the device. -/
  | stop (d : δ)
  /-- The recovery thread of a group does its next step. `ret` is what a callee returns. -/
  | step (g : ℕ) (ret : ℤ)
  deriving Repr

section Steps

variable {δ : Type*} [DecidableEq δ]

/-- Nothing has happened. -/
def Recovery.init : Recovery δ where
  stopping := fun _ => false
  inRecovery := fun _ => false
  reopening := fun _ => false
  lost := fun _ => .out
  cause := fun _ => none
  next := id
  recoveryList := []
  tpg := fun _ => ⟨"", "", 0⟩
  pc := fun _ => .unborn
  groups := 0

/-- `port_is_on_recovery_list`. -/
def Recovery.portIsOnRecoveryList (s : Recovery δ) (port : TgtPort) : Option ℕ :=
  s.recoveryList.find? fun g => s.tpg g = port.tpg

/-- The loop of `tcmu_add_dev_to_recovery_list` over the ports: the group that one of them is on,
and the last port seen that is enabled. -/
def Recovery.findTpg (s : Recovery δ) : List TgtPort → Option TgtPort → Option ℕ × Option TgtPort
  | [], enabledPort => (none, enabledPort)
  | port :: ports, enabledPort =>
    let enabledPort := if port.enabled then some port else enabledPort
    match s.portIsOnRecoveryList port with
    | some g => (some g, enabledPort)
    | none => s.findTpg ports enabledPort

/-- Put a device on the list of a group. -/
def Recovery.addDev (s : Recovery δ) (g : ℕ) (d : δ) : Recovery δ :=
  { s with next := listAdd s.next (.head g) (.dev d) }

/-- `setup_tgt_port_grp`, `pthread_create` and `list_add`, if they work. -/
def Recovery.setupTgtPortGrp (s : Recovery δ) (port : TgtPort) : Recovery δ :=
  { s with next := Function.update s.next (.head s.groups) (.head s.groups)
           recoveryList := s.groups :: s.recoveryList
           tpg := Function.update s.tpg s.groups port.tpg
           pc := Function.update s.pc s.groups .disable
           groups := s.groups + 1 }

/-- `tcmu_add_dev_to_recovery_list`: the group on whose list the device has been put, if it has. -/
def Recovery.tcmuAddDevToRecoveryList (s : Recovery δ) (d : δ) (ret : ℤ)
    (ports : List (List TgtPort)) (memory : Bool) (created : ℤ) : Recovery δ × Option ℕ :=
  if ret ≠ 0 then (s, none)
  else
    match s.findTpg ports.flatten none with
    | (some g, _) => (s.addDev g d, some g)
    | (none, none) => (s, none)
    | (none, some port) =>
      if memory = false then (s, none)
      else if created ≠ 0 then (s, none)
      else ((s.setupTgtPortGrp port).addDev s.groups d, some s.groups)

/-- A recovery thread goes on. -/
def Recovery.goto (s : Recovery δ) (g : ℕ) (pc : RecoveryPc δ) : Recovery δ :=
  { s with pc := Function.update s.pc g pc }

/-- The end of `__tcmu_reopen_dev`. -/
def Recovery.clear (s : Recovery δ) (d : δ) : Recovery δ :=
  { s with inRecovery := Function.update s.inRecovery d false
           cause := Function.update s.cause d none }

/-- `tgt_port_grp_recovery_thread_fn`. -/
def Recovery.threadStep (s : Recovery δ) (g : ℕ) (ret : ℤ) : Option (Recovery δ) :=
  match s.pc g with
  | .disable => some (s.goto g (.unlink ret))
  | .unlink ret =>
    some ({ s with recoveryList := s.recoveryList.erase g }.goto g (.walk (decide (0 ≤ ret))))
  | .walk enableTpg => some (s.goto g (.look enableTpg (s.next (.head g))))
  | .look enableTpg i => some (s.goto g (.test enableTpg i (s.next i)))
  | .test enableTpg i nxt =>
    if i = .head g then some (s.goto g (.enable enableTpg))
    else
      match i with
      | .dev d => some (s.goto g (.reopen enableTpg d nxt))
      | .head _ => some (s.goto g .wild)
  | .reopen enableTpg d nxt =>
    if s.lost d = .out then
      some ((s.clear d).goto g (.look (enableTpg && (ret == 0 || s.stopping d)) nxt))
    else none
  | .enable _ => some (s.goto g .ended)
  | .unborn | .wild | .ended => none

/-- The steps. What needs the `state_lock` of a device waits until `tcmu_notify_conn_lost` has given
it back. -/
def Recovery.step (s : Recovery δ) : RecoveryEvent δ → Option (Recovery δ)
  | .connLost d =>
    if s.lost d = .out then
      if s.stopping d ∨ s.inRecovery d then some s
      else some { s with lost := Function.update s.lost d .entered }
    else none
  | .add d ret ports memory created =>
    if s.lost d = .entered then
      match s.tcmuAddDevToRecoveryList d ret ports memory created with
      | (s, some g) => some { s with lost := Function.update s.lost d (.listed g) }
      | (s, none) => some { s with lost := Function.update s.lost d .out }
    else none
  | .flag d =>
    match s.lost d with
    | .listed g =>
      some { s with inRecovery := Function.update s.inRecovery d true
                    cause := Function.update s.cause d (some g)
                    lost := Function.update s.lost d .out }
    | _ => none
  | .reopenDev d =>
    if s.lost d = .out then
      if s.inRecovery d then some s
      else
        some { s with inRecovery := Function.update s.inRecovery d true
                      reopening := Function.update s.reopening d true }
    else none
  | .reopened d =>
    if s.lost d = .out ∧ s.reopening d then
      some { s.clear d with reopening := Function.update s.reopening d false }
    else none
  | .stop d =>
    if s.lost d = .out then some { s with stopping := Function.update s.stopping d true } else none
  | .step g ret => s.threadStep g ret

end Steps

/-! ### What a thread still has to do -/

section StillTo

variable {δ : Type*}

/-- The thread has not taken its group off `tpg_recovery_list`. -/
def RecoveryPc.waits : RecoveryPc δ → Bool
  | .disable | .unlink _ => true
  | _ => false

/-- The thread has taken its group off `tpg_recovery_list`. -/
def RecoveryPc.walks : RecoveryPc δ → Bool
  | .unborn | .disable | .unlink _ => false
  | _ => true

/-- The thread of the group still has to call `__tcmu_reopen_dev`, or to return from it, for these
devices, in this order. -/
def RecoveryPc.StillTo (next : Node δ → Node δ) (g : ℕ) : RecoveryPc δ → List δ → Prop
  | .disable, ds | .unlink _, ds | .walk _, ds =>
    Linked next (next (.head g)) (ds.map .dev) (.head g)
  | .look _ i, ds => Linked next i (ds.map .dev) (.head g)
  | .test _ i nxt, ds =>
    i = .head g ∧ ds = [] ∨
      ∃ d ds', i = .dev d ∧ ds = d :: ds' ∧ Linked next nxt (ds'.map .dev) (.head g)
  | .reopen _ d nxt, ds => ∃ ds', ds = d :: ds' ∧ Linked next nxt (ds'.map .dev) (.head g)
  | .wild, _ => False
  | .unborn, ds | .enable _, ds | .ended, ds => ds = []

variable {next : Node δ → Node δ} {g : ℕ} {pc : RecoveryPc δ} {ds ds' : List δ}

theorem head_notMem (g : ℕ) (ds : List δ) : (Node.head g : Node δ) ∉ ds.map .dev := by
  simp

theorem dev_notMem {d : δ} (h : d ∉ ds) : (Node.dev d : Node δ) ∉ ds.map .dev := by
  simpa using h

/-- The devices on the way from a node to the head. -/
theorem linked_unique {a : Node δ} (h : Linked next a (ds.map .dev) (.head g))
    (h' : Linked next a (ds'.map .dev) (.head g)) : ds = ds' := by
  have hmap := h.unique h' (head_notMem g ds) (head_notMem g ds')
  exact List.map_injective_iff.mpr (fun _ _ heq => Node.dev.inj heq) hmap

/-- What a thread still has to do is in the pointers. -/
theorem RecoveryPc.StillTo.unique (h : pc.StillTo next g ds) (h' : pc.StillTo next g ds') :
    ds = ds' := by
  cases pc with
  | disable | unlink | walk => exact linked_unique h h'
  | look => exact linked_unique h h'
  | test e i nxt =>
    rcases h with ⟨hi, rfl⟩ | ⟨d, es, hi, rfl, hes⟩
    · rcases h' with ⟨-, rfl⟩ | ⟨d', es', hi', -, -⟩
      · rfl
      · simp [hi] at hi'
    · rcases h' with ⟨hi', -⟩ | ⟨d', es', hi', rfl, hes'⟩
      · simp [hi] at hi'
      · obtain rfl : d = d' := Node.dev.inj (hi.symm.trans hi')
        rw [linked_unique hes hes']
  | reopen e d nxt =>
    obtain ⟨es, rfl, hes⟩ := h
    obtain ⟨es', rfl, hes'⟩ := h'
    rw [linked_unique hes hes']
  | wild => exact absurd h id
  | unborn | enable | ended => exact Eq.trans h (Eq.symm h')

/-- What a thread still has to do depends on the pointers of these devices, and on its own head. -/
theorem RecoveryPc.StillTo.congr {next' : Node δ → Node δ} (h : pc.StillTo next g ds)
    (hhead : next' (.head g) = next (.head g)) (hdev : ∀ d ∈ ds, next' (.dev d) = next (.dev d)) :
    pc.StillTo next' g ds := by
  have hlinked : ∀ {a : Node δ} {es : List δ}, (∀ d ∈ es, d ∈ ds) →
      Linked next a (es.map .dev) (.head g) → Linked next' a (es.map .dev) (.head g) := by
    intro a es hsub hes
    refine hes.congr fun x hx => ?_
    obtain ⟨d, hd, rfl⟩ := List.mem_map.mp hx
    exact hdev d (hsub d hd)
  cases pc with
  | disable | unlink | walk =>
    refine hlinked (fun _ => id) ?_
    rw [hhead]
    exact h
  | look => exact hlinked (fun _ => id) h
  | test e i nxt =>
    rcases h with hi | ⟨d, es, hi, rfl, hes⟩
    · exact Or.inl hi
    · exact Or.inr ⟨d, es, hi, rfl, hlinked (fun _ => List.mem_cons_of_mem d) hes⟩
  | reopen e d nxt =>
    obtain ⟨es, rfl, hes⟩ := h
    exact ⟨es, rfl, hlinked (fun _ => List.mem_cons_of_mem d) hes⟩
  | wild => exact h
  | unborn | enable | ended => exact h

/-- A device is put on the list of a group whose thread does not walk yet. -/
theorem RecoveryPc.StillTo.add [DecidableEq δ] {d : δ} (h : pc.StillTo next g ds)
    (hpc : pc.waits) (hd : d ∉ ds) :
    pc.StillTo (listAdd next (.head g) (.dev d)) g (d :: ds) := by
  have hadd : Linked next (next (.head g)) (ds.map .dev) (.head g) →
      Linked (listAdd next (.head g) (.dev d)) (listAdd next (.head g) (.dev d) (.head g))
        ((d :: ds).map .dev) (.head g) :=
    fun h => h.add (by simp) (dev_notMem hd) (head_notMem g ds)
  cases pc with
  | disable | unlink => exact hadd h
  | _ => exact absurd hpc (by simp [RecoveryPc.waits])

/-- A device is put on the list of another group. -/
theorem RecoveryPc.StillTo.of_add [DecidableEq δ] {g' : ℕ} {d : δ} (h : pc.StillTo next g ds)
    (hg : g ≠ g') (hd : d ∉ ds) : pc.StillTo (listAdd next (.head g') (.dev d)) g ds := by
  refine h.congr (listAdd_of_ne (by simp) (by simpa using hg)) fun e he => ?_
  refine listAdd_of_ne ?_ (by simp)
  intro heq
  exact hd (Node.dev.inj heq ▸ he)

end StillTo

/-! ### The invariant -/

/-- What goes together for a device: its flags, where `tcmu_notify_conn_lost` is, why it is in
recovery, and the groups whose threads still have to reopen it. -/
structure Place (inRecovery reopening : Bool) (lost : LostPc) (cause : Option ℕ)
    (has : ℕ → Prop) : Prop where
  /-- A thread still has to reopen a device that is in recovery, or just about to be. -/
  member : ∀ g, has g → lost = .listed g ∨ inRecovery = true ∧ cause = some g
  /-- No two threads reopen the same device. -/
  unique : ∀ g h, has g → has h → g = h
  /-- A device that is in recovery because of a lost connection is still to be reopened. -/
  flagged : ∀ g, inRecovery = true → cause = some g → has g
  /-- And so is one that is just about to be. -/
  onList : ∀ g, lost = .listed g → has g
  /-- `tcmu_notify_conn_lost` is busy only with devices that are not in recovery. -/
  busy : lost ≠ .out → inRecovery = false
  /-- A device that is not in recovery is so for no reason. -/
  idle : inRecovery = false → cause = none
  /-- A reopen by another thread has nothing to do with a lost connection. -/
  other : reopening = true → inRecovery = true ∧ cause = none

/-- What the threads still have to do is what has to be done. -/
structure Recovery.Inv {δ : Type*} (s : Recovery δ) (todo : ℕ → List δ) : Prop where
  /-- The thread of a group still has to reopen these devices. -/
  stillTo : ∀ g, (s.pc g).StillTo s.next g (todo g)
  /-- It reopens none twice. -/
  nodup : ∀ g, (todo g).Nodup
  /-- No group is on `tpg_recovery_list` twice. -/
  once : s.recoveryList.Nodup
  /-- The thread of a group that is on `tpg_recovery_list` does not walk yet. -/
  listed : ∀ g ∈ s.recoveryList, (s.pc g).waits
  /-- Groups are set up in order. -/
  unborn : ∀ g, s.groups ≤ g → s.pc g = .unborn
  /-- The devices. -/
  place : ∀ d, Place (s.inRecovery d) (s.reopening d) (s.lost d) (s.cause d) fun g => d ∈ todo g

section Inv

theorem Place.of_iff {inRecovery reopening : Bool} {lost : LostPc} {cause : Option ℕ}
    {has' : ℕ → Prop} (has : ℕ → Prop) (h : Place inRecovery reopening lost cause has)
    (hiff : ∀ g, has' g ↔ has g) : Place inRecovery reopening lost cause has' := by
  obtain rfl : has' = has := funext fun g => propext (hiff g)
  exact h

/-- A device that is neither in recovery nor on its way there is to be reopened by nobody. -/
theorem Place.not_has {inRecovery reopening : Bool} {lost : LostPc} {cause : Option ℕ}
    {has : ℕ → Prop} (h : Place inRecovery reopening lost cause has)
    (hlost : ∀ g, lost ≠ .listed g) (hcause : cause = none) (g : ℕ) : ¬ has g := by
  intro hg
  rcases h.member g hg with hl | ⟨-, hc⟩
  · exact hlost g hl
  · simp [hcause] at hc

variable {δ : Type*} {s s' : Recovery δ} {todo : ℕ → List δ}

theorem Recovery.inv_init : (Recovery.init : Recovery δ).Inv fun _ => [] where
  stillTo := fun _ => rfl
  nodup := fun _ => List.nodup_nil
  once := List.nodup_nil
  listed := by simp [Recovery.init]
  unborn := fun _ _ => rfl
  place := fun _ => ⟨by simp, by simp, by simp [Recovery.init], by simp [Recovery.init],
    fun _ => rfl, fun _ => rfl, by simp [Recovery.init]⟩

/-- A thread goes on, and has as much to do as before. -/
theorem Recovery.Inv.goto {g : ℕ} {pc : RecoveryPc δ} (h : s.Inv todo)
    (hpc : pc.StillTo s.next g (todo g)) (hwaits : g ∈ s.recoveryList → pc.waits)
    (hborn : s.pc g ≠ .unborn) : (s.goto g pc).Inv todo := by
  have hpc' : ∀ k, (s.goto g pc).pc k = if k = g then pc else s.pc k := fun k =>
    Function.update_apply ..
  exact {
    h with
    stillTo := by
      intro k
      rw [hpc']
      split
      · rename_i heq
        rwa [heq]
      · exact h.stillTo k
    listed := by
      intro k hk
      rw [hpc']
      split
      · rename_i heq
        exact hwaits (heq ▸ hk)
      · exact h.listed k hk
    unborn := by
      intro k hk
      rw [hpc', if_neg]
      · exact h.unborn k hk
      · rintro rfl
        exact hborn (h.unborn k hk) }

/-- A thread that has taken its group off `tpg_recovery_list` is not there. -/
theorem Recovery.Inv.notMem_of_walks {g : ℕ} (h : s.Inv todo) (hpc : (s.pc g).walks) :
    g ∉ s.recoveryList := by
  intro hmem
  have hwaits := h.listed g hmem
  cases hg : s.pc g <;> simp_all [RecoveryPc.waits, RecoveryPc.walks]

/-- The loop over the ports finds groups on `tpg_recovery_list` only. -/
theorem Recovery.findTpg_mem {ports : List TgtPort} {enabledPort enabledPort' : Option TgtPort}
    {g : ℕ} (h : s.findTpg ports enabledPort = (some g, enabledPort')) : g ∈ s.recoveryList := by
  induction ports generalizing enabledPort with
  | nil => simp [Recovery.findTpg] at h
  | cons port ports ih =>
    rw [Recovery.findTpg] at h
    split at h
    · rename_i hfound
      obtain rfl := Option.some.inj (Prod.mk.inj h).1
      exact List.mem_of_find?_eq_some hfound
    · exact ih h

variable [DecidableEq δ]

/-- A device changes, and it is all the same to the threads. -/
theorem Recovery.Inv.change {d : δ} {a b : Bool} {l : LostPc} {c : Option ℕ} (h : s.Inv todo)
    (hd : Place a b l c fun g => d ∈ todo g) :
    ({ s with inRecovery := Function.update s.inRecovery d a
              reopening := Function.update s.reopening d b
              lost := Function.update s.lost d l
              cause := Function.update s.cause d c } : Recovery δ).Inv todo := by
  refine { h with place := fun e => ?_ }
  dsimp only
  by_cases heq : e = d
  · subst heq
    simpa only [Function.update_self] using hd
  · simpa only [Function.update_of_ne heq] using h.place e

/-- A device is put on the list of a group that is on `tpg_recovery_list`. -/
theorem Recovery.Inv.addDev {g : ℕ} {d : δ} (h : s.Inv todo) (hlost : s.lost d = .entered)
    (hg : g ∈ s.recoveryList) :
    ({ s.addDev g d with lost := Function.update s.lost d (.listed g) } : Recovery δ).Inv
      (Function.update todo g (d :: todo g)) := by
  have hplace := h.place d
  rw [hlost] at hplace
  have hclear : s.inRecovery d = false := hplace.busy (by simp)
  have hcause : s.cause d = none := hplace.idle hclear
  have hnot : ∀ k, d ∉ todo k := hplace.not_has (by simp) hcause
  exact {
    stillTo := by
      intro k
      by_cases heq : k = g
      · subst heq
        rw [Function.update_self]
        exact (h.stillTo k).add (h.listed k hg) (hnot k)
      · rw [Function.update_of_ne heq]
        exact (h.stillTo k).of_add heq (hnot k)
    nodup := by
      intro k
      by_cases heq : k = g
      · subst heq
        rw [Function.update_self]
        exact List.nodup_cons.mpr ⟨hnot k, h.nodup k⟩
      · rw [Function.update_of_ne heq]
        exact h.nodup k
    once := h.once
    listed := h.listed
    unborn := h.unborn
    place := by
      intro e
      change Place (s.inRecovery e) (s.reopening e) (Function.update s.lost d (.listed g) e)
        (s.cause e) _
      by_cases heq : e = d
      · -- the device is on this list, and on no other
        subst heq
        have hhas : ∀ k, e ∈ Function.update todo g (e :: todo g) k ↔ k = g := by
          intro k
          by_cases hk : k = g
          · subst hk
            simp
          · simp [hnot k, hk]
        rw [Function.update_self, hclear, hcause]
        refine Place.of_iff (fun k => k = g) ?_ hhas
        refine ⟨?_, ?_, ?_, ?_, ?_, ?_, ?_⟩
        · rintro k rfl
          exact Or.inl rfl
        · rintro k l rfl rfl
          rfl
        · simp
        · rintro k hl
          exact (LostPc.listed.inj hl).symm
        · simp
        · simp
        · intro hreopening
          have hrec := (hplace.other hreopening).1
          simp [hclear] at hrec
      · rw [Function.update_of_ne heq]
        refine Place.of_iff _ (h.place e) fun k => ?_
        by_cases hk : k = g
        · subst hk
          simp [heq]
        · rw [Function.update_of_ne hk] }

/-- A group is set up. -/
theorem Recovery.Inv.setup (h : s.Inv todo) (port : TgtPort) :
    (s.setupTgtPortGrp port).Inv todo := by
  have hnil : todo s.groups = [] := by
    have hstill := h.stillTo s.groups
    rwa [h.unborn s.groups (Nat.le_refl _)] at hstill
  have hpc' : ∀ k, (s.setupTgtPortGrp port).pc k
      = if k = s.groups then .disable else s.pc k := fun k => Function.update_apply ..
  have hnext : ∀ x, x ≠ .head s.groups → (s.setupTgtPortGrp port).next x = s.next x :=
    fun x hx => Function.update_of_ne hx ..
  exact {
    h with
    stillTo := by
      intro k
      rw [hpc']
      split
      · rename_i heq
        rw [heq, hnil]
        exact Function.update_self ..
      · rename_i hne
        refine (h.stillTo k).congr ?_ fun d _ => ?_
        · exact hnext _ (by simpa using hne)
        · exact hnext _ (by simp)
    once := by
      refine List.nodup_cons.mpr ⟨fun hmem => ?_, h.once⟩
      have hwaits := h.listed _ hmem
      rw [h.unborn s.groups (Nat.le_refl _)] at hwaits
      simp [RecoveryPc.waits] at hwaits
    listed := by
      intro k hk
      rw [hpc']
      split
      · rfl
      · rename_i hne
        rcases List.mem_cons.mp hk with heq | hk
        · exact absurd heq hne
        · exact h.listed k hk
    unborn := by
      intro k hk
      have hlt : s.groups < k := hk
      rw [hpc', if_neg (Nat.ne_of_gt hlt)]
      exact h.unborn k (Nat.le_of_lt hlt) }

/-- A thread has reopened the first of its devices. -/
theorem Recovery.Inv.next {g : ℕ} {pc : RecoveryPc δ} {d : δ} {ds : List δ} (h : s.Inv todo)
    (hwalks : g ∉ s.recoveryList) (hborn : s.pc g ≠ .unborn) (hlost : s.lost d = .out)
    (htodo : todo g = d :: ds) (hstill : pc.StillTo s.next g ds) :
    ((s.clear d).goto g pc).Inv (Function.update todo g ds) := by
  have hplace := h.place d
  have hmem : d ∈ todo g := by
    rw [htodo]
    exact List.mem_cons_self ..
  have hnodup : d ∉ ds ∧ ds.Nodup := by
    have hall := h.nodup g
    rw [htodo] at hall
    exact List.nodup_cons.mp hall
  have hcause : s.cause d = some g := ((hplace.member g hmem).resolve_left (by simp [hlost])).2
  have hpc' : ∀ k, ((s.clear d).goto g pc).pc k = if k = g then pc else s.pc k := fun k =>
    Function.update_apply ..
  exact {
    stillTo := by
      intro k
      rw [hpc']
      by_cases heq : k = g
      · rw [if_pos heq, heq, Function.update_self]
        exact hstill
      · rw [if_neg heq, Function.update_of_ne heq]
        exact h.stillTo k
    nodup := by
      intro k
      by_cases heq : k = g
      · subst heq
        rw [Function.update_self]
        exact hnodup.2
      · rw [Function.update_of_ne heq]
        exact h.nodup k
    once := h.once
    listed := by
      intro k hk
      have hne : k ≠ g := by
        rintro rfl
        exact hwalks hk
      rw [hpc', if_neg hne]
      exact h.listed k hk
    unborn := by
      intro k hk
      have hne : k ≠ g := by
        rintro rfl
        exact hborn (h.unborn k hk)
      rw [hpc', if_neg hne]
      exact h.unborn k hk
    place := by
      intro e
      change Place (Function.update s.inRecovery d false e) (s.reopening e) (s.lost e)
        (Function.update s.cause d none e) _
      by_cases heq : e = d
      · -- nobody has to reopen the device any more
        subst heq
        have hhas : ∀ k, e ∈ Function.update todo g ds k ↔ False := by
          intro k
          by_cases hk : k = g
          · subst hk
            simp [hnodup.1]
          · rw [Function.update_of_ne hk]
            exact ⟨fun hmem' => hk (hplace.unique k g hmem' hmem), False.elim⟩
        rw [Function.update_self, Function.update_self, hlost]
        refine Place.of_iff (fun _ => False) ?_ hhas
        refine ⟨by simp, by simp, by simp, by simp, by simp, by simp, fun hreopening => ?_⟩
        have hnone := (hplace.other hreopening).2
        simp [hcause] at hnone
      · rw [Function.update_of_ne heq, Function.update_of_ne heq]
        refine Place.of_iff _ (h.place e) fun k => ?_
        by_cases hk : k = g
        · subst hk
          simp [htodo, heq]
        · rw [Function.update_of_ne hk] }

/-- `tcmu_add_dev_to_recovery_list` fails, or finds a group, or sets one up. -/
theorem Recovery.tcmuAddDevToRecoveryList_cases {d : δ} {ret created : ℤ}
    {ports : List (List TgtPort)} {memory : Bool} {listed : Option ℕ}
    (h : s.tcmuAddDevToRecoveryList d ret ports memory created = (s', listed)) :
    s' = s ∧ listed = none ∨ (∃ g ∈ s.recoveryList, s' = s.addDev g d ∧ listed = some g) ∨
      ∃ port, s' = (s.setupTgtPortGrp port).addDev s.groups d ∧ listed = some s.groups := by
  rw [Recovery.tcmuAddDevToRecoveryList] at h
  split at h
  · exact Or.inl ⟨(Prod.mk.inj h).1.symm, (Prod.mk.inj h).2.symm⟩
  · split at h
    · rename_i g enabledPort hfound
      exact Or.inr (Or.inl ⟨g, Recovery.findTpg_mem hfound, (Prod.mk.inj h).1.symm,
        (Prod.mk.inj h).2.symm⟩)
    · exact Or.inl ⟨(Prod.mk.inj h).1.symm, (Prod.mk.inj h).2.symm⟩
    · rename_i port hfound
      split at h
      · exact Or.inl ⟨(Prod.mk.inj h).1.symm, (Prod.mk.inj h).2.symm⟩
      · split at h
        · exact Or.inl ⟨(Prod.mk.inj h).1.symm, (Prod.mk.inj h).2.symm⟩
        · exact Or.inr (Or.inr ⟨port, (Prod.mk.inj h).1.symm, (Prod.mk.inj h).2.symm⟩)

/-- `tcmu_notify_conn_lost` gives up. -/
theorem Recovery.Inv.giveUp {d : δ} (h : s.Inv todo) (hlost : s.lost d = .entered) :
    ({ s with lost := Function.update s.lost d .out } : Recovery δ).Inv todo := by
  have hplace := h.place d
  have hchange := h.change (d := d) (a := s.inRecovery d) (b := s.reopening d) (l := .out)
    (c := s.cause d) ?_
  · simpa only [Function.update_eq_self] using hchange
  · rw [hlost] at hplace
    exact ⟨fun g hg => Or.inr ((hplace.member g hg).resolve_left (by simp)), hplace.unique,
      hplace.flagged, by simp, by simp, hplace.idle, hplace.other⟩

/-- `tcmu_add_dev_to_recovery_list` puts the device on a list that nobody walks. -/
theorem Recovery.Inv.add {d : δ} {ret created : ℤ} {ports : List (List TgtPort)} {memory : Bool}
    (h : s.Inv todo) (hs : s.step (.add d ret ports memory created) = some s') :
    ∃ todo', s'.Inv todo' ∧ ∀ g, (s.pc g).walks → todo' g = todo g := by
  obtain ⟨hlost, hs⟩ := Option.ite_none_right_eq_some.mp hs
  have hkeeps : ∀ k, (s.pc k).walks = false → ∀ g, (s.pc g).walks →
      Function.update todo k (d :: todo k) g = todo g := by
    intro k hk g hg
    refine Function.update_of_ne ?_ ..
    rintro rfl
    simp [hk] at hg
  cases hadd : s.tcmuAddDevToRecoveryList d ret ports memory created with
  | mk u listed =>
    rw [hadd] at hs
    rcases Recovery.tcmuAddDevToRecoveryList_cases hadd with ⟨rfl, rfl⟩ | ⟨g, hg, rfl, rfl⟩ |
      ⟨port, rfl, rfl⟩
    · obtain rfl := Option.some.inj hs
      exact ⟨todo, h.giveUp hlost, fun _ _ => rfl⟩
    · obtain rfl := Option.some.inj hs
      refine ⟨_, h.addDev hlost hg, hkeeps g ?_⟩
      have hwaits := h.listed g hg
      cases hpc : s.pc g <;> simp_all [RecoveryPc.waits, RecoveryPc.walks]
    · obtain rfl := Option.some.inj hs
      refine ⟨_, (h.setup port).addDev hlost (List.mem_cons_self ..), hkeeps s.groups ?_⟩
      rw [h.unborn s.groups (Nat.le_refl _)]
      rfl

/-- `tcmu_notify_conn_lost` begins. -/
theorem Recovery.Inv.connLost {d : δ} (h : s.Inv todo) (hlost : s.lost d = .out)
    (hclear : s.inRecovery d = false) :
    ({ s with lost := Function.update s.lost d .entered } : Recovery δ).Inv todo := by
  have hplace := h.place d
  have hchange := h.change (d := d) (a := s.inRecovery d) (b := s.reopening d) (l := .entered)
    (c := s.cause d) ?_
  · simpa only [Function.update_eq_self] using hchange
  · rw [hlost] at hplace
    exact ⟨fun g hg => Or.inr ((hplace.member g hg).resolve_left (by simp)), hplace.unique,
      hplace.flagged, by simp, fun _ => hclear, hplace.idle, hplace.other⟩

/-- `tcmu_notify_conn_lost` sets `IN_RECOVERY`. -/
theorem Recovery.Inv.flag {g : ℕ} {d : δ} (h : s.Inv todo) (hlost : s.lost d = .listed g) :
    ({ s with inRecovery := Function.update s.inRecovery d true
              cause := Function.update s.cause d (some g)
              lost := Function.update s.lost d .out } : Recovery δ).Inv todo := by
  have hplace := h.place d
  have hhas := hplace.onList g hlost
  have hclear := hplace.busy (by simp [hlost])
  have hchange := h.change (d := d) (a := true) (b := s.reopening d) (l := .out) (c := some g) ?_
  · simpa only [Function.update_eq_self] using hchange
  · refine ⟨fun k hk => ?_, hplace.unique, fun k _ hk => ?_, by simp, by simp, by simp,
      fun hreopening => ?_⟩
    · rw [hplace.unique k g hk hhas]
      exact Or.inr ⟨rfl, rfl⟩
    · obtain rfl := Option.some.inj hk
      exact hhas
    · have hrec := (hplace.other hreopening).1
      simp [hclear] at hrec

/-- Another thread begins a reopen. -/
theorem Recovery.Inv.reopenDev {d : δ} (h : s.Inv todo) (hlost : s.lost d = .out)
    (hclear : s.inRecovery d = false) :
    ({ s with inRecovery := Function.update s.inRecovery d true
              reopening := Function.update s.reopening d true } : Recovery δ).Inv todo := by
  have hplace := h.place d
  have hcause := hplace.idle hclear
  have hnot := hplace.not_has (by simp [hlost]) hcause
  have hchange := h.change (d := d) (a := true) (b := true) (l := s.lost d) (c := s.cause d) ?_
  · simpa only [Function.update_eq_self] using hchange
  · rw [hlost, hcause]
    exact ⟨fun g hg => absurd hg (hnot g), hplace.unique, by simp, by simp, by simp, by simp,
      by simp⟩

/-- Another thread ends a reopen. -/
theorem Recovery.Inv.reopened {d : δ} (h : s.Inv todo) (hlost : s.lost d = .out)
    (hreopening : s.reopening d = true) :
    ({ s.clear d with reopening := Function.update s.reopening d false } :
      Recovery δ).Inv todo := by
  have hplace := h.place d
  have hnot := hplace.not_has (by simp [hlost]) (hplace.other hreopening).2
  have hchange := h.change (d := d) (a := false) (b := false) (l := s.lost d) (c := none) ?_
  · rw [Recovery.clear]
    simpa only [Function.update_eq_self] using hchange
  · rw [hlost]
    exact ⟨fun g hg => absurd hg (hnot g), hplace.unique, by simp, by simp, by simp, by simp,
      by simp⟩

/-- What a recovery thread does. -/
theorem Recovery.Inv.threadStep {g : ℕ} {ret : ℤ} (h : s.Inv todo)
    (hs : s.threadStep g ret = some s') :
    ∃ todo', s'.Inv todo' ∧ ∀ k, todo' k <:+ todo k := by
  have hstill := h.stillTo g
  have hsame : ∀ k, todo k <:+ todo k := fun k => List.suffix_refl _
  rw [Recovery.threadStep] at hs
  split at hs
  · rename_i hpc
    obtain rfl := Option.some.inj hs
    rw [hpc] at hstill
    exact ⟨todo, h.goto hstill (fun _ => rfl) (by simp [hpc]), hsame⟩
  · rename_i ret' hpc
    obtain rfl := Option.some.inj hs
    rw [hpc] at hstill
    have herase : ({ s with recoveryList := s.recoveryList.erase g } : Recovery δ).Inv todo := {
      h with
      once := h.once.erase g
      listed := fun k hk => h.listed k (List.mem_of_mem_erase hk) }
    refine ⟨todo, herase.goto hstill (fun hmem => ?_) (by simp [hpc]), hsame⟩
    exact absurd rfl ((h.once.mem_erase_iff.mp hmem).1)
  · rename_i enableTpg hpc
    obtain rfl := Option.some.inj hs
    have hnot := h.notMem_of_walks (g := g) (by rw [hpc]; rfl)
    rw [hpc] at hstill
    exact ⟨todo, h.goto hstill (fun hmem => absurd hmem hnot) (by simp [hpc]), hsame⟩
  · rename_i enableTpg i hpc
    obtain rfl := Option.some.inj hs
    have hnot := h.notMem_of_walks (g := g) (by rw [hpc]; rfl)
    rw [hpc] at hstill
    refine ⟨todo, h.goto ?_ (fun hmem => absurd hmem hnot) (by simp [hpc]), hsame⟩
    cases htodo : todo g with
    | nil =>
      rw [htodo] at hstill
      exact Or.inl ⟨hstill, rfl⟩
    | cons d ds =>
      rw [htodo] at hstill
      obtain ⟨rfl, hlinked⟩ := hstill
      exact Or.inr ⟨d, ds, rfl, rfl, hlinked⟩
  · rename_i enableTpg i nxt hpc
    have hnot := h.notMem_of_walks (g := g) (by rw [hpc]; rfl)
    rw [hpc] at hstill
    rcases hstill with ⟨rfl, hnil⟩ | ⟨d, ds, rfl, htodo, hlinked⟩
    · rw [if_pos rfl] at hs
      obtain rfl := Option.some.inj hs
      exact ⟨todo, h.goto hnil (fun hmem => absurd hmem hnot) (by simp [hpc]), hsame⟩
    · rw [if_neg (by simp)] at hs
      obtain rfl := Option.some.inj hs
      refine ⟨todo, h.goto ?_ (fun hmem => absurd hmem hnot) (by simp [hpc]), hsame⟩
      exact ⟨ds, htodo, hlinked⟩
  · rename_i enableTpg d nxt hpc
    have hnot := h.notMem_of_walks (g := g) (by rw [hpc]; rfl)
    rw [hpc] at hstill
    obtain ⟨ds, htodo, hlinked⟩ := hstill
    obtain ⟨hlost, hs⟩ := Option.ite_none_right_eq_some.mp hs
    obtain rfl := Option.some.inj hs
    refine ⟨_, h.next hnot (by simp [hpc]) hlost htodo hlinked, fun k => ?_⟩
    by_cases heq : k = g
    · subst heq
      rw [Function.update_self, htodo]
      exact List.suffix_cons d ds
    · rw [Function.update_of_ne heq]
  · rename_i enableTpg hpc
    obtain rfl := Option.some.inj hs
    have hnot := h.notMem_of_walks (g := g) (by rw [hpc]; rfl)
    rw [hpc] at hstill
    exact ⟨todo, h.goto hstill (fun hmem => absurd hmem hnot) (by simp [hpc]), hsame⟩
  · exact absurd hs (by simp)
  · exact absurd hs (by simp)
  · exact absurd hs (by simp)

/-- What happens keeps the invariant, and gives a thread that walks nothing to do. -/
theorem Recovery.Inv.step {e : RecoveryEvent δ} (h : s.Inv todo) (hs : s.step e = some s') :
    ∃ todo', s'.Inv todo' ∧ ∀ g, (s.pc g).walks → todo' g <:+ todo g := by
  have hsame : ∀ g, (s.pc g).walks → todo g <:+ todo g := fun g _ => List.suffix_refl _
  cases e with
  | connLost d =>
    obtain ⟨hlost, hs⟩ := Option.ite_none_right_eq_some.mp hs
    split at hs
    · obtain rfl := Option.some.inj hs
      exact ⟨todo, h, hsame⟩
    · rename_i hclear
      obtain rfl := Option.some.inj hs
      rw [not_or] at hclear
      exact ⟨todo, h.connLost hlost (by simpa using hclear.2), hsame⟩
  | add d ret ports memory created =>
    obtain ⟨todo', hinv, hkeeps⟩ := h.add hs
    refine ⟨todo', hinv, fun g hg => ?_⟩
    rw [hkeeps g hg]
  | flag d =>
    unfold Recovery.step at hs
    dsimp only at hs
    split at hs
    · rename_i g hlost
      obtain rfl := Option.some.inj hs
      exact ⟨todo, h.flag hlost, hsame⟩
    · exact absurd hs (by simp)
  | reopenDev d =>
    obtain ⟨hlost, hs⟩ := Option.ite_none_right_eq_some.mp hs
    split at hs
    · obtain rfl := Option.some.inj hs
      exact ⟨todo, h, hsame⟩
    · rename_i hclear
      obtain rfl := Option.some.inj hs
      exact ⟨todo, h.reopenDev hlost (by simpa using hclear), hsame⟩
  | reopened d =>
    obtain ⟨⟨hlost, hreopening⟩, hs⟩ := Option.ite_none_right_eq_some.mp hs
    obtain rfl := Option.some.inj hs
    exact ⟨todo, h.reopened hlost hreopening, hsame⟩
  | stop d =>
    obtain ⟨-, hs⟩ := Option.ite_none_right_eq_some.mp hs
    obtain rfl := Option.some.inj hs
    exact ⟨todo, { h with }, hsame⟩
  | step g ret =>
    obtain ⟨todo', hinv, hsuffix⟩ := h.threadStep hs
    exact ⟨todo', hinv, fun k _ => hsuffix k⟩

end Inv

end Tcmu

end LioProject
