import LioProject.Lib.CStr
import Mathlib.Data.List.Nodup
import Mathlib.Data.List.Perm.Basic

/-!
# Adding a device

The kernel announces a device with a string `tcm-user/<hba>/<dev>/<subtype>/<rest>`. `add_device`
cuts it at the slashes, and `find_handler` looks for the handler of the subtype. Both compare no
more characters than the part of the string has. So the beginning of a name is enough, also the
empty one, and it depends on the order of registration which of several handlers is taken. Where a
part is longer than the array it is stored in, its end is lost. `bound_as_named_iff` says for which
strings and handlers this makes no difference.
-/

namespace LioProject

namespace Tcmu

/-! ### Handlers -/

/-- `struct tcmulib_handler`. -/
structure TcmulibHandler (ρ : Type) where
  /-- `subtype`. -/
  subtype : CStr
  /-- The functions that the handler consists of. -/
  ops : ρ

/-- The handlers that have been registered. -/
structure Handlers (ρ : Type) where
  /-- The handlers, in the order of registration. -/
  list : List (TcmulibHandler ρ)
  /-- No two of them have the same subtype. -/
  nodup : (list.map TcmulibHandler.subtype).Nodup

variable {ρ : Type}

/-- `tcmur_register_handler`. -/
def Handlers.register (hs : Handlers ρ) (h : TcmulibHandler ρ) : Option (Handlers ρ) :=
  if hmem : h.subtype ∈ hs.list.map TcmulibHandler.subtype then none
  else some ⟨hs.list ++ [h], by
    rw [List.map_append, List.nodup_append_comm]
    exact List.nodup_cons.mpr ⟨hmem, hs.nodup⟩⟩

/-- `/`. -/
def slash : UInt8 := 47

/-- `tcm-user`. -/
def tcmUser : CStr := ⟨[116, 99, 109, 45, 117, 115, 101, 114], by decide⟩

/-- `user_`, with which the name of every HBA begins. -/
def hbaUser : CStr := ⟨[117, 115, 101, 114, 95], by decide⟩

/-- `find_handler` of `libtcmu.c`. -/
def tcmulibFindHandler (hs : List (TcmulibHandler ρ)) (cfgstring : CStr) :
    Option (TcmulibHandler ρ) :=
  hs.find? fun h => CStr.agree (cfgstring.before slash).length cfgstring h.subtype

/-! ### Devices -/

/-- What `add_device` enters into a new device before it opens anything. -/
structure NewDevice (ρ : Type) where
  /-- `dev_name`. -/
  devName : CStr
  /-- `tcm_hba_name`. -/
  tcmHbaName : CStr
  /-- `tcm_dev_name`. -/
  tcmDevName : CStr
  /-- `cfgstring`. -/
  cfgstring : CStr
  /-- `handler`. -/
  handler : TcmulibHandler ρ

/-- `add_device`, up to where it has found the handler. A netlink attribute is shorter than `2 ^ 16`
bytes, so that the lengths fit into an `int`. -/
def addDevice (hs : List (TcmulibHandler ρ)) (devName cfgstring : CStr) :
    Option (NewDevice ρ) := do
  let hba ← cfgstring.after slash
  if !CStr.agree (cfgstring.before slash).length cfgstring tcmUser then none
  else do
    let dev ← hba.after slash
    let rest ← dev.after slash
    let cfg := rest.truncate 4096
    let handler ← tcmulibFindHandler hs cfg
    some ⟨devName.truncate 16, (hbaUser.append (hba.before slash)).truncate 16,
      (dev.before slash).truncate 128, cfg, handler⟩

/-! ### The parts of a configuration string -/

/-- The parts of a configuration string. All but the last one are free of slashes. -/
structure Parts (s a hba dev cfg : CStr) : Prop where
  /-- The string. -/
  chars_eq : s.chars =
    a.chars ++ slash :: (hba.chars ++ slash :: (dev.chars ++ slash :: cfg.chars))
  /-- The first part is free of slashes. -/
  first : slash ∉ a.chars
  /-- The name of the HBA is free of slashes. -/
  hba : slash ∉ hba.chars
  /-- The name of the device is free of slashes. -/
  dev : slash ∉ dev.chars

section Parts

variable {s a hba dev cfg : CStr}

/-- The string behind the first part. -/
theorem Parts.exists_after (h : Parts s a hba dev cfg) : ∃ u v : CStr,
    (s.before slash = a ∧ s.after slash = some u) ∧
      (u.before slash = hba ∧ u.after slash = some v) ∧
      v.before slash = dev ∧ v.after slash = some cfg := by
  have hs : (0 : UInt8) ∉ s.chars := s.noNul
  rw [h.chars_eq, List.mem_append, not_or, List.mem_cons, not_or] at hs
  have hu := hs.2.2
  rw [List.mem_append, not_or, List.mem_cons, not_or] at hu
  exact ⟨⟨_, hs.2.2⟩, ⟨_, hu.2.2⟩, CStr.cut_of_chars h.chars_eq h.first,
    CStr.cut_of_chars rfl h.hba, CStr.cut_of_chars rfl h.dev⟩

/-- A string has no other parts. -/
theorem Parts.unique {a' hba' dev' cfg' : CStr} (h : Parts s a hba dev cfg)
    (h' : Parts s a' hba' dev' cfg') : a = a' ∧ hba = hba' ∧ dev = dev' ∧ cfg = cfg' := by
  obtain ⟨u, v, ⟨rfl, hu⟩, ⟨rfl, hv⟩, rfl, hcfg⟩ := h.exists_after
  obtain ⟨u', v', ⟨rfl, hu'⟩, ⟨rfl, hv'⟩, rfl, hcfg'⟩ := h'.exists_after
  obtain rfl := Option.some.inj (hu.symm.trans hu')
  obtain rfl := Option.some.inj (hv.symm.trans hv')
  exact ⟨rfl, rfl, rfl, Option.some.inj (hcfg.symm.trans hcfg')⟩

theorem parts_of_after {u v : CStr} (hu : s.after slash = some u) (hv : u.after slash = some v)
    (hcfg : v.after slash = some cfg) :
    Parts s (s.before slash) (u.before slash) (v.before slash) cfg := by
  rw [CStr.after_eq_some_iff] at hu hv hcfg
  refine ⟨?_, CStr.not_mem_before _ _, CStr.not_mem_before _ _, CStr.not_mem_before _ _⟩
  rw [← hcfg, ← hv, ← hu]

end Parts

/-! ### What is found -/

section Finding

variable {hs : List (TcmulibHandler ρ)} {devName s a hba dev cfg : CStr} {d : NewDevice ρ}

/-- What the new device is, if its handler is known. -/
def newDevice (devName hba dev cfg : CStr) (h : TcmulibHandler ρ) : NewDevice ρ :=
  ⟨devName.truncate 16, (hbaUser.append hba).truncate 16, dev.truncate 128, cfg.truncate 4096, h⟩

/-- A string whose first part is good. -/
theorem addDevice_of_parts (h : Parts s a hba dev cfg) (ha : a.chars <+: tcmUser.chars) :
    addDevice hs devName s =
      (tcmulibFindHandler hs (cfg.truncate 4096)).map (newDevice devName hba dev cfg) := by
  obtain ⟨u, v, ⟨hbefore, hu⟩, ⟨rfl, hv⟩, rfl, hcfg⟩ := h.exists_after
  have hagree : CStr.agree (s.before slash).length s tcmUser = true := by
    rw [CStr.agree_before_iff, hbefore]
    exact ha
  rw [addDevice, hu, Option.bind_eq_bind, Option.bind_some, hagree, if_neg (by simp), hv,
    Option.bind_eq_bind, Option.bind_some, hcfg, Option.bind_some]
  exact Option.map_eq_bind.symm

/-- A string whose first part is not good, or that has too few parts. -/
theorem parts_of_addDevice (h : addDevice hs devName s = some d) :
    ∃ a hba dev cfg, Parts s a hba dev cfg ∧ a.chars <+: tcmUser.chars := by
  obtain ⟨u, hu, h⟩ := Option.bind_eq_some_iff.mp h
  split at h
  · exact absurd h (by simp)
  · rename_i hagree
    rw [Bool.not_eq_true', Bool.not_eq_false, CStr.agree_before_iff] at hagree
    obtain ⟨v, hv, h⟩ := Option.bind_eq_some_iff.mp h
    obtain ⟨cfg, hcfg, -⟩ := Option.bind_eq_some_iff.mp h
    exact ⟨_, _, _, cfg, parts_of_after hu hv hcfg, hagree⟩

/-- The handler that is found: the first one whose subtype begins with the part of the string. -/
theorem tcmulibFindHandler_eq (hs : List (TcmulibHandler ρ)) (cfg : CStr) :
    tcmulibFindHandler hs cfg =
      hs.find? fun h => decide ((cfg.before slash).chars <+: h.subtype.chars) := by
  rw [tcmulibFindHandler]
  congr 1
  funext h
  rw [Bool.eq_iff_iff, CStr.agree_before_iff, decide_eq_true_eq]

theorem tcmulibFindHandler_eq_none_iff {cfg : CStr} :
    tcmulibFindHandler hs cfg = none ↔
      ∀ h ∈ hs, ¬ (cfg.before slash).chars <+: h.subtype.chars := by
  rw [tcmulibFindHandler_eq, List.find?_eq_none]
  simp only [decide_eq_true_eq]

theorem of_tcmulibFindHandler {cfg : CStr} {h : TcmulibHandler ρ}
    (hfind : tcmulibFindHandler hs cfg = some h) :
    h ∈ hs ∧ (cfg.before slash).chars <+: h.subtype.chars := by
  rw [tcmulibFindHandler_eq] at hfind
  have hp := List.find?_some hfind
  exact ⟨List.mem_of_find?_eq_some hfind, of_decide_eq_true hp⟩

theorem exists_of_tcmulibFindHandler {cfg : CStr}
    (hmatch : ∃ h ∈ hs, (cfg.before slash).chars <+: h.subtype.chars) :
    ∃ h, tcmulibFindHandler hs cfg = some h := by
  obtain ⟨h, hh, hpre⟩ := hmatch
  rw [← Option.ne_none_iff_exists']
  exact fun hnone => tcmulibFindHandler_eq_none_iff.mp hnone h hh hpre

theorem tcmulibFindHandler_of_head {cfg : CStr} {h : TcmulibHandler ρ} (hhead : hs.head? = some h)
    (hpre : (cfg.before slash).chars <+: h.subtype.chars) : tcmulibFindHandler hs cfg = some h := by
  obtain ⟨l, rfl⟩ := List.head?_eq_some_iff.mp hhead
  rw [tcmulibFindHandler_eq]
  exact List.find?_cons_of_pos (decide_eq_true hpre)

end Finding

/-! ### Main result -/

/-- The device is bound to the handler that its string names, under the names that the string
gives, and the order of registration does not matter. -/
def BoundAsNamed (hs : Handlers ρ) (devName s : CStr) : Prop :=
  (∀ d, addDevice hs.list devName s = some d →
    ∃ hba dev cfg, Parts s tcmUser hba dev cfg ∧ d.handler ∈ hs.list ∧
      d.handler.subtype = cfg.before slash ∧ d.tcmHbaName = hbaUser.append hba ∧
      d.tcmDevName = dev ∧ d.cfgstring = cfg) ∧
    ∀ hs' : Handlers ρ, hs'.list.Perm hs.list →
      addDevice hs'.list devName s = addDevice hs.list devName s

/-- Two registered handlers of the same subtype are the same. -/
theorem Handlers.eq_of_subtype (hs : Handlers ρ) {h h' : TcmulibHandler ρ} (hh : h ∈ hs.list)
    (hh' : h' ∈ hs.list) (heq : h.subtype = h'.subtype) : h = h' :=
  List.inj_on_of_nodup_map hs.nodup hh hh' heq

/-- The same handlers, with one of them first. -/
theorem Handlers.exists_first (hs : Handlers ρ) {h : TcmulibHandler ρ} (hh : h ∈ hs.list) :
    ∃ hs' : Handlers ρ, hs'.list.Perm hs.list ∧ hs'.list.head? = some h := by
  obtain ⟨l, l', hl⟩ := List.append_of_mem hh
  have hperm : (h :: (l ++ l')).Perm hs.list := by
    rw [hl]
    exact List.perm_middle.symm
  exact ⟨⟨h :: (l ++ l'), (hperm.map _).nodup_iff.mpr hs.nodup⟩, hperm, rfl⟩

/-- The string is refused, or its first part is complete, its names fit into their arrays, and no
handler has a subtype that only begins like the one that is named. -/
def NamesExactly (hs : Handlers ρ) (s : CStr) : Prop :=
  ∀ a hba dev cfg, Parts s a hba dev cfg → a.chars <+: tcmUser.chars →
    (∃ h ∈ hs.list, ((cfg.truncate 4096).before slash).chars <+: h.subtype.chars) →
    a = tcmUser ∧ hba.length ≤ 10 ∧ dev.length ≤ 127 ∧ cfg.length ≤ 4095 ∧
      ∀ h ∈ hs.list, (cfg.before slash).chars <+: h.subtype.chars → h.subtype = cfg.before slash

section Binding

variable {hs : Handlers ρ} {devName s : CStr}

theorem BoundAsNamed.namesExactly (hbound : BoundAsNamed hs devName s) : NamesExactly hs s := by
  intro a hba dev cfg hparts ha hmatch
  obtain ⟨h₀, hfind⟩ := exists_of_tcmulibFindHandler hmatch
  have hadd : addDevice hs.list devName s = some (newDevice devName hba dev cfg h₀) := by
    rw [addDevice_of_parts hparts ha, hfind, Option.map_some]
  obtain ⟨hba', dev', cfg', hparts', -, hsub, hhba, hdev, hcfg⟩ := hbound.1 _ hadd
  obtain ⟨rfl, rfl, rfl, rfl⟩ := hparts.unique hparts'
  have hlen : (hbaUser.append hba).length = 5 + hba.length := List.length_append
  rw [newDevice, CStr.truncate_eq_self_iff (by decide)] at hhba hdev hcfg
  refine ⟨rfl, by omega, by omega, by omega, fun h hh hpre => ?_⟩
  -- this handler is taken too, if it is registered first
  obtain ⟨hs', hperm, hhead⟩ := hs.exists_first hh
  have hadd' := hbound.2 hs' hperm
  rw [← (CStr.truncate_eq_self_iff (by decide)).mpr hcfg] at hpre
  rw [hadd, addDevice_of_parts hparts ha, tcmulibFindHandler_of_head hhead hpre,
    Option.map_some] at hadd'
  rw [← congrArg NewDevice.handler (Option.some.inj hadd')] at hsub
  exact hsub

theorem NamesExactly.named (hcond : NamesExactly hs s) {d : NewDevice ρ}
    (hd : addDevice hs.list devName s = some d) :
    ∃ hba dev cfg, Parts s tcmUser hba dev cfg ∧ d.handler ∈ hs.list ∧
      d.handler.subtype = cfg.before slash ∧ d.tcmHbaName = hbaUser.append hba ∧
      d.tcmDevName = dev ∧ d.cfgstring = cfg := by
  obtain ⟨a, hba, dev, cfg, hparts, ha⟩ := parts_of_addDevice hd
  rw [addDevice_of_parts hparts ha] at hd
  obtain ⟨h, hfind, rfl⟩ := Option.map_eq_some_iff.mp hd
  obtain ⟨hh, hpre⟩ := of_tcmulibFindHandler hfind
  obtain ⟨rfl, hhba, hdev, hcfg, honly⟩ := hcond a hba dev cfg hparts ha ⟨h, hh, hpre⟩
  have hlen : (hbaUser.append hba).length = 5 + hba.length := List.length_append
  have hwhole : cfg.truncate 4096 = cfg := (CStr.truncate_eq_self_iff (by decide)).mpr (by omega)
  rw [hwhole] at hpre
  exact ⟨hba, dev, cfg, hparts, hh, honly h hh hpre,
    (CStr.truncate_eq_self_iff (by decide)).mpr (by omega),
    (CStr.truncate_eq_self_iff (by decide)).mpr (by omega), hwhole⟩

/-- The handler that is found does not depend on the order. -/
theorem NamesExactly.tcmulibFindHandler_perm (hcond : NamesExactly hs s) {a hba dev cfg : CStr}
    (hparts : Parts s a hba dev cfg) (ha : a.chars <+: tcmUser.chars) {hs' : Handlers ρ}
    (hperm : hs'.list.Perm hs.list) :
    tcmulibFindHandler hs'.list (cfg.truncate 4096) =
      tcmulibFindHandler hs.list (cfg.truncate 4096) := by
  by_cases hmatch : ∃ h ∈ hs.list, ((cfg.truncate 4096).before slash).chars <+: h.subtype.chars
  · obtain ⟨rfl, -, -, hcfg, honly⟩ := hcond a hba dev cfg hparts ha hmatch
    have hwhole : cfg.truncate 4096 = cfg :=
      (CStr.truncate_eq_self_iff (by decide)).mpr (by omega)
    rw [hwhole] at hmatch ⊢
    obtain ⟨h, hfind⟩ := exists_of_tcmulibFindHandler hmatch
    obtain ⟨x, hx, hpre⟩ := hmatch
    obtain ⟨h', hfind'⟩ := exists_of_tcmulibFindHandler ⟨x, hperm.mem_iff.mpr hx, hpre⟩
    obtain ⟨hh, hpre⟩ := of_tcmulibFindHandler hfind
    obtain ⟨hh', hpre'⟩ := of_tcmulibFindHandler hfind'
    rw [hperm.mem_iff] at hh'
    rw [hfind, hfind', hs.eq_of_subtype hh' hh
      ((honly h' hh' hpre').trans (honly h hh hpre).symm)]
  · have hnone : tcmulibFindHandler hs.list (cfg.truncate 4096) = none :=
      tcmulibFindHandler_eq_none_iff.mpr fun h hh hpre => hmatch ⟨h, hh, hpre⟩
    rw [hnone, tcmulibFindHandler_eq_none_iff]
    exact fun h hh hpre => hmatch ⟨h, hperm.mem_iff.mp hh, hpre⟩

theorem NamesExactly.addDevice_perm (hcond : NamesExactly hs s) {hs' : Handlers ρ}
    (hperm : hs'.list.Perm hs.list) :
    addDevice hs'.list devName s = addDevice hs.list devName s := by
  by_cases hgood : ∃ a hba dev cfg, Parts s a hba dev cfg ∧ a.chars <+: tcmUser.chars
  · obtain ⟨a, hba, dev, cfg, hparts, ha⟩ := hgood
    rw [addDevice_of_parts hparts ha, addDevice_of_parts hparts ha,
      hcond.tcmulibFindHandler_perm hparts ha hperm]
  · have hnone : ∀ l : List (TcmulibHandler ρ), addDevice l devName s = none := by
      intro l
      rw [← Option.not_isSome_iff_eq_none, Option.isSome_iff_exists]
      exact fun ⟨d, hd⟩ => hgood (parts_of_addDevice hd)
    rw [hnone, hnone]

end Binding

/-- **Binding a device.** The device is bound to the handler that its string names, whatever the
order of registration, if and only if the string is refused, or its first part is complete, its
names fit into their arrays, and no handler has a subtype that only begins like the one named. -/
theorem bound_as_named_iff (hs : Handlers ρ) (devName s : CStr) :
    BoundAsNamed hs devName s ↔ NamesExactly hs s :=
  ⟨BoundAsNamed.namesExactly, fun hcond =>
    ⟨fun _ hd => hcond.named hd, fun _ hperm => hcond.addDevice_perm hperm⟩⟩

/-- `uio0`. -/
def uio0 : CStr := ⟨[117, 105, 111, 48], by decide⟩

/-- The handlers `fbo` and `file`. -/
def fboAndFile : Handlers Unit :=
  ⟨[⟨⟨[102, 98, 111], by decide⟩, ()⟩, ⟨⟨[102, 105, 108, 101], by decide⟩, ()⟩], by decide⟩

/-- `tcm-user/1/d/f/x`. -/
def shortName : CStr :=
  ⟨[116, 99, 109, 45, 117, 115, 101, 114, 47, 49, 47, 100, 47, 102, 47, 120], by decide⟩

/-- There is no handler `f`, but the device is bound to the first of the two. -/
theorem bound_not_as_named : ¬ BoundAsNamed fboAndFile uio0 shortName := by
  intro h
  have hperm := h.2 ⟨fboAndFile.list.reverse, by decide⟩ (List.Perm.swap ..)
  exact absurd (congrArg (Option.map fun d => d.handler.subtype) hperm) (by decide)

end Tcmu

end LioProject
