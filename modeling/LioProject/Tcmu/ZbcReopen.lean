import LioProject.Lib.Run
import LioProject.Lib.Tiling
import LioProject.Tcmu.ZbcPointers

/-!
# A zoned device keeps its data

When a device is opened, `zbc_check_meta` decides whether the metadata in the file can be used. If
it says no, the device is formatted again, and its data are lost. `zbc_check_meta` and
`zbc_format_meta` describe the same layouts in different words, and they do not agree on all of
them.

* By default one zone out of a hundred is conventional, but at least one. On a device with one zone
  this is the only zone, and metadata with conventional zones only are not accepted. If a number of
  conventional zones is configured, `zbc_format_meta` refuses the same.
* The size of the device has to be a multiple of the block size.
* The size of a zone has to fit into the 32 bits of the header, and the number of zones into an
  `unsigned int`.

A configuration string with options asks for a format at every open, whatever the metadata are.

These are all cases (`reopen_keeps_data_iff`): other devices are accepted after every sequence of
commands, and are not formatted when they are opened again.
-/

namespace LioProject

namespace Tcmu

/-! ### Accepted configurations -/

/-- `zbc_check_meta` accepts what `zbc_format_meta` writes. -/
structure ZbcConfig.Reopens (cfg : ZbcConfig) : Prop where
  blocks : cfg.lbaSize ∣ cfg.devSize
  zoneSize : cfg.zoneSize < 2 ^ 32
  zones : cfg.zoneCount < 2 ^ 32
  /-- If the number of conventional zones is not configured, there is more than one zone. -/
  conv : cfg.convNum = 2 ^ 32 - 1 → 2 ≤ cfg.zoneCount

/-- `zbc_open_backstore` formats the device. -/
def ZbcConfig.Formats (cfg : ZbcConfig) (s : ZbcDev) : Prop :=
  cfg.needFormat = true ∨ zbcCheckMeta cfg s = false

instance (cfg : ZbcConfig) : Decidable cfg.Reopens :=
  decidable_of_iff (cfg.lbaSize ∣ cfg.devSize ∧ cfg.zoneSize < 2 ^ 32 ∧ cfg.zoneCount < 2 ^ 32 ∧
      (cfg.convNum = 2 ^ 32 - 1 → 2 ≤ cfg.zoneCount))
    ⟨fun h => ⟨h.1, h.2.1, h.2.2.1, h.2.2.2⟩, fun h => ⟨h.1, h.2, h.3, h.4⟩⟩

/-- The event is a command. -/
def ZbcEvent.IsCommand : ZbcEvent → Prop
  | .reopen _ => False
  | _ => True

/-- A device that has been formatted keeps its data. -/
structure KeepsData (cfg : ZbcConfig) (new : ZbcDev) : Prop where
  /-- The zones cover the device. -/
  tiles : Tiles 0 new.capacity (new.zones.map fun z => (z.start, z.len))
  /-- After commands the metadata are accepted. -/
  accepted : ∀ es s, (∀ e ∈ es, e.IsCommand) → run ZbcDev.step new es = some s →
    zbcCheckMeta cfg s = true
  /-- It is not formatted when it is opened again. -/
  notFormatted : ∀ es s, (∀ e ∈ es, e.IsCommand) → run ZbcDev.step new es = some s →
    ¬ cfg.Formats s
  /-- Opening the device again only closes the zones. -/
  closes : ∀ es s, (∀ e ∈ es, e.IsCommand) → run ZbcDev.step new es = some s →
    ∃ t, zbcOpenBackstore cfg s = some t ∧
      t.zones = s.zones.map fun z => if z.isOpen then
        { z with cond := if z.wp = z.start then .empty else .closed } else z

section Format

variable {cfg : ZbcConfig} {s new : ZbcDev}

/-- The loop of `zbc_format_meta` covers what is left of the device. -/
theorem tiles_formatZones {header : ZbcMeta} : ∀ {n i lba : ℕ}, lba ≤ header.capacity →
    header.capacity ≤ lba + n * header.zoneSize →
    Tiles lba header.capacity ((formatZones header n i lba).map fun z => (z.start, z.len))
  | 0, _, lba, hle, hge => by
    rw [Nat.zero_mul, Nat.add_zero] at hge
    exact le_antisymm hle hge
  | n + 1, i, lba, hle, hge => by
    obtain ⟨hstart, hlen⟩ := formatZone_start header i lba
    rw [formatZones, List.map_cons]
    refine ⟨hstart, ?_⟩
    dsimp only
    rw [Nat.add_mul, Nat.one_mul] at hge
    refine tiles_formatZones ?_ ?_
    · rw [hlen]
      split <;> omega
    · rw [hlen]
      split <;> omega

/-- The zones do not reach further than their number allows. -/
theorem sum_formatZones_le (header : ZbcMeta) : ∀ n i lba,
    (((formatZones header n i lba).map fun z => (z.start, z.len)).map Prod.snd).sum ≤
      n * header.zoneSize
  | 0, _, _ => Nat.zero_le _
  | n + 1, i, lba => by
    have hrest := sum_formatZones_le header n (i + 1) (lba + (formatZone header i lba).len)
    have hlen := (formatZone_start header i lba).2
    have hle : (formatZone header i lba).len ≤ header.zoneSize := by
      rw [hlen]
      split
      · omega
      · exact le_rfl
    rw [formatZones, List.map_cons, List.map_cons, List.sum_cons, Nat.add_mul, Nat.one_mul]
    dsimp only at hrest ⊢
    omega

theorem capacity_le_zoneCount (cfg : ZbcConfig) :
    cfg.capacity ≤ cfg.zoneCount * cfg.zoneSize := by
  have hpos := zoneSize_pos cfg
  have hdiv := Nat.lt_div_mul_add (a := cfg.capacity + cfg.zoneSize - 1) hpos
  rw [ZbcConfig.zoneCount]
  omega

theorem zoneCount_le_of_capacity {n : ℕ} (h : cfg.capacity ≤ n * cfg.zoneSize) :
    cfg.zoneCount ≤ n := by
  have hpos := zoneSize_pos cfg
  rw [ZbcConfig.zoneCount]
  refine Nat.le_of_lt_succ ((Nat.div_lt_iff_lt_mul hpos).mpr ?_)
  rw [Nat.succ_eq_add_one, Nat.add_mul, Nat.one_mul]
  omega

theorem zoneSize_and_pred (cfg : ZbcConfig) : cfg.zoneSize &&& (cfg.zoneSize - 1) = 0 := by
  obtain ⟨e, he⟩ := exists_zoneSize_eq cfg
  rw [he, Nat.and_two_pow_sub_one_eq_mod, Nat.mod_self]

theorem nrOpenZones_le (h : cfg.nrConvZones < cfg.nrZones) : cfg.nrOpenZones ≤ cfg.nrZones := by
  have hlt : cfg.nrZones < 2 ^ 32 := Nat.mod_lt _ (by norm_num)
  have hseq : (cfg.nrZones + 2 ^ 32 - cfg.nrConvZones) % 2 ^ 32 =
      cfg.nrZones - cfg.nrConvZones := by omega
  rw [ZbcConfig.nrOpenZones, hseq]
  split
  · split <;> omega
  · omega

theorem ZbcConfig.Reopens.nrZones (h : cfg.Reopens) : cfg.nrZones = cfg.zoneCount :=
  Nat.mod_eq_of_lt h.zones

/-- The default number of conventional zones. -/
theorem nrConvZones_default (hdefault : cfg.convNum = 2 ^ 32 - 1) :
    1 ≤ cfg.nrConvZones ∧ (2 ≤ cfg.nrZones → cfg.nrConvZones < cfg.nrZones) := by
  rw [ZbcConfig.nrConvZones, if_pos hdefault]
  split
  · exact ⟨le_rfl, fun h => h⟩
  · omega

theorem ZbcConfig.Reopens.nrConvZones_lt (h : cfg.Reopens) (hnew : zbcFormatMeta cfg = some new) :
    cfg.nrConvZones < cfg.nrZones := by
  by_cases hdefault : cfg.convNum = 2 ^ 32 - 1
  · exact (nrConvZones_default hdefault).2 (h.nrZones ▸ h.conv hdefault)
  · exact (zbcFormatMeta_eq hnew).1 hdefault

theorem ZbcConfig.Reopens.header_zoneSize (h : cfg.Reopens) :
    cfg.header.zoneSize = cfg.zoneSize :=
  Nat.mod_eq_of_lt h.zoneSize

/-- A zone of a new device, after commands. -/
theorem ZbcConfig.Reopens.checkZone (h : cfg.Reopens) {z : ZbcZone} {i : ℕ}
    (hfixed : z.fixed = (formatZone cfg.header i (i * cfg.header.zoneSize)).fixed)
    (hconv : z.conv = true → z.cond = .notWp) : zbcCheckZone cfg.header z = true := by
  obtain ⟨hstart, hlen⟩ := formatZone_start cfg.header i (i * cfg.header.zoneSize)
  have hsize := h.header_zoneSize
  have htype : z.type = (formatZone cfg.header i (i * cfg.header.zoneSize)).type :=
    type_of_fixed hfixed
  have hmodel : (z.type = .seqwritePref → cfg.header.model = .ha) ∧
      (z.type = .seqwriteReq → cfg.header.model = .hm) := by
    rw [htype, formatZone]
    split
    · constructor
      · intro hc
        cases hc
      · intro hc
        cases hc
    · cases hm : cfg.header.model with
      | ha =>
        refine ⟨fun _ => rfl, fun hc => ?_⟩
        cases hc
      | hm =>
        refine ⟨fun hc => ?_, fun _ => rfl⟩
        cases hc
  have hplace : z.start % cfg.header.zoneSize = 0 ∧ z.len ≤ cfg.header.zoneSize := by
    rw [start_of_fixed hfixed, len_of_fixed hfixed, hstart, hlen]
    refine ⟨Nat.mul_mod_left _ _, ?_⟩
    split
    · omega
    · exact le_rfl
  rw [zbcCheckZone, decide_eq_true_iff]
  simp only [Bool.not_eq_true', decide_eq_false_iff_not, not_and, not_not, not_or, not_lt]
  exact ⟨hmodel.1, hmodel.2, hconv, hplace.1, hplace.2⟩

/-- Metadata with the header of the configuration and zones in order are accepted. -/
theorem ZbcConfig.Reopens.checkMeta (h : cfg.Reopens) (hnew : zbcFormatMeta cfg = some new)
    (hheader : s.header = cfg.header)
    (hfile : s.fileSize = (zbcMetaSizeAligned cfg.nrZones + cfg.devSize) % 2 ^ 64)
    (hzones : ∀ z ∈ s.zones, zbcCheckZone cfg.header z = true) : zbcCheckMeta cfg s = true := by
  have hconv := h.nrConvZones_lt hnew
  have hsize := h.header_zoneSize
  have hnr : (cfg.header.capacity + cfg.header.zoneSize - 1) / cfg.header.zoneSize % 2 ^ 32 =
      cfg.nrZones := by
    rw [hsize]
    rfl
  rw [zbcCheckMeta, decide_eq_true_iff, hheader, hnr]
  refine ⟨rfl, cfg.lbaSize_eq, ?_, ?_, ?_, rfl, hconv, nrOpenZones_le hconv, hfile,
    List.all_eq_true.mpr hzones⟩
  · have hmul : cfg.header.capacity * cfg.header.lbaSize = cfg.devSize :=
      Nat.div_mul_cancel h.blocks
    rw [hmul]
    exact Nat.mod_eq_of_lt cfg.devSize_lt
  · rw [hsize]
    exact (zoneSize_pos cfg).ne'
  · rw [hsize]
    exact zoneSize_and_pred cfg

/-- What commands leave of a new device. -/
theorem fixed_of_commands {es : List ZbcEvent} (hes : ∀ e ∈ es, e.IsCommand)
    (hrun : run ZbcDev.step new es = some s) : s.fixed = new.fixed := by
  have hkeep : ∀ s e t, e.IsCommand → s.fixed = new.fixed → ZbcDev.step s e = some t →
      t.fixed = new.fixed := by
    intro s e t he hs hstep
    cases e with
    | out cdb =>
      cases hstep
      exact (fixed_zbcOut s cdb).trans hs
    | write cdb iov rets =>
      obtain ⟨answer, hanswer, rfl⟩ := Option.map_eq_some_iff.mp hstep
      exact (fixed_zbcWrite hanswer).trans hs
    | reopen cfg => exact absurd he id
  exact run_invariant_of hkeep hes rfl hrun

theorem accounts_of_commands {es : List ZbcEvent} (hnew : zbcFormatMeta cfg = some new)
    (hrun : run ZbcDev.step new es = some s) : s.Accounts :=
  run_invariant (fun _ _ _ hs hstep => hs.step hstep) (accounts_zbcFormatMeta hnew).1 hrun

theorem ZbcConfig.Reopens.accepted (h : cfg.Reopens) (hnew : zbcFormatMeta cfg = some new)
    {es : List ZbcEvent} (hes : ∀ e ∈ es, e.IsCommand)
    (hrun : run ZbcDev.step new es = some s) : zbcCheckMeta cfg s = true := by
  have hfixed := fixed_of_commands hes hrun
  have haccounts := accounts_of_commands hnew hrun
  obtain ⟨-, hheader, -, -, -⟩ := zbcFormatMeta_eq hnew
  refine h.checkMeta hnew ((header_of_fixed hfixed).trans hheader)
    ((fileSize_of_fixed hfixed).trans (zbcFormatMeta_size hnew).2) fun z hz => ?_
  obtain ⟨i, hi⟩ := List.mem_iff_getElem?.mp hz
  obtain ⟨w, hw, heq⟩ := getElem?_of_fixed hfixed.symm hi
  rw [getElem?_zbcFormatMeta hnew (lt_nrZones_of_format hnew hw), Option.some.injEq] at hw
  exact h.checkZone (by rw [hw, heq]) (haccounts.conv z hz)

/-- `zbc_init_meta` closes the zones. -/
theorem zones_of_init (haccounts : s.Accounts) : (zbcInitMeta s).zones =
    s.zones.map fun z => if z.isOpen then
      { z with cond := if z.wp = z.start then .empty else .closed } else z := by
  rw [zones_zbcInitMeta haccounts.length]
  refine List.map_congr_left fun z hz => ?_
  rw [ZbcZone.closedUp]
  by_cases hopen : z.isOpen = true
  · have hconv : z.conv = false := by
      cases hc : z.conv with
      | false => rfl
      | true =>
        rw [ZbcZone.isOpen, ZbcZone.impOpen, ZbcZone.expOpen, haccounts.conv z hz hc] at hopen
        cases hopen
    rw [if_pos ⟨hconv, hopen⟩, if_pos hopen]
    rfl
  · rw [if_neg fun hc => hopen hc.2, if_neg hopen]

theorem ZbcConfig.Reopens.not_formats (h : cfg.Reopens) (hno : cfg.needFormat = false)
    (hnew : zbcFormatMeta cfg = some new) {es : List ZbcEvent} (hes : ∀ e ∈ es, e.IsCommand)
    (hrun : run ZbcDev.step new es = some s) : ¬ cfg.Formats s := by
  rintro (hformat | hcheck)
  · exact absurd (hno.symm.trans hformat) (by simp)
  · exact absurd ((h.accepted hnew hes hrun).symm.trans hcheck) (by simp)

/-- The zones of a new device cover it. -/
theorem ZbcConfig.Reopens.tiles (h : cfg.Reopens) (hnew : zbcFormatMeta cfg = some new) :
    Tiles 0 new.capacity (new.zones.map fun z => (z.start, z.len)) := by
  obtain ⟨-, -, hzones, -, -⟩ := zbcFormatMeta_eq hnew
  rw [(zbcFormatMeta_size hnew).1, hzones]
  refine @tiles_formatZones cfg.header _ _ _ (Nat.zero_le _) ?_
  rw [h.header_zoneSize, h.nrZones, Nat.zero_add]
  exact capacity_le_zoneCount cfg

theorem keepsData_of_reopens (h : cfg.Reopens) (hno : cfg.needFormat = false)
    (hnew : zbcFormatMeta cfg = some new) : KeepsData cfg new := by
  refine ⟨h.tiles hnew, fun es s hes hrun => h.accepted hnew hes hrun,
    fun es s hes hrun => h.not_formats hno hnew hes hrun, fun es s hes hrun => ?_⟩
  refine ⟨zbcInitMeta s, ?_, zones_of_init (accounts_of_commands hnew hrun)⟩
  exact if_neg (h.not_formats hno hnew hes hrun)

theorem reopens_of_keepsData (h : KeepsData cfg new) (hnew : zbcFormatMeta cfg = some new) :
    cfg.Reopens := by
  obtain ⟨-, hheader, hzones, -, -⟩ := zbcFormatMeta_eq hnew
  have hcheck := h.accepted [] new (by simp) rfl
  rw [zbcCheckMeta, decide_eq_true_iff, hheader] at hcheck
  obtain ⟨-, -, hdev, hsize, -, hnr, hconv, -, -, -⟩ := hcheck
  have hfits : cfg.zoneSize < 2 ^ 32 ∧ cfg.header.zoneSize = cfg.zoneSize := by
    rcases header_zoneSize cfg with h | ⟨-, hzero⟩
    · exact h
    · exact absurd hzero hsize
  have hcount : cfg.zoneCount ≤ cfg.nrZones := by
    have hcover := h.tiles.eq_add_sum
    rw [(zbcFormatMeta_size hnew).1, hzones, Nat.zero_add] at hcover
    have hsum := sum_formatZones_le cfg.header cfg.nrZones 0 0
    rw [← hcover, hfits.2] at hsum
    exact zoneCount_le_of_capacity hsum
  have hlt : cfg.nrZones < 2 ^ 32 := Nat.mod_lt _ (by norm_num)
  refine ⟨?_, hfits.1, hcount.trans_lt hlt, fun hdefault => ?_⟩
  · have hle : cfg.header.capacity * cfg.header.lbaSize ≤ cfg.devSize :=
      Nat.div_mul_le_self _ _
    rw [Nat.mod_eq_of_lt (hle.trans_lt cfg.devSize_lt)] at hdev
    exact ⟨cfg.header.capacity, by rw [Nat.mul_comm]; exact hdev.symm⟩
  · have hone := (nrConvZones_default hdefault).1
    have hconv : cfg.nrConvZones < cfg.nrZones := by
      rw [← hnr] at hconv
      exact hconv
    have hle : cfg.nrZones ≤ cfg.zoneCount := Nat.mod_le _ _
    omega

theorem needFormat_of_keepsData (h : KeepsData cfg new) : cfg.needFormat = false :=
  Bool.eq_false_iff.mpr fun hformat => h.notFormatted [] new (by simp) rfl (Or.inl hformat)

/-- **A zoned device keeps its data** over commands and a reopen, if and only if the metadata
checker accepts the layout of its configuration, and the configuration asks for no format. -/
theorem reopen_keeps_data_iff (hnew : zbcFormatMeta cfg = some new) :
    KeepsData cfg new ↔ cfg.Reopens ∧ cfg.needFormat = false :=
  ⟨fun h => ⟨reopens_of_keepsData h hnew, needFormat_of_keepsData h⟩,
    fun h => keepsData_of_reopens h.1 h.2 hnew⟩

end Format

/-- The default configuration, for a device of some size. -/
def defaultZones (devSize : ℕ) (h : devSize < 2 ^ 64) : ZbcConfig :=
  { devSize
    needFormat := false
    model := .hm
    lbaSize := 512
    zoneExp := 28
    convNum := 2 ^ 32 - 1
    openNum := 128
    devSize_lt := h
    lbaSize_eq := Or.inl rfl
    zoneExp_mem := by norm_num
    convNum_lt := by norm_num
    openNum_mem := by norm_num }

/-- It has two zones on a device of 512 mebibytes. -/
def twoZones : ZbcConfig := defaultZones (2 ^ 29) (by norm_num)

/-- A device of two zones. -/
theorem reopen_keeps_data_two : ∃ new, zbcFormatMeta twoZones = some new ∧
    KeepsData twoZones new := by
  have hnew : ∃ new, zbcFormatMeta twoZones = some new := ⟨_, rfl⟩
  obtain ⟨new, hnew⟩ := hnew
  exact ⟨new, hnew, (reopen_keeps_data_iff hnew).mpr ⟨by decide, rfl⟩⟩

/-- The default configuration, for a device of 64 mebibytes. -/
def oneZone : ZbcConfig := defaultZones (2 ^ 26) (by norm_num)

/-- The only zone is conventional, and the metadata are rejected: each time the device is opened, it
is formatted again. -/
theorem one_zone_reformatted : ∃ new, zbcFormatMeta oneZone = some new ∧
    zbcCheckMeta oneZone new = false ∧ zbcOpenBackstore oneZone new = zbcFormatMeta oneZone ∧
      ¬ KeepsData oneZone new := by
  have hnew : ∃ new, zbcFormatMeta oneZone = some new ∧ zbcCheckMeta oneZone new = false :=
    ⟨_, rfl, by decide⟩
  obtain ⟨new, hnew, hcheck⟩ := hnew
  refine ⟨new, hnew, hcheck, ?_, fun h => ?_⟩
  · rw [zbcOpenBackstore, if_pos (Or.inr hcheck)]
  · have haccepted := h.accepted [] new (by simp) rfl
    rw [hcheck] at haccepted
    cases haccepted

end Tcmu

end LioProject
