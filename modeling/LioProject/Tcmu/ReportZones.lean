import LioProject.Tcmu.IovecCopy
import LioProject.Tcmu.ZbcReopen

/-!
# Reporting zones

`zbc_report_zones` goes through the zone table twice. The first pass counts the zones for the header
of the answer, the second one copies a descriptor for each of them into the scatter list, as long as
there is room. Both begin with the zone of the block that the command names.

The length that the header tells is the number of zones times 64, in 32 bits. If it does not fit,
the answer says that there are fewer zones than there are: `report_zones_iff`.
-/

namespace LioProject

namespace Tcmu

/-! ### The code -/

/-- `enum zbc_reporting_options`. -/
inductive ReportingOption where
  | all
  | empty
  | impOpen
  | expOpen
  | closed
  | full
  | readonly
  | offline
  | rwpRecommended
  | nonSeq
  | notWp
  deriving DecidableEq, Repr

/-- The option with a number. -/
def ReportingOption.ofCode : ℕ → Option ReportingOption
  | 0x00 => some .all
  | 0x01 => some .empty
  | 0x02 => some .impOpen
  | 0x03 => some .expOpen
  | 0x04 => some .closed
  | 0x05 => some .full
  | 0x06 => some .readonly
  | 0x07 => some .offline
  | 0x10 => some .rwpRecommended
  | 0x11 => some .nonSeq
  | 0x3f => some .notWp
  | _ => none

/-- The zones that an option lists. -/
def ReportingOption.lists (z : ZbcZone) : ReportingOption → Bool
  | .all => true
  | .empty => z.cond = .empty
  | .impOpen => z.impOpen
  | .expOpen => z.expOpen
  | .closed => z.closed
  | .full => z.cond = .full
  | .readonly => z.cond = .readonly
  | .offline => z.cond = .offline
  | .rwpRecommended => z.reset
  | .nonSeq => z.nonSeq
  | .notWp => z.cond = .notWp

/-- `zbc_should_report_zone`. -/
def zbcShouldReportZone (ro : ℕ) (z : ZbcZone) : Bool :=
  (ReportingOption.ofCode (ro &&& 0x7f)).any (ReportingOption.lists z)

/-- The value of a zone type. -/
def ZoneType.code : ZoneType → ℕ
  | .conventional => 0x1
  | .seqwriteReq => 0x2
  | .seqwritePref => 0x3

/-- The value of a zone condition. -/
def ZoneCond.code : ZoneCond → ℕ
  | .notWp => 0x0
  | .empty => 0x1
  | .impOpen => 0x2
  | .expOpen => 0x3
  | .closed => 0x4
  | .readonly => 0xd
  | .full => 0xe
  | .offline => 0xf

/-- The header of the answer. The number of zones is an `unsigned int`. -/
def zonesHeader (nrZones capacity : ℕ) : List UInt8 :=
  putBe (putBe (List.replicate 64 0) 0 (nrZones * 64 % 2 ^ 32) 4) 8 (capacity - 1) 8

/-- The descriptor of a zone. -/
def ZbcZone.descriptor (z : ZbcZone) : List UInt8 :=
  let data := (List.replicate 64 0).set 0 (UInt8.ofNat (z.type.code &&& 0x0f))
  let flags := (z.cond.code <<< 4 &&& 0xf0) ||| (if z.reset then 0x01 else 0) |||
    (if z.nonSeq then 0x02 else 0)
  let data := data.set 1 (UInt8.ofNat flags)
  putBe (putBe (putBe data 8 z.len 8) 16 z.start 8) 24 z.wp 8

/-- `data`, at address `buf`, is filled, and `tcmu_memcpy_into_iovec` copies it. -/
def putData (mem : Mem) (iov : List Iovec) (buf : ℕ) (data : List UInt8) : IovecCopy :=
  (mem.store buf data).tcmuMemcpyIntoIovec iov buf 64

/-- The first pass, from the zone `zone` on. It fails when it leaves the table. -/
def countZones (capacity : ℕ) (part : Bool) (ro : ℕ) :
    List ZbcZone → (lba len nrZones : ℕ) → Option ℕ
  | [], lba, _, nrZones => if lba < capacity then none else some nrZones
  | zone :: zones, lba, len, nrZones =>
    if lba < capacity then
      if zbcShouldReportZone ro zone then
        if part && len < 64 then some nrZones
        else
          countZones capacity part ro zones (zone.stop % 2 ^ 64) (if len > 64 then len - 64 else 0)
            ((nrZones + 1) % 2 ^ 32)
      else countZones capacity part ro zones (zone.stop % 2 ^ 64) len nrZones
    else some nrZones

/-- The second pass. -/
def emitZones (capacity ro buf : ℕ) :
    List ZbcZone → (lba len : ℕ) → Mem → List Iovec → Option (Mem × List Iovec)
  | [], lba, len, mem, iov => if lba < capacity ∧ len ≥ 64 then none else some (mem, iov)
  | zone :: zones, lba, len, mem, iov =>
    if lba < capacity ∧ len ≥ 64 then
      if zbcShouldReportZone ro zone then
        let r := putData mem iov buf zone.descriptor
        emitZones capacity ro buf zones (zone.stop % 2 ^ 64) (len - 64) r.mem r.iov
      else emitZones capacity ro buf zones (zone.stop % 2 ^ 64) len mem iov
    else some (mem, iov)

/-- `zbc_report_zones`, for a local variable `data` at address `buf`: the answer, and the memory
afterwards. -/
def ZbcDev.zbcReportZones (s : ZbcDev) (cdb : Cdb) (iov : List Iovec) (buf : ℕ) (mem : Mem) :
    Option (Option ZbcSense × Mem) :=
  let part : Bool := byteAt cdb 14 &&& 0x80 ≠ 0
  let ro := byteAt cdb 14 &&& 0x7f
  if (ReportingOption.ofCode ro).isNone then some (some .invalidFieldInCdb, mem)
  else if lbaOf cdb ≥ s.capacity then some (some .lbaOutOfRange, mem)
  else do
    let len := if xferLengthOf cdb > 64 then xferLengthOf cdb - 64 else 0
    -- a `NULL` pointer is followed
    let i ← s.zbcGetZone (lbaOf cdb) false
    let nrZones ← countZones s.capacity part ro (s.zones.drop i) (lbaOf cdb) len 0
    let r := putData mem iov buf (zonesHeader nrZones s.capacity)
    if r.copied < 64 then some (none, r.mem)
    else
      let (mem, _) ← emitZones s.capacity ro buf (s.zones.drop i) (lbaOf cdb)
        (tcmuIovecLength r.iov) r.mem r.iov
      some (none, mem)

/-! ### Zone tables -/

/-- A zone table that covers the device, of zones that `zbc_check_zone` lets pass. -/
structure ZbcDev.Tabled (s : ZbcDev) : Prop where
  tiles : Tiles 0 s.capacity (s.zones.map fun z => (z.start, z.len))
  /-- Zones are not empty. They are as large as `zone_size` says, or smaller, and begin at multiples
  of it. -/
  zone : ∀ z ∈ s.zones, z.start % s.zoneSize = 0 ∧ 0 < z.len ∧ z.len ≤ s.zoneSize
  length : s.zones.length = s.nrZones
  /-- `nr_zones` is an `unsigned int`. -/
  nrZones_lt : s.nrZones < 2 ^ 32
  /-- `capacity` has 64 bits. -/
  capacity_lt : s.capacity < 2 ^ 64
  /-- So have the write pointers. -/
  wp_lt : ∀ z ∈ s.zones, z.wp < 2 ^ 64

/-- A pointer that goes through the zones, and a block that goes from the end of one zone to the end
of the next, come to the end of the table and of the device together. -/
def Walks (capacity : ℕ) : ℕ → List ZbcZone → Prop
  | lba, [] => capacity ≤ lba
  | lba, z :: zs => lba < capacity ∧ z.stop < 2 ^ 64 ∧ Walks capacity z.stop zs

section Table

variable {s : ZbcDev} {z : ZbcZone} {zs : List ZbcZone} {capacity lba i a size : ℕ}

theorem walks_of_tiles (hcap : capacity < 2 ^ 64) (hpos : ∀ z ∈ zs, 0 < z.len)
    (h : Tiles a capacity (zs.map fun z => (z.start, z.len))) : Walks capacity a zs := by
  induction zs generalizing a with
  | nil => exact (tiles_nil.mp h).ge
  | cons z zs ih =>
    obtain ⟨hstart, hrest⟩ := h
    have hstart : z.start = a := hstart
    have hrest : Tiles (a + z.len) capacity (zs.map fun z => (z.start, z.len)) := hrest
    have hz := hpos z List.mem_cons_self
    have hle := hrest.le
    have hstop : z.stop = a + z.len := by rw [ZbcZone.stop, hstart]
    refine ⟨by omega, by omega, ?_⟩
    rw [hstop]
    exact ih (fun w hw => hpos w (List.mem_cons_of_mem z hw)) hrest

/-- The zones of a table begin at the multiples of the zone size, in order. -/
theorem start_of_tiles {k : ℕ}
    (hzone : ∀ z ∈ zs, z.start % size = 0 ∧ 0 < z.len ∧ z.len ≤ size)
    (h : Tiles (k * size) capacity (zs.map fun z => (z.start, z.len))) (hz : zs[i]? = some z) :
    z.start = (k + i) * size := by
  induction zs generalizing k i with
  | nil => exact absurd hz (by simp)
  | cons w zs ih =>
    obtain ⟨hstart, hrest⟩ := h
    cases i with
    | zero =>
      obtain rfl : w = z := Option.some.inj hz
      exact hstart
    | succ i =>
      rw [List.getElem?_cons_succ] at hz
      obtain ⟨-, hlen, hle⟩ := hzone w List.mem_cons_self
      have hrest : Tiles (k * size + w.len) capacity (zs.map fun z => (z.start, z.len)) := hrest
      -- the next zone begins at a multiple, too
      have hfull : w.len = size := by
        cases zs with
        | nil => exact absurd hz (by simp)
        | cons v zs =>
          have hv : v.start = k * size + w.len := hrest.1
          have hmod := (hzone v (by simp)).1
          rw [hv, Nat.add_comm, Nat.add_mul_mod_self_right] at hmod
          exact Nat.le_antisymm hle (Nat.le_of_dvd hlen (Nat.dvd_of_mod_eq_zero hmod))
      have hnext : k * size + w.len = (k + 1) * size := by rw [hfull, Nat.succ_mul]
      rw [hnext] at hrest
      rw [ih (fun v hv => hzone v (List.mem_cons_of_mem w hv)) hrest hz]
      congr 1
      omega

theorem ZbcDev.Tabled.start (h : s.Tabled) (hz : s.zones[i]? = some z) :
    z.start = i * s.zoneSize := by
  have htiles : Tiles (0 * s.zoneSize) s.capacity (s.zones.map fun z => (z.start, z.len)) := by
    rw [Nat.zero_mul]
    exact h.tiles
  rw [start_of_tiles h.zone htiles hz, Nat.zero_add]

theorem ZbcDev.Tabled.stop_le (h : s.Tabled) (hz : z ∈ s.zones) : z.stop ≤ s.capacity := by
  obtain ⟨l, r, hlr⟩ := List.append_of_mem hz
  have htiles := h.tiles
  rw [hlr, List.map_append, tiles_append] at htiles
  obtain ⟨a, -, ha, hrest⟩ := htiles
  have ha : z.start = a := ha
  rw [ZbcZone.stop, ha]
  exact hrest.le

/-- The zone of a block. -/
theorem ZbcDev.Tabled.zoneAt (h : s.Tabled) (hlba : lba < s.capacity) :
    ∃ z, s.zones[lba / s.zoneSize]? = some z ∧ z.start ≤ lba ∧ lba < z.stop := by
  have hcount := h.tiles.countP_eq lba
  rw [if_pos ⟨Nat.zero_le _, hlba⟩] at hcount
  obtain ⟨p, hp, hin⟩ := List.countP_pos_iff.mp (hcount ▸ Nat.one_pos)
  obtain ⟨z, hz, rfl⟩ := List.mem_map.mp hp
  obtain ⟨hstart, hstop⟩ := of_decide_eq_true hin
  obtain ⟨i, hi⟩ := List.mem_iff_getElem?.mp hz
  obtain ⟨-, -, hle⟩ := h.zone z hz
  have hplace := h.start hi
  have hindex : lba / s.zoneSize = i := by
    refine Nat.div_eq_of_lt_le (hplace ▸ hstart) ?_
    rw [Nat.succ_mul, ← hplace]
    exact hstop.trans_le (Nat.add_le_add_left hle _)
  exact ⟨z, hindex ▸ hi, hstart, hstop⟩

/-- Where both passes begin. -/
theorem ZbcDev.Tabled.begins (h : s.Tabled) (hlba : lba < s.capacity) :
    s.zbcGetZone lba false = some (lba / s.zoneSize) ∧
      Walks s.capacity lba (s.zones.drop (lba / s.zoneSize)) := by
  obtain ⟨z, hz, hstart, hstop⟩ := h.zoneAt hlba
  obtain ⟨hindex, hget⟩ := List.getElem?_eq_some_iff.mp hz
  have hlt : lba / s.zoneSize < s.nrZones := by rwa [← h.length]
  constructor
  · rw [ZbcDev.zbcGetZone, Nat.mod_eq_of_lt (hlt.trans h.nrZones_lt),
      if_neg (Nat.not_le.mpr hlt), Bool.false_and, if_neg Bool.false_ne_true]
  · have hsplit : s.zones.drop (lba / s.zoneSize) = z :: s.zones.drop (lba / s.zoneSize + 1) := by
      rw [List.drop_eq_getElem_cons hindex, hget]
    have htiles := h.tiles
    rw [← List.take_append_drop (lba / s.zoneSize) s.zones, List.map_append, tiles_append,
      hsplit] at htiles
    obtain ⟨a, -, ha, hrest⟩ := htiles
    have ha : z.start = a := ha
    have hrest : Tiles z.stop s.capacity
        ((s.zones.drop (lba / s.zoneSize + 1)).map fun z => (z.start, z.len)) := by
      rw [ZbcZone.stop, ha]
      exact hrest
    rw [hsplit]
    refine ⟨hlba, hrest.le.trans_lt h.capacity_lt, walks_of_tiles h.capacity_lt ?_ hrest⟩
    exact fun w hw => (h.zone w (List.mem_of_mem_drop hw)).2.1

/-- The zones that end behind a block are those from its zone on. -/
theorem ZbcDev.Tabled.filter_stop (h : s.Tabled) (hlba : lba < s.capacity) (p : ZbcZone → Bool) :
    s.zones.filter (fun z => p z && lba < z.stop) =
      (s.zones.drop (lba / s.zoneSize)).filter p := by
  obtain ⟨z, hz, hstart, hstop⟩ := h.zoneAt hlba
  have hplace := h.start hz
  obtain ⟨-, hpos, hle⟩ := h.zone z (List.mem_of_getElem? hz)
  have hbefore : (s.zones.take (lba / s.zoneSize)).filter (fun z => p z && lba < z.stop) = [] := by
    refine List.filter_eq_nil_iff.mpr fun w hw => ?_
    obtain ⟨j, hj⟩ := List.mem_iff_getElem?.mp hw
    obtain ⟨hlt, hj⟩ : j < lba / s.zoneSize ∧ s.zones[j]? = some w := by
      rw [List.getElem?_take] at hj
      split at hj
      · exact ⟨‹_›, hj⟩
      · exact absurd hj (by simp)
    have hw := h.start hj
    obtain ⟨-, -, hwle⟩ := h.zone w (List.mem_of_getElem? hj)
    have hnext : (j + 1) * s.zoneSize ≤ lba / s.zoneSize * s.zoneSize :=
      Nat.mul_le_mul_right _ hlt
    rw [Nat.succ_mul] at hnext
    have hout : ¬ lba < w.stop := by
      rw [ZbcZone.stop]
      omega
    simp [hout]
  have hbehind : ∀ w ∈ s.zones.drop (lba / s.zoneSize), lba < w.stop := by
    intro w hw
    obtain ⟨j, hj⟩ := List.mem_iff_getElem?.mp hw
    rw [List.getElem?_drop] at hj
    obtain ⟨-, hwpos, -⟩ := h.zone w (List.mem_of_getElem? hj)
    rcases Nat.eq_zero_or_pos j with rfl | hj0
    · rw [Nat.add_zero, hz] at hj
      rwa [← Option.some.inj hj]
    · have hw := h.start hj
      have hnext : (lba / s.zoneSize + 1) * s.zoneSize ≤ (lba / s.zoneSize + j) * s.zoneSize :=
        Nat.mul_le_mul_right _ (by omega)
      rw [Nat.succ_mul] at hnext
      rw [ZbcZone.stop] at hstop ⊢
      omega
  rw [← List.take_append_drop (lba / s.zoneSize) s.zones, List.filter_append, hbefore,
    List.nil_append, List.take_append_drop]
  refine List.filter_congr fun w hw => ?_
  rw [decide_eq_true (hbehind w hw), Bool.and_true]

end Table

/-! ### The passes -/

section Passes

variable {capacity ro lba len nrZones buf : ℕ} {part : Bool} {zs : List ZbcZone}

/-- **The first pass** counts the zones, or as many of them as there is room for. -/
theorem countZones_eq (h : Walks capacity lba zs) (hnr : nrZones + zs.length < 2 ^ 32) :
    countZones capacity part ro zs lba len nrZones =
      some (nrZones + if part then min (zs.countP (zbcShouldReportZone ro)) (len / 64)
        else zs.countP (zbcShouldReportZone ro)) := by
  induction zs generalizing lba len nrZones with
  | nil =>
    have hle : capacity ≤ lba := h
    rw [countZones, if_neg (Nat.not_lt.mpr hle), List.countP_nil, Nat.zero_min, ite_self,
      Nat.add_zero]
  | cons z zs ih =>
    obtain ⟨hlba, hstop, hrest⟩ := h
    rw [List.length_cons] at hnr
    rw [countZones, if_pos hlba, Nat.mod_eq_of_lt hstop, List.countP_cons]
    by_cases hz : zbcShouldReportZone ro z = true
    · rw [if_pos hz, if_pos hz]
      by_cases hfull : (part && decide (len < 64)) = true
      · obtain ⟨hpart, hlen⟩ := Bool.and_eq_true_iff.mp hfull
        have hzero : len / 64 = 0 := Nat.div_eq_of_lt (of_decide_eq_true hlen)
        rw [if_pos hfull, if_pos hpart, hzero, Nat.min_zero, Nat.add_zero]
      · rw [if_neg hfull, Nat.mod_eq_of_lt (by omega), ih hrest (by omega)]
        cases part with
        | false =>
          rw [if_neg Bool.false_ne_true, if_neg Bool.false_ne_true]
          congr 1
          omega
        | true =>
          have hlen : 64 ≤ len := by simpa using hfull
          have hroom : (if len > 64 then len - 64 else 0) / 64 = len / 64 - 1 := by
            split
            · omega
            · omega
          rw [if_pos rfl, if_pos rfl, hroom]
          congr 1
          omega
    · rw [if_neg hz, if_neg hz, ih hrest (by omega), Nat.add_zero]

/-- The memory contains bytes at the beginning of a scatter list, and behind them what it had. The
array describes what is left. -/
structure Filled (iov : List Iovec) (old : Mem) (bs : List UInt8) (mem : Mem) (left : List Iovec) :
    Prop where
  data : gather iov mem = bs ++ (gather iov old).drop bs.length
  rest : addresses left = (addresses iov).drop bs.length

variable {iov left : List Iovec} {old mem : Mem} {bs data : List UInt8}

theorem length_zoneDescriptor (z : ZbcZone) : z.descriptor.length = 64 := by
  simp [ZbcZone.descriptor]

theorem length_zonesHeader (nrZones capacity : ℕ) :
    (zonesHeader nrZones capacity).length = 64 := by
  simp [zonesHeader]

theorem gather_store_elsewhere (h : Elsewhere iov buf data.length) :
    gather iov (mem.store buf data) = gather iov mem := by
  rw [gather_eq_map, gather_eq_map, Mem.store_eq_fill]
  refine map_fill_of_disjoint fun x hx hin => ?_
  obtain ⟨i, hi, rfl⟩ := List.mem_range'.mp hin
  rw [Nat.one_mul] at hx
  exact h i hi hx

/-- **More bytes** come behind those that are there. -/
theorem Filled.putData (h : Filled iov old bs mem left) (hnodup : (addresses iov).Nodup)
    (helse : Elsewhere iov buf 64) (hdata : data.length = 64)
    (hroom : bs.length + 64 ≤ iovTotal iov) :
    Filled iov old (bs ++ data) (putData mem left buf data).mem
      (putData mem left buf data).iov := by
  have hleft : Elsewhere left buf 64 := helse.of_drop h.rest
  have hload : (mem.store buf data).load buf 64 = data := Mem.load_store mem buf hdata
  have hmem : (LioProject.Tcmu.putData mem left buf data).mem =
      fill (mem.store buf data) ((addresses iov).drop bs.length) data := by
    rw [LioProject.Tcmu.putData, into_mem hleft, hload, h.rest]
  refine ⟨?_, ?_⟩
  · -- the places before, and those behind
    have hgather : gather iov (mem.store buf data) = gather iov mem :=
      gather_store_elsewhere (by rwa [hdata])
    rw [gather_eq_map, h.data] at hgather
    have hsplit := List.take_append_drop bs.length (addresses iov)
    have hdisjoint : ∀ a ∈ (addresses iov).take bs.length, a ∉ (addresses iov).drop bs.length := by
      rw [← hsplit] at hnodup
      exact fun a ha hin => (List.nodup_append.mp hnodup).2.2 a ha a hin rfl
    have htake : ((addresses iov).take bs.length).map (mem.store buf data) = bs := by
      rw [List.map_take, hgather, List.take_left]
    have hdrop : ((addresses iov).drop bs.length).map (mem.store buf data) =
        (gather iov old).drop bs.length := by
      rw [List.map_drop, hgather, List.drop_left]
    have hlen : ((addresses iov).drop bs.length).length = iovTotal iov - bs.length := by
      rw [List.length_drop, length_addresses]
    have hparts : ∀ m : Mem, (addresses iov).map m = ((addresses iov).take bs.length).map m ++
        ((addresses iov).drop bs.length).map m := by
      intro m
      rw [← List.map_append, hsplit]
    rw [hmem, gather_eq_map, hparts, map_fill_of_disjoint hdisjoint, htake,
      map_fill (hnodup.sublist (List.drop_sublist ..)), hdrop, List.take_of_length_le (by omega),
      List.drop_drop, List.length_append, List.append_assoc]
  · rw [LioProject.Tcmu.putData, into_iov, addresses_iovAfter, h.rest, List.drop_drop,
      List.length_append, hdata]

/-- **The second pass** copies the descriptors, as far as there is room. -/
theorem emitZones_filled (ro : ℕ) (h : Walks capacity lba zs) (hfilled : Filled iov old bs mem left)
    (hnodup : (addresses iov).Nodup) (helse : Elsewhere iov buf 64)
    (hlen : bs.length + len = iovTotal iov) :
    ∃ mem' left', emitZones capacity ro buf zs lba len mem left = some (mem', left') ∧
      Filled iov old (bs ++ ((zs.filter (zbcShouldReportZone ro)).take (len / 64)).flatMap
        ZbcZone.descriptor) mem' left' := by
  induction zs generalizing lba len bs mem left with
  | nil =>
    have hle : capacity ≤ lba := h
    refine ⟨mem, left, if_neg fun hmore => Nat.not_lt.mpr hle hmore.1, ?_⟩
    rw [List.filter_nil, List.take_nil, List.flatMap_nil, List.append_nil]
    exact hfilled
  | cons z zs ih =>
    obtain ⟨hlba, hstop, hrest⟩ := h
    by_cases hroom : 64 ≤ len
    · rw [emitZones, if_pos ⟨hlba, hroom⟩, Nat.mod_eq_of_lt hstop]
      by_cases hz : zbcShouldReportZone ro z = true
      · have hnext := hfilled.putData hnodup helse (length_zoneDescriptor z) (by omega)
        have hlen' : (bs ++ z.descriptor).length + (len - 64) = iovTotal iov := by
          rw [List.length_append, length_zoneDescriptor]
          omega
        obtain ⟨mem', left', hemit, hfilled'⟩ := ih hrest hnext hlen'
        refine ⟨mem', left', (if_pos hz).trans hemit, ?_⟩
        have hdiv : len / 64 = (len - 64) / 64 + 1 := by omega
        rw [List.filter_cons_of_pos hz, hdiv, List.take_succ_cons, List.flatMap_cons,
          ← List.append_assoc]
        exact hfilled'
      · obtain ⟨mem', left', hemit, hfilled'⟩ := ih hrest hfilled hlen
        refine ⟨mem', left', (if_neg hz).trans hemit, ?_⟩
        rw [List.filter_cons_of_neg hz]
        exact hfilled'
    · refine ⟨mem, left, if_neg fun hmore => hroom hmore.2, ?_⟩
      rw [Nat.div_eq_of_lt (Nat.not_le.mp hroom), List.take_zero, List.flatMap_nil,
        List.append_nil]
      exact hfilled

end Passes

/-! ### The answer -/

/-- A descriptor says what a zone is. -/
structure Describes (bs : List UInt8) (z : ZbcZone) : Prop where
  type : byteAt bs 0 = z.type.code
  cond : byteAt bs 1 / 16 = z.cond.code
  len : beAt bs 8 8 = z.len
  start : beAt bs 16 8 = z.start
  wp : beAt bs 24 8 = z.wp

/-- The zones that an option lists, if they end behind a block. -/
def ZbcDev.listed (s : ZbcDev) (ro : ReportingOption) (lba : ℕ) : List ZbcZone :=
  s.zones.filter fun z => ro.lists z && lba < z.stop

/-- How many descriptors are returned. -/
def ZbcDev.returned (s : ZbcDev) (ro : ReportingOption) (cdb : Cdb) : ℕ :=
  min (s.listed ro (lbaOf cdb)).length ((xferLengthOf cdb - 64) / 64)

/-- `PARTIAL` is set. -/
def cdbPartial (cdb : Cdb) : Prop := byteAt cdb 14 &&& 0x80 ≠ 0

instance (cdb : Cdb) : Decidable (cdbPartial cdb) := inferInstanceAs (Decidable (_ ≠ _))

/-- The zones are reported, in a memory that has been `old`. -/
structure ZbcDev.ReportsZones (s : ZbcDev) (ro : ReportingOption) (cdb : Cdb) (iov : List Iovec)
    (old : Mem) (answer : Option ZbcSense × Mem) : Prop where
  ok : answer.1 = none
  /-- `ZONE LIST LENGTH`. -/
  length : beAt (gather iov answer.2) 0 4 =
    64 * if cdbPartial cdb then s.returned ro cdb else (s.listed ro (lbaOf cdb)).length
  /-- The descriptors of the first zones, in order. -/
  zones : ∀ (i : ℕ) (z : ZbcZone),
    ((s.listed ro (lbaOf cdb)).take (s.returned ro cdb))[i]? = some z →
      Describes (((gather iov answer.2).drop (64 + 64 * i)).take 64) z
  /-- Nothing comes behind them. -/
  rest : (gather iov answer.2).drop (64 + 64 * s.returned ro cdb) =
    (gather iov old).drop (64 + 64 * s.returned ro cdb)

section Answer

variable {s : ZbcDev} {ro : ReportingOption} {cdb : Cdb} {iov : List Iovec} {buf : ℕ} {mem : Mem}
  {z : ZbcZone}

theorem describes_descriptor (hlen : z.len < 2 ^ 64) (hstart : z.start < 2 ^ 64)
    (hwp : z.wp < 2 ^ 64) : Describes z.descriptor z := by
  have h8 : (2 : ℕ) ^ 64 = 256 ^ 8 := by norm_num
  rw [h8] at hlen hstart hwp
  refine ⟨?_, ?_, ?_, ?_, ?_⟩
  · rw [ZbcZone.descriptor, byteAt_putBe_of_outside _ _ (by omega),
      byteAt_putBe_of_outside _ _ (by omega), byteAt_putBe_of_outside _ _ (by omega),
      byteAt_set_of_ne _ _ (by omega), byteAt_set_self (by simp)]
    cases z.type <;> rfl
  · rw [ZbcZone.descriptor, byteAt_putBe_of_outside _ _ (by omega),
      byteAt_putBe_of_outside _ _ (by omega), byteAt_putBe_of_outside _ _ (by omega),
      byteAt_set_self (by simp)]
    cases z.cond <;> cases z.reset <;> cases z.nonSeq <;> rfl
  · rw [ZbcZone.descriptor, beAt_putBe_of_outside _ _ (by omega),
      beAt_putBe_of_outside _ _ (by omega), beAt_putBe (by simp) hlen]
  · rw [ZbcZone.descriptor, beAt_putBe_of_outside _ _ (by omega), beAt_putBe (by simp) hstart]
  · rw [ZbcZone.descriptor, beAt_putBe (by simp) hwp]

theorem lists_of_ofCode {code : ℕ} (h : ReportingOption.ofCode (code &&& 0x7f) = some ro) :
    zbcShouldReportZone (code &&& 0x7f) = ro.lists := by
  funext z
  have hmask : code &&& 0x7f &&& 0x7f = code &&& 0x7f := by
    rw [Nat.land_assoc]
    rfl
  rw [zbcShouldReportZone, hmask, h]
  rfl

theorem length_flatMap_zoneDescriptor (zs : List ZbcZone) :
    (zs.flatMap ZbcZone.descriptor).length = 64 * zs.length := by
  induction zs with
  | nil => rfl
  | cons z zs ih =>
    rw [List.flatMap_cons, List.length_append, length_zoneDescriptor, ih, List.length_cons]
    omega

/-- The descriptor with an index. -/
theorem descriptor_at {zs : List ZbcZone} {i : ℕ} (hz : zs[i]? = some z) (bs : List UInt8) :
    ((zs.flatMap ZbcZone.descriptor ++ bs).drop (64 * i)).take 64 = z.descriptor := by
  induction zs generalizing i with
  | nil => exact absurd hz (by simp)
  | cons w zs ih =>
    rw [List.flatMap_cons, List.append_assoc]
    cases i with
    | zero =>
      obtain rfl : w = z := Option.some.inj hz
      rw [Nat.mul_zero, List.drop_zero, List.take_left' (length_zoneDescriptor w)]
    | succ i =>
      have hplace : 64 * (i + 1) = w.descriptor.length + 64 * i := by
        rw [length_zoneDescriptor]
        omega
      rw [hplace, ← List.drop_drop, List.drop_left]
      exact ih hz

/-- **What is answered**, byte by byte. -/
theorem reportZones_eq (mem : Mem) (h : s.Tabled)
    (hro : ReportingOption.ofCode (byteAt cdb 14 &&& 0x7f) = some ro)
    (hlba : lbaOf cdb < s.capacity) (halloc : 64 ≤ xferLengthOf cdb)
    (htotal : iovTotal iov = xferLengthOf cdb) (hnodup : (addresses iov).Nodup)
    (helse : Elsewhere iov buf 64) :
    ∃ mem', s.zbcReportZones cdb iov buf mem = some (none, mem') ∧
      gather iov mem' = zonesHeader (if cdbPartial cdb then s.returned ro cdb
          else (s.listed ro (lbaOf cdb)).length) s.capacity ++
        ((s.listed ro (lbaOf cdb)).take (s.returned ro cdb)).flatMap ZbcZone.descriptor ++
        (gather iov mem).drop (64 + 64 * s.returned ro cdb) := by
  obtain ⟨hzone, hwalks⟩ := h.begins hlba
  have hlisted : (s.zones.drop (lbaOf cdb / s.zoneSize)).filter
      (zbcShouldReportZone (byteAt cdb 14 &&& 0x7f)) = s.listed ro (lbaOf cdb) := by
    rw [lists_of_ofCode hro, ← h.filter_stop hlba]
    rfl
  have hlong : (s.zones.drop (lbaOf cdb / s.zoneSize)).length < 2 ^ 32 := by
    refine lt_of_le_of_lt ?_ h.nrZones_lt
    rw [List.length_drop, h.length]
    exact Nat.sub_le _ _
  have hlen : (if xferLengthOf cdb > 64 then xferLengthOf cdb - 64 else 0) =
      xferLengthOf cdb - 64 := by
    split
    · rfl
    · omega
  have hcount : countZones s.capacity (decide (byteAt cdb 14 &&& 0x80 ≠ 0))
      (byteAt cdb 14 &&& 0x7f) (s.zones.drop (lbaOf cdb / s.zoneSize)) (lbaOf cdb)
      (xferLengthOf cdb - 64) 0 = some (if cdbPartial cdb then s.returned ro cdb
        else (s.listed ro (lbaOf cdb)).length) := by
    rw [countZones_eq hwalks (by omega), List.countP_eq_length_filter, hlisted, Nat.zero_add]
    by_cases hpart : cdbPartial cdb
    · have hset : decide (byteAt cdb 14 &&& 0x80 ≠ 0) = true := decide_eq_true hpart
      rw [if_pos hpart, if_pos hset, ZbcDev.returned]
    · have hunset : ¬ decide (byteAt cdb 14 &&& 0x80 ≠ 0) = true := by
        rw [decide_eq_true_eq]
        exact hpart
      rw [if_neg hpart, if_neg hunset]
  -- the header, and then the descriptors
  have hnil : Filled iov mem [] mem iov := ⟨rfl, rfl⟩
  have hheader := hnil.putData hnodup helse (length_zonesHeader
    (if cdbPartial cdb then s.returned ro cdb else (s.listed ro (lbaOf cdb)).length) s.capacity)
    (by rw [htotal]; exact (Nat.zero_add _).trans_le halloc)
  rw [List.nil_append] at hheader
  have hcopied : ¬ (putData mem iov buf (zonesHeader (if cdbPartial cdb then s.returned ro cdb
      else (s.listed ro (lbaOf cdb)).length) s.capacity)).copied < 64 := by
    rw [putData, into_copied, htotal]
    omega
  have hleft : tcmuIovecLength (putData mem iov buf (zonesHeader (if cdbPartial cdb then
      s.returned ro cdb else (s.listed ro (lbaOf cdb)).length) s.capacity)).iov =
        xferLengthOf cdb - 64 := by
    have hlt := xferLengthOf_lt cdb
    rw [tcmuIovecLength_eq, putData, into_iov, iovTotal_iovAfter, htotal,
      Nat.mod_eq_of_lt (by omega)]
  have hroom : (zonesHeader (if cdbPartial cdb then s.returned ro cdb
      else (s.listed ro (lbaOf cdb)).length) s.capacity).length + (xferLengthOf cdb - 64) =
        iovTotal iov := by
    rw [length_zonesHeader, htotal]
    omega
  obtain ⟨mem', left', hemit, hfilled⟩ := emitZones_filled (byteAt cdb 14 &&& 0x7f) hwalks
    hheader hnodup helse hroom
  have hdata := hfilled.data
  rw [hlisted, List.length_append, length_zonesHeader, length_flatMap_zoneDescriptor,
    List.length_take] at hdata
  refine ⟨mem', ?_, ?_⟩
  · rw [ZbcDev.zbcReportZones]
    dsimp only
    rw [hro, if_neg (by simp), if_neg (Nat.not_le.mpr hlba), hlen, hzone]
    dsimp only [bind, Option.bind]
    rw [hcount]
    dsimp only [bind, Option.bind]
    rw [if_neg hcopied, hleft, hemit]
  · have htake : (s.listed ro (lbaOf cdb)).take ((xferLengthOf cdb - 64) / 64) =
        (s.listed ro (lbaOf cdb)).take (s.returned ro cdb) := by
      rw [ZbcDev.returned, Nat.min_comm, ← List.take_eq_take_min]
    rw [htake] at hdata
    rw [hdata, ZbcDev.returned, Nat.min_comm]

/-- A field lies in the first part. -/
theorem beAt_append_left {bs : List UInt8} {i k : ℕ} (h : i + k ≤ bs.length) (cs : List UInt8) :
    beAt (bs ++ cs) i k = beAt bs i k := by
  induction k with
  | zero => rfl
  | succ k ih =>
    have hbyte : byteAt (bs ++ cs) (i + k) = byteAt bs (i + k) := by
      rw [byteAt, byteAt, List.getD_append _ _ _ _ (by omega)]
    rw [beAt, beAt, ih (by omega), hbyte]

/-- The length that a header tells. -/
theorem beAt_zonesHeader (nrZones capacity : ℕ) (bs : List UInt8) :
    beAt (zonesHeader nrZones capacity ++ bs) 0 4 = nrZones * 64 % 2 ^ 32 := by
  have hput : beAt (zonesHeader nrZones capacity) 0 4 = nrZones * 64 % 2 ^ 32 := by
    rw [zonesHeader, beAt_putBe_of_outside _ _ (by omega), beAt_putBe (by simp)]
    exact Nat.mod_lt _ (by norm_num)
  rw [beAt_append_left (by rw [length_zonesHeader]; omega), hput]

/-- **When the report is right.** The zones that match and end behind the block are reported in
order, as many as there is room for, and the header tells their length, if and only if `PARTIAL` is
set or the length of all of them fits into 32 bits. -/
theorem report_zones_iff (h : s.Tabled)
    (hro : ReportingOption.ofCode (byteAt cdb 14 &&& 0x7f) = some ro)
    (hlba : lbaOf cdb < s.capacity) (halloc : 64 ≤ xferLengthOf cdb)
    (htotal : iovTotal iov = xferLengthOf cdb) (hnodup : (addresses iov).Nodup)
    (helse : Elsewhere iov buf 64) :
    (∃ answer, s.zbcReportZones cdb iov buf mem = some answer ∧
        s.ReportsZones ro cdb iov mem answer) ↔
      cdbPartial cdb ∨ 64 * (s.listed ro (lbaOf cdb)).length < 2 ^ 32 := by
  obtain ⟨mem', heq, hdata⟩ := reportZones_eq mem h hro hlba halloc htotal hnodup helse
  have hreturned : 64 * s.returned ro cdb < 2 ^ 32 := by
    have hlt := xferLengthOf_lt cdb
    have hle : s.returned ro cdb ≤ (xferLengthOf cdb - 64) / 64 := Nat.min_le_right _ _
    omega
  have hlength := hdata
  rw [List.append_assoc] at hlength
  have hfield : beAt (gather iov mem') 0 4 = (if cdbPartial cdb then s.returned ro cdb
      else (s.listed ro (lbaOf cdb)).length) * 64 % 2 ^ 32 := by
    rw [hlength, beAt_zonesHeader]
  constructor
  · rintro ⟨answer, hanswer, hreports⟩
    obtain rfl : (none, mem') = answer := Option.some.inj (heq.symm.trans hanswer)
    have hright := hreports.length
    rw [hfield] at hright
    by_cases hpart : cdbPartial cdb
    · exact Or.inl hpart
    · rw [if_neg hpart] at hright
      exact Or.inr (by omega)
  · intro hfits
    refine ⟨_, heq, rfl, ?_, fun i z hz => ?_, ?_⟩
    · rw [hfield]
      rcases hfits with hpart | hfits
      · rw [if_pos hpart]
        omega
      · split
        · omega
        · omega
    · have hmem : z ∈ s.zones := by
        have hin := List.mem_of_mem_take (List.mem_of_getElem? hz)
        exact (List.mem_filter.mp hin).1
      have hbounds := h.stop_le hmem
      have hcap := h.capacity_lt
      rw [ZbcZone.stop] at hbounds
      dsimp only
      rw [hlength, ← List.drop_drop, List.drop_left' (length_zonesHeader ..), descriptor_at hz]
      exact describes_descriptor (by omega) (by omega) (h.wp_lt z hmem)
    · have hlen : (zonesHeader (if cdbPartial cdb then s.returned ro cdb
          else (s.listed ro (lbaOf cdb)).length) s.capacity ++
          ((s.listed ro (lbaOf cdb)).take (s.returned ro cdb)).flatMap
            ZbcZone.descriptor).length = 64 + 64 * s.returned ro cdb := by
        rw [List.length_append, length_zonesHeader, length_flatMap_zoneDescriptor, List.length_take,
          ZbcDev.returned, Nat.min_right_comm, Nat.min_self]
      dsimp only
      rw [hdata, List.drop_left' hlen]

end Answer

/-! ### Devices that have been formatted -/

section Format

variable {cfg : ZbcConfig} {new s : ZbcDev}

theorem wp_lt_of_format (hnew : zbcFormatMeta cfg = some new) (hcap : cfg.capacity < 2 ^ 64) :
    ∀ z ∈ new.zones, z.wp < 2 ^ 64 := by
  intro z hz
  obtain ⟨i, hi⟩ := List.mem_iff_getElem?.mp hz
  have hlt := lt_nrZones_of_format hnew hi
  rw [getElem?_zbcFormatMeta hnew hlt, Option.some.injEq] at hi
  have hmul := mul_lt_capacity hlt
  have hsize : cfg.header.zoneSize ≤ cfg.zoneSize := Nat.mod_le _ _
  have hle := Nat.mul_le_mul_left i hsize
  rw [← hi, formatZone]
  split
  · norm_num
  · exact (hle.trans_lt hmul).trans hcap

/-- A device that has been formatted has such a table, and keeps it over commands. -/
theorem tabled_of_commands {es : List ZbcEvent} (h : cfg.Reopens)
    (hnew : zbcFormatMeta cfg = some new) (hcap : cfg.capacity < 2 ^ 64)
    (hes : ∀ e ∈ es, e.IsCommand) (hrun : run ZbcDev.step new es = some s)
    (hwp : ∀ z ∈ s.zones, z.wp < 2 ^ 64) : s.Tabled := by
  have hfixed := fixed_of_commands hes hrun
  obtain ⟨-, -, hzones, hzoneSize, hnr⟩ := zbcFormatMeta_eq hnew
  have hscap : s.capacity = cfg.capacity := by
    rw [← (zbcFormatMeta_size hnew).1]
    rw [ZbcDev.fixed, ZbcDev.fixed] at hfixed
    injection hfixed
  have hsize : s.zoneSize = cfg.zoneSize := (zoneSize_of_fixed hfixed).trans hzoneSize
  have hsnr : s.nrZones = cfg.nrZones := (nrZones_of_fixed hfixed).trans hnr
  refine ⟨?_, fun z hz => ?_, ?_, ?_, ?_, hwp⟩
  · have htiles := h.tiles hnew
    have hmap : s.zones.map ZbcZone.fixed = new.zones.map ZbcZone.fixed := by
      rw [ZbcDev.fixed, ZbcDev.fixed] at hfixed
      injection hfixed
    have hpairs := congrArg (List.map fun z => (z.start, z.len)) hmap
    rw [List.map_map, List.map_map] at hpairs
    rw [hscap, ← (zbcFormatMeta_size hnew).1]
    exact hpairs ▸ htiles
  · obtain ⟨i, hi⟩ := List.mem_iff_getElem?.mp hz
    obtain ⟨w, hw, heq⟩ := getElem?_of_fixed hfixed.symm hi
    have hlt := lt_nrZones_of_format hnew hw
    rw [getElem?_zbcFormatMeta hnew hlt, Option.some.injEq] at hw
    obtain ⟨hstart, hlen⟩ := formatZone_start cfg.header i (i * cfg.header.zoneSize)
    have hmul := mul_lt_capacity hlt
    have hcapacity : cfg.header.capacity = cfg.capacity := rfl
    rw [← start_of_fixed heq, ← len_of_fixed heq, ← hw, hstart, hlen, h.header_zoneSize, hsize,
      hcapacity]
    refine ⟨Nat.mul_mod_left _ _, ?_, ?_⟩
    · split
      · omega
      · exact zoneSize_pos cfg
    · split
      · omega
      · exact le_rfl
  · rw [length_of_fixed hfixed, hsnr, hzones, length_formatZones]
  · rw [hsnr]
    exact Nat.mod_lt _ (by norm_num)
  · rw [hscap]
    exact hcap

theorem tabled_of_format (h : cfg.Reopens) (hnew : zbcFormatMeta cfg = some new)
    (hcap : cfg.capacity < 2 ^ 64) : new.Tabled := by
  have hrun : run ZbcDev.step new [] = some new := rfl
  exact tabled_of_commands h hnew hcap (fun _ he => absurd he (by simp)) hrun
    (wp_lt_of_format hnew hcap)

end Format

/-- `REPORT ZONES` from block 0 on, with the given option. -/
def zonesCdb (ro : UInt8) (alloc : UInt8) : Cdb :=
  [0x95, 0, 0, 0, 0, 0, 0, 0, 0, 0, 0, 0, 0, alloc, ro, 0]

/-- Two descriptors of eight fit into two entries. -/
theorem report_zones_two : ∃ s, zbcFormatMeta (eightZones .hm) = some s ∧
    ∃ answer, s.zbcReportZones (zonesCdb 0x00 192) [⟨0x2000, 100⟩, ⟨0x3000, 92⟩] 0x1000
        (fun _ => 0) = some answer ∧
      s.ReportsZones .all (zonesCdb 0x00 192) [⟨0x2000, 100⟩, ⟨0x3000, 92⟩] (fun _ => 0)
        answer := by
  have hsome : (zbcFormatMeta (eightZones .hm)).isSome = true := by decide
  obtain ⟨s, hs⟩ := Option.isSome_iff_exists.mp hsome
  have hcap : (eightZones .hm).capacity < 2 ^ 64 := by decide
  have htabled : s.Tabled := tabled_of_format (by decide) hs hcap
  have hcapacity : s.capacity = 2048 := (zbcFormatMeta_size hs).1
  refine ⟨s, hs, (report_zones_iff htabled rfl ?_ (by decide) (by decide) (by decide +kernel)
    (by decide +kernel)).mpr (Or.inr ?_)⟩
  · rw [hcapacity]
    decide
  · have hle : (s.listed .all (lbaOf (zonesCdb 0x00 192))).length ≤ s.zones.length :=
      List.length_filter_le ..
    have hlength : s.zones.length = 8 := htabled.length.trans (zbcFormatMeta_eq hs).2.2.2.2
    omega

theorem many_size : 2 ^ 46 < 2 ^ 64 := by norm_num

theorem many_block : 512 = 512 ∨ 512 = 4096 := Or.inl rfl

/-- A device of 64 TiB with zones of a mebibyte. -/
def manyZones : ZbcConfig :=
  { eightZones .hm with
    devSize := 2 ^ 46
    lbaSize := 512
    devSize_lt := many_size
    lbaSize_eq := many_block }

/-- The header says that there are no zones. -/
theorem report_zones_overflow : ∃ s mem', zbcFormatMeta manyZones = some s ∧
    (s.listed .all (lbaOf (zonesCdb 0x00 64))).length = 2 ^ 26 ∧
    s.zbcReportZones (zonesCdb 0x00 64) [⟨0x2000, 64⟩] 0x1000 (fun _ => 0) = some (none, mem') ∧
    beAt (gather [⟨0x2000, 64⟩] mem') 0 4 = 0 ∧
    ¬ s.ReportsZones .all (zonesCdb 0x00 64) [⟨0x2000, 64⟩] (fun _ => 0) (none, mem') := by
  have hsome : (zbcFormatMeta manyZones).isSome = true := by
    have hconv : ¬ (manyZones.convNum ≠ 2 ^ 32 - 1 ∧
        manyZones.nrConvZones ≥ manyZones.nrZones) := by
      decide
    rw [zbcFormatMeta, if_neg hconv]
    rfl
  obtain ⟨s, hs⟩ := Option.isSome_iff_exists.mp hsome
  have hcap : manyZones.capacity < 2 ^ 64 := by decide
  have htabled : s.Tabled := tabled_of_format (by decide) hs hcap
  have hlength : s.zones.length = 2 ^ 26 := htabled.length.trans (zbcFormatMeta_eq hs).2.2.2.2
  have hlisted : (s.listed .all (lbaOf (zonesCdb 0x00 64))).length = 2 ^ 26 := by
    have hall : s.listed .all (lbaOf (zonesCdb 0x00 64)) = s.zones := by
      refine List.filter_eq_self.mpr fun z hz => ?_
      have hpos := (htabled.zone z hz).2.1
      have hstop : lbaOf (zonesCdb 0x00 64) < z.stop :=
        hpos.trans_le (Nat.le_add_left _ _)
      rw [decide_eq_true hstop]
      rfl
    rw [hall, hlength]
  have hcapacity : s.capacity = 2 ^ 37 := (zbcFormatMeta_size hs).1
  have hlba : lbaOf (zonesCdb 0x00 64) < s.capacity := by
    rw [hcapacity]
    decide
  have helse : Elsewhere [⟨0x2000, 64⟩] 0x1000 64 := by decide
  obtain ⟨mem', heq, hdata⟩ := reportZones_eq (fun _ => 0) htabled rfl hlba (by decide) (by decide)
    (by decide) helse
  have hfield : beAt (gather [⟨0x2000, 64⟩] mem') 0 4 = 0 := by
    rw [hdata, List.append_assoc, beAt_zonesHeader, if_neg (by decide), hlisted]
    norm_num
  refine ⟨s, mem', hs, hlisted, heq, hfield, fun hreports => ?_⟩
  have hright := hreports.length
  dsimp only at hright
  rw [hfield, if_neg (by decide), hlisted] at hright
  exact absurd hright (by norm_num)

end Tcmu

end LioProject
