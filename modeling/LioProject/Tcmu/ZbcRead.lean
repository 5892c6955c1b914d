import LioProject.Tcmu.Scatter
import LioProject.Tcmu.ZbcReopen

/-!
# Reading from a zoned device

What has been written to a zone is read from the file, and behind the write pointer of a
sequential zone zeros are read. `__zbc_read` fills one entry of the scatter list. Each turn of its
loop reads up to the boundary of what is written in a zone, and a turn at a block that is not
written ends the loop with zeros. Two things are wrong with it.

* To see whether the boundary lies behind what is left to read, it adds the number of all blocks of
  the entry to where it has come to, instead of the number of those that are left. After the first
  zone it can read up to a boundary behind the end of the entry (`ZbcDev.Overruns`).
* The zeros go up to the end of the entry, even if there are zones behind with blocks that are
  written (`ZbcDev.Loses`).

If neither happens, the right data are read (`read_right_iff`).
-/

namespace LioProject

namespace Tcmu

/-! ### The code -/

/-- What `pread` or `memset` puts into memory. -/
structure Fill where
  /-- The address. -/
  buf : ℕ
  /-- The number of bytes. -/
  len : ℕ
  /-- The offset in the file. Without one there are zeros. -/
  src : Option ℕ
  deriving DecidableEq, Repr

/-- The bytes, for a file with the given content. -/
def Fill.bytes (file : Mem) (f : Fill) : List UInt8 :=
  match f.src with
  | none => List.replicate f.len 0
  | some off => file.load off f.len

/-- The memory after some fills. -/
def fillAll (file : Mem) (mem : Mem) (fs : List Fill) : Mem :=
  fs.foldl (fun mem f => mem.store f.buf (f.bytes file)) mem

/-- The variables of the loop of `__zbc_read`, and what it has put into memory. -/
structure ReadPos where
  /-- `buf`. -/
  buf : ℕ
  /-- `lba_count`. -/
  lbaCount : ℕ
  /-- `lba`. -/
  lba : ℕ
  /-- `*zone_type`, which is 0 in the beginning. -/
  zoneType : Option ZoneType
  fills : List Fill
  deriving DecidableEq, Repr

/-- How the loop ends. -/
structure ReadEnd where
  /-- What `__zbc_read` returns, if there is no access to the zone `NULL`. -/
  ret : Option ℤ
  /-- `*zone_type`. -/
  zoneType : Option ZoneType
  fills : List Fill
  deriving DecidableEq, Repr

/-- What `zbc_read` answers. -/
inductive ReadAnswer where
  | ok
  /-- The sense data of `zbc_check_rdwr`. -/
  | check (sense : ZbcSense)
  /-- `ILLEGAL_REQUEST` and `ASC_ATTEMPT_TO_READ_INVALID_DATA`. -/
  | invalidData
  /-- `MEDIUM_ERROR` and `ASC_READ_ERROR`. -/
  | readError
  /-- There is no answer. -/
  | crash
  deriving DecidableEq, Repr

/-- `boundary`. -/
def ZbcZone.boundary (z : ZbcZone) : ℕ := if z.conv then z.stop else z.wp

/-- A turn of the loop of `__zbc_read`. What `pread` reads are the bytes of the file. -/
def ZbcDev.readTurn (s : ZbcDev) (nrLbas : ℕ) (p : ReadPos) : ReadEnd ⊕ ReadPos :=
  if p.lbaCount = 0 then .inl ⟨some nrLbas, p.zoneType, p.fills⟩
  else
    match (s.zbcGetZone p.lba false).bind fun i => s.zones[i]? with
    | none => .inl ⟨none, p.zoneType, p.fills⟩
    | some z =>
      if s.model = .hm ∧ p.zoneType.getD z.type ≠ z.type then .inl ⟨some (-5), none, p.fills⟩
      else
        let zoneType := if s.model = .hm then some z.type else p.zoneType
        if z.conv = false ∧ p.lba ≥ z.wp then
          .inl ⟨some nrLbas, zoneType, p.fills ++ [⟨p.buf, p.lbaCount * s.lbaSize % 2 ^ 64, none⟩]⟩
        else
          let count := if (p.lba + nrLbas) % 2 ^ 64 > z.boundary then
            (z.boundary + 2 ^ 64 - p.lba) % 2 ^ 64 else p.lbaCount
          let bytes := count * s.lbaSize % 2 ^ 64
          let off := (zbcMetaSizeAligned s.nrZones + p.lba * s.lbaSize) % 2 ^ 64
          let ret := min bytes (s.fileSize - off)
          let fills := p.fills ++ [⟨p.buf, ret, some off⟩]
          if ret ≠ bytes then .inl ⟨some (-5), zoneType, fills⟩
          else
            .inr { buf := p.buf + bytes
                   lbaCount := (p.lbaCount + 2 ^ 64 - count) % 2 ^ 64
                   lba := (p.lba + count) % 2 ^ 64
                   zoneType := zoneType
                   fills := fills }

/-- The loop of `__zbc_read`, for up to `n` turns. -/
def ZbcDev.readLoop (s : ZbcDev) (nrLbas : ℕ) : ℕ → ReadPos → Option ReadEnd
  | 0, _ => none
  | n + 1, p =>
    match s.readTurn nrLbas p with
    | .inl e => some e
    | .inr p => s.readLoop nrLbas n p

/-- `__zbc_read`. -/
def ZbcDev.zbcReadInto (s : ZbcDev) (buf nrLbas lba : ℕ) (zoneType : Option ZoneType) :
    Option ReadEnd :=
  s.readLoop nrLbas (nrLbas + s.nrZones + 2) ⟨buf, nrLbas, lba, zoneType, []⟩

/-- The loop of `zbc_read`: the answer, and what has been put into memory for which entry. -/
def ZbcDev.readEntries (s : ZbcDev) :
    List Iovec → ℕ → Option ZoneType → Option (ReadAnswer × List (Iovec × Fill))
  | [], _, _ => some (.ok, [])
  | v :: vs, lba, zoneType =>
    match s.zbcReadInto v.base (v.len / s.lbaSize) lba zoneType with
    | none => none
    | some e =>
      let fills := e.fills.map fun f => (v, f)
      match e.ret with
      | none => some (.crash, fills)
      | some ret =>
        if ret ≤ 0 then
          some (if e.zoneType = none then .invalidData else .readError, fills)
        else
          (s.readEntries vs ((lba + ret.toNat) % 2 ^ 64) e.zoneType).map fun r =>
            (r.1, fills ++ r.2)

/-- `zbc_read`. -/
def ZbcDev.zbcRead (s : ZbcDev) (cdb : Cdb) (iov : List Iovec) :
    Option (ReadAnswer × List (Iovec × Fill)) :=
  match s.zbcCheckRdwr cdb (iov.map Iovec.len) with
  | some sense => some (.check sense, [])
  | none => s.readEntries iov (lbaOf cdb) none

/-! ### What should be read -/

/-- The zone in which a block lies. -/
def ZbcDev.zoneOf (s : ZbcDev) (lba : ℕ) : Option ZbcZone :=
  s.zones.find? fun z => z.start ≤ lba ∧ lba < z.stop

/-- A block lies in a conventional zone, or below the write pointer of its zone. -/
def ZbcDev.Written (s : ZbcDev) (lba : ℕ) : Prop :=
  ∃ z ∈ s.zoneOf lba, z.conv = true ∨ lba < z.wp

instance (s : ZbcDev) (lba : ℕ) : Decidable (s.Written lba) :=
  inferInstanceAs (Decidable (∃ z ∈ s.zoneOf lba, _))

/-- A block in the file. -/
def ZbcDev.block (s : ZbcDev) (file : Mem) (lba : ℕ) : List UInt8 :=
  file.load (zbcMetaSizeAligned s.nrZones + lba * s.lbaSize) s.lbaSize

/-- A block of zeros. -/
def ZbcDev.zeros (s : ZbcDev) : List UInt8 := List.replicate s.lbaSize 0

/-- What should be read at a block. -/
def ZbcDev.content (s : ZbcDev) (file : Mem) (lba : ℕ) : List UInt8 :=
  if s.Written lba then s.block file lba else s.zeros

/-- The read comes to an end and fills only the entry that it is at, and if it is successful, the
scatter list has the right blocks. -/
def ZbcDev.ReadsRight (s : ZbcDev) (file mem : Mem) (cdb : Cdb) (iov : List Iovec) : Prop :=
  ∃ r, s.zbcRead cdb iov = some r ∧
    (∀ x ∈ r.2, x.1.base ≤ x.2.buf ∧ x.2.buf + x.2.len ≤ x.1.base + x.1.len) ∧
    (r.1 = .ok → gather iov (fillAll file mem (r.2.map Prod.snd)) =
      (List.range' (lbaOf cdb) (xferLengthOf cdb)).flatMap (s.content file))

/-! ### When it is read -/

/-- The type of the zone in which a block lies. -/
def ZbcDev.typeOf (s : ZbcDev) (lba : ℕ) : Option ZoneType := (s.zoneOf lba).map ZbcZone.type

/-- For each entry the first of its blocks, and how many there are. -/
def ZbcDev.parts (s : ZbcDev) : ℕ → List Iovec → List (ℕ × ℕ)
  | _, [] => []
  | lba, v :: vs => (lba, v.len / s.lbaSize) :: s.parts (lba + v.len / s.lbaSize) vs

/-- All blocks from `lba` up to, but not including, `lba'` are written. -/
def ZbcDev.WrittenTo (s : ZbcDev) (lba lba' : ℕ) : Prop := ∀ x < lba', lba ≤ x → s.Written x

instance (s : ZbcDev) (lba lba' : ℕ) : Decidable (s.WrittenTo lba lba') :=
  inferInstanceAs (Decidable (∀ x < lba', lba ≤ x → s.Written x))

/-- An entry has blocks, and on a host-managed device all zones up to the first block of it that is
not written have the given type. -/
def ZbcDev.Passes (s : ZbcDev) (type : Option ZoneType) (p : ℕ × ℕ) : Prop :=
  p.2 ≠ 0 ∧ (s.model = .hm → ∀ x < p.1 + p.2, p.1 ≤ x → s.WrittenTo p.1 x → s.typeOf x = type)

instance (s : ZbcDev) (type : Option ZoneType) (p : ℕ × ℕ) : Decidable (s.Passes type p) :=
  inferInstanceAs (Decidable (_ ∧ (_ → ∀ x < _, _)))

/-- An entry goes on to a zone whose boundary lies behind the end of the entry, but not by as many
blocks as the entry has in the zones before, and in these all blocks are written. -/
def ZbcDev.Overruns (s : ZbcDev) (p : ℕ × ℕ) : Prop :=
  ∃ z ∈ s.zones, p.1 < z.start ∧ z.start < p.1 + p.2 ∧ s.WrittenTo p.1 z.start ∧
    p.1 + p.2 < z.boundary ∧ z.boundary < z.start + p.2

instance (s : ZbcDev) (p : ℕ × ℕ) : Decidable (s.Overruns p) :=
  inferInstanceAs (Decidable (∃ z ∈ s.zones, _))

/-- In an entry a block that is written, and not with zeros, comes behind one that is not
written. -/
def ZbcDev.Loses (s : ZbcDev) (file : Mem) (p : ℕ × ℕ) : Prop :=
  ∃ y < p.1 + p.2, p.1 ≤ y ∧ s.Written y ∧ s.block file y ≠ s.zeros ∧ ¬ s.WrittenTo p.1 y

instance (s : ZbcDev) (file : Mem) (p : ℕ × ℕ) : Decidable (s.Loses file p) :=
  inferInstanceAs (Decidable (∃ y < p.1 + p.2, _))

/-- None of the entries that the read comes to is overrun, and if it passes all of them, none loses
a block. -/
structure ZbcDev.ReadFits (s : ZbcDev) (file : Mem) (cdb : Cdb) (iov : List Iovec) : Prop where
  inside : ∀ p ∈ (s.parts (lbaOf cdb) iov).takeWhile fun p => s.Passes (s.typeOf (lbaOf cdb)) p,
    ¬ s.Overruns p
  kept : (∀ p ∈ s.parts (lbaOf cdb) iov, s.Passes (s.typeOf (lbaOf cdb)) p) →
    ∀ p ∈ s.parts (lbaOf cdb) iov, ¬ s.Loses file p

/-! ### Layouts -/

/-- The zones cover the device one after the other. All of them have the same number of blocks, only
the last one may have less. The write pointers lie in their zones, and all blocks are in the
file. -/
structure ZbcDev.Zoned (s : ZbcDev) : Prop where
  zoneSize_pos : 0 < s.zoneSize
  lbaSize_pos : 0 < s.lbaSize
  nrZones_lt : s.nrZones < 2 ^ 32
  length : s.zones.length = s.nrZones
  covers : s.capacity ≤ s.nrZones * s.zoneSize
  place : ∀ (i : ℕ) (z : ZbcZone), s.zones[i]? = some z →
    z.start = i * s.zoneSize ∧ z.stop = min ((i + 1) * s.zoneSize) s.capacity
  pointer : ∀ z ∈ s.zones, z.conv = false → z.start ≤ z.wp ∧ z.wp ≤ z.stop
  file : zbcMetaSizeAligned s.nrZones + s.capacity * s.lbaSize ≤ s.fileSize
  /-- An `off_t` can hold the size of a file. -/
  fileSize_lt : s.fileSize < 2 ^ 63

section Zoned

variable {s : ZbcDev} {z w : ZbcZone} {lba i : ℕ}

theorem ZbcDev.Zoned.capacity_lt (h : s.Zoned) : s.capacity < 2 ^ 63 := by
  have hmul : s.capacity ≤ s.capacity * s.lbaSize := Nat.le_mul_of_pos_right _ h.lbaSize_pos
  have hfile := h.file
  have hlt := h.fileSize_lt
  omega

/-- The index of the zone of a block. -/
theorem ZbcDev.Zoned.index (h : s.Zoned) (hz : s.zones[i]? = some z) (hstart : z.start ≤ lba)
    (hstop : lba < z.stop) : lba / s.zoneSize = i := by
  obtain ⟨hzstart, hzstop⟩ := h.place i z hz
  refine Nat.div_eq_of_lt_le (hzstart ▸ hstart) ?_
  rw [hzstop] at hstop
  exact hstop.trans_le (Nat.min_le_left ..)

/-- Zones have no blocks in common. -/
theorem ZbcDev.Zoned.eq_of_mem (h : s.Zoned) (hz : z ∈ s.zones) (hw : w ∈ s.zones)
    (hzlba : z.start ≤ lba ∧ lba < z.stop) (hwlba : w.start ≤ lba ∧ lba < w.stop) : z = w := by
  obtain ⟨i, hi⟩ := List.mem_iff_getElem?.mp hz
  obtain ⟨j, hj⟩ := List.mem_iff_getElem?.mp hw
  obtain rfl : i = j := (h.index hi hzlba.1 hzlba.2).symm.trans (h.index hj hwlba.1 hwlba.2)
  exact Option.some.inj (hi.symm.trans hj)

theorem mem_of_zoneOf (h : s.zoneOf lba = some z) :
    z ∈ s.zones ∧ z.start ≤ lba ∧ lba < z.stop :=
  ⟨List.mem_of_find?_eq_some h, by simpa using List.find?_some h⟩

theorem ZbcDev.Zoned.zoneOf_eq (h : s.Zoned) (hz : z ∈ s.zones) (hstart : z.start ≤ lba)
    (hstop : lba < z.stop) : s.zoneOf lba = some z := by
  have hsome : (s.zoneOf lba).isSome = true :=
    List.find?_isSome.mpr ⟨z, hz, by simpa using ⟨hstart, hstop⟩⟩
  obtain ⟨w, hw⟩ := Option.isSome_iff_exists.mp hsome
  obtain ⟨hmem, hlba⟩ := mem_of_zoneOf hw
  rw [hw, h.eq_of_mem hmem hz hlba ⟨hstart, hstop⟩]

/-- `zbc_get_zone` finds the zone of a block. -/
theorem ZbcDev.Zoned.zbcGetZone (h : s.Zoned) (hlba : lba < s.capacity) :
    ∃ z, s.zoneOf lba = some z ∧
      ((s.zbcGetZone lba false).bind fun i => s.zones[i]?) = some z := by
  have hdiv : lba / s.zoneSize < s.nrZones :=
    Nat.div_lt_of_lt_mul (by rw [Nat.mul_comm]; exact hlba.trans_le h.covers)
  have hindex : lba / s.zoneSize < s.zones.length := by rwa [h.length]
  have hz := List.getElem?_eq_getElem hindex
  obtain ⟨hstart, hstop⟩ := h.place _ _ hz
  refine ⟨_, h.zoneOf_eq (List.mem_of_getElem? hz) ?_ ?_, ?_⟩
  · rw [hstart]
    exact Nat.div_mul_le_self ..
  · rw [hstop]
    exact Nat.lt_min.mpr ⟨Nat.lt_mul_of_div_lt (Nat.lt_succ_self _) h.zoneSize_pos, hlba⟩
  · rw [ZbcDev.zbcGetZone, Nat.mod_eq_of_lt (hdiv.trans h.nrZones_lt),
      if_neg (Nat.not_le.mpr hdiv), Bool.false_and, if_neg Bool.false_ne_true, Option.bind_some, hz]

/-- The zone behind the end of another one. -/
theorem ZbcDev.Zoned.start_of_stop (h : s.Zoned) (hz : z ∈ s.zones) (hw : w ∈ s.zones)
    (hstart : w.start ≤ z.stop) (hstop : z.stop < w.stop) : w.start = z.stop := by
  obtain ⟨i, hi⟩ := List.mem_iff_getElem?.mp hz
  obtain ⟨j, hj⟩ := List.mem_iff_getElem?.mp hw
  obtain ⟨hzstart, hzstop⟩ := h.place i z hi
  obtain ⟨hwstart, hwstop⟩ := h.place j w hj
  have hcap : z.stop < s.capacity := hstop.trans_le (hwstop ▸ Nat.min_le_right ..)
  have hfull : z.stop = (i + 1) * s.zoneSize := by
    rcases Nat.le_total ((i + 1) * s.zoneSize) s.capacity with hle | hle
    · rw [hzstop, Nat.min_eq_left hle]
    · rw [hzstop, Nat.min_eq_right hle] at hcap
      exact absurd hcap (Nat.lt_irrefl _)
  have hj := h.index hj hstart hstop
  rw [hfull, Nat.mul_div_cancel _ h.zoneSize_pos] at hj
  rw [hwstart, ← hj, hfull]

theorem ZbcDev.Zoned.boundary_le (h : s.Zoned) (hz : z ∈ s.zones) : z.boundary ≤ z.stop := by
  rw [ZbcZone.boundary]
  cases hconv : z.conv with
  | true => exact le_rfl
  | false => exact (h.pointer z hz hconv).2

theorem ZbcDev.Zoned.stop_le (h : s.Zoned) (hz : z ∈ s.zones) : z.stop ≤ s.capacity := by
  obtain ⟨i, hi⟩ := List.mem_iff_getElem?.mp hz
  rw [(h.place i z hi).2]
  exact Nat.min_le_right ..

/-- The blocks of a zone up to its boundary are written. -/
theorem ZbcDev.Zoned.written_iff (h : s.Zoned) (hz : z ∈ s.zones) (hstart : z.start ≤ lba)
    (hstop : lba < z.stop) : s.Written lba ↔ lba < z.boundary := by
  rw [ZbcDev.Written, h.zoneOf_eq hz hstart hstop, ZbcZone.boundary]
  cases hconv : z.conv with
  | true => simpa [hconv] using hstop
  | false => simp [hconv]

end Zoned

/-! ### Blocks one after the other -/

section Blocks

variable {α : Type*} {f g : ℕ → List α} {k : ℕ}

theorem length_flatMap_range' (hf : ∀ x, (f x).length = k) (a n : ℕ) :
    ((List.range' a n).flatMap f).length = n * k := by
  rw [List.length_flatMap, List.map_congr_left fun x _ => hf x, List.map_const',
    List.sum_replicate_nat, List.length_range']

/-- Blocks of one size can be compared one by one. -/
theorem flatMap_range'_inj (hf : ∀ x, (f x).length = k) (hg : ∀ x, (g x).length = k) (a n : ℕ) :
    (List.range' a n).flatMap f = (List.range' a n).flatMap g ↔
      ∀ x < a + n, a ≤ x → f x = g x := by
  induction n generalizing a with
  | zero => exact iff_of_true rfl fun x hx hle => absurd hx (Nat.not_lt.mpr hle)
  | succ n ih =>
    rw [List.range'_succ, List.flatMap_cons, List.flatMap_cons]
    constructor
    · intro heq x hx hle
      obtain ⟨hhead, hrest⟩ := List.append_inj heq ((hf a).trans (hg a).symm)
      rcases Nat.eq_or_lt_of_le hle with rfl | hlt
      · exact hhead
      · exact (ih (a + 1)).mp hrest x (by omega) hlt
    · intro hall
      rw [hall a (by omega) le_rfl,
        (ih (a + 1)).mpr fun x hx hle => hall x (by omega) (by omega)]

/-- Consecutive blocks of a file. -/
theorem load_blocks (file : Mem) (m lba k n : ℕ) :
    file.load (m + lba * k) (n * k) =
      (List.range' lba n).flatMap fun x => file.load (m + x * k) k := by
  induction n generalizing lba with
  | zero => rw [Nat.zero_mul]; rfl
  | succ n ih =>
    rw [List.range'_succ, List.flatMap_cons, ← ih, Nat.succ_mul, Nat.add_comm (n * k), Mem.load_add,
      Nat.add_assoc, ← Nat.succ_mul]

end Blocks

/-! ### Turns -/

/-- What is read at a block of an entry that begins with block `a`. -/
def ZbcDev.found (s : ZbcDev) (file : Mem) (a lba : ℕ) : List UInt8 :=
  if s.WrittenTo a (lba + 1) then s.block file lba else s.zeros

/-- Where the loop is between two turns, in an entry at address `base` for `n` blocks from `a` on.
On a host-managed device `type` is the type of the zones. -/
structure ReadPos.At (s : ZbcDev) (file : Mem) (base a n : ℕ) (type : ZoneType) (p : ReadPos) :
    Prop where
  le : a ≤ p.lba
  sum : p.lba + p.lbaCount = a + n
  buf : p.buf = base + (p.lba - a) * s.lbaSize
  written : s.WrittenTo a p.lba
  types : s.model = .hm → ∀ x < p.lba, a ≤ x → s.typeOf x = some type
  zoneType : s.model = .hm → p.zoneType = some type ∨
    p.zoneType = none ∧ p.lbaCount ≠ 0 ∧ s.typeOf p.lba = some type
  none_of_ha : s.model ≠ .hm → p.zoneType = none
  /-- Behind the first zone a turn reads from the start of a zone. -/
  start : p.lbaCount ≠ 0 → a < p.lba → ∀ z ∈ s.zones, z.start ≤ p.lba → p.lba < z.boundary →
    z.start = p.lba
  passed : ∀ z ∈ s.zones, a < z.start → z.start < p.lba → a + n < z.boundary →
    z.start + n ≤ z.boundary
  inside : ∀ f ∈ p.fills, base ≤ f.buf ∧ f.buf + f.len ≤ base + n * s.lbaSize
  data : ∀ mem, fillAll file mem p.fills =
    mem.store base ((List.range' a (p.lba - a)).flatMap (s.found file a))

/-- `*zone_type` when the types agree. -/
def ZbcDev.zoneTypeFor (s : ZbcDev) (type : ZoneType) : Option ZoneType :=
  if s.model = .hm then some type else none

/-- `count`, for a turn in a zone. -/
def ZbcZone.readCount (z : ZbcZone) (n : ℕ) (p : ReadPos) : ℕ :=
  if p.lba + n > z.boundary then z.boundary - p.lba else p.lbaCount

section Turn

variable {s : ZbcDev} {file : Mem} {base a n : ℕ} {type : ZoneType} {p : ReadPos} {z : ZbcZone}
  {k : ℕ}

/-- A turn that reads from the file. -/
def ReadPos.readFrom (p : ReadPos) (s : ZbcDev) (z : ZbcZone) (n : ℕ) : ReadPos where
  buf := p.buf + z.readCount n p * s.lbaSize
  lbaCount := (p.lbaCount + 2 ^ 64 - z.readCount n p) % 2 ^ 64
  lba := p.lba + z.readCount n p
  zoneType := s.zoneTypeFor z.type
  fills := p.fills ++ [⟨p.buf, z.readCount n p * s.lbaSize,
    some (zbcMetaSizeAligned s.nrZones + p.lba * s.lbaSize)⟩]

/-- Up to the boundary there is something to read. -/
theorem ReadPos.At.readCount_le (hp : p.At s file base a n type) (hlt : p.lba < z.boundary) :
    p.lba + z.readCount n p ≤ z.boundary := by
  rw [ZbcZone.readCount]
  split
  · omega
  · have := hp.sum
    have := hp.le
    omega

/-- The turns at a zone of the right type. -/
theorem ReadPos.At.readTurn_eq (h : s.Zoned) (hcap : a + n ≤ s.capacity)
    (hp : p.At s file base a n type) (hpos : p.lbaCount ≠ 0) :
    ∃ z, s.zoneOf p.lba = some z ∧
      s.readTurn n p =
        if s.model = .hm ∧ z.type ≠ type then .inl ⟨some (-5), none, p.fills⟩
        else if s.Written p.lba then .inr (p.readFrom s z n)
        else .inl ⟨some n, s.zoneTypeFor z.type,
          p.fills ++ [⟨p.buf, p.lbaCount * s.lbaSize, none⟩]⟩ := by
  have hsum := hp.sum
  have hle := hp.le
  have hcaplt := h.capacity_lt
  obtain ⟨z, hz, hget⟩ := h.zbcGetZone (show p.lba < s.capacity by omega)
  obtain ⟨hmem, hstart, hstop⟩ := mem_of_zoneOf hz
  have hboundary := (h.boundary_le hmem).trans (h.stop_le hmem)
  have hwritten := h.written_iff hmem hstart hstop
  refine ⟨z, hz, ?_⟩
  have htype : (s.model = .hm ∧ p.zoneType.getD z.type ≠ z.type) ↔
      s.model = .hm ∧ z.type ≠ type := by
    refine and_congr_right fun hm => not_congr ?_
    rcases hp.zoneType hm with heq | ⟨heq, -, htype⟩
    · rw [heq, Option.getD_some]
      exact eq_comm
    · rw [heq, Option.getD_none]
      rw [ZbcDev.typeOf, hz, Option.map_some, Option.some.injEq] at htype
      exact iff_of_true rfl htype
  have hzoneType : (if s.model = .hm then some z.type else p.zoneType) = s.zoneTypeFor z.type := by
    rw [ZbcDev.zoneTypeFor]
    split
    · rfl
    · rename_i hm
      exact hp.none_of_ha hm
  rw [ZbcDev.readTurn, if_neg hpos, hget]
  dsimp only
  rw [if_congr htype rfl rfl]
  refine if_congr Iff.rfl rfl ?_
  have hfile := h.file
  have hsize := h.fileSize_lt
  have hcond : (z.conv = false ∧ p.lba ≥ z.wp) ↔ ¬ s.Written p.lba := by
    rw [hwritten, ZbcZone.boundary]
    cases hconv : z.conv with
    | true => simpa [hconv] using hstop
    | false => simp
  have hbytes : ∀ count, p.lba + count ≤ s.capacity →
      zbcMetaSizeAligned s.nrZones + p.lba * s.lbaSize + count * s.lbaSize ≤ s.fileSize := by
    intro count hcount
    have hmul := Nat.mul_le_mul_right s.lbaSize hcount
    rw [Nat.add_mul] at hmul
    omega
  rw [if_congr hcond rfl rfl, ite_not, hzoneType]
  by_cases hin : s.Written p.lba
  · have hread := hp.readCount_le (hwritten.mp hin)
    have hlt := hwritten.mp hin
    have hcount : (if (p.lba + n) % 2 ^ 64 > z.boundary then (z.boundary + 2 ^ 64 - p.lba) % 2 ^ 64
        else p.lbaCount) = z.readCount n p := by
      rw [ZbcZone.readCount, Nat.mod_eq_of_lt (show p.lba + n < 2 ^ 64 by omega)]
      refine if_congr Iff.rfl ?_ rfl
      omega
    have := hbytes _ (hread.trans hboundary)
    rw [if_pos hin, if_pos hin, hcount,
      Nat.mod_eq_of_lt (show z.readCount n p * s.lbaSize < _ by omega),
      Nat.mod_eq_of_lt (show _ + p.lba * s.lbaSize < _ by omega), Nat.min_eq_left (by omega),
      if_neg (not_not.mpr rfl), Nat.mod_eq_of_lt (show p.lba + _ < _ by omega)]
    rfl
  · have := hbytes p.lbaCount (by omega)
    rw [if_neg hin, if_neg hin, Nat.mod_eq_of_lt (by omega)]

theorem length_block (lba : ℕ) : (s.block file lba).length = s.lbaSize := Mem.length_load ..

theorem length_zeros : s.zeros.length = s.lbaSize := List.length_replicate ..

theorem length_found (lba : ℕ) : (s.found file a lba).length = s.lbaSize := by
  rw [ZbcDev.found]
  split
  · exact length_block lba
  · exact length_zeros

theorem fillAll_concat (mem : Mem) (fs : List Fill) (f : Fill) :
    fillAll file mem (fs ++ [f]) = (fillAll file mem fs).store f.buf (f.bytes file) := by
  rw [fillAll, List.foldl_append]
  rfl

/-- One more fill, for the next blocks. -/
theorem ReadPos.At.fillAll_concat (hp : p.At s file base a n type) {f : Fill} {count : ℕ}
    (hbuf : f.buf = p.buf)
    (hbytes : f.bytes file = (List.range' p.lba count).flatMap (s.found file a)) (mem : Mem) :
    fillAll file mem (p.fills ++ [f]) =
      mem.store base ((List.range' a (p.lba + count - a)).flatMap (s.found file a)) := by
  have hle := hp.le
  have hrange : List.range' a (p.lba + count - a) =
      List.range' a (p.lba - a) ++ List.range' p.lba count := by
    rw [show p.lba + count - a = p.lba - a + count by omega, ← List.range'_append_1,
      Nat.add_sub_cancel' hle]
  rw [Tcmu.fillAll_concat, hp.data, hbuf, hbytes, hrange, List.flatMap_append, Mem.store_append,
    length_flatMap_range' length_found, hp.buf]

/-- What is read from the file. -/
theorem bytes_readFrom (hwritten : s.WrittenTo a (p.lba + k)) :
    (Fill.mk p.buf (k * s.lbaSize)
      (some (zbcMetaSizeAligned s.nrZones + p.lba * s.lbaSize))).bytes file =
        (List.range' p.lba k).flatMap (s.found file a) := by
  rw [Fill.bytes]
  dsimp only
  rw [load_blocks]
  refine List.flatMap_congr fun x hx => ?_
  obtain ⟨hx, hlt⟩ := List.mem_range'_1.mp hx
  have hto : s.WrittenTo a (x + 1) := fun y hy hay => hwritten y (by omega) hay
  rw [ZbcDev.found, if_pos hto]
  rfl

theorem ReadPos.At.readFrom (h : s.Zoned) (hcap : a + n ≤ s.capacity)
    (hp : p.At s file base a n type) (hz : s.zoneOf p.lba = some z)
    (htype : s.model = .hm → z.type = type) (hlt : p.lba < z.boundary)
    (hcount : z.readCount n p ≤ p.lbaCount) : (p.readFrom s z n).At s file base a n type := by
  have hsum := hp.sum
  have hle := hp.le
  have hcaplt := h.capacity_lt
  have hread := hp.readCount_le hlt
  obtain ⟨hmem, hstart, hstop⟩ := mem_of_zoneOf hz
  have hstop' := h.boundary_le hmem
  have hwritten : s.WrittenTo a (p.lba + z.readCount n p) := by
    intro x hx hax
    rcases Nat.lt_or_ge x p.lba with hxlt | hxge
    · exact hp.written x hxlt hax
    · exact (h.written_iff hmem (by omega) (by omega)).mpr (by omega)
  have hmod : (p.lbaCount + 2 ^ 64 - z.readCount n p) % 2 ^ 64 = p.lbaCount - z.readCount n p := by
    omega
  refine ⟨?_, ?_, ?_, hwritten, ?_, ?_, ?_, ?_, ?_, ?_, ?_⟩
  · exact hle.trans (Nat.le_add_right ..)
  · rw [ReadPos.readFrom, hmod]
    dsimp only
    omega
  · rw [ReadPos.readFrom]
    dsimp only
    rw [hp.buf, Nat.add_assoc, ← Nat.add_mul, Nat.sub_add_comm hle]
  · intro hm x hx hax
    rcases Nat.lt_or_ge x p.lba with hxlt | hxge
    · exact hp.types hm x hxlt hax
    · have hx : x < p.lba + z.readCount n p := hx
      rw [ZbcDev.typeOf, h.zoneOf_eq hmem (by omega) (by omega), Option.map_some, htype hm]
  · intro hm
    rw [ReadPos.readFrom, ZbcDev.zoneTypeFor, if_pos hm, htype hm]
    exact Or.inl rfl
  · intro hm
    rw [ReadPos.readFrom, ZbcDev.zoneTypeFor, if_neg hm]
  · intro hleft hlt' w hw hwstart hwlt
    have hwstop := h.boundary_le hw
    have hat : p.lba + z.readCount n p = z.boundary := by
      rw [ReadPos.readFrom, hmod] at hleft
      dsimp only at hleft
      rw [ZbcZone.readCount] at hleft ⊢
      split at hleft
      · rename_i hgt
        rw [if_pos hgt]
        omega
      · exact absurd (Nat.sub_self _) hleft
    change w.start ≤ p.lba + z.readCount n p at hwstart
    change p.lba + z.readCount n p < w.boundary at hwlt
    change w.start = p.lba + z.readCount n p
    rw [hat] at hwstart hwlt ⊢
    rcases Nat.lt_or_ge z.boundary z.stop with hshort | hfull
    · -- the block at the boundary lies in the same zone
      obtain rfl := h.eq_of_mem hmem hw ⟨by omega, hshort⟩ ⟨hwstart, by omega⟩
      exact absurd hwlt (Nat.lt_irrefl _)
    · have heq : z.boundary = z.stop := by omega
      rw [heq] at hwstart hwlt ⊢
      exact h.start_of_stop hmem hw hwstart (by omega)
  · intro w hw haw hwlt hover
    have hwstop := h.boundary_le hw
    have hwlt : w.start < p.lba + z.readCount n p := hwlt
    rcases Nat.lt_or_ge w.start p.lba with hbefore | hge
    · exact hp.passed w hw haw hbefore hover
    · obtain rfl := h.eq_of_mem hmem hw ⟨by omega, by omega⟩ ⟨le_rfl, by omega⟩
      rw [ZbcZone.readCount] at hcount
      split at hcount
      · omega
      · omega
  · intro f hf
    rw [ReadPos.readFrom] at hf
    rcases List.mem_append.mp hf with hf | hf
    · exact hp.inside f hf
    · rw [List.mem_singleton.mp hf]
      have hmul : (p.lba - a) * s.lbaSize + z.readCount n p * s.lbaSize ≤ n * s.lbaSize := by
        rw [← Nat.add_mul]
        exact Nat.mul_le_mul_right _ (by omega)
      dsimp only
      rw [hp.buf]
      omega
  · exact hp.fillAll_concat rfl (bytes_readFrom hwritten)

end Turn

/-! ### Entries -/

/-- What becomes of an entry. -/
inductive ZbcDev.Outcome (s : ZbcDev) (file : Mem) (base a n : ℕ) (type : ZoneType)
    (x : Option ReadEnd) : Prop where
  | wrongType (hpasses : ¬ s.Passes (some type) (a, n)) (fills : List Fill)
    (hx : x = some ⟨some (-5), none, fills⟩)
    (hinside : ∀ f ∈ fills, base ≤ f.buf ∧ f.buf + f.len ≤ base + n * s.lbaSize)
  | overrun (hpasses : s.Passes (some type) (a, n)) (hover : s.Overruns (a, n))
    (hx : ∀ e ∈ x, ∃ f ∈ e.fills, base + n * s.lbaSize < f.buf + f.len)
  | reads (hpasses : s.Passes (some type) (a, n)) (hover : ¬ s.Overruns (a, n)) (fills : List Fill)
    (hx : x = some ⟨some n, s.zoneTypeFor type, fills⟩)
    (hinside : ∀ f ∈ fills, base ≤ f.buf ∧ f.buf + f.len ≤ base + n * s.lbaSize)
    (hdata : ∀ mem, fillAll file mem fills =
      mem.store base ((List.range' a n).flatMap (s.found file a)))

section Loop

variable {s : ZbcDev} {file : Mem} {base a n : ℕ} {type : ZoneType} {p : ReadPos} {z : ZbcZone}

/-- What has been put into memory stays in the list. -/
theorem prefix_readTurn (s : ZbcDev) (n : ℕ) (p : ReadPos) :
    p.fills <+: (s.readTurn n p).elim ReadEnd.fills ReadPos.fills := by
  rw [ZbcDev.readTurn]
  by_cases hpos : p.lbaCount = 0
  · rw [if_pos hpos]
    exact List.prefix_rfl
  rw [if_neg hpos]
  cases (s.zbcGetZone p.lba false).bind fun i => s.zones[i]? with
  | none => exact List.prefix_rfl
  | some z =>
    dsimp only
    by_cases htype : s.model = .hm ∧ p.zoneType.getD z.type ≠ z.type
    · rw [if_pos htype]
      exact List.prefix_rfl
    rw [if_neg htype]
    by_cases hzeros : z.conv = false ∧ p.lba ≥ z.wp
    · rw [if_pos hzeros]
      exact List.prefix_append ..
    rw [if_neg hzeros]
    generalize (if (p.lba + n) % 2 ^ 64 > z.boundary then _ else _) = count
    split
    · exact List.prefix_append ..
    · exact List.prefix_append ..

theorem prefix_of_readLoop {k : ℕ} {e : ReadEnd} (h : s.readLoop n k p = some e) :
    p.fills <+: e.fills := by
  induction k generalizing p with
  | zero => cases h
  | succ k ih =>
    rw [ZbcDev.readLoop] at h
    have hprefix := prefix_readTurn s n p
    cases hturn : s.readTurn n p with
    | inl e' =>
      rw [hturn] at h hprefix
      exact Option.some.inj h ▸ hprefix
    | inr p' =>
      rw [hturn] at h hprefix
      exact hprefix.trans (ih h)

/-- At the end of an entry, and at a block that is not written, all zones have been passed that
could be overrun. -/
theorem ReadPos.At.not_overruns (h : s.Zoned) (hp : p.At s file base a n type)
    (hend : p.lbaCount = 0 ∨ ¬ s.Written p.lba) : ¬ s.Overruns (a, n) := by
  rintro ⟨z, hz, haz, hzend, hwritten, hboundary, hover⟩
  dsimp only at haz hzend hwritten hboundary hover
  have hsum := hp.sum
  have hstop := h.boundary_le hz
  have hge : p.lba ≤ z.start := by
    by_contra hlt
    have := hp.passed z hz haz (Nat.lt_of_not_le hlt) hboundary
    omega
  rcases hend with hzero | hnot
  · omega
  · rcases Nat.lt_or_eq_of_le hge with hlt | heq
    · exact hnot (hwritten p.lba hlt hp.le)
    · exact hnot ((h.written_iff hz (by omega) (by omega)).mpr (by omega))

/-- The types up to where the loop is are known. -/
theorem ReadPos.At.passes (hn : n ≠ 0) (hp : p.At s file base a n type)
    (hrest : s.model = .hm → ∀ x < a + n, p.lba ≤ x → s.WrittenTo a x → s.typeOf x = some type) :
    s.Passes (some type) (a, n) := by
  refine ⟨hn, fun hm x hx hax hwritten => ?_⟩
  rcases Nat.lt_or_ge x p.lba with hlt | hge
  · exact hp.types hm x hlt hax
  · exact hrest hm x hx hge hwritten

/-- A turn that reads too much. -/
theorem ReadPos.At.overruns (hp : p.At s file base a n type)
    (hpos : p.lbaCount ≠ 0) (hz : s.zoneOf p.lba = some z) (hlt : p.lba < z.boundary)
    (hcount : p.lbaCount < z.readCount n p) : a + n < z.boundary ∧ s.Overruns (a, n) := by
  have hsum := hp.sum
  have hle := hp.le
  obtain ⟨hmem, hstart, hstop⟩ := mem_of_zoneOf hz
  rw [ZbcZone.readCount] at hcount
  split at hcount
  · rename_i hgt
    have hat := hp.start hpos (by omega) z hmem hstart hlt
    exact ⟨by omega, z, hmem, by omega, by omega, hat ▸ hp.written, by omega, by omega⟩
  · exact absurd hcount (Nat.lt_irrefl _)

/-- A turn at a block that is not written fills the rest of the entry with zeros. -/
theorem ReadPos.At.fillAll_zeros (hp : p.At s file base a n type) (hnot : ¬ s.Written p.lba)
    (mem : Mem) :
    fillAll file mem (p.fills ++ [⟨p.buf, p.lbaCount * s.lbaSize, none⟩]) =
      mem.store base ((List.range' a n).flatMap (s.found file a)) := by
  have hzeros : (Fill.mk p.buf (p.lbaCount * s.lbaSize) none).bytes file =
      (List.range' p.lba p.lbaCount).flatMap (s.found file a) := by
    have hfound : ∀ x ∈ List.range' p.lba p.lbaCount, s.found file a x = s.zeros := by
      intro x hx
      have hge := (List.mem_range'_1.mp hx).1
      rw [ZbcDev.found, if_neg fun hto => hnot (hto p.lba (Nat.lt_succ_of_le hge) hp.le)]
    rw [List.flatMap_congr hfound, Fill.bytes]
    refine (List.eq_replicate_iff.mpr ⟨?_, fun b hb => ?_⟩).symm
    · exact length_flatMap_range' (fun _ => length_zeros) _ _
    · obtain ⟨x, -, hb⟩ := List.mem_flatMap.mp hb
      exact List.eq_of_mem_replicate hb
  have hsum := hp.sum
  have hle := hp.le
  rw [hp.fillAll_concat rfl hzeros, show p.lba + p.lbaCount - a = n by omega]

/-- `*zone_type` at the end of an entry. -/
theorem ReadPos.At.zoneType_eq (hp : p.At s file base a n type) (hend : p.lbaCount = 0) :
    p.zoneType = s.zoneTypeFor type := by
  rw [ZbcDev.zoneTypeFor]
  split
  · rename_i hm
    exact (hp.zoneType hm).resolve_right fun hnone => hnone.2.1 hend
  · rename_i hm
    exact hp.none_of_ha hm

/-- The loop comes to an end, in one of three ways. -/
theorem readLoop_outcome (h : s.Zoned) (hcap : a + n ≤ s.capacity) (hn : n ≠ 0) {k : ℕ}
    (hp : p.At s file base a n type) (hk : p.lbaCount < k) :
    s.Outcome file base a n type (s.readLoop n k p) := by
  induction k generalizing p with
  | zero => exact absurd hk (Nat.not_lt_zero _)
  | succ k ih =>
    have hsum := hp.sum
    have hle := hp.le
    rw [ZbcDev.readLoop]
    by_cases hpos : p.lbaCount = 0
    · -- the entry is full
      have hlba : p.lba = a + n := by omega
      rw [ZbcDev.readTurn, if_pos hpos]
      refine .reads (hp.passes hn fun hm x hx hge => absurd hx (by omega))
        (hp.not_overruns h (Or.inl hpos)) p.fills ?_ hp.inside fun mem => ?_
      · rw [hp.zoneType_eq hpos]
      · rw [hp.data, hlba, Nat.add_sub_cancel_left]
    · obtain ⟨z, hz, hturn⟩ := hp.readTurn_eq h hcap hpos
      obtain ⟨hmem, hstart, hstop⟩ := mem_of_zoneOf hz
      have htypeOf : s.typeOf p.lba = some z.type := by
        rw [ZbcDev.typeOf, hz, Option.map_some]
      rw [hturn]
      by_cases htype : s.model = .hm ∧ z.type ≠ type
      · rw [if_pos htype]
        refine .wrongType (fun hpasses => htype.2 ?_) p.fills rfl hp.inside
        have hsame := hpasses.2 htype.1 p.lba (show p.lba < a + n by omega) hle hp.written
        exact Option.some.inj (htypeOf.symm.trans hsame)
      · have htype' : s.model = .hm → z.type = type := fun hm =>
          by_contra fun hne => htype ⟨hm, hne⟩
        have hzoneType : s.zoneTypeFor z.type = s.zoneTypeFor type := by
          rw [ZbcDev.zoneTypeFor, ZbcDev.zoneTypeFor]
          split
          · rename_i hm
            rw [htype' hm]
          · rfl
        rw [if_neg htype]
        by_cases hwritten : s.Written p.lba
        · have hlt := (h.written_iff hmem hstart hstop).mp hwritten
          rw [if_pos hwritten]
          dsimp only
          rcases Nat.lt_or_ge p.lbaCount (z.readCount n p) with hmore | hcount
          · obtain ⟨hboundary, hover⟩ := hp.overruns hpos hz hlt hmore
            have hstop' := h.boundary_le hmem
            refine .overrun (hp.passes hn fun hm x hx hge _ => ?_) hover fun e he => ?_
            · rw [ZbcDev.typeOf, h.zoneOf_eq hmem (by omega) (by omega), Option.map_some, htype' hm]
            · refine ⟨_, (prefix_of_readLoop he).subset
                (List.mem_append_right _ (List.mem_singleton_self _)), ?_⟩
              have hmul : n * s.lbaSize < (p.lba - a + z.readCount n p) * s.lbaSize :=
                Nat.mul_lt_mul_of_pos_right (by omega) h.lbaSize_pos
              rw [Nat.add_mul] at hmul
              dsimp only
              rw [hp.buf]
              omega
          · refine ih (hp.readFrom h hcap hz htype' hlt hcount) ?_
            have hcountpos : 0 < z.readCount n p := by
              rw [ZbcZone.readCount]
              split <;> omega
            have hcaplt := h.capacity_lt
            rw [ReadPos.readFrom]
            dsimp only
            omega
        · rw [if_neg hwritten]
          refine .reads (hp.passes hn fun hm x hx hge hto => ?_)
            (hp.not_overruns h (Or.inr hwritten)) _ (by rw [hzoneType]) (fun f hf => ?_)
            (hp.fillAll_zeros hwritten)
          · rcases Nat.eq_or_lt_of_le hge with rfl | hlt
            · rw [htypeOf, htype' hm]
            · exact absurd (hto p.lba hlt hle) hwritten
          · rcases List.mem_append.mp hf with hf | hf
            · exact hp.inside f hf
            · rw [List.mem_singleton.mp hf]
              have hmul : (p.lba - a) * s.lbaSize + p.lbaCount * s.lbaSize = n * s.lbaSize := by
                rw [← Nat.add_mul, show p.lba - a + p.lbaCount = n by omega]
              dsimp only
              rw [hp.buf]
              omega

end Loop

/-! ### Scatter lists -/

/-- The number of blocks in a scatter list. -/
def ZbcDev.blocksIn (s : ZbcDev) (iov : List Iovec) : ℕ := (iov.map fun v => v.len / s.lbaSize).sum

theorem blocksIn_cons (s : ZbcDev) (v : Iovec) (iov : List Iovec) :
    s.blocksIn (v :: iov) = v.len / s.lbaSize + s.blocksIn iov := List.sum_cons

/-- What becomes of a scatter list. -/
inductive ZbcDev.ListOutcome (s : ZbcDev) (file : Mem) (lba : ℕ) (iov : List Iovec)
    (type : Option ZoneType) (x : Option (ReadAnswer × List (Iovec × Fill))) : Prop where
  | stops (hpasses : ¬ ∀ p ∈ s.parts lba iov, s.Passes type p)
    (hover : ∀ p ∈ (s.parts lba iov).takeWhile fun p => s.Passes type p, ¬ s.Overruns p)
    (answer : ReadAnswer) (fills : List (Iovec × Fill)) (hx : x = some (answer, fills))
    (hanswer : answer ≠ .ok)
    (hinside : ∀ y ∈ fills, y.1.base ≤ y.2.buf ∧ y.2.buf + y.2.len ≤ y.1.base + y.1.len)
  | overrun (p : ℕ × ℕ) (hp : p ∈ (s.parts lba iov).takeWhile fun p => s.Passes type p)
    (hover : s.Overruns p)
    (hx : ∀ r ∈ x, ∃ y ∈ r.2, y.1.base + y.1.len < y.2.buf + y.2.len)
  | reads (hpasses : ∀ p ∈ s.parts lba iov, s.Passes type p)
    (hover : ∀ p ∈ s.parts lba iov, ¬ s.Overruns p)
    (fills : List (Iovec × Fill)) (hx : x = some (.ok, fills))
    (hinside : ∀ y ∈ fills, y.1.base ≤ y.2.buf ∧ y.2.buf + y.2.len ≤ y.1.base + y.1.len)
    (hdata : ∀ mem, fillAll file mem (fills.map Prod.snd) =
      scatter mem iov ((s.parts lba iov).flatMap fun p =>
        (List.range' p.1 p.2).flatMap (s.found file p.1)))

section Entries

variable {s : ZbcDev} {file : Mem} {base a n lba : ℕ} {iov : List Iovec} {v : Iovec}
  {type : ZoneType} {zoneType : Option ZoneType}

theorem zbcReadInto_outcome (h : s.Zoned) (hcap : a + n ≤ s.capacity) (hn : n ≠ 0)
    (hzoneType : zoneType = s.zoneTypeFor type ∨ zoneType = none ∧ s.typeOf a = some type) :
    s.Outcome file base a n type (s.zbcReadInto base n a zoneType) := by
  refine readLoop_outcome h hcap hn ⟨le_rfl, rfl, ?_, ?_, ?_, ?_, ?_, ?_, ?_, ?_, ?_⟩
    (show n < n + s.nrZones + 2 by omega)
  · dsimp only
    rw [Nat.sub_self, Nat.zero_mul, Nat.add_zero]
  · exact fun x hx hax => absurd hx (Nat.not_lt.mpr hax)
  · exact fun _ x hx hax => absurd hx (Nat.not_lt.mpr hax)
  · intro hm
    rcases hzoneType with heq | ⟨heq, htype⟩
    · rw [heq, ZbcDev.zoneTypeFor, if_pos hm]
      exact Or.inl rfl
    · exact Or.inr ⟨heq, hn, htype⟩
  · intro hm
    rcases hzoneType with heq | ⟨heq, -⟩
    · rw [heq, ZbcDev.zoneTypeFor, if_neg hm]
    · exact heq
  · exact fun _ hlt => absurd hlt (Nat.lt_irrefl _)
  · exact fun z _ haz hza => absurd haz (Nat.lt_asymm hza)
  · exact fun f hf => absurd hf List.not_mem_nil
  · intro mem
    dsimp only
    rw [Nat.sub_self]
    exact (Mem.store_nil mem base).symm

/-- What is put into memory for the first entry stays in the list. -/
theorem mem_of_readEntries {e : ReadEnd} {r : ReadAnswer × List (Iovec × Fill)} {f : Fill}
    (hentry : s.zbcReadInto v.base (v.len / s.lbaSize) lba zoneType = some e)
    (h : s.readEntries (v :: iov) lba zoneType = some r) (hf : f ∈ e.fills) : (v, f) ∈ r.2 := by
  have hmem : (v, f) ∈ e.fills.map fun f => (v, f) := List.mem_map_of_mem hf
  rw [ZbcDev.readEntries, hentry] at h
  dsimp only at h
  cases hret : e.ret with
  | none =>
    rw [hret] at h
    exact Option.some.inj h ▸ hmem
  | some ret =>
    rw [hret] at h
    dsimp only at h
    split at h
    · exact Option.some.inj h ▸ hmem
    · obtain ⟨r', -, rfl⟩ := Option.map_eq_some_iff.mp h
      exact List.mem_append_left _ hmem

/-- An entry without blocks is an error. -/
theorem readEntries_of_len (hzero : v.len / s.lbaSize = 0) :
    s.readEntries (v :: iov) lba zoneType =
      some (if zoneType = none then .invalidData else .readError, []) := by
  rw [ZbcDev.readEntries, hzero]
  rfl

theorem readEntries_of_fail {fills : List Fill}
    (hentry : s.zbcReadInto v.base (v.len / s.lbaSize) lba zoneType =
      some ⟨some (-5), none, fills⟩) :
    s.readEntries (v :: iov) lba zoneType = some (.invalidData, fills.map fun f => (v, f)) := by
  rw [ZbcDev.readEntries, hentry]
  rfl

theorem readEntries_of_read {fills : List Fill} {zoneType' : Option ZoneType}
    (hentry : s.zbcReadInto v.base (v.len / s.lbaSize) lba zoneType =
      some ⟨some ((v.len / s.lbaSize : ℕ) : ℤ), zoneType', fills⟩) (hn : v.len / s.lbaSize ≠ 0)
    (hlt : lba + v.len / s.lbaSize < 2 ^ 64) :
    s.readEntries (v :: iov) lba zoneType =
      (s.readEntries iov (lba + v.len / s.lbaSize) zoneType').map fun r =>
        (r.1, fills.map (fun f => (v, f)) ++ r.2) := by
  rw [ZbcDev.readEntries, hentry]
  dsimp only
  rw [if_neg (Int.not_le.mpr (Int.natCast_pos.mpr (Nat.pos_of_ne_zero hn))), Int.toNat_natCast,
    Nat.mod_eq_of_lt hlt]

theorem parts_cons (s : ZbcDev) (lba : ℕ) (v : Iovec) (iov : List Iovec) :
    s.parts lba (v :: iov) =
      (lba, v.len / s.lbaSize) :: s.parts (lba + v.len / s.lbaSize) iov := rfl

theorem takeWhile_parts_of_not {type : Option ZoneType}
    (hpasses : ¬ s.Passes type (lba, v.len / s.lbaSize)) :
    ((s.parts lba (v :: iov)).takeWhile fun p => s.Passes type p) = [] := by
  rw [parts_cons, List.takeWhile_cons_of_neg (by simpa using hpasses)]

theorem takeWhile_parts_of_passes {type : Option ZoneType}
    (hpasses : s.Passes type (lba, v.len / s.lbaSize)) :
    ((s.parts lba (v :: iov)).takeWhile fun p => s.Passes type p) =
      (lba, v.len / s.lbaSize) :: (s.parts (lba + v.len / s.lbaSize) iov).takeWhile
        fun p => s.Passes type p := by
  rw [parts_cons, List.takeWhile_cons_of_pos (by simpa using hpasses)]

/-- What is put into an entry is inside of it. -/
theorem inside_of_entry (hlen : n * s.lbaSize = v.len) {fills : List Fill}
    (hfills : ∀ f ∈ fills, v.base ≤ f.buf ∧ f.buf + f.len ≤ v.base + n * s.lbaSize) :
    ∀ y ∈ fills.map fun f => (v, f),
      y.1.base ≤ y.2.buf ∧ y.2.buf + y.2.len ≤ y.1.base + y.1.len := by
  intro y hy
  obtain ⟨f, hf, rfl⟩ := List.mem_map.mp hy
  rw [hlen] at hfills
  exact hfills f hf

/-- Nothing is read any more if the first entry does not pass. -/
theorem ZbcDev.ListOutcome.stops_first {type : Option ZoneType}
    {x : Option (ReadAnswer × List (Iovec × Fill))}
    (hpasses : ¬ s.Passes type (lba, v.len / s.lbaSize)) (answer : ReadAnswer)
    (fills : List (Iovec × Fill)) (hx : x = some (answer, fills)) (hanswer : answer ≠ .ok)
    (hinside : ∀ y ∈ fills, y.1.base ≤ y.2.buf ∧ y.2.buf + y.2.len ≤ y.1.base + y.1.len) :
    s.ListOutcome file lba (v :: iov) type x := by
  refine .stops (fun hall => hpasses (hall _ List.mem_cons_self)) ?_ answer fills hx hanswer hinside
  rw [takeWhile_parts_of_not hpasses]
  exact fun p hp => absurd hp List.not_mem_nil

/-- The first entry has been read, and then the others. -/
theorem ZbcDev.ListOutcome.cons_reads {type : Option ZoneType}
    {x : Option (ReadAnswer × List (Iovec × Fill))} (hlen : v.len / s.lbaSize * s.lbaSize = v.len)
    (hpasses : s.Passes type (lba, v.len / s.lbaSize))
    (hover : ¬ s.Overruns (lba, v.len / s.lbaSize)) (fills : List Fill)
    (hinside : ∀ f ∈ fills,
      v.base ≤ f.buf ∧ f.buf + f.len ≤ v.base + v.len / s.lbaSize * s.lbaSize)
    (hdata : ∀ mem, fillAll file mem fills = mem.store v.base
      ((List.range' lba (v.len / s.lbaSize)).flatMap (s.found file lba)))
    (h : s.ListOutcome file (lba + v.len / s.lbaSize) iov type x) :
    s.ListOutcome file lba (v :: iov) type
      (x.map fun r => (r.1, fills.map (fun f => (v, f)) ++ r.2)) := by
  have htake := @takeWhile_parts_of_passes s lba iov v type hpasses
  have hfirst := inside_of_entry hlen hinside
  cases h with
  | stops hpasses' hover' answer fills' hx' hanswer hinside' =>
    refine .stops (fun hall => hpasses' fun p hp => hall p (List.mem_cons_of_mem _ hp)) ?_
      answer (fills.map (fun f => (v, f)) ++ fills') (by rw [hx', Option.map_some]) hanswer
      (List.forall_mem_append.mpr ⟨hfirst, hinside'⟩)
    rw [htake]
    exact List.forall_mem_cons.mpr ⟨hover, hover'⟩
  | overrun p hp hover' hx' =>
    refine .overrun p (htake ▸ List.mem_cons_of_mem _ hp) hover' fun r hr => ?_
    obtain ⟨r', hr', rfl⟩ := Option.map_eq_some_iff.mp hr
    obtain ⟨y, hy, hlong⟩ := hx' r' hr'
    exact ⟨y, List.mem_append_right _ hy, hlong⟩
  | reads hpasses' hover' fills' hx' hinside' hdata' =>
    refine .reads (List.forall_mem_cons.mpr ⟨hpasses, hpasses'⟩)
      (List.forall_mem_cons.mpr ⟨hover, hover'⟩) (fills.map (fun f => (v, f)) ++ fills')
      (by rw [hx', Option.map_some])
      (List.forall_mem_append.mpr ⟨hfirst, hinside'⟩) fun mem => ?_
    have hbytes : ((List.range' lba (v.len / s.lbaSize)).flatMap (s.found file lba)).length =
        v.len := (length_flatMap_range' length_found _ _).trans hlen
    rw [List.map_append, List.map_map, Function.comp_def, List.map_id', fillAll,
      List.foldl_append, ← fillAll, ← fillAll, hdata, hdata', parts_cons, List.flatMap_cons,
      scatter, List.take_left' hbytes, List.drop_left' hbytes]

/-- The first entry with blocks fixes the type, if none is known yet. -/
theorem exists_type (h : s.Zoned) {type : Option ZoneType} (hlt : lba < s.capacity)
    (hzoneType : zoneType = none ∧ type = s.typeOf lba ∨
      ∃ t, type = some t ∧ zoneType = s.zoneTypeFor t) :
    ∃ t, type = some t ∧
      (zoneType = s.zoneTypeFor t ∨ zoneType = none ∧ s.typeOf lba = some t) := by
  rcases hzoneType with ⟨hnone, htype⟩ | ⟨t, htype, hzt⟩
  · obtain ⟨z, hz, -⟩ := h.zbcGetZone hlt
    have htypeOf : s.typeOf lba = some z.type := by rw [ZbcDev.typeOf, hz, Option.map_some]
    exact ⟨z.type, htype.trans htypeOf, Or.inr ⟨hnone, htypeOf⟩⟩
  · exact ⟨t, htype, Or.inl hzt⟩

/-- The loop over the entries comes to an end, in one of three ways. -/
theorem readEntries_outcome (h : s.Zoned) {type : Option ZoneType}
    (hblocks : ∀ v ∈ iov, s.lbaSize ∣ v.len) (hcap : lba + s.blocksIn iov ≤ s.capacity)
    (hzoneType : zoneType = none ∧ type = s.typeOf lba ∨
      ∃ t, type = some t ∧ zoneType = s.zoneTypeFor t) :
    s.ListOutcome file lba iov type (s.readEntries iov lba zoneType) := by
  induction iov generalizing lba zoneType with
  | nil =>
    exact .reads (fun p hp => absurd hp List.not_mem_nil) (fun p hp => absurd hp List.not_mem_nil)
      [] rfl (fun y hy => absurd hy List.not_mem_nil) fun mem => rfl
  | cons v iov ih =>
    obtain ⟨hv, hrest⟩ := List.forall_mem_cons.mp hblocks
    have hlen : v.len / s.lbaSize * s.lbaSize = v.len := Nat.div_mul_cancel hv
    have hcaplt := h.capacity_lt
    rw [blocksIn_cons, ← Nat.add_assoc] at hcap
    have hle : lba + v.len / s.lbaSize ≤ s.capacity := Nat.le_of_add_right_le hcap
    by_cases hn : v.len / s.lbaSize = 0
    · refine .stops_first (fun hp => hp.1 hn) _ _ (readEntries_of_len hn) ?_
        fun y hy => absurd hy List.not_mem_nil
      split
      · exact nofun
      · exact nofun
    obtain ⟨t, rfl, ht⟩ := exists_type h
      ((Nat.lt_add_of_pos_right (Nat.pos_of_ne_zero hn)).trans_le hle) hzoneType
    have hentry : s.Outcome file v.base lba (v.len / s.lbaSize) t _ :=
      zbcReadInto_outcome h hle hn ht
    cases hentry with
    | wrongType hpasses fills hx hinside =>
      exact .stops_first hpasses _ _ (readEntries_of_fail hx) nofun (inside_of_entry hlen hinside)
    | overrun hpasses hover hx =>
      refine .overrun _ ?_ hover fun r hr => ?_
      · rw [takeWhile_parts_of_passes hpasses]
        exact List.mem_cons_self
      · cases hentry : s.zbcReadInto v.base (v.len / s.lbaSize) lba zoneType with
        | none =>
          rw [ZbcDev.readEntries, hentry] at hr
          cases hr
        | some e =>
          obtain ⟨f, hf, hlong⟩ := hx e hentry
          rw [hlen] at hlong
          exact ⟨_, mem_of_readEntries hentry hr hf, hlong⟩
    | reads hpasses hover fills hx hinside hdata =>
      have hlt : lba + v.len / s.lbaSize < 2 ^ 64 := hle.trans_lt (hcaplt.trans (by norm_num))
      rw [readEntries_of_read hx hn hlt]
      exact (ih hrest hcap (Or.inr ⟨t, rfl, rfl⟩)).cons_reads hlen hpasses hover fills hinside hdata

end Entries

/-! ### Reads -/

section Read

variable {s : ZbcDev} {file mem : Mem} {cdb : Cdb} {iov : List Iovec} {lba : ℕ}

theorem length_content (lba : ℕ) : (s.content file lba).length = s.lbaSize := by
  rw [ZbcDev.content]
  split
  · exact length_block lba
  · exact length_zeros

/-- The entries have all blocks in order. -/
theorem flatMap_parts (f : ℕ → List UInt8) :
    ((s.parts lba iov).flatMap fun p => (List.range' p.1 p.2).flatMap f) =
      (List.range' lba (s.blocksIn iov)).flatMap f := by
  induction iov generalizing lba with
  | nil => rfl
  | cons v iov ih =>
    rw [ZbcDev.parts, List.flatMap_cons, ih, blocksIn_cons, ← List.range'_append_1,
      List.flatMap_append]

theorem found_eq_content_iff (p : ℕ × ℕ) :
    (∀ x < p.1 + p.2, p.1 ≤ x → s.found file p.1 x = s.content file x) ↔ ¬ s.Loses file p := by
  have hto : ∀ x, s.Written x → p.1 ≤ x → (s.WrittenTo p.1 (x + 1) ↔ s.WrittenTo p.1 x) := by
    intro x hwritten hle
    refine ⟨fun h y hy => h y (hy.trans (Nat.lt_succ_self x)), fun h y hy hay => ?_⟩
    rcases Nat.lt_or_eq_of_le (Nat.le_of_lt_succ hy) with hlt | rfl
    · exact h y hlt hay
    · exact hwritten
  constructor
  · rintro hall ⟨y, hy, hle, hwritten, hblock, hnot⟩
    have heq := hall y hy hle
    rw [ZbcDev.found, if_neg (mt (hto y hwritten hle).mp hnot), ZbcDev.content,
      if_pos hwritten] at heq
    exact hblock heq.symm
  · intro hkept x hx hle
    rw [ZbcDev.found, ZbcDev.content]
    by_cases hwritten : s.Written x
    · rw [if_pos hwritten]
      split
      · rfl
      · rename_i hnot
        by_contra hne
        exact hkept ⟨x, hx, hle, hwritten, Ne.symm hne, mt (hto x hwritten hle).mpr hnot⟩
    · rw [if_neg hwritten, if_neg fun h => hwritten (h x (Nat.lt_succ_self x) hle)]

theorem blocksIn_mul (hblocks : ∀ v ∈ iov, s.lbaSize ∣ v.len) :
    s.blocksIn iov * s.lbaSize = iovTotal iov := by
  induction iov with
  | nil => exact Nat.zero_mul _
  | cons v iov ih =>
    obtain ⟨hv, hrest⟩ := List.forall_mem_cons.mp hblocks
    rw [blocksIn_cons, Nat.add_mul, ih hrest, Nat.div_mul_cancel hv, iovTotal_cons]

theorem length_flatMap_found : ((s.parts lba iov).flatMap fun p =>
    (List.range' p.1 p.2).flatMap (s.found file p.1)).length = s.blocksIn iov * s.lbaSize := by
  induction iov generalizing lba with
  | nil => exact (Nat.zero_mul _).symm
  | cons v iov ih =>
    rw [ZbcDev.parts, List.flatMap_cons, List.length_append, ih,
      length_flatMap_range' length_found, blocksIn_cons, Nat.add_mul]

/-- The right blocks are found if and only if no entry loses one. -/
theorem flatMap_found_iff :
    ((s.parts lba iov).flatMap fun p => (List.range' p.1 p.2).flatMap (s.found file p.1)) =
      ((s.parts lba iov).flatMap fun p => (List.range' p.1 p.2).flatMap (s.content file)) ↔
        ∀ p ∈ s.parts lba iov, ¬ s.Loses file p := by
  induction iov generalizing lba with
  | nil => exact iff_of_true rfl fun p hp => absurd hp List.not_mem_nil
  | cons v iov ih =>
    rw [ZbcDev.parts, List.flatMap_cons, List.flatMap_cons, List.forall_mem_cons, ← ih,
      ← found_eq_content_iff, ← flatMap_range'_inj length_found length_content]
    constructor
    · intro heq
      exact List.append_inj heq ((length_flatMap_range' length_found ..).trans
        (length_flatMap_range' length_content ..).symm)
    · rintro ⟨hfirst, hrest⟩
      rw [hfirst, hrest]

/-- The entries have the blocks of the command. -/
theorem blocksIn_of_check (h : s.Zoned) (hcheck : s.zbcCheckRdwr cdb (iov.map Iovec.len) = none)
    (hblocks : ∀ v ∈ iov, s.lbaSize ∣ v.len) (hlen : iovTotal iov < 2 ^ 64) :
    s.blocksIn iov = xferLengthOf cdb ∧ lbaOf cdb + xferLengthOf cdb ≤ s.capacity := by
  have hlba := lbaOf_lt cdb
  have hxfer := xferLengthOf_lt cdb
  have hcap := h.capacity_lt
  rw [ZbcDev.zbcCheckRdwr] at hcheck
  split at hcheck
  · cases hcheck
  · rename_i hsize
    split at hcheck
    · cases hcheck
    · rename_i hrange
      refine ⟨?_, by omega⟩
      rw [not_not, ← iovTotal, Nat.mod_eq_of_lt hlen, ← blocksIn_mul hblocks] at hsize
      exact Nat.eq_of_mul_eq_mul_right h.lbaSize_pos hsize

/-- **Reads.** A read that is accepted fills only its entries, and with the right data, if and only
if it does not come to an entry that it overruns, and loses no block. -/
theorem read_right_iff (h : s.Zoned) (hcheck : s.zbcCheckRdwr cdb (iov.map Iovec.len) = none)
    (hblocks : ∀ v ∈ iov, s.lbaSize ∣ v.len) (hdisjoint : iov.Pairwise Iovec.Disjoint)
    (hlen : iovTotal iov < 2 ^ 64) :
    s.ReadsRight file mem cdb iov ↔ s.ReadFits file cdb iov := by
  obtain ⟨hcount, hcap⟩ := blocksIn_of_check h hcheck hblocks hlen
  have hread : s.zbcRead cdb iov = s.readEntries iov (lbaOf cdb) none := by
    rw [ZbcDev.zbcRead, hcheck]
  have houtcome : s.ListOutcome file (lbaOf cdb) iov (s.typeOf (lbaOf cdb)) (s.zbcRead cdb iov) :=
    hread ▸ readEntries_outcome h hblocks (hcount.symm ▸ hcap) (Or.inl ⟨rfl, rfl⟩)
  cases houtcome with
  | stops hpasses hover answer fills hx hanswer hinside =>
    exact iff_of_true ⟨_, hx, hinside, fun hok => absurd hok hanswer⟩
      ⟨hover, fun hall => absurd hall hpasses⟩
  | overrun p hp hover hx =>
    refine iff_of_false (fun ⟨r, hr, hinside, _⟩ => ?_) fun hfits => hfits.inside p hp hover
    obtain ⟨y, hy, hlong⟩ := hx r hr
    exact absurd (hinside y hy).2 (Nat.not_le.mpr hlong)
  | reads hpasses hover fills hx hinside hdata =>
    have hfits : s.ReadFits file cdb iov ↔
        ∀ p ∈ s.parts (lbaOf cdb) iov, ¬ s.Loses file p :=
      ⟨fun hfits => hfits.kept hpasses,
        fun hkept => ⟨fun p hp => hover p (List.takeWhile_subset _ hp), fun _ => hkept⟩⟩
    have hgather : gather iov (fillAll file mem (fills.map Prod.snd)) =
        (s.parts (lbaOf cdb) iov).flatMap fun p =>
          (List.range' p.1 p.2).flatMap (s.found file p.1) := by
      rw [hdata]
      exact gather_scatter hdisjoint (length_flatMap_found.trans (blocksIn_mul hblocks))
    rw [hfits, ← flatMap_found_iff, flatMap_parts, hcount, ← hgather]
    constructor
    · rintro ⟨r, hr, -, hright⟩
      obtain rfl := Option.some.inj (hx.symm.trans hr)
      exact hright rfl
    · intro heq
      exact ⟨_, hx, hinside, fun _ => heq⟩

end Read

/-! ### Devices that have been formatted -/

/-- A device that has been formatted has such a layout, and keeps it over commands. -/
theorem zoned_of_commands {cfg : ZbcConfig} {new s : ZbcDev} {es : List ZbcEvent} (h : cfg.Reopens)
    (hnew : zbcFormatMeta cfg = some new)
    (hsize : zbcMetaSizeAligned cfg.nrZones + cfg.devSize < 2 ^ 63)
    (hes : ∀ e ∈ es, e.IsCommand) (hmeets : Meets ZbcDev.step ZbcDev.PointersFit new es)
    (hrun : run ZbcDev.step new es = some s) : s.Zoned := by
  have hfits : cfg.SizeFits := Or.inl h.zoneSize
  have hsound : s.AllSound ∧ s.Layout :=
    run_invariant_meets (fun s e t hfit hs => sound_step hs hfit) hmeets
      ⟨allSound_zbcFormatMeta hnew hfits, layout_zbcFormatMeta hnew hfits⟩ hrun
  have hfixed := fixed_of_commands hes hrun
  obtain ⟨-, hheader, -, hzoneSize, hnr⟩ := zbcFormatMeta_eq hnew
  obtain ⟨hcapacity, hfile⟩ := zbcFormatMeta_size hnew
  have hsnr : s.nrZones = cfg.nrZones := (nrZones_of_fixed hfixed).trans hnr
  have hssize : s.zoneSize = cfg.zoneSize := (zoneSize_of_fixed hfixed).trans hzoneSize
  have hscap : s.capacity = cfg.capacity := by
    rw [← hcapacity]
    rw [ZbcDev.fixed, ZbcDev.fixed] at hfixed
    injection hfixed
  have hsfile : s.fileSize = zbcMetaSizeAligned cfg.nrZones + cfg.devSize := by
    rw [fileSize_of_fixed hfixed, hfile, Nat.mod_eq_of_lt (hsize.trans (by norm_num))]
  have hslba : s.lbaSize = cfg.lbaSize := by
    rw [lbaSize_of_fixed hfixed]
    rw [zbcFormatMeta] at hnew
    split at hnew
    · cases hnew
    · cases hnew
      rfl
  refine ⟨?_, ?_, ?_, hsound.2.length, ?_, fun i z hz => ?_, fun z hz hconv => ?_, ?_, ?_⟩
  · rw [hssize]
    exact zoneSize_pos cfg
  · rw [hslba]
    rcases cfg.lbaSize_eq with heq | heq
    · rw [heq]
      norm_num
    · rw [heq]
      norm_num
  · rw [hsnr]
    exact Nat.mod_lt _ (by norm_num)
  · rw [hscap, hsnr, hssize, h.nrZones]
    exact capacity_le_zoneCount cfg
  · obtain ⟨w, hw, heq⟩ := getElem?_of_fixed hfixed.symm hz
    have hi := lt_nrZones_of_format hnew hw
    have hlt := mul_lt_capacity hi
    rw [getElem?_zbcFormatMeta hnew hi, Option.some.injEq] at hw
    obtain ⟨hstart, hlen⟩ := formatZone_start cfg.header i (i * cfg.header.zoneSize)
    have hcap : cfg.header.capacity = cfg.capacity := rfl
    rw [ZbcZone.stop, ← start_of_fixed heq, ← len_of_fixed heq, ← hw, hstart, hlen,
      h.header_zoneSize, hssize, hscap, hcap, Nat.add_mul, Nat.one_mul]
    refine ⟨rfl, ?_⟩
    split <;> omega
  · obtain ⟨i, hi⟩ := List.mem_iff_getElem?.mp hz
    exact (hsound.1 i z hi).bounds hconv
  · rw [hsfile, hsnr, hscap, hslba]
    exact Nat.add_le_add_left (Nat.div_mul_le_self ..) _
  · rw [hsfile]
    exact hsize

/-- Zone 0 is finished, and two blocks of zone 1 are written. -/
def finishAndWrite : List ZbcEvent :=
  [.out (zoneCdb 0x02 0 0),
    .write [0x8a, 0, 0, 0, 0, 0, 0, 0, 1, 0, 0, 0, 0, 2, 0, 0] [8192] [8192]]

/-- `READ(16)` of the last two blocks of zone 0, and a number of blocks of zone 1. -/
def acrossZones (n : UInt8) : Cdb := [0x88, 0, 0, 0, 0, 0, 0, 0, 0, 254, 0, 0, 0, 2 + n, 0, 0]

/-- All that is written can be read. -/
theorem read_right_across : ∃ s t, zbcFormatMeta (eightZones .hm) = some s ∧
    run ZbcDev.step s finishAndWrite = some t ∧
      ∀ file mem, t.ReadsRight file mem (acrossZones 2) [⟨0, 16384⟩] := by
  have hrun : ∃ s t, zbcFormatMeta (eightZones .hm) = some s ∧
      run ZbcDev.step s finishAndWrite = some t ∧
      Meets ZbcDev.step ZbcDev.PointersFit s finishAndWrite ∧
      t.zbcCheckRdwr (acrossZones 2) [16384] = none ∧ t.lbaSize = 4096 ∧
      t.parts (lbaOf (acrossZones 2)) [⟨0, 16384⟩] = [(254, 4)] ∧
      (∀ z ∈ t.zones, z.start < 258 → z.boundary ≤ 258) ∧ ∀ k < 4, t.Written (254 + k) :=
    ⟨_, _, rfl, rfl, by decide, by decide, rfl, by decide, by decide, by decide⟩
  obtain ⟨s, t, hs, ht, hmeets, hcheck, hsize, hparts, hboundary, hwritten⟩ := hrun
  have hzoned : t.Zoned := zoned_of_commands (by decide) hs (by decide)
    (by simp [finishAndWrite, ZbcEvent.IsCommand]) hmeets ht
  refine ⟨s, t, hs, ht, fun file mem => (read_right_iff hzoned hcheck ?_ ?_ ?_).mpr ⟨?_, ?_⟩⟩
  · simp [hsize]
  · exact List.pairwise_singleton _ _
  · decide
  · rw [hparts]
    intro p hp
    rw [List.mem_singleton.mp (List.takeWhile_subset _ hp)]
    rintro ⟨z, hz, -, hstart, -, hover, -⟩
    exact absurd hover (Nat.not_lt.mpr (hboundary z hz hstart))
  · rw [hparts]
    rintro - p hp ⟨y, hy, -, -, -, hnot⟩
    rw [List.mem_singleton.mp hp] at hy hnot
    refine hnot fun x hx hle => ?_
    obtain ⟨k, rfl⟩ := Nat.exists_eq_add_of_le hle
    exact hwritten k (Nat.lt_of_add_lt_add_left (hx.trans hy))

/-- If one block less is read, the second block of zone 1 is put behind the end of the entry. -/
theorem read_past_entry : ∃ s t, zbcFormatMeta (eightZones .hm) = some s ∧
    run ZbcDev.step s finishAndWrite = some t ∧ t.Zoned ∧
      t.zbcCheckRdwr (acrossZones 1) [12288] = none ∧
        ∀ file mem, ¬ t.ReadsRight file mem (acrossZones 1) [⟨0, 12288⟩] := by
  have hrun : ∃ s t, zbcFormatMeta (eightZones .hm) = some s ∧
      run ZbcDev.step s finishAndWrite = some t ∧
      Meets ZbcDev.step ZbcDev.PointersFit s finishAndWrite ∧
      t.zbcCheckRdwr (acrossZones 1) [12288] = none ∧
      ∀ r ∈ t.zbcRead (acrossZones 1) [⟨0, 12288⟩],
        ∃ y ∈ r.2, y.1.base + y.1.len < y.2.buf + y.2.len :=
    ⟨_, _, rfl, rfl, by decide, by decide, by decide⟩
  obtain ⟨s, t, hs, ht, hmeets, hcheck, hlong⟩ := hrun
  refine ⟨s, t, hs, ht, zoned_of_commands (by decide) hs (by decide)
    (by simp [finishAndWrite, ZbcEvent.IsCommand]) hmeets ht, hcheck, ?_⟩
  rintro file mem ⟨r, hr, hinside, -⟩
  obtain ⟨y, hy, hlt⟩ := hlong r hr
  exact absurd (hinside y hy).2 (Nat.not_le.mpr hlt)

end Tcmu

end LioProject
