import LioProject.Tcmu.Device

/-!
# Zoned devices

The handler `zbc` keeps a device with zones in a file. The file starts with metadata, a header and
one descriptor for each zone, which are mapped into memory: what is written there is in the file.
Behind the metadata come the blocks.

`zbc_format_meta` writes new metadata, `zbc_check_meta` looks whether a file has usable ones, and
`zbc_init_meta` takes them over. The zone commands and `zbc_write` change the descriptors, and they
count the zones that are open.

System calls other than `pwrite` are taken to succeed. Of `pwrite` only the number of bytes that it
returns matters here.
-/

namespace LioProject

namespace Tcmu

/-! ### Data -/

/-- `enum zbc_dev_model`. -/
inductive ZbcModel where
  | ha
  | hm
  deriving DecidableEq, Repr

/-- `enum zbc_zone_type`. -/
inductive ZoneType where
  | conventional
  | seqwriteReq
  | seqwritePref
  deriving DecidableEq, Repr

/-- `enum zbc_zone_cond`. -/
inductive ZoneCond where
  | notWp
  | empty
  | impOpen
  | expOpen
  | closed
  | readonly
  | full
  | offline
  deriving DecidableEq, Repr

/-- `struct zbc_zone`. -/
structure ZbcZone where
  /-- `start`. -/
  start : ℕ
  /-- `len`. -/
  len : ℕ
  /-- `wp`. -/
  wp : ℕ
  /-- `type`. -/
  type : ZoneType
  /-- `cond`. -/
  cond : ZoneCond
  /-- `non_seq`. -/
  nonSeq : Bool
  /-- `reset`. -/
  reset : Bool
  deriving DecidableEq, Repr

/-- The end of a zone. -/
def ZbcZone.stop (z : ZbcZone) : ℕ := z.start + z.len

/-- `zbc_zone_conv`. -/
def ZbcZone.conv (z : ZbcZone) : Bool := z.type = .conventional

/-- `zbc_zone_imp_open`. -/
def ZbcZone.impOpen (z : ZbcZone) : Bool := z.cond = .impOpen

/-- `zbc_zone_exp_open`. -/
def ZbcZone.expOpen (z : ZbcZone) : Bool := z.cond = .expOpen

/-- `zbc_zone_is_open`. -/
def ZbcZone.isOpen (z : ZbcZone) : Bool := z.impOpen || z.expOpen

/-- `zbc_zone_closed`. -/
def ZbcZone.closed (z : ZbcZone) : Bool := z.cond = .closed

/-- `struct zbc_meta`, without the two counters that nobody uses. -/
structure ZbcMeta where
  /-- `magic`. -/
  magic : ℕ
  /-- `model`. -/
  model : ZbcModel
  /-- `capacity`, in blocks. -/
  capacity : ℕ
  /-- `lba_size`. -/
  lbaSize : ℕ
  /-- `zone_size`, in blocks, a `__u32`. -/
  zoneSize : ℕ
  /-- `nr_zones`. -/
  nrZones : ℕ
  /-- `nr_conv_zones`. -/
  nrConvZones : ℕ
  /-- `nr_open_zones`. -/
  nrOpenZones : ℕ
  deriving DecidableEq, Repr

/-- `struct zbc_dev_config`, as `zbc_parse_config` leaves it. -/
structure ZbcConfig where
  /-- `dev_size`, as 64 bits. -/
  devSize : ℕ
  /-- `need_format`. -/
  needFormat : Bool
  /-- `model`. -/
  model : ZbcModel
  /-- `lba_size`. -/
  lbaSize : ℕ
  /-- `zone_size` is this power of two. -/
  zoneExp : ℕ
  /-- `conv_num`. -/
  convNum : ℕ
  /-- `open_num`. -/
  openNum : ℕ
  devSize_lt : devSize < 2 ^ 64
  /-- `zbc_parse_lba`. -/
  lbaSize_eq : lbaSize = 512 ∨ lbaSize = 4096
  /-- `zbc_parse_zsize`: a multiple of a mebibyte. -/
  zoneExp_mem : 20 ≤ zoneExp ∧ zoneExp < 64
  convNum_lt : convNum < 2 ^ 32
  /-- `zbc_parse_open`. -/
  openNum_mem : 0 < openNum ∧ openNum < 2 ^ 32
  deriving Repr

/-- `struct zbc_dev`, and the descriptors of the zones. -/
structure ZbcDev where
  /-- `meta`. -/
  header : ZbcMeta
  /-- `zones`, of which there are `nr_zones`. -/
  zones : List ZbcZone
  /-- The size of the file. -/
  fileSize : ℕ
  /-- `model`. -/
  model : ZbcModel
  /-- `capacity`. -/
  capacity : ℕ
  /-- `lba_size`. -/
  lbaSize : ℕ
  /-- `zone_size`, in blocks, a `size_t`. -/
  zoneSize : ℕ
  /-- `nr_zones`. -/
  nrZones : ℕ
  /-- `nr_conv_zones`. -/
  nrConvZones : ℕ
  /-- `nr_open_zones`. -/
  nrOpenZones : ℕ
  /-- `nr_imp_open`. -/
  nrImpOpen : ℕ
  /-- `nr_exp_open`. -/
  nrExpOpen : ℕ
  deriving DecidableEq, Repr

/-- What the handler answers when it does not answer `TCMU_STS_OK`. -/
inductive ZbcSense where
  | lbaOutOfRange
  | invalidFieldInCdb
  | insufficientZoneResources
  | internalTargetFailure
  | writeBoundaryViolation
  | unalignedWriteCommand
  | writeError
  deriving DecidableEq, Repr

/-- The sense key and the additional sense code. -/
def ZbcSense.code : ZbcSense → ℕ × ℕ
  | .lbaOutOfRange => (0x05, 0x2100)
  | .invalidFieldInCdb => (0x05, 0x2400)
  | .insufficientZoneResources => (0x07, 0x550e)
  | .internalTargetFailure => (0x04, 0x4400)
  | .writeBoundaryViolation => (0x05, 0x2105)
  | .unalignedWriteCommand => (0x05, 0x2104)
  | .writeError => (0x03, 0x0c00)

/-- A device after a command, and what the command is answered. -/
abbrev ZbcAnswer := ZbcDev × Option ZbcSense

/-! ### Zones -/

/-- Change the descriptor of a zone. -/
def ZbcDev.update (s : ZbcDev) (i : ℕ) (f : ZbcZone → ZbcZone) : ZbcDev :=
  { s with zones := s.zones.modify i f }

/-- `for (i = 0; i < zdev->nr_zones; i++)`. -/
def ZbcDev.forZones (s : ZbcDev) (f : ZbcDev → ℕ → ZbcDev) : ZbcDev :=
  (List.range s.nrZones).foldl f s

/-- `nr_imp_open--`. -/
def ZbcDev.decImpOpen (s : ZbcDev) : ZbcDev :=
  { s with nrImpOpen := (s.nrImpOpen + 2 ^ 32 - 1) % 2 ^ 32 }

/-- `nr_exp_open--`. -/
def ZbcDev.decExpOpen (s : ZbcDev) : ZbcDev :=
  { s with nrExpOpen := (s.nrExpOpen + 2 ^ 32 - 1) % 2 ^ 32 }

/-- `nr_imp_open++`. -/
def ZbcDev.incImpOpen (s : ZbcDev) : ZbcDev := { s with nrImpOpen := (s.nrImpOpen + 1) % 2 ^ 32 }

/-- `nr_exp_open++`. -/
def ZbcDev.incExpOpen (s : ZbcDev) : ZbcDev := { s with nrExpOpen := (s.nrExpOpen + 1) % 2 ^ 32 }

/-- A zone in a condition. -/
def ZbcZone.withCond (cond : ZoneCond) (z : ZbcZone) : ZbcZone := { z with cond := cond }

/-- A zone that has been open and is closed. -/
def ZbcZone.shut (z : ZbcZone) : ZbcZone :=
  z.withCond (if z.wp = z.start then .empty else .closed)

/-- A zone that is finished. -/
def ZbcZone.finished (z : ZbcZone) : ZbcZone :=
  { z with wp := z.stop, cond := .full, nonSeq := false, reset := false }

/-- A zone that is reset. -/
def ZbcZone.cleared (z : ZbcZone) : ZbcZone :=
  { z with wp := z.start, cond := .empty, nonSeq := false, reset := false }

/-- `__zbc_close_zone`, for the zone with the given index. -/
def ZbcDev.closeZoneAt (s : ZbcDev) (i : ℕ) : ZbcDev :=
  match s.zones[i]? with
  | none => s
  | some z =>
    if z.conv then s
    else if !z.isOpen then s
    else (if z.impOpen then s.decImpOpen else s.decExpOpen).update i ZbcZone.shut

/-- `__zbc_close_imp_open_zone`. -/
def ZbcDev.closeImpOpenZone (s : ZbcDev) : ZbcDev :=
  match s.zones.findIdx? ZbcZone.impOpen with
  | none => s
  | some i => s.closeZoneAt i

/-- Close an implicitly open zone if no more zones can be open. -/
def ZbcDev.makeRoom (s : ZbcDev) : ZbcDev :=
  if s.nrImpOpen + s.nrExpOpen ≥ s.nrOpenZones then s.closeImpOpenZone else s

/-- `__zbc_open_zone`. -/
def ZbcDev.openZoneAt (s : ZbcDev) (i : ℕ) (explicit : Bool) : ZbcDev :=
  if s.zones[i]?.any fun z => (explicit && z.expOpen) || (!explicit && z.impOpen) then s
  else if explicit then (s.makeRoom.update i (ZbcZone.withCond .expOpen)).incExpOpen
  else (s.makeRoom.update i (ZbcZone.withCond .impOpen)).incImpOpen

/-- `__zbc_finish_zone`. -/
def ZbcDev.finishZoneAt (s : ZbcDev) (empty : Bool) (i : ℕ) : ZbcDev :=
  match s.zones[i]? with
  | none => s
  | some z =>
    if z.conv then s
    else if z.closed || z.isOpen || (empty && z.cond = .empty) then
      (s.closeZoneAt i).update i ZbcZone.finished
    else s

/-- `__zbc_reset_wp`. -/
def ZbcDev.resetWpAt (s : ZbcDev) (i : ℕ) : ZbcDev :=
  match s.zones[i]? with
  | none => s
  | some z => if z.conv then s else (s.closeZoneAt i).update i ZbcZone.cleared

/-- `zbc_get_zone`. The number of the zone is kept in an `unsigned int`. -/
def ZbcDev.zbcGetZone (s : ZbcDev) (lba : ℕ) (lowest : Bool) : Option ℕ :=
  let zno := lba / s.zoneSize % 2 ^ 32
  if s.nrZones ≤ zno then none
  else if lowest && s.zones[zno]?.any fun z => lba ≠ z.start then none
  else some zno

/-! ### Zone commands -/

/-- The zone that a command names. -/
def ZbcDev.target (s : ZbcDev) (cdb : Cdb) : Except ZbcSense ℕ :=
  if lbaOf cdb > s.capacity then .error .lbaOutOfRange
  else
    match s.zbcGetZone (lbaOf cdb) true with
    | none => .error .invalidFieldInCdb
    | some i => if s.zones[i]?.all ZbcZone.conv then .error .invalidFieldInCdb else .ok i

/-- `cdb[14] & 0x01`. -/
def cdbAll (cdb : Cdb) : Bool := byteAt cdb 14 % 2 = 1

/-- One turn of the loop of `zbc_open_zone` over all zones. -/
def ZbcDev.openIfClosed (s : ZbcDev) (i : ℕ) : ZbcDev :=
  if s.zones[i]?.any ZbcZone.closed then s.openZoneAt i true else s

/-- `zbc_open_zone`. -/
def ZbcDev.zbcOpenZone (s : ZbcDev) (cdb : Cdb) : ZbcAnswer :=
  if cdbAll cdb then
    if s.nrExpOpen + s.zones.countP ZbcZone.closed > s.nrOpenZones then
      (s, some .insufficientZoneResources)
    else (s.forZones ZbcDev.openIfClosed, none)
  else
    match s.target cdb with
    | .error sense => (s, some sense)
    | .ok i =>
      if s.zones[i]?.any fun z => z.expOpen || z.cond = .full then (s, none)
      else if s.nrExpOpen + 1 > s.nrOpenZones then (s, some .insufficientZoneResources)
      else
        let s := if s.zones[i]?.any ZbcZone.impOpen then s.closeZoneAt i else s
        (s.openZoneAt i true, none)

/-- A command that does the same to one zone or to all of them. -/
def ZbcDev.eachZone (s : ZbcDev) (cdb : Cdb) (all one : ZbcDev → ℕ → ZbcDev) : ZbcAnswer :=
  if cdbAll cdb then (s.forZones all, none)
  else
    match s.target cdb with
    | .error sense => (s, some sense)
    | .ok i => (one s i, none)

/-- `zbc_close_zone`. -/
def ZbcDev.zbcCloseZone (s : ZbcDev) (cdb : Cdb) : ZbcAnswer :=
  s.eachZone cdb ZbcDev.closeZoneAt ZbcDev.closeZoneAt

/-- `zbc_finish_zone`. -/
def ZbcDev.zbcFinishZone (s : ZbcDev) (cdb : Cdb) : ZbcAnswer :=
  s.eachZone cdb (fun s => s.finishZoneAt false) fun s => s.finishZoneAt true

/-- `zbc_reset_wp`. -/
def ZbcDev.zbcResetWp (s : ZbcDev) (cdb : Cdb) : ZbcAnswer :=
  s.eachZone cdb ZbcDev.resetWpAt ZbcDev.resetWpAt

/-- `zbc_out`. -/
def ZbcDev.zbcOut (s : ZbcDev) (cdb : Cdb) : ZbcAnswer :=
  match byteAt cdb 1 with
  | 0x01 => s.zbcCloseZone cdb
  | 0x02 => s.zbcFinishZone cdb
  | 0x03 => s.zbcOpenZone cdb
  | 0x04 => s.zbcResetWp cdb
  | _ => (s, some .invalidFieldInCdb)

/-! ### Writing -/

/-- `zbc_check_rdwr`, for entries of the given lengths in the scatter list. -/
def ZbcDev.zbcCheckRdwr (s : ZbcDev) (cdb : Cdb) (iov : List ℕ) : Option ZbcSense :=
  if iov.sum % 2 ^ 64 ≠ xferLengthOf cdb * s.lbaSize then some .internalTargetFailure
  else if (lbaOf cdb + xferLengthOf cdb) % 2 ^ 64 > s.capacity ∨
      (lbaOf cdb + xferLengthOf cdb) % 2 ^ 64 < lbaOf cdb then some .lbaOutOfRange
  else none

/-- `zbc_write_check_zones`, for up to `n` zones. All of them must be of the type of the first. -/
def ZbcDev.zbcWriteCheckZones (s : ZbcDev) :
    ℕ → ℕ → ℕ → Option ZoneType → Option (Option ZbcSense)
  | 0, _, _, _ => none
  | n + 1, nrLbas, lba, zoneType =>
    if nrLbas = 0 then some none
    else
      match (s.zbcGetZone lba false).bind fun i => s.zones[i]? with
      | none => some (some .internalTargetFailure)
      | some z =>
        if z.type ≠ zoneType.getD z.type ∨ (z.type = .seqwriteReq ∧ lba + nrLbas > z.stop) then
          some (some .writeBoundaryViolation)
        else if z.type = .seqwriteReq ∧ lba ≠ z.wp then
          if z.cond = .full then some (some .invalidFieldInCdb)
          else some (some .unalignedWriteCommand)
        else
          let count := if lba + nrLbas > z.stop then (z.stop + 2 ^ 64 - lba) % 2 ^ 64 else nrLbas
          s.zbcWriteCheckZones n ((nrLbas + 2 ^ 64 - count) % 2 ^ 64) ((lba + count) % 2 ^ 64)
            (some (zoneType.getD z.type))

/-- The first part of a turn of the loop of `zbc_write`: the zone is opened if it is not open. -/
def ZbcDev.writeStart (s : ZbcDev) (i lba nrLbas : ℕ) : Except ZbcSense ZbcDev :=
  if s.zones[i]?.any fun z => lba + nrLbas > z.stop then .error .writeBoundaryViolation
  else if s.zones[i]?.any fun z => !z.conv && !z.isOpen then
    if s.nrExpOpen ≥ s.nrOpenZones then .error .insufficientZoneResources
    else .ok (s.openZoneAt i false)
  else .ok s

/-- The write pointer when `count` blocks have been written from `lba` on. -/
def ZbcZone.advance (z : ZbcZone) (lba count : ℕ) : ℕ :=
  match z.type with
  | .conventional => z.wp
  | .seqwriteReq => z.wp + count
  | .seqwritePref => if lba + count ≥ z.wp then lba + count else z.wp

/-- A zone in which `count` blocks have been written from `lba` on. -/
def ZbcZone.written (lba count : ℕ) (z : ZbcZone) : ZbcZone := { z with wp := z.advance lba count }

/-- A zone that has been written up to its end. -/
def ZbcZone.filled (z : ZbcZone) : ZbcZone := { z with wp := z.stop, cond := .full }

/-- The last part of a turn: the write pointer is adjusted, and a zone that is written up to its end
becomes full. -/
def ZbcDev.writeAdvance (s : ZbcDev) (i lba count : ℕ) : ZbcDev :=
  let s := s.update i (ZbcZone.written lba count)
  if s.zones[i]?.any fun z => !z.conv && z.wp ≥ z.stop then
    (s.closeZoneAt i).update i ZbcZone.filled
  else s

/-- The number of bytes that a turn hands to `pwrite`, if `len` bytes of the first entry of the
scatter list are left. -/
def ZbcDev.request (s : ZbcDev) (nrLbas len : ℕ) : ℕ := min nrLbas (len / s.lbaSize) * s.lbaSize

/-- A turn of the loop of `zbc_write` up to `pwrite`: the loop has come to an end, or the zone with
an index is open. -/
def ZbcDev.writeTurn (s : ZbcDev) (lba nrLbas : ℕ) : Option (ZbcAnswer ⊕ ZbcDev × ℕ) :=
  if nrLbas = 0 then some (.inl (s, none))
  else
    match s.zbcGetZone lba false with
    | none => none
    | some i =>
      match s.writeStart i lba nrLbas with
      | .error sense => some (.inl (s, some sense))
      | .ok s => some (.inr (s, i))

/-- The loop of `zbc_write`, where `rets` is what `pwrite` returns, turn by turn; it fails when
nothing is left in the list. The loop never goes on to the second entry of the scatter list. -/
def ZbcDev.zbcWriteLoop : ZbcDev → ℕ → ℕ → ℕ → List ℤ → Option ZbcAnswer
  | s, lba, nrLbas, _, [] =>
    match s.writeTurn lba nrLbas with
    | none => none
    | some (.inl answer) => some answer
    | some (.inr (s, _)) => some (s, some .writeError)
  | s, lba, nrLbas, len, r :: rets =>
    match s.writeTurn lba nrLbas with
    | none => none
    | some (.inl answer) => some answer
    | some (.inr (s, i)) =>
      let ret := min r (s.request nrLbas len)
      if ret ≤ 0 then some (s, some .writeError)
      else
        let count := ret.toNat / s.lbaSize
        (s.writeAdvance i lba count).zbcWriteLoop (lba + count) (nrLbas - count)
          (len - ret.toNat) rets

/-- `zbc_write`. -/
def ZbcDev.zbcWrite (s : ZbcDev) (cdb : Cdb) (iov : List ℕ) (rets : List ℤ) : Option ZbcAnswer :=
  match s.zbcCheckRdwr cdb iov with
  | some sense => some (s, some sense)
  | none => do
    match ← s.zbcWriteCheckZones (xferLengthOf cdb + s.nrZones + 2) (xferLengthOf cdb) (lbaOf cdb)
        none with
    | some sense => some (s, some sense)
    | none => s.zbcWriteLoop (lbaOf cdb) (xferLengthOf cdb) (iov.headD 0) rets

/-! ### Metadata -/

/-- `ZBC_MAGIC`. -/
def zbcMagic : ℕ := 0x555a4243

/-- `zbc_meta_size_aligned`, with pages of 4096 bytes. -/
def zbcMetaSizeAligned (nrZones : ℕ) : ℕ :=
  let metaSize := 48 + nrZones * 64
  let pgSize := 4096 - 1
  (metaSize + pgSize - 1) - ((metaSize + pgSize - 1) &&& (pgSize - 1))

/-- A zone of `zbc_format_meta`, with index `i`, from block `lba` on. -/
def formatZone (header : ZbcMeta) (i lba : ℕ) : ZbcZone :=
  let len := if lba + header.zoneSize > header.capacity then header.capacity - lba
    else header.zoneSize
  if i < header.nrConvZones then
    ⟨lba, len, 2 ^ 64 - 1, .conventional, .notWp, false, false⟩
  else
    ⟨lba, len, lba, if header.model = .ha then .seqwritePref else .seqwriteReq, .empty, false,
      false⟩

/-- The loop of `zbc_format_meta`, for `n` zones. -/
def formatZones (header : ZbcMeta) : ℕ → ℕ → ℕ → List ZbcZone
  | 0, _, _ => []
  | n + 1, i, lba =>
    let zone := formatZone header i lba
    zone :: formatZones header n (i + 1) (lba + zone.len)

/-- `capacity`, in `zbc_format_meta`. -/
def ZbcConfig.capacity (cfg : ZbcConfig) : ℕ := cfg.devSize / cfg.lbaSize

/-- `zone_size`, in blocks. -/
def ZbcConfig.zoneSize (cfg : ZbcConfig) : ℕ := 2 ^ cfg.zoneExp / cfg.lbaSize

/-- The number of zones, before it is kept in an `unsigned int`. -/
def ZbcConfig.zoneCount (cfg : ZbcConfig) : ℕ :=
  (cfg.capacity + cfg.zoneSize - 1) / cfg.zoneSize

/-- `nr_zones`. -/
def ZbcConfig.nrZones (cfg : ZbcConfig) : ℕ := cfg.zoneCount % 2 ^ 32

/-- `nr_conv_zones`. -/
def ZbcConfig.nrConvZones (cfg : ZbcConfig) : ℕ :=
  if cfg.convNum = 2 ^ 32 - 1 then if cfg.nrZones / 100 = 0 then 1 else cfg.nrZones / 100
  else cfg.convNum

/-- `nr_open_zones`. -/
def ZbcConfig.nrOpenZones (cfg : ZbcConfig) : ℕ :=
  let nrSeqZones := (cfg.nrZones + 2 ^ 32 - cfg.nrConvZones) % 2 ^ 32
  if cfg.openNum ≥ nrSeqZones / 2 then if nrSeqZones / 2 = 0 then 1 else nrSeqZones / 2
  else cfg.openNum

/-- The header that `zbc_format_meta` writes. -/
def ZbcConfig.header (cfg : ZbcConfig) : ZbcMeta :=
  { magic := zbcMagic
    model := cfg.model
    capacity := cfg.capacity
    lbaSize := cfg.lbaSize
    zoneSize := cfg.zoneSize % 2 ^ 32
    nrZones := cfg.nrZones
    nrConvZones := cfg.nrConvZones
    nrOpenZones := cfg.nrOpenZones }

/-- `zbc_format_meta`. It fails if there are too many conventional zones. -/
def zbcFormatMeta (cfg : ZbcConfig) : Option ZbcDev :=
  if cfg.convNum ≠ 2 ^ 32 - 1 ∧ cfg.nrConvZones ≥ cfg.nrZones then none
  else some
    { header := cfg.header
      zones := formatZones cfg.header cfg.nrZones 0 0
      fileSize := (zbcMetaSizeAligned cfg.nrZones + cfg.devSize) % 2 ^ 64
      model := cfg.model
      capacity := cfg.capacity
      lbaSize := cfg.lbaSize
      zoneSize := cfg.zoneSize
      nrZones := cfg.nrZones
      nrConvZones := cfg.nrConvZones
      nrOpenZones := cfg.nrOpenZones
      nrImpOpen := 0
      nrExpOpen := 0 }

/-- `zbc_check_zone`. -/
def zbcCheckZone (header : ZbcMeta) (z : ZbcZone) : Bool :=
  !(z.type = .seqwritePref ∧ header.model ≠ .ha) ∧ !(z.type = .seqwriteReq ∧ header.model ≠ .hm) ∧
    !(z.conv ∧ z.cond ≠ .notWp) ∧ !(z.start % header.zoneSize ≠ 0 ∨ z.len > header.zoneSize)

/-- `zbc_check_meta`, for a file with the header, the zones and the size of the device. -/
def zbcCheckMeta (cfg : ZbcConfig) (s : ZbcDev) : Bool :=
  let header := s.header
  let nrZones := (header.capacity + header.zoneSize - 1) / header.zoneSize % 2 ^ 32
  header.magic = zbcMagic ∧ (header.lbaSize = 512 ∨ header.lbaSize = 4096) ∧
    header.capacity * header.lbaSize % 2 ^ 64 = cfg.devSize ∧
    header.zoneSize ≠ 0 ∧ header.zoneSize &&& (header.zoneSize - 1) = 0 ∧
    header.nrZones = nrZones ∧ header.nrConvZones < nrZones ∧ header.nrOpenZones ≤ nrZones ∧
    s.fileSize = (zbcMetaSizeAligned nrZones + cfg.devSize) % 2 ^ 64 ∧
    s.zones.all (zbcCheckZone header)

/-- The end of `zbc_check_meta`: the parameters are taken from the header. -/
def ZbcDev.takeParams (s : ZbcDev) : ZbcDev :=
  { s with
    model := s.header.model
    capacity := s.header.capacity
    lbaSize := s.header.lbaSize
    zoneSize := s.header.zoneSize
    nrZones := s.header.nrZones
    nrConvZones := s.header.nrConvZones
    nrOpenZones := s.header.nrOpenZones
    nrImpOpen := 0
    nrExpOpen := 0 }

/-- `zbc_init_meta`, for a file whose metadata have passed `zbc_check_meta`. -/
def zbcInitMeta (s : ZbcDev) : ZbcDev :=
  { s.takeParams.forZones ZbcDev.closeZoneAt with nrImpOpen := 0, nrExpOpen := 0 }

/-- `zbc_open_backstore`, for a file with the metadata of the device. -/
def zbcOpenBackstore (cfg : ZbcConfig) (s : ZbcDev) : Option ZbcDev :=
  if cfg.needFormat ∨ zbcCheckMeta cfg s = false then zbcFormatMeta cfg else some (zbcInitMeta s)

/-! ### Runs -/

/-- What happens to a device. -/
inductive ZbcEvent where
  /-- `zbc_out`. -/
  | out (cdb : Cdb)
  /-- `zbc_write`, with entries of the given lengths in the scatter list. -/
  | write (cdb : Cdb) (iov : List ℕ) (rets : List ℤ)
  /-- The device is closed, and opened again with a configuration. -/
  | reopen (cfg : ZbcConfig)
  deriving Repr

/-- The steps. -/
def ZbcDev.step (s : ZbcDev) : ZbcEvent → Option ZbcDev
  | .out cdb => some (s.zbcOut cdb).1
  | .write cdb iov rets => (s.zbcWrite cdb iov rets).map Prod.fst
  | .reopen cfg => zbcOpenBackstore cfg s

end Tcmu

end LioProject
