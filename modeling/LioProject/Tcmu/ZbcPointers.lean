import LioProject.Lib.Run
import LioProject.Tcmu.ZbcAccounts

/-!
# Write pointers

Zones have a condition and a write pointer, and they should fit (`ZbcZone.PointerOk`). The zone
commands set both together. A write opens its zone first, then it calls `pwrite`, and only then it
moves the write pointer and sees whether the zone is full. If `pwrite` fails, the zone stays open.
In a host-aware device the zone may have been full before: then it is open, with its write pointer
at the end.

Zones also have to have a length. The size of a zone is kept in 32 bits in the metadata, so that a
zone of 2^32 blocks or more is formatted with no blocks at all; it is empty and has its write
pointer at the end.

Other than that, condition and pointer always fit (`pointers_fit_iff`).
-/

namespace LioProject

namespace Tcmu

/-! ### Zones -/

/-- The write pointer of a zone fits its condition. -/
structure ZbcZone.PointerOk (z : ZbcZone) : Prop where
  conv : z.conv = true → z.cond = .notWp
  bounds : z.conv = false → z.start ≤ z.wp ∧ z.wp ≤ z.stop
  empty : z.conv = false → z.cond = .empty → z.wp = z.start
  full : z.conv = false → (z.cond = .full ↔ z.wp = z.stop)
  closed : z.conv = false → z.cond = .closed → z.start < z.wp ∧ z.wp < z.stop

/-- What is kept of a zone. -/
structure ZbcZone.Sound (z : ZbcZone) : Prop extends z.PointerOk where
  /-- There is something to write. -/
  long : z.conv = false → z.start < z.stop

section Sound

variable {z : ZbcZone}

/-- A sequential zone. -/
theorem sound_of_seq (hconv : z.conv = false) (hlong : z.start < z.stop)
    (hbounds : z.start ≤ z.wp ∧ z.wp ≤ z.stop) (hempty : z.cond = .empty → z.wp = z.start)
    (hfull : z.cond = .full ↔ z.wp = z.stop)
    (hclosed : z.cond = .closed → z.start < z.wp ∧ z.wp < z.stop) : z.Sound where
  conv h := absurd (hconv.symm.trans h) (by decide)
  bounds _ := hbounds
  empty _ := hempty
  full _ := hfull
  closed _ := hclosed
  long _ := hlong

theorem sound_of_conv (hconv : z.conv = true) (hcond : z.cond = .notWp) : z.Sound where
  conv _ := hcond
  bounds h := absurd (hconv.symm.trans h) (by decide)
  empty h := absurd (hconv.symm.trans h) (by decide)
  full h := absurd (hconv.symm.trans h) (by decide)
  closed h := absurd (hconv.symm.trans h) (by decide)
  long h := absurd (hconv.symm.trans h) (by decide)

theorem ZbcZone.Sound.lt_stop (h : z.Sound) (hconv : z.conv = false) (hfull : z.cond ≠ .full) :
    z.wp < z.stop :=
  lt_of_le_of_ne (h.bounds hconv).2 fun heq => hfull ((h.full hconv).mpr heq)

theorem cond_of_isOpen (hopen : z.isOpen = true) : z.cond = .impOpen ∨ z.cond = .expOpen := by
  rw [ZbcZone.isOpen, Bool.or_eq_true] at hopen
  exact hopen.imp of_decide_eq_true of_decide_eq_true

/-- A zone that is open, with its write pointer in front of the end. -/
theorem sound_of_open (hconv : z.conv = false) (hopen : z.isOpen = true)
    (hstart : z.start ≤ z.wp) (hstop : z.wp < z.stop) : z.Sound := by
  have hcond : z.cond ≠ .empty ∧ z.cond ≠ .full ∧ z.cond ≠ .closed := by
    rcases cond_of_isOpen hopen with h | h
    · rw [h]
      exact ⟨nofun, nofun, nofun⟩
    · rw [h]
      exact ⟨nofun, nofun, nofun⟩
  exact sound_of_seq hconv (hstart.trans_lt hstop) ⟨hstart, hstop.le⟩
    (fun h => absurd h hcond.1) ⟨fun h => absurd h hcond.2.1, fun h => absurd h hstop.ne⟩
    fun h => absurd h hcond.2.2

theorem ZbcZone.Sound.shut (h : z.Sound) (hconv : z.conv = false) (hopen : z.isOpen = true) :
    z.shut.Sound := by
  have hlong := h.long hconv
  have hbounds := h.bounds hconv
  have hfull : z.cond ≠ .full := by
    intro hc
    rcases cond_of_isOpen hopen with h | h
    · cases hc.symm.trans h
    · cases hc.symm.trans h
  have hlt := h.lt_stop hconv hfull
  rw [ZbcZone.shut]
  by_cases hwp : z.wp = z.start
  · rw [if_pos hwp]
    refine sound_of_seq hconv hlong hbounds (fun _ => hwp)
      ⟨fun hc => ?_, fun h => absurd h hlt.ne⟩ fun hc => ?_
    · cases hc
    · cases hc
  · rw [if_neg hwp]
    refine sound_of_seq hconv hlong hbounds (fun hc => ?_)
      ⟨fun hc => ?_, fun h => absurd h hlt.ne⟩
      fun _ => ⟨lt_of_le_of_ne hbounds.1 (Ne.symm hwp), hlt⟩
    · cases hc
    · cases hc

theorem ZbcZone.Sound.closedUp (h : z.Sound) : z.closedUp.Sound := by
  rw [ZbcZone.closedUp]
  split
  · rename_i hopen
    exact h.shut hopen.1 hopen.2
  · exact h

theorem sound_finished (hconv : z.conv = false) (hlong : z.start < z.stop) : z.finished.Sound :=
  sound_of_seq hconv hlong ⟨hlong.le, le_rfl⟩ nofun ⟨fun _ => rfl, fun _ => rfl⟩ nofun

theorem sound_filled (hconv : z.conv = false) (hlong : z.start < z.stop) : z.filled.Sound :=
  sound_of_seq hconv hlong ⟨hlong.le, le_rfl⟩ nofun ⟨fun _ => rfl, fun _ => rfl⟩ nofun

theorem sound_cleared (hconv : z.conv = false) (hlong : z.start < z.stop) : z.cleared.Sound :=
  sound_of_seq hconv hlong ⟨le_rfl, hlong.le⟩ (fun _ => rfl) ⟨nofun, fun h => absurd h hlong.ne⟩
    nofun

theorem ZbcZone.Sound.opened (h : z.Sound) (hconv : z.conv = false) (hfull : z.cond ≠ .full)
    (explicit : Bool) : (z.withCond (if explicit then .expOpen else .impOpen)).Sound := by
  refine sound_of_open hconv ?_ (h.bounds hconv).1 (h.lt_stop hconv hfull)
  cases explicit <;> rfl

/-- The write pointer moves forward, but not further than the blocks that have been written. -/
theorem advance_bounds {lba : ℕ} (count : ℕ) (hconv : z.conv = false)
    (hreq : z.type = .seqwriteReq → lba = z.wp) :
    z.wp ≤ z.advance lba count ∧ lba + count ≤ z.advance lba count ∧
      (z.advance lba count = z.wp ∨ z.advance lba count = lba + count) := by
  rw [ZbcZone.advance]
  cases htype : z.type with
  | conventional =>
    rw [ZbcZone.conv, htype] at hconv
    cases hconv
  | seqwriteReq =>
    obtain rfl := hreq htype
    exact ⟨Nat.le_add_right _ _, le_rfl, Or.inr rfl⟩
  | seqwritePref =>
    dsimp only
    split
    · rename_i hle
      exact ⟨hle, le_rfl, Or.inr rfl⟩
    · rename_i hlt
      exact ⟨le_rfl, (not_le.mp hlt).le, Or.inl rfl⟩

/-- A zone that is open, after blocks have been written to it. -/
theorem sound_advance {lba count : ℕ} (hconv : z.conv = false) (hopen : z.isOpen = true)
    (hlong : z.start < z.stop) (hstart : z.start ≤ z.wp)
    (hreq : z.type = .seqwriteReq → lba = z.wp) :
    (if z.conv = false ∧ z.stop ≤ z.advance lba count then z.filled
      else z.written lba count).Sound := by
  split
  · exact sound_filled hconv hlong
  · rename_i hlt
    have hlt : z.advance lba count < z.stop := by
      by_contra hle
      exact hlt ⟨hconv, not_lt.mp hle⟩
    obtain ⟨hge, -, -⟩ := advance_bounds count hconv hreq
    exact sound_of_open (z := z.written lba count) hconv hopen (hstart.trans hge) hlt

end Sound

/-! ### Devices -/

/-- The zones are sound. -/
def ZbcDev.AllSound (s : ZbcDev) : Prop :=
  ∀ (i : ℕ) (z : ZbcZone), s.zones[i]? = some z → z.Sound

section AllSound

variable {s : ZbcDev} {i : ℕ} {z : ZbcZone}

theorem ZbcDev.AllSound.closeZoneAt (h : s.AllSound) (i : ℕ) : (s.closeZoneAt i).AllSound := by
  intro j w hw
  rw [getElem?_closeZoneAt] at hw
  split at hw
  · obtain ⟨v, hv, rfl⟩ := Option.map_eq_some_iff.mp hw
    exact (h j v hv).closedUp
  · exact h j w hw

theorem ZbcDev.AllSound.closeZoneAt_update {f : ZbcZone → ZbcZone} (h : s.AllSound)
    (hf : ∀ z, f z.closedUp = f z) (hz : s.zones[i]? = some z) (hsound : (f z).Sound) :
    ((s.closeZoneAt i).update i f).AllSound := by
  intro j w hw
  rw [getElem?_closeZoneAt_update hf] at hw
  split at hw
  · rename_i hji
    rw [hji, hz] at hw
    obtain rfl := Option.some.inj hw
    exact hsound
  · exact h j w hw

theorem ZbcDev.AllSound.makeRoom (h : s.AllSound) : s.makeRoom.AllSound := by
  rcases makeRoom_cases s with ⟨heq, -⟩ | ⟨-, j, -, heq⟩
  · rwa [heq]
  · rw [heq]
    exact h.closeZoneAt j

theorem ZbcDev.AllSound.openZoneAt (h : s.AllSound) (hz : s.zones[i]? = some z)
    (hopen : z.isOpen = false) (hfull : z.cond ≠ .full) (hconv : z.conv = false)
    (explicit : Bool) : (s.openZoneAt i explicit).AllSound := by
  intro j w hw
  rw [getElem?_openZoneAt hz hopen] at hw
  split at hw
  · obtain rfl := Option.some.inj hw
    exact (h i z hz).opened hconv hfull explicit
  · exact h.makeRoom j w hw

theorem allSound_keptByOut : KeptByOut ZbcDev.AllSound fun _ => True where
  close _ i h := h.closeZoneAt i
  finish s empty i h := by
    rcases finishZoneAt_cases s empty i with heq | ⟨z, hz, hconv, heq⟩
    · rwa [heq]
    · rw [heq]
      exact h.closeZoneAt_update finished_closedUp hz
        (sound_finished hconv ((h i z hz).long hconv))
  reset s i h := by
    rcases resetWpAt_cases s i with heq | ⟨z, hz, hconv, heq⟩
    · rwa [heq]
    · rw [heq]
      exact h.closeZoneAt_update cleared_closedUp hz
        (sound_cleared hconv ((h i z hz).long hconv))
  room _ _ := trivial
  openExp _ i z h _ hz hopen hfull hconv := by
    refine h.openZoneAt hz hopen hfull ?_ true
    cases hc : z.conv with
    | false => rfl
    | true =>
      have hclosed := hconv hc
      rw [(h i z hz).conv hc] at hclosed
      cases hclosed

end AllSound

/-- The zones are where they should be, and the header agrees. -/
structure ZbcDev.Layout (s : ZbcDev) : Prop where
  length : s.zones.length = s.nrZones
  header : s.nrZones = s.header.nrZones
  place : ∀ (i : ℕ) (z : ZbcZone), s.zones[i]? = some z →
    z.start = i * s.zoneSize ∧ z.len ≤ s.zoneSize
  /-- The size of a zone is zero in the header if it does not fit in. -/
  size : s.header.zoneSize = s.zoneSize ∨ s.header.zoneSize = 0

section Layout

variable {s t : ZbcDev} {i lba : ℕ} {z : ZbcZone}

theorem zbcGetZone_eq (h : s.zbcGetZone lba false = some i) :
    i = lba / s.zoneSize % 2 ^ 32 ∧ i < s.nrZones := by
  rw [ZbcDev.zbcGetZone] at h
  split at h
  · cases h
  · rename_i hlt
    rw [Bool.false_and, if_neg Bool.false_ne_true, Option.some.injEq] at h
    exact ⟨h.symm, h ▸ Nat.lt_of_not_le hlt⟩

/-- A zone is found from all of its blocks. -/
theorem ZbcDev.Layout.zbcGetZone (h : s.Layout) (hz : s.zones[i]? = some z)
    (hget : s.zbcGetZone lba false = some i) {lba' : ℕ} (hle : lba ≤ lba') (hlt : lba' < z.stop) :
    s.zbcGetZone lba' false = some i := by
  obtain ⟨hi, hnr⟩ := zbcGetZone_eq hget
  obtain ⟨hstart, hlen⟩ := h.place i z hz
  have hstop : lba' < (i + 1) * s.zoneSize := by
    rw [ZbcZone.stop, hstart] at hlt
    rw [Nat.add_mul, Nat.one_mul]
    exact hlt.trans_le (Nat.add_le_add_left hlen _)
  have hdiv : lba' / s.zoneSize < i + 1 := Nat.div_lt_of_lt_mul (by rwa [Nat.mul_comm])
  have hmono : lba / s.zoneSize ≤ lba' / s.zoneSize := Nat.div_le_div_right hle
  have hmod := Nat.mod_le (lba / s.zoneSize) (2 ^ 32)
  have hlt32 : i < 2 ^ 32 := hi ▸ Nat.mod_lt _ (by norm_num)
  have heq : lba' / s.zoneSize = i := by omega
  rw [ZbcDev.zbcGetZone, heq, Nat.mod_eq_of_lt hlt32, if_neg (Nat.not_le.mpr hnr), Bool.false_and,
    if_neg Bool.false_ne_true]

theorem ZbcDev.Layout.of_fixed (h : s.Layout) (hfixed : t.fixed = s.fixed) : t.Layout := by
  have hsize := zoneSize_of_fixed hfixed
  have hheader := header_of_fixed hfixed
  have hnr := nrZones_of_fixed hfixed
  refine ⟨?_, ?_, fun i w hw => ?_, ?_⟩
  · rw [length_of_fixed hfixed, hnr, h.length]
  · rw [hnr, hheader, h.header]
  · obtain ⟨z, hz, heq⟩ := getElem?_of_fixed hfixed.symm hw
    obtain ⟨hstart, hlen⟩ := h.place i z hz
    rw [hsize, ← start_of_fixed heq, ← len_of_fixed heq]
    exact ⟨hstart, hlen⟩
  · rw [hsize, hheader]
    exact h.size

theorem zbcGetZone_of_fixed (hfixed : t.fixed = s.fixed) (lba : ℕ) :
    t.zbcGetZone lba false = s.zbcGetZone lba false := by
  rw [ZbcDev.zbcGetZone, ZbcDev.zbcGetZone, zoneSize_of_fixed hfixed, nrZones_of_fixed hfixed]
  rfl

end Layout

/-! ### Writes -/

/-- A `pwrite` fails before everything is written: `nrLbas` blocks are left to write, and `len`
bytes of the buffer. -/
def PwriteFails (lbaSize : ℕ) : ℕ → ℕ → List ℤ → Prop
  | nrLbas, _, [] => nrLbas ≠ 0
  | nrLbas, len, r :: rets => nrLbas ≠ 0 ∧
      (min r (min nrLbas (len / lbaSize) * lbaSize : ℕ) ≤ 0 ∨
        PwriteFails lbaSize
          (nrLbas - (min r (min nrLbas (len / lbaSize) * lbaSize : ℕ)).toNat / lbaSize)
          (len - (min r (min nrLbas (len / lbaSize) * lbaSize : ℕ)).toNat) rets)

instance decidablePwriteFails (lbaSize : ℕ) :
    ∀ nrLbas len rets, Decidable (PwriteFails lbaSize nrLbas len rets)
  | nrLbas, _, [] => inferInstanceAs (Decidable (nrLbas ≠ 0))
  | _, _, _ :: rets =>
    have := fun nrLbas len => decidablePwriteFails lbaSize nrLbas len rets
    inferInstanceAs (Decidable (_ ∧ (_ ∨ _)))

/-- A turn of the loop of `zbc_write` has opened its zone, unless it is conventional. -/
structure Turned (s t : ZbcDev) (lba nrLbas i : ℕ) (z w : ZbcZone) : Prop where
  fixed : t.fixed = s.fixed
  before : s.zones[i]? = some z
  after : t.zones[i]? = some w
  others : ∀ (j : ℕ) (v : ZbcZone), j ≠ i → t.zones[j]? = some v → v.Sound
  get : s.zbcGetZone lba false = some i
  fits : nrLbas ≠ 0 ∧ lba + nrLbas ≤ z.stop
  /-- What becomes of the zone. -/
  zone : (z.conv = true ∧ w = z) ∨
    (z.conv = false ∧ w.isOpen = true ∧ ∃ cond, w = z.withCond cond)
  /-- Whether a zone that is full is opened again. -/
  room : z.conv = false → z.cond = .full → s.nrExpOpen < s.nrOpenZones

section Write

variable {s t : ZbcDev} {lba nrLbas len i : ℕ} {z w : ZbcZone} {rets : List ℤ}

/-- The turn of a zone that is not open. -/
theorem turned_of_openZoneAt (hs : s.AllSound) (hz : s.zones[i]? = some z) (hconv : z.conv = false)
    (hopen : z.isOpen = false) (hroom : s.nrExpOpen < s.nrOpenZones)
    (hget : s.zbcGetZone lba false = some i) (hfits : nrLbas ≠ 0 ∧ lba + nrLbas ≤ z.stop) :
    Turned s (s.openZoneAt i false) lba nrLbas i z (z.withCond .impOpen) := by
  refine ⟨fixed_openZoneAt s i false, hz, ?_, fun j v hj hv => ?_, hget, hfits,
    Or.inr ⟨hconv, rfl, _, rfl⟩, fun _ _ => hroom⟩
  · rw [getElem?_openZoneAt hz hopen, if_pos rfl]
    rfl
  · rw [getElem?_openZoneAt hz hopen, if_neg hj] at hv
    exact hs.makeRoom j v hv

theorem turned_of_writeTurn (hs : s.AllSound) (hlayout : s.Layout)
    (h : s.writeTurn lba nrLbas = some (.inr (t, i))) :
    ∃ z w, Turned s t lba nrLbas i z w ∧ (z.cond ≠ .full → t.AllSound) := by
  obtain ⟨hnr, hget, hstop, hcases⟩ := writeTurn_inr h
  rcases hcases with ⟨z, hz, hconv, hopen, hroom, rfl⟩ | ⟨rfl, hopen⟩
  · exact ⟨z, _, turned_of_openZoneAt hs hz hconv hopen hroom hget ⟨hnr, hstop z hz⟩,
      fun hfull => hs.openZoneAt hz hopen hfull hconv false⟩
  · have hlt : i < t.zones.length := hlayout.length ▸ (zbcGetZone_eq hget).2
    have hz : t.zones[i]? = some t.zones[i] := List.getElem?_eq_getElem hlt
    refine ⟨_, _, ⟨rfl, hz, hz, fun j v _ hv => hs j v hv, hget, ⟨hnr, hstop _ hz⟩, ?_,
      fun hconv hfull => ?_⟩, fun _ => hs⟩
    · cases hc : (t.zones[i]).conv with
      | true => exact Or.inl ⟨rfl, rfl⟩
      | false =>
        exact Or.inr ⟨rfl, (hopen _ hz).resolve_left (by rw [hc]; exact Bool.false_ne_true), _,
          rfl⟩
    · -- A zone that is full is not open.
      rcases hopen _ hz with hc | hc
      · exact absurd (hconv.symm.trans hc) (by decide)
      · rw [ZbcZone.isOpen, ZbcZone.impOpen, ZbcZone.expOpen, hfull] at hc
        cases hc

/-- The loop of `zbc_write` at the start of a turn. -/
structure Writing (s : ZbcDev) (lba nrLbas len : ℕ) (rets : List ℤ) : Prop where
  sound : s.AllSound
  layout : s.Layout
  /-- In a zone that has to be written sequentially the write goes on at the write pointer. -/
  seq : ∀ (i : ℕ) (z : ZbcZone), s.zbcGetZone lba false = some i → s.zones[i]? = some z →
    nrLbas ≠ 0 → lba + nrLbas ≤ z.stop → z.type = .seqwriteReq → lba = z.wp
  /-- If the zone is full, no `pwrite` fails. -/
  full : ∀ (i : ℕ) (z : ZbcZone), s.zbcGetZone lba false = some i → s.zones[i]? = some z →
    lba + nrLbas ≤ z.stop → z.conv = false → z.cond = .full → s.nrExpOpen < s.nrOpenZones →
      ¬ PwriteFails s.lbaSize nrLbas len rets

/-- Blocks have been written to a zone. -/
theorem Turned.advance (h : Turned s t lba nrLbas i z w) (hz : z.Sound)
    (hseq : z.type = .seqwriteReq → lba = z.wp) (count : ℕ) :
    (t.writeAdvance i lba count).AllSound := by
  intro j v hv
  rw [getElem?_writeAdvance _ _ h.after] at hv
  split at hv
  · obtain rfl := Option.some.inj hv
    rcases h.zone with ⟨hconv, rfl⟩ | ⟨hconv, hopen, cond, rfl⟩
    · rw [if_neg fun hc => absurd (hc.1.symm.trans hconv) (by decide)]
      exact sound_of_conv (z := w.written lba count) hconv (hz.conv hconv)
    · exact sound_advance (z := z.withCond cond) hconv hopen (hz.long hconv) (hz.bounds hconv).1
        hseq
  · rename_i hji
    exact h.others j v hji hv

theorem pwriteFails_cons {lbaSize nrLbas len : ℕ} {r ret : ℤ} {rets : List ℤ}
    (hret : ret = min r (min nrLbas (len / lbaSize) * lbaSize : ℕ)) :
    PwriteFails lbaSize nrLbas len (r :: rets) ↔ nrLbas ≠ 0 ∧ (ret ≤ 0 ∨
      PwriteFails lbaSize (nrLbas - ret.toNat / lbaSize) (len - ret.toNat) rets) := by
  rw [PwriteFails, hret]

theorem not_pwriteFails_zero (lbaSize len : ℕ) (rets : List ℤ) :
    ¬ PwriteFails lbaSize 0 len rets := by
  cases rets with
  | nil => exact fun h => h rfl
  | cons r rets => exact fun h => h.1 rfl

theorem request_of_fixed (hfixed : t.fixed = s.fixed) (nrLbas len : ℕ) :
    t.request nrLbas len = min nrLbas (len / s.lbaSize) * s.lbaSize := by
  rw [ZbcDev.request, lbaSize_of_fixed hfixed]

/-- Where the next turn begins. -/
theorem Turned.next (h : Turned s t lba nrLbas i z w) (hlayout : s.Layout) {count j : ℕ}
    {v : ZbcZone} (hnr : nrLbas - count ≠ 0)
    (hget : (t.writeAdvance i lba count).zbcGetZone (lba + count) false = some j)
    (hv : (t.writeAdvance i lba count).zones[j]? = some v) :
    lba + count < z.stop ∧
      v = if w.conv = false ∧ w.stop ≤ w.advance lba count then w.filled
        else w.written lba count := by
  have hfits := h.fits.2
  have hlt : lba + count < z.stop := by omega
  rw [zbcGetZone_of_fixed ((fixed_writeAdvance t i lba count).trans h.fixed),
    hlayout.zbcGetZone h.before h.get (Nat.le_add_right lba count) hlt, Option.some.injEq] at hget
  rw [← hget, getElem?_writeAdvance _ _ h.after, if_pos rfl, Option.some.injEq] at hv
  exact ⟨hlt, hv.symm⟩

/-- **A turn** of the loop that ends well. -/
theorem Writing.next {r ret : ℤ} (h : Writing s lba nrLbas len (r :: rets))
    (hturn : Turned s t lba nrLbas i z w) (hret : ret = min r (t.request nrLbas len)) :
    Writing (t.writeAdvance i lba (ret.toNat / t.lbaSize)) (lba + ret.toNat / t.lbaSize)
      (nrLbas - ret.toNat / t.lbaSize) (len - ret.toNat) rets := by
  have hz := h.sound i z hturn.before
  have hseq : z.type = .seqwriteReq → lba = z.wp :=
    h.seq i z hturn.get hturn.before hturn.fits.1 hturn.fits.2
  have hfixed := (fixed_writeAdvance t i lba (ret.toNat / t.lbaSize)).trans hturn.fixed
  refine ⟨hturn.advance hz hseq _, h.layout.of_fixed hfixed, ?_, ?_⟩
  · intro j v hget hv hnr _ htype
    obtain ⟨hlt, rfl⟩ := hturn.next h.layout hnr hget hv
    rcases hturn.zone with ⟨hconv, rfl⟩ | ⟨hconv, -, cond, rfl⟩
    · rw [if_neg fun hc => absurd (hc.1.symm.trans hconv) (by decide)] at htype
      have hc : w.type = .conventional := of_decide_eq_true hconv
      exact absurd (hc.symm.trans htype) (by decide)
    · have htype : z.type = .seqwriteReq := by
        split at htype
        · exact htype
        · exact htype
      have hadvance : (z.withCond cond).advance lba (ret.toNat / t.lbaSize) =
          lba + ret.toNat / t.lbaSize := by
        rw [ZbcZone.advance, hseq htype]
        simp only [ZbcZone.withCond, htype]
      rw [if_neg]
      · exact hadvance.symm
      · rw [hadvance]
        exact fun hc => absurd hc.2 (not_le.mpr hlt)
  · intro j v hget hv _ hconv hfull _
    by_cases hnr : nrLbas - ret.toNat / t.lbaSize = 0
    · rw [hnr]
      exact not_pwriteFails_zero _ _ _
    obtain ⟨hlt, rfl⟩ := hturn.next h.layout hnr hget hv
    -- A zone that is full in the middle of a write has been full at its start.
    have hstop : z.conv = false ∧ z.cond = .full := by
      rcases hturn.zone with ⟨hc, rfl⟩ | ⟨hc, hopen, cond, rfl⟩
      · rw [if_neg fun hn => absurd (hn.1.symm.trans hc) (by decide)] at hconv
        exact absurd (hconv.symm.trans hc) (by decide)
      · refine ⟨hc, (hz.full hc).mpr ?_⟩
        split at hfull
        · rename_i hadvance
          have hle : z.stop ≤ (z.withCond cond).advance lba (ret.toNat / t.lbaSize) := hadvance.2
          obtain ⟨-, -, heq | heq⟩ := advance_bounds (z := z.withCond cond)
            (ret.toNat / t.lbaSize) hc hseq
          · rw [heq] at hle
            exact le_antisymm (hz.bounds hc).2 hle
          · rw [heq] at hle
            exact absurd hle (not_le.mpr hlt)
        · rcases cond_of_isOpen hopen with ho | ho
          · exact absurd (hfull.symm.trans ho) (by decide)
          · exact absurd (hfull.symm.trans ho) (by decide)
    have hnot := h.full i z hturn.get hturn.before hturn.fits.2 hstop.1 hstop.2
      (hturn.room hstop.1 hstop.2)
    rw [request_of_fixed hturn.fixed] at hret
    rw [pwriteFails_cons hret] at hnot
    rw [lbaSize_of_fixed hfixed, lbaSize_of_fixed hturn.fixed]
    exact fun hfails => hnot ⟨hturn.fits.1, Or.inr hfails⟩

/-- **The loop of `zbc_write`** leaves sound zones. -/
theorem Writing.sound_of_loop {answer : ZbcAnswer} (h : Writing s lba nrLbas len rets)
    (hloop : s.zbcWriteLoop lba nrLbas len rets = some answer) :
    answer.1.AllSound ∧ answer.1.Layout := by
  refine zbcWriteLoop_rule (I := Writing) (Q := fun s => s.AllSound ∧ s.Layout)
    (fun _ _ _ _ _ h => ⟨h.sound, h.layout⟩) ?_ ?_ _ _ _ _ _ _ h hloop
  · intro s lba nrLbas len rets t i h hturn hret
    obtain ⟨z, w, hturn, hsound⟩ := turned_of_writeTurn h.sound h.layout hturn
    refine ⟨hsound fun hfull => ?_, h.layout.of_fixed hturn.fixed⟩
    have hconv : z.conv = false := by
      cases hc : z.conv with
      | false => rfl
      | true => exact absurd (((h.sound i z hturn.before).conv hc).symm.trans hfull) (by decide)
    refine h.full i z hturn.get hturn.before hturn.fits.2 hconv hfull (hturn.room hconv hfull) ?_
    cases rets with
    | nil => exact hturn.fits.1
    | cons r rets =>
      have hret := hret r rfl
      rw [request_of_fixed hturn.fixed] at hret
      exact (pwriteFails_cons rfl).mpr ⟨hturn.fits.1, Or.inl hret⟩
  · intro s lba nrLbas len r rets t i ret h hturn hret _
    obtain ⟨z, w, hturn, -⟩ := turned_of_writeTurn h.sound h.layout hturn
    exact h.next hturn hret

theorem seq_of_zbcWriteCheckZones {n : ℕ} {zoneType : Option ZoneType}
    (h : s.zbcWriteCheckZones (n + 1) nrLbas lba zoneType = some none) (hnr : nrLbas ≠ 0)
    (hget : s.zbcGetZone lba false = some i) (hz : s.zones[i]? = some z)
    (htype : z.type = .seqwriteReq) : lba = z.wp := by
  by_contra hne
  rw [ZbcDev.zbcWriteCheckZones, if_neg hnr, hget, Option.bind_some, hz] at h
  dsimp only at h
  split at h
  · cases h
  · rw [if_pos ⟨htype, hne⟩] at h
    split at h
    · cases h
    · cases h

/-- A zone that is full is written once more, and a `pwrite` fails. -/
theorem zbcWriteLoop_fails : ∀ {rets : List ℤ} {s : ZbcDev} {lba nrLbas len : ℕ} {z : ZbcZone},
    s.AllSound → s.Layout → s.zbcGetZone lba false = some i → s.zones[i]? = some z →
    z.conv = false → z.cond = .full → z.type ≠ .seqwriteReq → lba + nrLbas ≤ z.stop →
    s.nrExpOpen < s.nrOpenZones → PwriteFails s.lbaSize nrLbas len rets →
    ∃ answer, s.zbcWriteLoop lba nrLbas len rets = some answer ∧
      ∃ w, answer.1.zones[i]? = some w ∧ w.conv = false ∧ w.cond = .impOpen ∧ w.wp = w.stop := by
  intro rets
  induction rets with
  | nil =>
    intro s lba nrLbas len z hs hlayout hget hz hconv hfull htype hstop hroom hfails
    have hnr : nrLbas ≠ 0 := hfails
    have hturned := turned_of_openZoneAt hs hz hconv (full_isOpen hfull) hroom hget ⟨hnr, hstop⟩
    have hturn := writeTurn_eq hnr hget hz hstop hconv (full_isOpen hfull) hroom
    rw [ZbcDev.zbcWriteLoop, hturn]
    exact ⟨_, rfl, _, hturned.after, hconv, rfl, ((hs i z hz).full hconv).mp hfull⟩
  | cons r rets ih =>
    intro s lba nrLbas len z hs hlayout hget hz hconv hfull htype hstop hroom hfails
    have hnr : nrLbas ≠ 0 := hfails.1
    have hwp : z.wp = z.stop := ((hs i z hz).full hconv).mp hfull
    have hturned := turned_of_openZoneAt hs hz hconv (full_isOpen hfull) hroom hget ⟨hnr, hstop⟩
    have hturn := writeTurn_eq hnr hget hz hstop hconv (full_isOpen hfull) hroom
    rw [ZbcDev.zbcWriteLoop, hturn]
    dsimp only
    rw [request_of_fixed hturned.fixed, lbaSize_of_fixed hturned.fixed]
    obtain ⟨ret, hret⟩ : ∃ ret, ret =
        min r ((min nrLbas (len / s.lbaSize) * s.lbaSize : ℕ) : ℤ) := ⟨_, rfl⟩
    rw [pwriteFails_cons hret] at hfails
    rw [← hret]
    split
    · exact ⟨_, rfl, _, hturned.after, hconv, rfl, hwp⟩
    · rename_i hpos
      have hfails := hfails.2.resolve_left hpos
      have hleft : nrLbas - ret.toNat / s.lbaSize ≠ 0 := fun h0 =>
        not_pwriteFails_zero _ _ _ (h0 ▸ hfails)
      have hfixed := (fixed_writeAdvance (s.openZoneAt i false) i lba
        (ret.toNat / s.lbaSize)).trans hturned.fixed
      have hlt : lba + ret.toNat / s.lbaSize < z.stop := by omega
      -- The write pointer stays at the end, and the zone becomes full again.
      have hadvance : z.wp ≤ (z.withCond .impOpen).advance lba (ret.toNat / s.lbaSize) :=
        (advance_bounds (z := z.withCond .impOpen) _ hconv fun h => absurd h htype).1
      have hafter := getElem?_writeAdvance lba (ret.toNat / s.lbaSize) hturned.after i
      rw [if_pos rfl, if_pos ⟨hconv, hwp.symm.le.trans hadvance⟩] at hafter
      refine ih (hturned.advance (hs i z hz) (fun h => absurd h htype) _) (hlayout.of_fixed hfixed)
        ?_ hafter hconv rfl htype ?_ ?_ ?_
      · rw [zbcGetZone_of_fixed hfixed]
        exact hlayout.zbcGetZone hz hget (Nat.le_add_right _ _) hlt
      · have hsame : (z.withCond .impOpen).filled.stop = z.stop := rfl
        rw [hsame]
        omega
      · rw [nrExpOpen_writeAdvance hturned.after rfl,
          nrExpOpen_openZoneAt_imp hz (full_isOpen hfull), nrOpenZones_of_fixed hfixed]
        exact hroom
      · rw [lbaSize_of_fixed hfixed]
        exact hfails

end Write

/-! ### Runs -/

/-- The size of a zone fits into the header, or all zones are conventional. -/
def ZbcConfig.SizeFits (cfg : ZbcConfig) : Prop :=
  cfg.zoneSize < 2 ^ 32 ∨ cfg.nrZones ≤ cfg.nrConvZones

instance (cfg : ZbcConfig) : Decidable cfg.SizeFits := inferInstanceAs (Decidable (_ ∨ _))

/-- The write passes its checks, and its zone is full and will be opened. -/
def ZbcDev.RewritesFull (s : ZbcDev) (cdb : Cdb) (iov : List ℕ) : Prop :=
  s.zbcCheckRdwr cdb iov = none ∧
    s.zbcWriteCheckZones (xferLengthOf cdb + s.nrZones + 2) (xferLengthOf cdb) (lbaOf cdb) none =
      some none ∧
    s.nrExpOpen < s.nrOpenZones ∧
    ∃ i ∈ s.zbcGetZone (lbaOf cdb) false, ∃ z ∈ s.zones[i]?,
      z.conv = false ∧ z.cond = .full ∧ lbaOf cdb + xferLengthOf cdb ≤ z.stop

instance (s : ZbcDev) (cdb : Cdb) (iov : List ℕ) : Decidable (s.RewritesFull cdb iov) :=
  inferInstanceAs (Decidable (_ ∧ _ ∧ _ ∧ _))

/-- No `pwrite` fails while a zone that was full is written, and zones are formatted only with a
size that fits. -/
def ZbcDev.PointersFit (s : ZbcDev) : ZbcEvent → Prop
  | .out _ => True
  | .write cdb iov rets => s.RewritesFull cdb iov →
      ¬ PwriteFails s.lbaSize (xferLengthOf cdb) (iov.headD 0) rets
  | .reopen cfg => cfg.needFormat = true ∨ zbcCheckMeta cfg s = false → cfg.SizeFits

instance (s : ZbcDev) : (e : ZbcEvent) → Decidable (s.PointersFit e)
  | .out _ => isTrue trivial
  | .write _ _ _ => inferInstanceAs (Decidable (_ → ¬ _))
  | .reopen _ => inferInstanceAs (Decidable (_ → _))

section Format

variable {s : ZbcDev} {cfg : ZbcConfig} {i : ℕ} {z : ZbcZone}

theorem lt_nrZones_of_format (h : zbcFormatMeta cfg = some s) (hz : s.zones[i]? = some z) :
    i < cfg.nrZones := by
  obtain ⟨-, -, hzones, -, -⟩ := zbcFormatMeta_eq h
  obtain ⟨hlt, -⟩ := List.getElem?_eq_some_iff.mp hz
  rwa [hzones, length_formatZones] at hlt

/-- If there are conventional zones only, there is at most one zone. -/
theorem nrZones_le_one (h : zbcFormatMeta cfg = some s) (hle : cfg.nrZones ≤ cfg.nrConvZones) :
    cfg.nrZones ≤ 1 := by
  obtain ⟨hconv, -⟩ := zbcFormatMeta_eq h
  by_cases hdefault : cfg.convNum = 2 ^ 32 - 1
  · rw [ZbcConfig.nrConvZones, if_pos hdefault] at hle
    split at hle
    · exact hle
    · omega
  · exact absurd (hconv hdefault) (not_lt.mpr hle)

theorem formatZone_start (header : ZbcMeta) (i lba : ℕ) :
    (formatZone header i lba).start = lba ∧ (formatZone header i lba).len =
      if lba + header.zoneSize > header.capacity then header.capacity - lba
      else header.zoneSize := by
  rw [formatZone]
  split
  · exact ⟨rfl, rfl⟩
  · exact ⟨rfl, rfl⟩

theorem formatZone_wp {header : ZbcMeta} {i : ℕ} (hi : header.nrConvZones ≤ i) (lba : ℕ) :
    (formatZone header i lba).wp = lba := by
  rw [formatZone, if_neg (not_lt.mpr hi)]

theorem layout_zbcFormatMeta (h : zbcFormatMeta cfg = some s) (hsize : cfg.SizeFits) :
    s.Layout := by
  obtain ⟨-, hheader, hzones, hzoneSize, hnr⟩ := zbcFormatMeta_eq h
  refine ⟨?_, ?_, fun i z hz => ?_, ?_⟩
  · rw [hzones, length_formatZones, hnr]
  · rw [hnr, hheader]
    rfl
  · have hi := lt_nrZones_of_format h hz
    rw [getElem?_zbcFormatMeta h hi, Option.some.injEq] at hz
    obtain ⟨hstart, hlen⟩ := formatZone_start cfg.header i (i * cfg.header.zoneSize)
    rw [← hz, hstart, hlen, hzoneSize]
    rcases header_zoneSize cfg with ⟨-, heq⟩ | ⟨hge, heq⟩
    · rw [heq]
      refine ⟨rfl, ?_⟩
      split
      · omega
      · exact le_rfl
    · have hone := nrZones_le_one h (hsize.resolve_left (not_lt.mpr hge))
      obtain rfl : i = 0 := by omega
      rw [heq, Nat.zero_mul, Nat.zero_mul, if_neg (by omega)]
      exact ⟨rfl, Nat.zero_le _⟩
  · rw [hheader, hzoneSize]
    exact (header_zoneSize cfg).imp And.right And.right

theorem allSound_zbcFormatMeta (h : zbcFormatMeta cfg = some s) (hsize : cfg.SizeFits) :
    s.AllSound := by
  intro i z hz
  have hi := lt_nrZones_of_format h hz
  rw [getElem?_zbcFormatMeta h hi, Option.some.injEq] at hz
  obtain ⟨hstart, hlen⟩ := formatZone_start cfg.header i (i * cfg.header.zoneSize)
  rcases formatZone_cond cfg.header i (i * cfg.header.zoneSize) with
    ⟨-, hconv, hcond⟩ | ⟨hle, hconv, hcond⟩
  · rw [← hz]
    exact sound_of_conv hconv hcond
  · have hwp := formatZone_wp hle (i * cfg.header.zoneSize)
    rw [← hz]
    have hfits : cfg.zoneSize < 2 ^ 32 := hsize.resolve_right fun hc => by
      have hle : cfg.nrConvZones ≤ i := hle
      omega
    rcases header_zoneSize cfg with ⟨-, heq⟩ | ⟨hge, -⟩
    · have hlong : 0 < (formatZone cfg.header i (i * cfg.header.zoneSize)).len := by
        have hlt := mul_lt_capacity hi
        have hcap : cfg.header.capacity = cfg.capacity := rfl
        have hpos := zoneSize_pos cfg
        rw [hlen, heq, hcap]
        split <;> omega
      have hstop : (formatZone cfg.header i (i * cfg.header.zoneSize)).start <
          (formatZone cfg.header i (i * cfg.header.zoneSize)).stop := Nat.lt_add_of_pos_right hlong
      have heqwp := hwp.trans hstart.symm
      refine sound_of_seq hconv hstop ?_ (fun _ => heqwp) ?_ fun hc => ?_
      · rw [heqwp]
        exact ⟨le_rfl, hstop.le⟩
      · rw [hcond, heqwp]
        exact ⟨nofun, fun hc => absurd hc hstop.ne⟩
      · rw [hcond] at hc
        cases hc
    · exact absurd hfits (not_lt.mpr hge)

/-- Zones without blocks are empty, and have their write pointer at the end. -/
theorem not_pointerOk_of_format (h : zbcFormatMeta cfg = some s) (hsize : ¬ cfg.SizeFits) :
    ¬ ∀ z ∈ s.zones, z.PointerOk := by
  obtain ⟨hge, hlt⟩ := not_or.mp hsize
  have hi : cfg.nrConvZones < cfg.nrZones := not_le.mp hlt
  have hget := getElem?_zbcFormatMeta h hi
  intro hall
  have hok := hall _ (List.mem_of_getElem? hget)
  rcases header_zoneSize cfg with ⟨hfits, -⟩ | ⟨-, hzero⟩
  · exact hge hfits
  · have hle : cfg.header.nrConvZones ≤ cfg.nrConvZones := le_rfl
    rcases formatZone_cond cfg.header cfg.nrConvZones (cfg.nrConvZones * cfg.header.zoneSize) with
      ⟨hc, -⟩ | ⟨-, hconv, hcond⟩
    · exact absurd hc (not_lt.mpr hle)
    · obtain ⟨hstart, hlen⟩ := formatZone_start cfg.header cfg.nrConvZones
        (cfg.nrConvZones * cfg.header.zoneSize)
      have hfull := (hok.full hconv).mpr (by
        rw [ZbcZone.stop, hstart, hlen, formatZone_wp hle, hzero, Nat.mul_zero,
          if_neg (by omega)])
      exact absurd (hcond.symm.trans hfull) (by decide)

end Format

section Runs

variable {s t : ZbcDev} {cfg : ZbcConfig}

theorem sound_zbcInitMeta (hs : s.AllSound ∧ s.Layout) (hcheck : zbcCheckMeta cfg s = true) :
    (zbcInitMeta s).AllSound ∧ (zbcInitMeta s).Layout := by
  obtain ⟨hsound, hlayout⟩ := hs
  have hzones := zones_zbcInitMeta (hlayout.length.trans hlayout.header)
  rw [zbcCheckMeta, decide_eq_true_iff] at hcheck
  have hsize := hlayout.size.resolve_right hcheck.2.2.2.1
  have hfixed := fixed_zbcInitMeta s
  refine ⟨fun i z hz => ?_, ZbcDev.Layout.of_fixed ⟨?_, rfl, fun i z hz => ?_, Or.inl rfl⟩ hfixed⟩
  · rw [hzones, List.getElem?_map] at hz
    obtain ⟨w, hw, rfl⟩ := Option.map_eq_some_iff.mp hz
    exact (hsound i w hw).closedUp
  · exact hlayout.length.trans hlayout.header
  · have hplace := hlayout.place i z hz
    rwa [← hsize] at hplace

/-- Every event that fits keeps the zones sound. -/
theorem sound_step {e : ZbcEvent} (hs : s.AllSound ∧ s.Layout) (hfit : s.PointersFit e)
    (hstep : s.step e = some t) : t.AllSound ∧ t.Layout := by
  cases e with
  | out cdb =>
    cases hstep
    exact ⟨allSound_keptByOut.zbcOut hs.1 fun _ _ _ _ => trivial,
      hs.2.of_fixed (fixed_zbcOut s cdb)⟩
  | write cdb iov rets =>
    obtain ⟨answer, hanswer, rfl⟩ := Option.map_eq_some_iff.mp hstep
    rcases zbcWrite_cases hanswer with heq | ⟨hcheck, hzones, hloop⟩
    · rwa [heq]
    · refine Writing.sound_of_loop ⟨hs.1, hs.2, fun i z hget hz hnr _ htype => ?_,
        fun i z hget hz hstop hconv hfull hroom => ?_⟩ hloop
      · exact seq_of_zbcWriteCheckZones hzones hnr hget hz htype
      · exact hfit ⟨hcheck, hzones, hroom, i, hget, z, hz, hconv, hfull, hstop⟩
  | reopen cfg =>
    have hopen : zbcOpenBackstore cfg s = some t := hstep
    rw [zbcOpenBackstore] at hopen
    split at hopen
    · rename_i hformat
      have hsize := hfit hformat
      exact ⟨allSound_zbcFormatMeta hopen hsize, layout_zbcFormatMeta hopen hsize⟩
    · rename_i hformat
      cases hopen
      exact sound_zbcInitMeta hs (by simpa using (not_or.mp hformat).2)

/-- An event that does not fit leaves a zone whose write pointer does not fit its condition. -/
theorem not_sound_step {e : ZbcEvent} (hs : s.AllSound ∧ s.Layout) (hfit : ¬ s.PointersFit e) :
    ∃ t, s.step e = some t ∧ ¬ ∀ z ∈ t.zones, z.PointerOk := by
  cases e with
  | out cdb => exact absurd trivial hfit
  | write cdb iov rets =>
    obtain ⟨hfull, hfails⟩ := Classical.not_imp.mp hfit
    obtain ⟨hcheck, hzones, hroom, i, hget, z, hz, hconv, hcond, hstop⟩ := hfull
    have hfails := not_not.mp hfails
    have hnr : xferLengthOf cdb ≠ 0 := fun h0 => not_pwriteFails_zero _ _ _ (h0 ▸ hfails)
    have hwp := ((hs.1 i z hz).full hconv).mp hcond
    have htype : z.type ≠ .seqwriteReq := fun htype => by
      have heq := seq_of_zbcWriteCheckZones hzones hnr hget hz htype
      omega
    obtain ⟨answer, hloop, w, hw, hwconv, hwcond, hwstop⟩ :=
      zbcWriteLoop_fails hs.1 hs.2 hget hz hconv hcond htype hstop hroom hfails
    have hwrite : s.zbcWrite cdb iov rets = some answer := by
      rw [ZbcDev.zbcWrite, hcheck]
      dsimp only
      rw [hzones]
      exact hloop
    refine ⟨answer.1, ?_, fun hall => ?_⟩
    · rw [ZbcDev.step, hwrite]
      rfl
    · have hfull := ((hall w (List.mem_of_getElem? hw)).full hwconv).mpr hwstop
      exact absurd (hwcond.symm.trans hfull) (by decide)
  | reopen cfg =>
    obtain ⟨hformat, hsize⟩ := Classical.not_imp.mp hfit
    have hlt : cfg.nrConvZones < cfg.nrZones := not_le.mp (not_or.mp hsize).2
    have hsome : ∃ t, zbcFormatMeta cfg = some t := by
      rw [zbcFormatMeta, if_neg fun hc => absurd hc.2 (not_le.mpr hlt)]
      exact ⟨_, rfl⟩
    obtain ⟨t, ht⟩ := hsome
    refine ⟨t, ?_, not_pointerOk_of_format ht hsize⟩
    rw [ZbcDev.step, zbcOpenBackstore, if_pos hformat, ht]

/-- **Write pointers.** In a run from a device that has been formatted, the write pointers fit the
conditions of the zones in all states if and only if the device is formatted with zones whose size
fits into the header, and no `pwrite` fails while a zone that was full is written. -/
theorem pointers_fit_iff (h : zbcFormatMeta cfg = some s) (es : List ZbcEvent) :
    (∀ fs t, fs <+: es → run ZbcDev.step s fs = some t → ∀ z ∈ t.zones, z.PointerOk) ↔
      cfg.SizeFits ∧ Meets ZbcDev.step ZbcDev.PointersFit s es := by
  have hgood : ∀ s : ZbcDev, s.AllSound ∧ s.Layout → ∀ z ∈ s.zones, z.PointerOk := by
    intro s hs z hz
    obtain ⟨i, hi⟩ := List.mem_iff_getElem?.mp hz
    exact (hs.1 i z hi).toPointerOk
  have hrun : cfg.SizeFits → ((∀ fs t, fs <+: es → run ZbcDev.step s fs = some t →
      ∀ z ∈ t.zones, z.PointerOk) ↔ Meets ZbcDev.step ZbcDev.PointersFit s es) := fun hsize =>
    run_good_iff_meets hgood (fun s e t hfit hs => sound_step hs hfit)
      (fun s e hs hfit => not_sound_step hs hfit)
      ⟨allSound_zbcFormatMeta h hsize, layout_zbcFormatMeta h hsize⟩
  constructor
  · intro hall
    have hsize : cfg.SizeFits := by
      by_contra hsize
      exact not_pointerOk_of_format h hsize (hall [] s List.nil_prefix rfl)
    exact ⟨hsize, (hrun hsize).mp hall⟩
  · rintro ⟨hsize, hmeets⟩
    exact (hrun hsize).mpr hmeets

end Runs

/-- A zone is finished, and written once more. -/
def rewriteFull (ret : ℤ) : List ZbcEvent := [.out (zoneCdb 0x02 1 0), zoneWrite 1 ret]

theorem pointers_fit_rewrite : ∃ s, zbcFormatMeta (eightZones .ha) = some s ∧
    ∀ fs t, fs <+: rewriteFull 4096 → run ZbcDev.step s fs = some t →
      ∀ z ∈ t.zones, z.PointerOk := by
  have hmeets : ∃ s, zbcFormatMeta (eightZones .ha) = some s ∧ (eightZones .ha).SizeFits ∧
      Meets ZbcDev.step ZbcDev.PointersFit s (rewriteFull 4096) :=
    ⟨_, rfl, by decide, by decide⟩
  obtain ⟨s, hs, hmeets⟩ := hmeets
  exact ⟨s, hs, (pointers_fit_iff hs _).mpr hmeets⟩

/-- The `pwrite` fails: the zone is open, and its write pointer is at the end. -/
theorem full_zone_opened : ∃ s t z, zbcFormatMeta (eightZones .ha) = some s ∧
    run ZbcDev.step s (rewriteFull (-1)) = some t ∧ z ∈ t.zones ∧ z.conv = false ∧
      z.cond = .impOpen ∧ z.wp = z.stop ∧ ¬ z.PointerOk := by
  have hrun : ∃ s t, zbcFormatMeta (eightZones .ha) = some s ∧
      run ZbcDev.step s (rewriteFull (-1)) = some t ∧
        ∃ z ∈ t.zones[1]?, z.conv = false ∧ z.cond = .impOpen ∧ z.wp = z.stop :=
    ⟨_, _, rfl, rfl, by decide⟩
  obtain ⟨s, t, hs, ht, z, hz, hconv, hcond, hwp⟩ := hrun
  refine ⟨s, t, z, hs, ht, List.mem_of_getElem? hz, hconv, hcond, hwp, fun hok => ?_⟩
  exact absurd (hcond.symm.trans ((hok.full hconv).mpr hwp)) (by decide)

end Tcmu

end LioProject
