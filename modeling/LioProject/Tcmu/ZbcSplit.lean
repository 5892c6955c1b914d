import LioProject.Tcmu.Scatter
import LioProject.Tcmu.ZbcPointers

/-!
# Writes and scatter lists

How the data of a write are split into the entries of a scatter list should not matter. But the loop
of `zbc_write` writes from the first entry in every turn. After `pwrite` it calls
`tcmu_seek_in_iovec`, which empties the entries that have been written and says how many they are;
the loop does not look at that number, and its pointer stays where it is. When the first entry has
been used up, the next turn asks `pwrite` for no bytes, takes that for a failure and answers with a
write error. Up to then blocks have been written, and the write pointer has been moved.

So a write that is accepted is done if and only if its blocks are all in the first entry, and its
zone can be opened (`write_split_iff`).
-/

namespace LioProject

namespace Tcmu

/-! ### The code, with the data -/

/-- How a write ends. -/
structure WriteEnd where
  dev : ZbcDev
  /-- The sense data. -/
  sense : Option ZbcSense
  /-- The content of the file. The metadata are not looked at here. -/
  file : Mem

/-- `*iovec`. -/
def firstOf (iov : List Iovec) : Iovec := iov.headD ⟨0, 0⟩

/-- `zdev->meta_size + lba * zdev->lba_size`. -/
def ZbcDev.offset (s : ZbcDev) (lba : ℕ) : ℕ :=
  (zbcMetaSizeAligned s.nrZones + lba * s.lbaSize) % 2 ^ 64

/-- The loop of `zbc_write`, where `rets` is what `pwrite` returns, turn by turn; so many bytes it
has written. -/
def ZbcDev.writeDataLoop (mem : Mem) :
    ZbcDev → Mem → List Iovec → ℕ → ℕ → List ℤ → Option WriteEnd
  | s, file, _, lba, nrLbas, [] =>
    match s.writeTurn lba nrLbas with
    | none => none
    | some (.inl answer) => some ⟨answer.1, answer.2, file⟩
    | some (.inr (s, _)) => some ⟨s, some .writeError, file⟩
  | s, file, iov, lba, nrLbas, r :: rets =>
    match s.writeTurn lba nrLbas with
    | none => none
    | some (.inl answer) => some ⟨answer.1, answer.2, file⟩
    | some (.inr (s, i)) =>
      let ret := min r (s.request nrLbas (firstOf iov).len)
      if ret ≤ 0 then some ⟨s, some .writeError, file⟩
      else
        let count := ret.toNat / s.lbaSize
        (s.writeAdvance i lba count).writeDataLoop mem
          (file.store (s.offset lba) (mem.load (firstOf iov).base ret.toNat))
          (tcmuSeekInIovec iov ret.toNat).1 (lba + count) (nrLbas - count) rets

/-- `zbc_write`. -/
def ZbcDev.zbcWriteData (s : ZbcDev) (file mem : Mem) (cdb : Cdb) (iov : List Iovec)
    (rets : List ℤ) : Option WriteEnd :=
  match s.zbcCheckRdwr cdb (iov.map Iovec.len) with
  | some sense => some ⟨s, some sense, file⟩
  | none => do
    match ← s.zbcWriteCheckZones (xferLengthOf cdb + s.nrZones + 2) (xferLengthOf cdb) (lbaOf cdb)
        none with
    | some sense => some ⟨s, some sense, file⟩
    | none => s.writeDataLoop mem file iov (lbaOf cdb) (xferLengthOf cdb) rets

/-! ### The first entry -/

section First

variable {s : ZbcDev} {file mem mem' : Mem} {iov iov' : List Iovec} {lba nrLbas len n : ℕ}
  {rets : List ℤ}

/-- Seeking takes the bytes away from the first entry. -/
theorem bytes_firstOf_tcmuSeekInIovec :
    (firstOf (tcmuSeekInIovec iov n).1).bytes mem = ((firstOf iov).bytes mem).drop n := by
  cases iov with
  | nil => exact List.drop_nil.symm
  | cons v vs =>
    show _ = (mem.load v.base v.len).drop n
    rw [tcmuSeekInIovec]
    split
    · rename_i hn
      rw [hn]
      rfl
    · split
      · rename_i hle
        rw [List.drop_eq_nil_of_le ((Mem.length_load ..).trans_le hle)]
        rfl
      · rw [Mem.load_drop]
        rfl

/-- No more is asked of `pwrite` than the first entry has. -/
theorem request_le (s : ZbcDev) (nrLbas len : ℕ) : s.request nrLbas len ≤ len :=
  (Nat.mul_le_mul_right _ (Nat.min_le_right _ _)).trans (Nat.div_mul_le_self _ _)

theorem length_bytes_firstOf (iov : List Iovec) (mem : Mem) :
    ((firstOf iov).bytes mem).length = (firstOf iov).len :=
  Mem.length_load ..

theorem len_firstOf_tcmuSeekInIovec :
    (firstOf (tcmuSeekInIovec iov n).1).len = (firstOf iov).len - n := by
  rw [← length_bytes_firstOf _ fun _ => 0, bytes_firstOf_tcmuSeekInIovec, List.length_drop,
    length_bytes_firstOf]

/-- If the first entry is long enough, it has all the bytes. -/
theorem gather_eq_firstOf (h : iovTotal iov ≤ (firstOf iov).len) :
    gather iov mem = (firstOf iov).bytes mem := by
  cases iov with
  | nil => rfl
  | cons v vs =>
    have hle : v.len + iovTotal vs ≤ v.len := by rwa [iovTotal_cons] at h
    have hnil : gather vs mem = [] :=
      List.eq_nil_of_length_eq_zero (by rw [length_gather]; omega)
    rw [gather_cons, hnil, List.append_nil]
    rfl

/-- The device and the sense data do not depend on the data. -/
theorem map_writeDataLoop (s : ZbcDev) (file mem : Mem) (iov : List Iovec) (lba nrLbas : ℕ)
    (rets : List ℤ) :
    (s.writeDataLoop mem file iov lba nrLbas rets).map (fun e => (e.dev, e.sense)) =
      s.zbcWriteLoop lba nrLbas (firstOf iov).len rets := by
  induction rets generalizing s file iov lba nrLbas with
  | nil =>
    rw [ZbcDev.writeDataLoop, ZbcDev.zbcWriteLoop]
    rcases s.writeTurn lba nrLbas with _ | answer | ⟨t, i⟩ <;> rfl
  | cons r rets ih =>
    rw [ZbcDev.writeDataLoop, ZbcDev.zbcWriteLoop]
    rcases s.writeTurn lba nrLbas with _ | answer | ⟨t, i⟩
    · rfl
    · rfl
    · dsimp only
      by_cases hret : min r (t.request nrLbas (firstOf iov).len) ≤ 0
      · rw [if_pos hret, if_pos hret]
        rfl
      · rw [if_neg hret, if_neg hret, ih, len_firstOf_tcmuSeekInIovec]

/-- `zbc_write` with the data does what it does without them. -/
theorem map_zbcWriteData (s : ZbcDev) (file mem : Mem) (cdb : Cdb) (iov : List Iovec)
    (rets : List ℤ) :
    (s.zbcWriteData file mem cdb iov rets).map (fun e => (e.dev, e.sense)) =
      s.zbcWrite cdb (iov.map Iovec.len) rets := by
  have hhead : (iov.map Iovec.len).headD 0 = (firstOf iov).len := by cases iov <;> rfl
  rw [ZbcDev.zbcWriteData, ZbcDev.zbcWrite, hhead]
  cases s.zbcCheckRdwr cdb (iov.map Iovec.len) with
  | some sense => rfl
  | none =>
    dsimp only
    rw [Option.bind_eq_bind, Option.bind_eq_bind, Option.map_bind]
    refine Option.bind_congr fun sense _ => ?_
    cases sense with
    | some sense => rfl
    | none => exact map_writeDataLoop ..

/-- What can be seen of the result without the file. -/
theorem map_zbcWriteData_eq {cdb : Cdb} {α : Type} (f : ZbcAnswer → α) :
    (s.zbcWriteData file mem cdb iov rets).map (fun e => f (e.dev, e.sense)) =
      (s.zbcWrite cdb (iov.map Iovec.len) rets).map f := by
  rw [← map_zbcWriteData s file mem, Option.map_map]
  rfl

/-- **The loop looks at the first entry only.** -/
theorem writeDataLoop_congr (h : (firstOf iov).bytes mem = (firstOf iov').bytes mem') :
    s.writeDataLoop mem file iov lba nrLbas rets =
      s.writeDataLoop mem' file iov' lba nrLbas rets := by
  induction rets generalizing s file iov iov' lba nrLbas with
  | nil => rw [ZbcDev.writeDataLoop, ZbcDev.writeDataLoop]
  | cons r rets ih =>
    have hlen : (firstOf iov).len = (firstOf iov').len := by
      rw [← length_bytes_firstOf iov mem, h, length_bytes_firstOf]
    rw [ZbcDev.writeDataLoop, ZbcDev.writeDataLoop, hlen]
    rcases s.writeTurn lba nrLbas with _ | answer | ⟨t, i⟩
    · rfl
    · rfl
    · dsimp only
      by_cases hret : min r (t.request nrLbas (firstOf iov').len) ≤ 0
      · rw [if_pos hret, if_pos hret]
      · rw [if_neg hret, if_neg hret]
        have hle : (min r (t.request nrLbas (firstOf iov').len)).toNat ≤ (firstOf iov').len := by
          have hrequest := request_le t nrLbas (firstOf iov').len
          omega
        have hload := congrArg
          (List.take (min r (t.request nrLbas (firstOf iov').len)).toNat) h
        rw [Iovec.bytes, Iovec.bytes, Mem.load_take _ _ (hlen ▸ hle), Mem.load_take _ _ hle]
          at hload
        rw [hload]
        refine ih ?_
        rw [bytes_firstOf_tcmuSeekInIovec, bytes_firstOf_tcmuSeekInIovec, h]

end First

/-! ### Turns -/

section Turns

variable {s t : ZbcDev} {lba nrLbas len i n : ℕ} {z w : ZbcZone}

theorem fixed_of_writeTurn (h : s.writeTurn lba nrLbas = some (.inr (t, i))) :
    t.fixed = s.fixed := by
  obtain ⟨-, -, -, ⟨z, -, -, -, -, rfl⟩ | ⟨rfl, -⟩⟩ := writeTurn_inr h
  · exact fixed_openZoneAt s i false
  · rfl

/-- The loop ends well only if nothing is left to write. -/
theorem writeTurn_done (h : s.writeTurn lba nrLbas = some (.inl (t, none))) : nrLbas = 0 := by
  rw [ZbcDev.writeTurn] at h
  split at h
  · assumption
  · split at h
    · cases h
    · split at h
      · cases h
      · cases h

/-- A loop that ends well and has something to write goes through a turn. -/
theorem exists_turn_of_zbcWriteLoop {rets : List ℤ} {answer : ZbcAnswer} (hnr : nrLbas ≠ 0)
    (h : s.zbcWriteLoop lba nrLbas len rets = some answer) (hok : answer.2 = none) :
    ∃ t i r rest ret, rets = r :: rest ∧ s.writeTurn lba nrLbas = some (.inr (t, i)) ∧
      ret = (min r (t.request nrLbas len)).toNat ∧
      (t.writeAdvance i lba (ret / t.lbaSize)).zbcWriteLoop (lba + ret / t.lbaSize)
        (nrLbas - ret / t.lbaSize) (len - ret) rest = some answer := by
  rcases hturn : s.writeTurn lba nrLbas with _ | ⟨t, sense⟩ | ⟨t, i⟩
  · cases rets <;> rw [ZbcDev.zbcWriteLoop, hturn] at h <;> cases h
  · have heq : some (t, sense) = some answer := by
      cases rets <;> rwa [ZbcDev.zbcWriteLoop, hturn] at h
    obtain rfl := Option.some.inj heq
    obtain rfl : sense = none := hok
    exact absurd (writeTurn_done hturn) hnr
  · cases rets with
    | nil =>
      rw [ZbcDev.zbcWriteLoop, hturn] at h
      obtain rfl := Option.some.inj h
      cases hok
    | cons r rest =>
      rw [ZbcDev.zbcWriteLoop, hturn] at h
      dsimp only at h
      by_cases hret : min r (t.request nrLbas len) ≤ 0
      · rw [if_pos hret] at h
        obtain rfl := Option.some.inj h
        cases hok
      · rw [if_neg hret] at h
        exact ⟨t, i, r, rest, _, rfl, rfl, rfl, h⟩

/-- **A run of the loop that ends well** has found all blocks in the first entry. -/
theorem le_of_zbcWriteLoop {rets : List ℤ} {answer : ZbcAnswer}
    (h : s.zbcWriteLoop lba nrLbas len rets = some answer) (hok : answer.2 = none) :
    nrLbas ≤ len / s.lbaSize := by
  induction rets generalizing s lba nrLbas len with
  | nil =>
    by_contra hlt
    have hnr : nrLbas ≠ 0 := fun h0 => hlt (h0 ▸ Nat.zero_le _)
    obtain ⟨_, _, _, _, _, hrets, -⟩ := exists_turn_of_zbcWriteLoop hnr h hok
    cases hrets
  | cons r rets ih =>
    by_cases hnr : nrLbas = 0
    · rw [hnr]
      exact Nat.zero_le _
    · obtain ⟨t, i, _, _, ret, hrets, hturn, hret, hloop⟩ :=
        exists_turn_of_zbcWriteLoop hnr h hok
      cases hrets
      have hsize := lbaSize_of_fixed (fixed_of_writeTurn hturn)
      have hrest := ih hloop
      rw [lbaSize_of_fixed (fixed_writeAdvance t i lba (ret / t.lbaSize)), hsize] at hrest
      have hrequest := request_le t nrLbas len
      have hle : ret ≤ len := by omega
      -- the blocks of this turn, and those of the others
      have hsum : ret / s.lbaSize + (len - ret) / s.lbaSize ≤ len / s.lbaSize := by
        refine Nat.div_add_div_le_add_div.trans_eq ?_
        rw [Nat.add_sub_cancel' hle]
      omega

/-- A turn of a zone that can be opened. -/
theorem exists_writeTurn (hnr : nrLbas ≠ 0) (hget : s.zbcGetZone lba false = some i)
    (hz : s.zones[i]? = some z) (hstop : lba + nrLbas ≤ z.stop)
    (hopen : z.conv = true ∨ z.isOpen = true ∨ s.nrExpOpen < s.nrOpenZones) :
    ∃ t w, s.writeTurn lba nrLbas = some (.inr (t, i)) ∧ t.zones[i]? = some w ∧
      w.fixed = z.fixed ∧ w.wp = z.wp := by
  by_cases hidle : z.conv = false ∧ z.isOpen = false
  · obtain ⟨hconv, hclosed⟩ := hidle
    have hroom : s.nrExpOpen < s.nrOpenZones := by
      rcases hopen with h | h | h
      · exact absurd (hconv.symm.trans h) (by decide)
      · exact absurd (hclosed.symm.trans h) (by decide)
      · exact h
    refine ⟨_, z.withCond .impOpen, writeTurn_eq hnr hget hz hstop hconv hclosed hroom, ?_, rfl,
      rfl⟩
    rw [getElem?_openZoneAt hz hclosed, if_pos rfl]
    rfl
  · have hseq : (!z.conv && !z.isOpen) = false := by
      cases hconv : z.conv with
      | true => rfl
      | false =>
        cases hclosed : z.isOpen with
        | true => rfl
        | false => exact absurd ⟨hconv, hclosed⟩ hidle
    refine ⟨s, z, ?_, hz, rfl, rfl⟩
    rw [ZbcDev.writeTurn, if_neg hnr, hget]
    dsimp only
    rw [ZbcDev.writeStart, hz, Option.any_some, Option.any_some, hseq,
      decide_eq_false (not_lt.mpr hstop), if_neg Bool.false_ne_true, if_neg Bool.false_ne_true]

/-- The write pointer of a sequential zone moves over what has been written. -/
theorem wp_writeAdvance (hw : s.zones[i]? = some w) (htype : w.type = .seqwriteReq)
    (hstop : w.wp + n ≤ w.stop) :
    ∃ v, (s.writeAdvance i lba n).zones[i]? = some v ∧ v.wp = w.wp + n := by
  have hadvance : w.advance lba n = w.wp + n := by rw [ZbcZone.advance, htype]
  refine ⟨_, (getElem?_writeAdvance lba n hw i).trans (if_pos rfl), ?_⟩
  split
  · rename_i hfull
    rw [hadvance] at hfull
    exact le_antisymm hfull.2 hstop
  · exact hadvance

theorem writeDataLoop_zero (file mem : Mem) (iov : List Iovec) (rets : List ℤ) :
    s.writeDataLoop mem file iov lba 0 rets = some ⟨s, none, file⟩ := by
  cases rets <;> rw [ZbcDev.writeDataLoop, ZbcDev.writeTurn, if_pos rfl]

end Turns

/-! ### The data -/

/-- The blocks are not behind the end of the zone in which they begin. -/
def ZbcDev.InZone (s : ZbcDev) (lba nrLbas : ℕ) : Prop :=
  nrLbas ≠ 0 → ∃ i z, s.zbcGetZone lba false = some i ∧ s.zones[i]? = some z ∧
    lba + nrLbas ≤ z.stop

/-- The write passes `zbc_check_rdwr` and `zbc_write_check_zones`. -/
def ZbcDev.Accepts (s : ZbcDev) (cdb : Cdb) (iov : List Iovec) : Prop :=
  s.zbcCheckRdwr cdb (iov.map Iovec.len) = none ∧
    s.zbcWriteCheckZones (xferLengthOf cdb + s.nrZones + 2) (xferLengthOf cdb) (lbaOf cdb) none =
      some none

/-- The zone of a block is conventional, or open, or not too many zones are explicitly open. -/
def ZbcDev.CanOpen (s : ZbcDev) (lba : ℕ) : Prop :=
  ∀ i ∈ s.zbcGetZone lba false, ∀ z ∈ s.zones[i]?,
    z.conv = true ∨ z.isOpen = true ∨ s.nrExpOpen < s.nrOpenZones

/-- Every `pwrite` writes all that it is asked to write. -/
def ZbcDev.FullPwrites (s : ZbcDev) (cdb : Cdb) (rets : List ℤ) : Prop :=
  xferLengthOf cdb ≤ rets.length ∧ ∀ r ∈ rets, (xferLengthOf cdb * s.lbaSize : ℕ) ≤ r

/-- All blocks of a write have been stored. -/
structure WriteEnd.Stored (e : WriteEnd) (s : ZbcDev) (file mem : Mem) (cdb : Cdb)
    (iov : List Iovec) : Prop where
  ok : e.sense = none
  data : e.file = file.store (s.offset (lbaOf cdb)) (gather iov mem)
  pointer : ∀ i z, s.zbcGetZone (lbaOf cdb) false = some i → s.zones[i]? = some z →
    z.type = .seqwriteReq → ∃ w, e.dev.zones[i]? = some w ∧ w.wp = z.wp + xferLengthOf cdb

/-- If the write is accepted, and every `pwrite` is full, all of its blocks are stored. -/
def ZbcDev.StoresAll (s : ZbcDev) (file mem : Mem) (cdb : Cdb) (iov : List Iovec) : Prop :=
  s.Accepts cdb iov → ∀ rets, s.FullPwrites cdb rets →
    ∃ e, s.zbcWriteData file mem cdb iov rets = some e ∧ e.Stored s file mem cdb iov

/-- If there are blocks to write, their zone can be opened, and they are all in the first entry. -/
def ZbcDev.FirstHasAll (s : ZbcDev) (cdb : Cdb) (iov : List Iovec) : Prop :=
  xferLengthOf cdb ≠ 0 →
    s.CanOpen (lbaOf cdb) ∧ xferLengthOf cdb ≤ (firstOf iov).len / s.lbaSize

instance (s : ZbcDev) (lba : ℕ) : Decidable (s.CanOpen lba) :=
  inferInstanceAs (Decidable (∀ i ∈ _, ∀ z ∈ _, _))

instance (s : ZbcDev) (cdb : Cdb) (iov : List Iovec) : Decidable (s.FirstHasAll cdb iov) :=
  inferInstanceAs (Decidable (_ → _))

section Split

variable {s : ZbcDev} {file mem mem' : Mem} {cdb : Cdb} {iov iov' : List Iovec} {rets : List ℤ}

theorem zbcWriteData_of_accepts (h : s.Accepts cdb iov) :
    s.zbcWriteData file mem cdb iov rets =
      s.writeDataLoop mem file iov (lbaOf cdb) (xferLengthOf cdb) rets := by
  rw [ZbcDev.zbcWriteData, h.1]
  dsimp only
  rw [h.2]
  rfl

/-- The scatter list of a write that is accepted has the bytes of its blocks. -/
theorem iovTotal_of_accepts (h : s.Accepts cdb iov) (hlen : iovTotal iov < 2 ^ 64) :
    iovTotal iov = xferLengthOf cdb * s.lbaSize := by
  obtain ⟨hcheck, -⟩ := h
  rw [ZbcDev.zbcCheckRdwr] at hcheck
  split at hcheck
  · cases hcheck
  · rename_i hsize
    rwa [not_not, ← iovTotal, Nat.mod_eq_of_lt hlen] at hsize

theorem iovTotal_of_gather (h : gather iov mem = gather iov' mem') :
    iovTotal iov = iovTotal iov' := by
  rw [← length_gather iov mem, h, length_gather]

theorem zbcCheckRdwr_congr (h : iovTotal iov = iovTotal iov') :
    s.zbcCheckRdwr cdb (iov.map Iovec.len) = s.zbcCheckRdwr cdb (iov'.map Iovec.len) := by
  rw [ZbcDev.zbcCheckRdwr, ZbcDev.zbcCheckRdwr, ← iovTotal, ← iovTotal, h]

theorem len_firstOf_le (iov : List Iovec) : (firstOf iov).len ≤ iovTotal iov := by
  cases iov with
  | nil => exact Nat.le_refl 0
  | cons v vs =>
    rw [iovTotal_cons]
    exact Nat.le_add_right _ _

/-- The first entry has everything. -/
theorem len_firstOf_eq (mem : Mem) (hacc : s.Accepts cdb iov) (hlen : iovTotal iov < 2 ^ 64)
    (h : xferLengthOf cdb ≤ (firstOf iov).len / s.lbaSize) :
    (firstOf iov).len = xferLengthOf cdb * s.lbaSize ∧
      gather iov mem = (firstOf iov).bytes mem := by
  have htotal := iovTotal_of_accepts hacc hlen
  have hle := len_firstOf_le iov
  have hge := (Nat.mul_le_mul_right s.lbaSize h).trans (Nat.div_mul_le_self _ _)
  exact ⟨by omega, gather_eq_firstOf (by omega)⟩

/-- A write whose first entry has all blocks stores them. -/
theorem storesAll_of_firstHasAll (hlba : 0 < s.lbaSize)
    (hzone : s.InZone (lbaOf cdb) (xferLengthOf cdb)) (hlen : iovTotal iov < 2 ^ 64)
    (h : s.Accepts cdb iov → s.FirstHasAll cdb iov) : s.StoresAll file mem cdb iov := by
  intro hacc rets hfull
  rw [zbcWriteData_of_accepts hacc]
  by_cases hnr : xferLengthOf cdb = 0
  · have hnil : gather iov mem = [] := by
      refine List.eq_nil_of_length_eq_zero ?_
      rw [length_gather, iovTotal_of_accepts hacc hlen, hnr, Nat.zero_mul]
    rw [hnr, writeDataLoop_zero]
    refine ⟨_, rfl, rfl, ?_, fun i z _ hz _ => ⟨z, hz, ?_⟩⟩
    · rw [hnil, Mem.store_nil]
    · rw [hnr, Nat.add_zero]
  · obtain ⟨hopen, hle⟩ := h hacc hnr
    obtain ⟨i, z, hget, hz, hstop⟩ := hzone hnr
    obtain ⟨t, w, hturn, hw, hwfixed, hwp⟩ :=
      exists_writeTurn hnr hget hz hstop (hopen i hget z hz)
    have hfixed := fixed_of_writeTurn hturn
    obtain ⟨hfirst, hgather⟩ := len_firstOf_eq mem hacc hlen hle
    obtain ⟨hcount, hfull⟩ := hfull
    cases rets with
    | nil => exact absurd (Nat.le_zero.mp hcount) hnr
    | cons r rets =>
      -- the first turn writes everything
      have hret : min r (t.request (xferLengthOf cdb) (firstOf iov).len) =
          ((xferLengthOf cdb * s.lbaSize : ℕ) : ℤ) := by
        rw [request_of_fixed hfixed, Nat.min_eq_left hle]
        exact min_eq_right (hfull r List.mem_cons_self)
      have hpos : 0 < xferLengthOf cdb * s.lbaSize := Nat.mul_pos (Nat.pos_of_ne_zero hnr) hlba
      rw [ZbcDev.writeDataLoop, hturn]
      dsimp only
      rw [hret, if_neg (by omega), Int.toNat_natCast, lbaSize_of_fixed hfixed,
        Nat.mul_div_cancel _ hlba, Nat.sub_self, writeDataLoop_zero]
      refine ⟨_, rfl, rfl, ?_, fun j y hj hy htype => ?_⟩
      · show file.store (t.offset _) _ = _
        rw [hgather, Iovec.bytes, hfirst, ZbcDev.offset, ZbcDev.offset, lbaSize_of_fixed hfixed,
          nrZones_of_fixed hfixed]
      · obtain rfl := Option.some.inj (hget.symm.trans hj)
        obtain rfl := Option.some.inj (hz.symm.trans hy)
        have hseq := seq_of_zbcWriteCheckZones hacc.2 hnr hget hz htype
        have hwstop : w.stop = z.stop := by
          rw [ZbcZone.stop, ZbcZone.stop, start_of_fixed hwfixed, len_of_fixed hwfixed]
        rw [← hwp]
        refine wp_writeAdvance hw ((type_of_fixed hwfixed).trans htype) ?_
        rw [hwstop, hwp, ← hseq]
        exact hstop

/-- A write that stores its blocks has them in the first entry. -/
theorem firstHasAll_of_storesAll (hacc : s.Accepts cdb iov) (h : s.StoresAll file mem cdb iov) :
    s.FirstHasAll cdb iov := by
  intro hnr
  obtain ⟨e, he, hstored⟩ := h hacc
    (List.replicate (xferLengthOf cdb) (xferLengthOf cdb * s.lbaSize : ℕ))
    ⟨List.length_replicate.ge, fun r hr => (List.eq_of_mem_replicate hr).ge⟩
  rw [zbcWriteData_of_accepts hacc] at he
  have hloop := map_writeDataLoop s file mem iov (lbaOf cdb) (xferLengthOf cdb)
    (List.replicate (xferLengthOf cdb) (xferLengthOf cdb * s.lbaSize : ℕ))
  rw [he] at hloop
  refine ⟨fun i hget z hz => ?_, le_of_zbcWriteLoop hloop.symm hstored.ok⟩
  obtain ⟨t, j, -, -, -, -, hturn, -⟩ :=
    exists_turn_of_zbcWriteLoop hnr hloop.symm hstored.ok
  obtain ⟨-, hj, -, ⟨-, -, -, -, hroom, -⟩ | ⟨-, hopen⟩⟩ := writeTurn_inr hturn
  · exact Or.inr (Or.inr hroom)
  · obtain rfl := Option.some.inj (hj.symm.trans hget)
    exact (hopen z hz).imp_right Or.inl

/-- Two writes of the same data are the same if they are refused, or if the first entries have all
blocks. -/
theorem zbcWriteData_congr (hlen : iovTotal iov < 2 ^ 64)
    (hdata : gather iov mem = gather iov' mem')
    (h : s.Accepts cdb iov → s.FirstHasAll cdb iov ∧ s.FirstHasAll cdb iov') :
    s.zbcWriteData file mem cdb iov rets = s.zbcWriteData file mem' cdb iov' rets := by
  have htotal := iovTotal_of_gather hdata
  have hcheck : s.zbcCheckRdwr cdb (iov.map Iovec.len) =
      s.zbcCheckRdwr cdb (iov'.map Iovec.len) := zbcCheckRdwr_congr htotal
  by_cases hacc : s.Accepts cdb iov
  · have hacc' : s.Accepts cdb iov' := ⟨hcheck ▸ hacc.1, hacc.2⟩
    rw [zbcWriteData_of_accepts hacc, zbcWriteData_of_accepts hacc']
    by_cases hnr : xferLengthOf cdb = 0
    · rw [hnr, writeDataLoop_zero, writeDataLoop_zero]
    · obtain ⟨hfirst, hfirst'⟩ := h hacc
      refine writeDataLoop_congr ?_
      rw [← (len_firstOf_eq mem hacc hlen (hfirst hnr).2).2, hdata]
      exact (len_firstOf_eq mem' hacc' (htotal ▸ hlen) (hfirst' hnr).2).2
  · -- a write that is refused does not look at the entries
    rw [ZbcDev.zbcWriteData, ZbcDev.zbcWriteData, ← hcheck]
    cases hrdwr : s.zbcCheckRdwr cdb (iov.map Iovec.len) with
    | some sense => rfl
    | none =>
      dsimp only
      rw [Option.bind_eq_bind]
      refine Option.bind_congr fun sense hsense => ?_
      cases sense with
      | some sense => rfl
      | none => exact absurd ⟨hrdwr, hsense⟩ hacc

/-- **Writes and scatter lists.** For blocks in one zone and two scatter lists with the same data,
whatever `pwrite` does, the writes have the same result, and store everything if they are accepted
and each `pwrite` is full, if and only if they are refused, or nothing is to be written, or the zone
can be opened and each list has all blocks in its first entry. -/
theorem write_split_iff (hlba : 0 < s.lbaSize) (hzone : s.InZone (lbaOf cdb) (xferLengthOf cdb))
    (hlen : iovTotal iov < 2 ^ 64) (hdata : gather iov mem = gather iov' mem') :
    ((∀ rets, s.zbcWriteData file mem cdb iov rets = s.zbcWriteData file mem' cdb iov' rets) ∧
      s.StoresAll file mem cdb iov ∧ s.StoresAll file mem' cdb iov') ↔
        (s.Accepts cdb iov → s.FirstHasAll cdb iov ∧ s.FirstHasAll cdb iov') := by
  have htotal := iovTotal_of_gather hdata
  have haccepts : s.Accepts cdb iov ↔ s.Accepts cdb iov' := by
    rw [ZbcDev.Accepts, ZbcDev.Accepts, zbcCheckRdwr_congr htotal]
  constructor
  · rintro ⟨-, hstores, hstores'⟩ hacc
    exact ⟨firstHasAll_of_storesAll hacc hstores,
      firstHasAll_of_storesAll (haccepts.mp hacc) hstores'⟩
  · intro h
    refine ⟨fun rets => zbcWriteData_congr hlen hdata h, ?_, ?_⟩
    · exact storesAll_of_firstHasAll hlba hzone hlen fun hacc => (h hacc).1
    · exact storesAll_of_firstHasAll hlba hzone (htotal ▸ hlen) fun hacc =>
        (h (haccepts.mpr hacc)).2

end Split

/-- `WRITE(16)` of the first two blocks of a zone of 256 blocks. -/
def twoBlocksOf (zone : UInt8) : Cdb := [0x8a, 0, 0, 0, 0, 0, 0, 0, zone, 0, 0, 0, 0, 2, 0, 0]

/-- An entry without bytes behind the others changes nothing. -/
theorem write_split_empty : ∃ s, zbcFormatMeta (eightZones .hm) = some s ∧ ∀ file mem,
    (∀ rets, s.zbcWriteData file mem (twoBlocksOf 1) [⟨0, 8192⟩] rets =
      s.zbcWriteData file mem (twoBlocksOf 1) [⟨0, 8192⟩, ⟨0, 0⟩] rets) ∧
      s.StoresAll file mem (twoBlocksOf 1) [⟨0, 8192⟩] ∧
      s.StoresAll file mem (twoBlocksOf 1) [⟨0, 8192⟩, ⟨0, 0⟩] := by
  have hdev : ∃ s, zbcFormatMeta (eightZones .hm) = some s ∧ 0 < s.lbaSize ∧
      (∃ z, s.zbcGetZone (lbaOf (twoBlocksOf 1)) false = some 1 ∧ s.zones[1]? = some z ∧
        lbaOf (twoBlocksOf 1) + xferLengthOf (twoBlocksOf 1) ≤ z.stop) ∧
      s.FirstHasAll (twoBlocksOf 1) [⟨0, 8192⟩] ∧
      s.FirstHasAll (twoBlocksOf 1) [⟨0, 8192⟩, ⟨0, 0⟩] :=
    ⟨_, rfl, by decide, ⟨_, rfl, rfl, by decide⟩, by decide, by decide⟩
  obtain ⟨s, hs, hlba, ⟨z, hget, hz, hstop⟩, hfirst, hfirst'⟩ := hdev
  have hlen : iovTotal [⟨0, 8192⟩] < 2 ^ 64 := by decide
  refine ⟨s, hs, fun file mem => (write_split_iff hlba ?_ hlen ?_).mpr ?_⟩
  · exact fun _ => ⟨1, z, hget, hz, hstop⟩
  · rw [gather_cons, gather_cons]
    rfl
  · exact fun _ => ⟨hfirst, hfirst'⟩

/-- Two entries with one block each: the first block is written, the write pointer of the zone is
moved, and then the write fails. -/
theorem write_split_fails : ∃ s, zbcFormatMeta (eightZones .hm) = some s ∧
    s.InZone (lbaOf (twoBlocksOf 1)) (xferLengthOf (twoBlocksOf 1)) ∧
    (∀ v ∈ [(⟨0, 8192⟩ : Iovec), ⟨0, 4096⟩, ⟨4096, 4096⟩], s.lbaSize ∣ v.len) ∧ ∀ file mem,
      gather [⟨0, 8192⟩] mem = gather [⟨0, 4096⟩, ⟨4096, 4096⟩] mem ∧
      s.Accepts (twoBlocksOf 1) [⟨0, 4096⟩, ⟨4096, 4096⟩] ∧
      s.FullPwrites (twoBlocksOf 1) [8192, 8192] ∧
      (s.zbcWriteData file mem (twoBlocksOf 1) [⟨0, 8192⟩] [8192, 8192]).map
          (fun e => (e.sense, e.dev.zones[1]?.map ZbcZone.wp)) = some (none, some 258) ∧
      (s.zbcWriteData file mem (twoBlocksOf 1) [⟨0, 4096⟩, ⟨4096, 4096⟩] [8192, 8192]).map
          (fun e => (e.sense, e.dev.zones[1]?.map ZbcZone.wp)) =
        some (some .writeError, some 257) := by
  have hdev : ∃ s, zbcFormatMeta (eightZones .hm) = some s ∧
      (∃ z, s.zbcGetZone (lbaOf (twoBlocksOf 1)) false = some 1 ∧ s.zones[1]? = some z ∧
        lbaOf (twoBlocksOf 1) + xferLengthOf (twoBlocksOf 1) ≤ z.stop) ∧
      s.zbcCheckRdwr (twoBlocksOf 1) [4096, 4096] = none ∧
      s.zbcWriteCheckZones (xferLengthOf (twoBlocksOf 1) + s.nrZones + 2)
        (xferLengthOf (twoBlocksOf 1)) (lbaOf (twoBlocksOf 1)) none = some none ∧
      s.lbaSize = 4096 ∧
      (s.zbcWrite (twoBlocksOf 1) [8192] [8192, 8192]).map
          (fun a => (a.2, a.1.zones[1]?.map ZbcZone.wp)) = some (none, some 258) ∧
      (s.zbcWrite (twoBlocksOf 1) [4096, 4096] [8192, 8192]).map
          (fun a => (a.2, a.1.zones[1]?.map ZbcZone.wp)) = some (some .writeError, some 257) :=
    ⟨_, rfl, ⟨_, rfl, rfl, by decide⟩, by decide, by decide, rfl, by decide, by decide⟩
  obtain ⟨s, hs, ⟨z, hget, hz, hstop⟩, hcheck, hzones, hsize, hone, htwo⟩ := hdev
  refine ⟨s, hs, fun _ => ⟨1, z, hget, hz, hstop⟩, ?_, fun file mem =>
    ⟨?_, ⟨hcheck, hzones⟩, ⟨by decide, ?_⟩, ?_, ?_⟩⟩
  · rw [hsize]
    decide
  · rw [gather_cons, gather_cons, gather_cons, ← List.append_assoc]
    exact congrArg (· ++ gather [] mem) (Mem.load_add mem 0 4096 4096)
  · rw [hsize]
    decide
  · exact (map_zbcWriteData_eq fun a => (a.2, a.1.zones[1]?.map ZbcZone.wp)).trans hone
  · exact (map_zbcWriteData_eq fun a => (a.2, a.1.zones[1]?.map ZbcZone.wp)).trans htwo

end Tcmu

end LioProject
