import LioProject.Lib.Tiling
import LioProject.Tcmu.Completion
import LioProject.Tcmu.Progress

/-!
# Splitting an unmap

`align_and_split_unmap` cuts a range of blocks into sub-commands. The first one is to end at a
multiple of the granularity, and the others are to be as long as the granularity. Whatever the
first length is, the pieces tile the range (`exec_alignAndSplitUnmap`, `Device.tiles_pieces`).

The pieces are counted in `state->refcount`, which has 32 bits. The count is right if and only if
it does not get to 2 ^ 32 (`split_tiles_iff`). A `WRITE SAME(16)` can get there, when its range
begins with an empty piece and has a piece for each of its 2 ^ 32 - 1 blocks: then
`handle_unmap_in_writesame` takes it that nothing has been dispatched, and frees the state that the
callbacks of the sub-commands look at.

The first length is computed with a mask that comes from the alignment. `dev_added` sets the
alignment to 0, so that all bits are in the mask, and the length wraps around when the range begins
behind the first multiple of the granularity. Where the pieces are aligned all the same is said by
`split_aligned_iff`.
-/

namespace LioProject

namespace Tcmu

/-! ### Pieces -/

/-- The pieces of `nlbas` blocks from `lba` on: one of `lbas` blocks, and then one of `gran` blocks
after the other. -/
def unmapPieces (gran : ℕ) : ℕ → ℕ → ℕ → ℕ → List (ℕ × ℕ)
  | 0, _, _, _ => []
  | fuel + 1, lba, nlbas, lbas =>
    if nlbas = 0 then []
    else (lba, lbas) :: unmapPieces gran fuel (lba + lbas) (nlbas - lbas) (min gran (nlbas - lbas))

section Pieces

variable {gran fuel lba nlbas lbas : ℕ}

/-- After the first piece, no piece is empty. -/
theorem pieces_fuel (hgran : 0 < gran) (hne : nlbas ≠ 0) (hle : lbas ≤ nlbas)
    (h : nlbas + (if lbas = 0 ∧ nlbas ≠ 0 then 1 else 0) < fuel + 1) :
    nlbas - lbas + (if min gran (nlbas - lbas) = 0 ∧ nlbas - lbas ≠ 0 then 1 else 0) < fuel := by
  have hnot : ¬ (min gran (nlbas - lbas) = 0 ∧ nlbas - lbas ≠ 0) := by omega
  rw [if_neg hnot]
  split at h
  · omega
  · omega

theorem unmapPieces_zero (gran fuel lba lbas : ℕ) : unmapPieces gran fuel lba 0 lbas = [] := by
  cases fuel with
  | zero => rfl
  | succ fuel => rfl

theorem tiles_unmapPieces (hgran : 0 < gran) (hle : lbas ≤ nlbas)
    (hfuel : nlbas + (if lbas = 0 ∧ nlbas ≠ 0 then 1 else 0) < fuel) :
    Tiles lba (lba + nlbas) (unmapPieces gran fuel lba nlbas lbas) := by
  induction fuel generalizing lba nlbas lbas with
  | zero => exact absurd hfuel (Nat.not_lt_zero _)
  | succ fuel ih =>
    rw [unmapPieces]
    split
    · rename_i hzero
      exact hzero ▸ rfl
    · rename_i hne
      refine ⟨rfl, ?_⟩
      have hrest : lba + nlbas = lba + lbas + (nlbas - lbas) := by omega
      rw [hrest]
      exact ih (Nat.min_le_right _ _) (pieces_fuel hgran hne hle hfuel)

theorem length_unmapPieces (hgran : 0 < gran) (hle : lbas ≤ nlbas)
    (hfuel : nlbas + (if lbas = 0 ∧ nlbas ≠ 0 then 1 else 0) < fuel) :
    (unmapPieces gran fuel lba nlbas lbas).length = pieceCount gran nlbas lbas := by
  induction fuel generalizing lba nlbas lbas with
  | zero => exact absurd hfuel (Nat.not_lt_zero _)
  | succ fuel ih =>
    rw [unmapPieces]
    split
    · rename_i hzero
      rw [pieceCount, if_pos hzero]
      rfl
    · rename_i hne
      rw [pieceCount_step hne (Or.inl hgran), List.length_cons,
        ih (Nat.min_le_right _ _) (pieces_fuel hgran hne hle hfuel), Nat.add_comm]

/-- If the range begins at a multiple of the granularity, so does every piece. -/
theorem unmapPieces_aligned (hgran : 0 < gran) (hdvd : gran ∣ lba) :
    ∀ p ∈ unmapPieces gran fuel lba nlbas (min gran nlbas), gran ∣ p.1 ∧ 0 < p.2 ∧ p.2 ≤ gran := by
  induction fuel generalizing lba nlbas with
  | zero => exact fun p hp => absurd hp (by simp [unmapPieces])
  | succ fuel ih =>
    rw [unmapPieces]
    split
    · exact fun p hp => absurd hp (by simp)
    · rename_i hne
      intro p hp
      rcases List.mem_cons.mp hp with rfl | hp
      · exact ⟨hdvd, by dsimp only; omega, Nat.min_le_left _ _⟩
      · rcases Nat.lt_or_ge nlbas gran with hlt | hge
        · -- nothing is left
          have hzero : nlbas - min gran nlbas = 0 := by omega
          rw [hzero] at hp
          cases fuel with
          | zero => exact absurd hp (by simp [unmapPieces])
          | succ fuel => exact absurd hp (by simp [unmapPieces])
        · rw [Nat.min_eq_left hge] at hp
          exact ih (Nat.dvd_add hdvd (dvd_refl gran)) p hp

end Pieces

/-! ### Dispatching the pieces -/

section Dispatch

variable {c : Request} {s : Life}

/-- Every dispatch succeeds: memory is allocated, and the handler accepts what it is given, without
calling back before it returns. -/
def Accepts : (o : Op) → Ans o → Prop
  | .alloc, a => a = true
  | .io .., a => a = .queued false
  | _, _ => True

/-- The state after the pieces, with their offsets and lengths in bytes, have been dispatched. -/
def Life.split (c : Request) (ps : List (ℕ × ℕ)) (s : Life) : Life :=
  { s with
    jobs := s.jobs ++ ps.map fun p => (decide (c.dev.handler.nrThreads = 0), .unmap p.1 p.2)
    calls := s.calls ++
      if c.dev.handler.nrThreads = 0 then ps.map fun p => .unmap c.dev p.1 p.2 else [] }

theorem Life.split_nil : s.split c [] = s := by
  rw [Life.split, List.map_nil, List.map_nil, ite_self, List.append_nil, List.append_nil]

theorem Life.split_cons (p : ℕ × ℕ) (ps : List (ℕ × ℕ)) :
    (s.split c [p]).split c ps = s.split c (p :: ps) := by
  simp only [Life.split]
  split
  · simp
  · simp

theorem wp_dispatch_unmap (hunmap : c.dev.handler.unmap = true) (offset length : ℕ) :
    Prog.wp lifeInterp Accepts (fun _ _ => False) (asyncHandleCmd c (.unmap offset length))
      (fun ret t => ret = .asyncHandled ∧ t = s.split c [(offset, length)]) s := by
  have hdefined : ((Job.unmap offset length).callout c).defined = true := hunmap
  rw [asyncHandleCmd]
  split
  · rename_i hthreads
    have hthreads : c.dev.handler.nrThreads = 0 := hthreads
    rw [Job.work, if_pos hdefined]
    intro a ha r t ht
    obtain rfl : a = .queued false := ha
    obtain ⟨rfl, rfl⟩ := Prod.mk.inj (Option.some.inj ht)
    refine ⟨rfl, ?_⟩
    rw [Life.split, if_pos hthreads, decide_eq_true hthreads]
    rfl
  · rename_i hthreads
    have hthreads : ¬ c.dev.handler.nrThreads = 0 := hthreads
    intro a ha r t ht
    obtain rfl : a = true := ha
    obtain ⟨rfl, rfl⟩ := Prod.mk.inj (Option.some.inj ht)
    intro a _ r t ht
    obtain ⟨-, rfl⟩ := Prod.mk.inj (Option.some.inj ht)
    refine ⟨rfl, ?_⟩
    rw [Life.split, if_neg hthreads, decide_eq_false hthreads, List.append_nil]
    rfl

/-- A piece in bytes. -/
def inBytes (blockSize : ℕ) (p : ℕ × ℕ) : ℕ × ℕ := (p.1 * blockSize, p.2 * blockSize)

/-- **The loop** dispatches the pieces, one after the other, and counts them. -/
theorem wp_splitUnmap (hunmap : c.dev.handler.unmap = true) (hgran : 0 < c.dev.geo.optUnmapGran)
    (hbs : 0 < c.dev.geo.blockSize) {fuel : ℕ} :
    ∀ {lba nlbas lbas refcount : ℕ} {ret : TcmuSts} {s : Life}, lbas ≤ nlbas →
      (lba + nlbas) * c.dev.geo.blockSize < 2 ^ 64 →
      nlbas + (if lbas = 0 ∧ nlbas ≠ 0 then 1 else 0) < fuel →
      Prog.wp lifeInterp Accepts (fun _ _ => False) (splitUnmap c fuel lba nlbas lbas refcount ret)
        (fun r t => r = (if nlbas = 0 then (ret, refcount) else (.asyncHandled, (refcount +
            (unmapPieces c.dev.geo.optUnmapGran fuel lba nlbas lbas).length) % 2 ^ 32)) ∧
          t = s.split c ((unmapPieces c.dev.geo.optUnmapGran fuel lba nlbas lbas).map
            (inBytes c.dev.geo.blockSize))) s := by
  induction fuel with
  | zero => exact fun _ _ hfuel => absurd hfuel (Nat.not_lt_zero _)
  | succ fuel ih =>
    intro lba nlbas lbas refcount ret s hle hlt hfuel
    rw [splitUnmap, unmapPieces]
    split
    · exact ⟨rfl, Life.split_nil.symm⟩
    · rename_i hne
      refine Prog.wp_ask_bind.mpr fun a ha r t ht => ?_
      obtain rfl : a = true := ha
      obtain ⟨rfl, rfl⟩ := Prod.mk.inj (Option.some.inj ht)
      refine Prog.wp_ask_bind.mpr fun a ha r t ht => ?_
      obtain rfl : a = true := ha
      obtain ⟨rfl, rfl⟩ := Prod.mk.inj (Option.some.inj ht)
      -- nothing wraps around
      have hmono : lba + lbas ≤ (lba + nlbas) * c.dev.geo.blockSize :=
        (Nat.add_le_add_left hle lba).trans (Nat.le_mul_of_pos_right _ hbs)
      have hoffset : lba * c.dev.geo.blockSize ≤ (lba + nlbas) * c.dev.geo.blockSize :=
        Nat.mul_le_mul_right _ (Nat.le_add_right _ _)
      have hlength : lbas * c.dev.geo.blockSize ≤ (lba + nlbas) * c.dev.geo.blockSize :=
        Nat.mul_le_mul_right _ (hle.trans (Nat.le_add_left _ _))
      have hrest : lba + lbas + (nlbas - lbas) = lba + nlbas := by omega
      rw [Nat.mod_eq_of_lt (hoffset.trans_lt hlt), Nat.mod_eq_of_lt (hlength.trans_lt hlt),
        Nat.mod_eq_of_lt (hmono.trans_lt hlt)]
      refine Prog.wp_seq (wp_dispatch_unmap hunmap _ _) ?_
      rintro ret u ⟨rfl, rfl⟩
      refine Prog.wp_mono
        (ih (Nat.min_le_right _ _) (hrest ▸ hlt) (pieces_fuel hgran hne hle hfuel)) ?_
      rintro r t ⟨rfl, rfl⟩
      refine ⟨?_, Life.split_cons _ _⟩
      rw [List.length_cons, Nat.mod_add_mod, Nat.add_right_comm]
      split
      · -- that was the last piece
        rename_i hzero
        rw [hzero, unmapPieces_zero]
        rfl
      · rfl

/-- The pieces of a range. -/
def Device.pieces (d : Device) (lba nlbas : ℕ) : List (ℕ × ℕ) :=
  unmapPieces d.optUnmapGran (nlbas + 2) lba nlbas (d.firstPiece lba nlbas)

/-- The first piece may be empty, and there is fuel for one more. -/
theorem firstPiece_fuel (d : Device) (lba nlbas : ℕ) :
    nlbas + (if d.firstPiece lba nlbas = 0 ∧ nlbas ≠ 0 then 1 else 0) < nlbas + 2 := by
  split
  · omega
  · omega

theorem Device.tiles_pieces {d : Device} (hgran : 0 < d.optUnmapGran) (lba nlbas : ℕ) :
    Tiles lba (lba + nlbas) (d.pieces lba nlbas) :=
  tiles_unmapPieces hgran (Nat.min_le_right _ _) (firstPiece_fuel d lba nlbas)

theorem Device.length_pieces {d : Device} (hgran : 0 < d.optUnmapGran) (lba nlbas : ℕ) :
    (d.pieces lba nlbas).length = d.pieceCount lba nlbas :=
  length_unmapPieces hgran (Nat.min_le_right _ _) (firstPiece_fuel d lba nlbas)

/-- **`align_and_split_unmap`** comes to an end. It has dispatched the pieces, and it has counted
them in 32 bits. -/
theorem exec_alignAndSplitUnmap (hunmap : c.dev.handler.unmap = true)
    (hgran : 0 < c.dev.geo.optUnmapGran) (hbs : 0 < c.dev.geo.blockSize) {lba nlbas : ℕ}
    (hlt : (lba + nlbas) * c.dev.geo.blockSize < 2 ^ 64) (refcount : ℕ) {env : Prog.Env Op Ans}
    (henv : ∀ n o, Accepts o (env n o)) (s : Life) :
    (alignAndSplitUnmap c lba nlbas refcount).exec lifeInterp env s =
      some (.ok (if nlbas = 0 then (.notHandled, refcount)
          else (.asyncHandled, (refcount + c.dev.geo.pieceCount lba nlbas) % 2 ^ 32)),
        s.split c ((c.dev.geo.pieces lba nlbas).map (inBytes c.dev.geo.blockSize))) := by
  obtain ⟨⟨x, t⟩, hexec⟩ := exec_lifeInterp (alignAndSplitUnmap c lba nlbas refcount) env s
  rw [← Device.length_pieces hgran]
  rcases Prog.exec_of_wp (wp_splitUnmap hunmap hgran hbs (Nat.min_le_right _ _) hlt
    (firstPiece_fuel _ _ _)) henv hexec with ⟨r, rfl, rfl, rfl⟩ | ⟨_, _, hfalse⟩
  · exact hexec
  · exact hfalse.elim

end Dispatch

/-! ### Tiling -/

theorem tiles_inBytes {blockSize : ℕ} {ps : List (ℕ × ℕ)} :
    ∀ {lo hi : ℕ}, Tiles lo hi ps →
      Tiles (lo * blockSize) (hi * blockSize) (ps.map (inBytes blockSize)) := by
  induction ps with
  | nil =>
    intro lo hi h
    exact congrArg (· * blockSize) h
  | cons p ps ih =>
    intro lo hi h
    refine ⟨congrArg (· * blockSize) h.1, ?_⟩
    have hrest := ih h.2
    rw [Nat.add_mul] at hrest
    exact hrest

/-- The pieces can be told from what has been dispatched. -/
theorem Life.split_injective {c : Request} {s : Life} {ps qs : List (ℕ × ℕ)}
    (h : s.split c ps = s.split c qs) : ps = qs := by
  have hjobs := List.append_cancel_left (congrArg Life.jobs h)
  refine List.map_injective_iff.mpr (fun p q hpq => ?_) hjobs
  simpa [Prod.ext_iff] using hpq

section Main

variable {c : Request} {lba nlbas refcount : ℕ} {env : Prog.Env Op Ans}

/-- What splitting a range is to achieve: it comes to an end, the pieces that have been dispatched
tile the range, in order, and `state->refcount` has grown by their number. -/
def SplitsRange (c : Request) (lba nlbas refcount : ℕ) (env : Prog.Env Op Ans) (s : Life) : Prop :=
  ∃ ps ret, (alignAndSplitUnmap c lba nlbas refcount).exec lifeInterp env s =
      some (.ok (ret, refcount + ps.length), s.split c ps) ∧
    Tiles (lba * c.dev.geo.blockSize) ((lba + nlbas) * c.dev.geo.blockSize) ps

/-- **Splitting tiles the range.** For every granularity and every alignment, when every dispatch
succeeds, splitting comes to an end, the pieces that have been dispatched tile the range, in order,
and `state->refcount` has grown by their number, if and only if the sub-commands can be counted in
32 bits. -/
theorem split_tiles_iff (hunmap : c.dev.handler.unmap = true)
    (hgran : 1 ≤ c.dev.geo.optUnmapGran) (hbs : 0 < c.dev.geo.blockSize)
    (hlt : (lba + nlbas) * c.dev.geo.blockSize < 2 ^ 64) (hrefcount : refcount < 2 ^ 32)
    (henv : ∀ n o, Accepts o (env n o)) (s : Life) :
    SplitsRange c lba nlbas refcount env s ↔
      refcount + c.dev.geo.pieceCount lba nlbas < 2 ^ 32 := by
  have hexec := exec_alignAndSplitUnmap hunmap hgran hbs hlt refcount henv s
  have hlength := Device.length_pieces hgran lba nlbas
  constructor
  · rintro ⟨ps, ret, hps, -⟩
    obtain ⟨hcount, hsplit⟩ := Prod.mk.inj (Option.some.inj (hps.symm.trans hexec))
    rw [Life.split_injective hsplit, List.length_map, hlength] at hcount
    by_cases hzero : nlbas = 0
    · rwa [hzero, Device.pieceCount, pieceCount, if_pos rfl, Nat.add_zero]
    · rw [if_neg hzero, Except.ok.injEq, Prod.mk.injEq] at hcount
      exact hcount.2 ▸ Nat.mod_lt _ (by norm_num)
  · intro hfits
    refine ⟨_, if nlbas = 0 then .notHandled else .asyncHandled, ?_,
      tiles_inBytes (Device.tiles_pieces hgran lba nlbas)⟩
    rw [hexec, List.length_map, hlength, Nat.mod_eq_of_lt hfits]
    split
    · rename_i hzero
      rw [hzero, Device.pieceCount, pieceCount, if_pos rfl]
      rfl
    · rfl

end Main

/-- A device with an `unmap` callout, blocks of one byte and the given granularity. -/
def unmapDev (gran : ℕ) : TcmuDev :=
  ⟨0, ⟨1, 2 ^ 33, gran, gran, 0⟩, { allocHandler with unmap := true }, none⟩

/-- A command to the device. -/
def unmapTo (d : TcmuDev) : Request :=
  { dev := d
    ctx := [d]
    cmd := ⟨0, some [0x42, 0, 0, 0, 0, 0, 0, 0, 24, 0], [⟨0x2000, 24⟩], 1, []⟩
    cdb := [0x42, 0, 0, 0, 0, 0, 0, 0, 24, 0]
    hcdb := rfl }

theorem calm_accepts (mem : Mem) (n : ℕ) (o : Op) : Accepts o (calm mem n o) := by
  cases o with
  | alloc => rfl
  | io => rfl
  | _ => trivial

/-- Ten blocks from block 3 on, with a granularity of four blocks. -/
theorem split_tiles_ten :
    SplitsRange (unmapTo (unmapDev 4)) 3 10 0 (calm fun _ => 0) Life.init :=
  (split_tiles_iff rfl (by decide) (by decide) (by decide) (by decide) (calm_accepts fun _ => 0)
    Life.init).mpr (by decide)

/-- `WRITE SAME(16)` of 2 ^ 32 - 1 blocks from block 1 on, with the bit that asks for unmapping, to
a device with blocks of 512 bytes on which every block is unmapped by itself. -/
def wholeWritesame : Request :=
  { unmapTo { unmapDev 1 with geo := ⟨512, 2 ^ 33, 1, 1, 0⟩ } with
    cmd := ⟨0, some [0x93, 0x08, 0, 0, 0, 0, 0, 0, 0, 1, 0xff, 0xff, 0xff, 0xff, 0, 0],
      [⟨0x2000, 512⟩], 1, []⟩
    cdb := [0x93, 0x08, 0, 0, 0, 0, 0, 0, 0, 1, 0xff, 0xff, 0xff, 0xff, 0, 0]
    hcdb := rfl }

/-- When the count is 0, the state is freed. -/
theorem exec_handleUnmapInWritesame {c : Request} {mem : Mem} {s t : Life} {ret : TcmuSts}
    (h : (alignAndSplitUnmap c (lbaOf c.cdb) (xferLengthOf c.cdb) 0).exec lifeInterp (calm mem) s =
      some (.ok (ret, 0), t)) :
    (handleUnmapInWritesame c).exec lifeInterp (calm mem) s =
      some (.ok ret, { t with unmap := none }) := by
  obtain ⟨n, hn⟩ := @Prog.exec_bind_of_ok _ _ _ _ TcmuSts _ _ _ _ _ _ _ h
  change Prog.exec lifeInterp
    (alignAndSplitUnmap c (lbaOf c.cdb) (xferLengthOf c.cdb) 0 >>= _) (calm mem) s = _
  rw [hn]
  rfl

/-- **The count wraps around.** The command passes its checks. An empty piece and one for each block
are dispatched, `state->refcount` is 0 again, and `handle_unmap_in_writesame` frees the state. The
first callback looks at it. -/
theorem split_refcount_wraps :
    handleWritesameCheck wholeWritesame = .ok ∧ wholeWritesame.writesByUnmap = true ∧
      ∃ ps, ps.length = 2 ^ 32 ∧
        (alignAndSplitUnmap wholeWritesame (lbaOf wholeWritesame.cdb)
            (xferLengthOf wholeWritesame.cdb) 0).exec lifeInterp (calm fun _ => 0) Life.init =
          some (.ok (.asyncHandled, 0), Life.init.split wholeWritesame ps) ∧
        (handleUnmapInWritesame wholeWritesame).exec lifeInterp (calm fun _ => 0) Life.init =
          some (.ok .asyncHandled, Life.init.split wholeWritesame ps) ∧
        (handleUnmapCbk .ok).exec lifeInterp (calm fun _ => 0)
            (Life.init.split wholeWritesame ps) =
          some (.error .useAfterFree, Life.init.split wholeWritesame ps) ∧
        ¬ SplitsRange wholeWritesame (lbaOf wholeWritesame.cdb)
          (xferLengthOf wholeWritesame.cdb) 0 (calm fun _ => 0) Life.init := by
  have hcount : wholeWritesame.dev.geo.pieceCount (lbaOf wholeWritesame.cdb)
      (xferLengthOf wholeWritesame.cdb) = 2 ^ 32 := by decide
  have hlt : (lbaOf wholeWritesame.cdb + xferLengthOf wholeWritesame.cdb) *
      wholeWritesame.dev.geo.blockSize < 2 ^ 64 := by decide
  have hexec := exec_alignAndSplitUnmap (c := wholeWritesame) rfl (by decide) (by decide) hlt 0
    (calm_accepts fun _ => 0) Life.init
  rw [hcount, if_neg (by decide)] at hexec
  refine ⟨by decide, rfl, _, ?_, hexec, ?_, rfl, ?_⟩
  · rw [List.length_map, Device.length_pieces (by decide), hcount]
  · exact exec_handleUnmapInWritesame hexec
  · rw [split_tiles_iff rfl (by decide) (by decide) (by decide) (by decide)
      (calm_accepts fun _ => 0) Life.init, hcount]
    decide

/-! ### Alignment -/

/-- The pieces, in bytes, are not empty, have `gran` blocks at most, and all but the first begin at
a multiple of `gran` blocks. -/
def AlignedPieces (gran blockSize : ℕ) (ps : List (ℕ × ℕ)) : Prop :=
  (∀ p ∈ ps, 0 < p.2 ∧ p.2 ≤ gran * blockSize) ∧ ∀ p ∈ ps.tail, gran * blockSize ∣ p.1

instance (gran blockSize : ℕ) (ps : List (ℕ × ℕ)) : Decidable (AlignedPieces gran blockSize ps) :=
  inferInstanceAs (Decidable (_ ∧ _))

section Aligned

variable {d : Device} {size lba nlbas : ℕ}

theorem sub64_zero_one : sub64 0 1 = 2 ^ 64 - 1 := by decide

/-- With all bits in the mask, the start of the range is subtracted from the granularity. -/
theorem firstPiece_eq (hd : d.Added size) (hlba : lba < 2 ^ 64) (nlbas : ℕ) :
    d.firstPiece lba nlbas = min (sub64 d.maxXferLen lba) nlbas := by
  rw [Device.firstPiece, hd.unmapGranAlign_eq, hd.optUnmapGran_eq, sub64_zero_one,
    Nat.and_two_pow_sub_one_eq_mod, Nat.mod_eq_of_lt hlba]

theorem pieces_eq (hn : 1 ≤ nlbas) : d.pieces lba nlbas = (lba, d.firstPiece lba nlbas) ::
    unmapPieces d.optUnmapGran (nlbas + 1) (lba + d.firstPiece lba nlbas)
      (nlbas - d.firstPiece lba nlbas)
      (min d.optUnmapGran (nlbas - d.firstPiece lba nlbas)) := by
  rw [Device.pieces, unmapPieces, if_neg (by omega)]

/-- The same in blocks. -/
theorem alignedPieces_cons {gran blockSize : ℕ} (hbs : 0 < blockSize) (p : ℕ × ℕ)
    (ps : List (ℕ × ℕ)) :
    AlignedPieces gran blockSize ((p :: ps).map (inBytes blockSize)) ↔
      (0 < p.2 ∧ p.2 ≤ gran) ∧ ∀ q ∈ ps, gran ∣ q.1 ∧ 0 < q.2 ∧ q.2 ≤ gran := by
  have hpos : ∀ n, 0 < n * blockSize ↔ 0 < n := fun n => Nat.mul_pos_iff_of_pos_right hbs
  have hle : ∀ n, n * blockSize ≤ gran * blockSize ↔ n ≤ gran :=
    fun n => Nat.mul_le_mul_right_iff hbs
  have hdvd : ∀ n, gran * blockSize ∣ n * blockSize ↔ gran ∣ n :=
    fun n => Nat.mul_dvd_mul_iff_right hbs
  rw [AlignedPieces, List.map_cons, List.tail_cons, List.forall_mem_cons, List.forall_mem_map,
    List.forall_mem_map]
  simp only [inBytes, hpos, hle, hdvd]
  constructor
  · rintro ⟨⟨hp, hps⟩, hps'⟩
    exact ⟨hp, fun q hq => ⟨hps' q hq, hps q hq⟩⟩
  · rintro ⟨hp, hps⟩
    exact ⟨⟨hp, fun q hq => (hps q hq).2⟩, fun q hq => (hps q hq).1⟩

/-- **Where the pieces are aligned.** -/
theorem alignedPieces_iff (hd : d.Added size) (hmax : 1 ≤ d.maxXferLen)
    (hlt : (lba + nlbas) * d.blockSize < 2 ^ 64) (hn : 1 ≤ nlbas) :
    AlignedPieces d.maxXferLen d.blockSize ((d.pieces lba nlbas).map (inBytes d.blockSize)) ↔
      lba < d.maxXferLen ∨ d.maxXferLen < lba ∧ nlbas ≤ d.maxXferLen := by
  have hgran := hd.maxXferLen_lt
  have hfit : lba + nlbas < 2 ^ 64 := (Nat.le_mul_of_pos_right _ hd.blockSize_pos).trans_lt hlt
  have hfirst := firstPiece_eq hd (by omega : lba < 2 ^ 64) nlbas
  rw [pieces_eq hn, alignedPieces_cons hd.blockSize_pos, hd.optUnmapGran_eq]
  dsimp only
  rcases Nat.lt_trichotomy lba d.maxXferLen with hless | heq | hmore
  · -- the first piece ends at the granularity, or it is the only one
    rw [sub64_eq hless.le (by omega)] at hfirst
    refine iff_of_true ⟨by omega, ?_⟩ (Or.inl hless)
    rcases Nat.lt_or_ge nlbas (d.maxXferLen - lba) with hshort | hlong
    · have hzero : nlbas - d.firstPiece lba nlbas = 0 := by omega
      rw [hzero, unmapPieces_zero]
      exact fun q hq => absurd hq (by simp)
    · have hend : lba + d.firstPiece lba nlbas = d.maxXferLen := by omega
      rw [hend]
      exact unmapPieces_aligned hmax (dvd_refl _)
  · -- the first piece is empty
    rw [heq, sub64_eq le_rfl (by omega), Nat.sub_self, Nat.zero_min] at hfirst
    refine iff_of_false ?_ (by omega)
    rw [← heq] at hfirst
    rintro ⟨⟨hpos, -⟩, -⟩
    omega
  · -- the length wraps around, and the first piece is the whole range
    have hwrap : sub64 d.maxXferLen lba = 2 ^ 64 + d.maxXferLen - lba := by
      rw [sub64, Nat.mod_eq_of_lt (by omega), Nat.add_comm]
    have hall : d.firstPiece lba nlbas = nlbas := by omega
    rw [hall, Nat.sub_self, unmapPieces_zero]
    constructor
    · rintro ⟨⟨-, hle⟩, -⟩
      exact Or.inr ⟨hmore, hle⟩
    · intro hor
      exact ⟨by omega, fun q hq => absurd hq (by simp)⟩

/-- **Splitting aligns the pieces.** On a device as `dev_added` leaves it, when every dispatch
succeeds, the pieces that are dispatched are not empty, no longer than the granularity, and aligned
from the second on, if and only if the range begins before the first multiple of the granularity, or
behind it and is no longer than the granularity. -/
theorem split_aligned_iff {c : Request} (hd : c.dev.geo.Added size)
    (hmax : 1 ≤ c.dev.geo.maxXferLen) (hunmap : c.dev.handler.unmap = true)
    (hlt : (lba + nlbas) * c.dev.geo.blockSize < 2 ^ 64) (hn : 1 ≤ nlbas)
    {env : Prog.Env Op Ans} (henv : ∀ n o, Accepts o (env n o)) (refcount : ℕ) (s : Life) :
    (∃ ps r, (alignAndSplitUnmap c lba nlbas refcount).exec lifeInterp env s =
        some (.ok r, s.split c ps) ∧
      AlignedPieces c.dev.geo.optUnmapGran c.dev.geo.blockSize ps) ↔
      lba < c.dev.geo.optUnmapGran ∨
        c.dev.geo.optUnmapGran < lba ∧ nlbas ≤ c.dev.geo.optUnmapGran := by
  have hgran := hd.optUnmapGran_eq
  have hexec := exec_alignAndSplitUnmap hunmap (hgran ▸ hmax) hd.blockSize_pos hlt refcount henv s
  rw [hgran, ← alignedPieces_iff hd hmax hlt hn]
  constructor
  · rintro ⟨ps, r, hps, haligned⟩
    have heq := Option.some.inj (hps.symm.trans hexec)
    rwa [← Life.split_injective (Prod.mk.inj heq).2]
  · intro haligned
    exact ⟨_, _, hexec, haligned⟩

end Aligned

theorem unmapDev_added {gran : ℕ} (h : gran < 2 ^ 31) : (unmapDev gran).geo.Added (2 ^ 33) :=
  ⟨Nat.one_pos, Nat.one_lt_two_pow (by decide), by decide, (Nat.div_one _).symm, h, rfl, rfl⟩

/-- Ten blocks from block 3 on are cut at blocks 4, 8 and 12. -/
theorem split_aligned_ten : ∃ ps r,
    (alignAndSplitUnmap (unmapTo (unmapDev 4)) 3 10 0).exec lifeInterp (calm fun _ => 0) Life.init =
        some (.ok r, Life.init.split (unmapTo (unmapDev 4)) ps) ∧ AlignedPieces 4 1 ps :=
  (split_aligned_iff (c := unmapTo (unmapDev 4)) (unmapDev_added (by decide)) (by decide) rfl
    (by decide) (by decide) (calm_accepts fun _ => 0) 0 Life.init).mpr (Or.inl (by decide))

/-- If the range begins at block 4, the first piece is empty; if it begins behind, it is not cut. -/
theorem split_not_aligned :
    (alignAndSplitUnmap (unmapTo (unmapDev 4)) 4 4 0).exec lifeInterp (calm fun _ => 0) Life.init =
        some (.ok (.asyncHandled, 2), Life.init.split (unmapTo (unmapDev 4)) [(4, 0), (4, 4)]) ∧
      ¬ AlignedPieces 4 1 [(4, 0), (4, 4)] ∧
    (alignAndSplitUnmap (unmapTo (unmapDev 4)) 5 100 0).exec lifeInterp (calm fun _ => 0)
        Life.init =
        some (.ok (.asyncHandled, 1), Life.init.split (unmapTo (unmapDev 4)) [(5, 100)]) ∧
      ¬ AlignedPieces 4 1 [(5, 100)] :=
  ⟨exec_alignAndSplitUnmap (c := unmapTo (unmapDev 4)) rfl (by decide) (by decide) (by decide) 0
      (calm_accepts fun _ => 0) Life.init, by decide,
    exec_alignAndSplitUnmap (c := unmapTo (unmapDev 4)) rfl (by decide) (by decide) (by decide) 0
      (calm_accepts fun _ => 0) Life.init, by decide⟩

end Tcmu

end LioProject
