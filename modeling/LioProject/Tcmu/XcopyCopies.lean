import LioProject.Tcmu.XcopyRun

/-!
# What is copied

A segment that `handle_xcopy` has accepted is copied chunk by chunk (`Segment.oneByOne_start`). Here
this is put behind the parser, and compared with what the segment says: the blocks of the one range
are read, each once and in order, and written to the other range.

`iov_len` is computed for a whole chunk and never again. If the number of blocks is not a multiple
of it, the last read and the last write go beyond the ranges. This, and numbers of bytes that do not
fit, are all that can go wrong (`xcopy_copies_iff`).
-/

namespace LioProject

namespace Tcmu

/-! ### Acceptance -/

/-- `handle_xcopy` accepts a segment: the list is not too short, there is memory, and
`xcopy_parse_parameter_list` returns `TCMU_STS_OK`. -/
structure Request.AcceptsCopy (c : Request) (mem : Mem) (f : Formatting) (env : Prog.Env Op Ans)
    (src dst : TcmuDev) (x : XcopyList) : Prop where
  length : 16 ≤ xferLengthOf c.cdb
  alloc : env 0 .alloc = true
  parsed : ∃ s, (xcopyParseParameterList c).exec (xferInterp c) (fun n => env (n + 1))
    (Xfer.init mem f) = some (.ok (.ok (src, dst, x)), s)

/-- The memory after `par` has been allocated. -/
def Request.parMem (c : Request) (mem : Mem) (par : ℕ) : Mem :=
  mem.store par (List.replicate (xferLengthOf c.cdb) 0)

/-- The list is at address `par`, and it has been accepted. -/
structure Request.ParsedAt (c : Request) (mem : Mem) (par : ℕ) (src dst : TcmuDev)
    (x : XcopyList) : Prop where
  fresh : c.Fresh par (xferLengthOf c.cdb)
  list : xcopyParseList c.dev c.ctx
    (copyParam (c.parMem mem par) par (xferLengthOf c.cdb) c.cmd.iov) par (xferLengthOf c.cdb) =
      .ok x
  src_eq : x.srcDev = some src
  dst_eq : x.dstDev = some dst
  blockSize_eq : src.geo.blockSize = dst.geo.blockSize
  src_le : (x.srcLba + x.lbaCnt) % 2 ^ 64 ≤ src.geo.numLbas
  dst_le : (x.dstLba + x.lbaCnt) % 2 ^ 64 ≤ dst.geo.numLbas

section Parse

variable {c : Request} {mem : Mem} {f : Formatting} {env : Prog.Env Op Ans} {src dst : TcmuDev}
  {x : XcopyList} {par : ℕ}

theorem xferInterp_calloc (hfresh : c.Fresh par (xferLengthOf c.cdb)) :
    xferInterp c (Xfer.init mem f) (.calloc (xferLengthOf c.cdb)) (some par) =
      some (some par, Xfer.init (c.parMem mem par) f) := if_pos hfresh

/-- What `xcopy_parse_parameter_list` does with a list that is accepted. -/
theorem Request.ParsedAt.exec_bind {α : Type} (h : c.ParsedAt mem par src dst x)
    (hpar : env 0 (.calloc (xferLengthOf c.cdb)) = some par)
    (F : Except TcmuSts (TcmuDev × TcmuDev × XcopyList) → Daemon α) :
    (xcopyParseParameterList c >>= F).exec (xferInterp c) env (Xfer.init mem f) =
      (F (.ok (src, dst, x))).exec (xferInterp c) (fun n => env (n + 2))
        (Xfer.init (c.parMem mem par) f) := by
  have hcalloc : xferInterp c (Xfer.init mem f) (.calloc (xferLengthOf c.cdb))
      (env 0 (.calloc (xferLengthOf c.cdb))) =
        some (some par, Xfer.init (c.parMem mem par) f) := by
    rw [hpar]
    exact xferInterp_calloc h.fresh
  rw [xcopyParseParameterList, Prog.bind_assoc, Prog.exec_ask_bind hcalloc]
  dsimp only
  have hmem : xferInterp c (Xfer.init (c.parMem mem par) f) .mem (env (0 + 1) .mem) =
      some (c.parMem mem par, Xfer.init (c.parMem mem par) f) := rfl
  rw [Prog.bind_assoc, Prog.exec_ask_bind hmem, h.list]
  dsimp only
  rw [h.src_eq, h.dst_eq]
  dsimp only
  rw [if_neg (not_not.mpr h.blockSize_eq), if_neg (Nat.not_lt.mpr h.src_le),
    if_neg (Nat.not_lt.mpr h.dst_le)]
  rfl

theorem Request.AcceptsCopy.parsedAt (h : c.AcceptsCopy mem f env src dst x) :
    ∃ par, env 1 (.calloc (xferLengthOf c.cdb)) = some par ∧ c.ParsedAt mem par src dst x := by
  obtain ⟨s, hexec⟩ := h.parsed
  rw [xcopyParseParameterList] at hexec
  cases hpar : env 1 (.calloc (xferLengthOf c.cdb)) with
  | none =>
    have hcalloc : xferInterp c (Xfer.init mem f) (.calloc (xferLengthOf c.cdb))
        (env (0 + 1) (.calloc (xferLengthOf c.cdb))) =
          some (none, (Xfer.init mem f).note .nomem) := by
      rw [hpar]
      rfl
    rw [Prog.exec_ask_bind hcalloc] at hexec
    exact absurd hexec (by simp [Prog.exec, pure])
  | some par =>
    have hfresh : c.Fresh par (xferLengthOf c.cdb) := by
      by_contra hnot
      have hcalloc : xferInterp c (Xfer.init mem f) (.calloc (xferLengthOf c.cdb))
          (env (0 + 1) (.calloc (xferLengthOf c.cdb))) = none := by
        rw [hpar]
        exact if_neg hnot
      change Prog.exec _ (Prog.op _ _) _ _ = _ at hexec
      rw [Prog.exec, hcalloc] at hexec
      cases hexec
    have hcalloc : xferInterp c (Xfer.init mem f) (.calloc (xferLengthOf c.cdb))
        (env (0 + 1) (.calloc (xferLengthOf c.cdb))) =
          some (some par, Xfer.init (c.parMem mem par) f) := by
      rw [hpar]
      exact xferInterp_calloc hfresh
    have hmem : xferInterp c (Xfer.init (c.parMem mem par) f) .mem (env (0 + 1 + 1) .mem) =
        some (c.parMem mem par, Xfer.init (c.parMem mem par) f) := rfl
    rw [Prog.exec_ask_bind hcalloc] at hexec
    dsimp only at hexec
    rw [Prog.exec_ask_bind hmem] at hexec
    refine ⟨par, rfl, ?_⟩
    cases hlist : xcopyParseList c.dev c.ctx
        (copyParam (c.parMem mem par) par (xferLengthOf c.cdb) c.cmd.iov) par
          (xferLengthOf c.cdb) with
    | error sts =>
      rw [hlist] at hexec
      exact absurd hexec (by simp [Prog.exec, pure])
    | ok y =>
      rw [hlist] at hexec
      dsimp only at hexec
      split at hexec
      · rename_i src' dst' hsrc hdst
        repeat' split at hexec
        · exact absurd hexec (by simp [Prog.exec, pure])
        · exact absurd hexec (by simp [Prog.exec, pure])
        · exact absurd hexec (by simp [Prog.exec, pure])
        · rename_i hbs hsrcLe hdstLe
          have hval := (Prod.mk.inj (Option.some.inj hexec)).1
          obtain ⟨rfl, rfl, rfl⟩ : src' = src ∧ dst' = dst ∧ y = x := by
            simpa using Except.ok.inj (Except.ok.inj hval)
          exact ⟨hfresh, hlist, hsrc, hdst, not_not.mp hbs, Nat.not_lt.mp hsrcLe,
            Nat.not_lt.mp hdstLe⟩
      · exact absurd hexec (by simp [Prog.exec])

/-- The first answers decide whether the segment is accepted. -/
theorem Request.ParsedAt.accepts (h : c.ParsedAt mem par src dst x)
    (hlength : 16 ≤ xferLengthOf c.cdb) (halloc : env 0 .alloc = true)
    (hpar : env 1 (.calloc (xferLengthOf c.cdb)) = some par) :
    c.AcceptsCopy mem f env src dst x := by
  refine ⟨hlength, halloc, Xfer.init (c.parMem mem par) f, ?_⟩
  have hexec : ((xcopyParseParameterList c) >>= pure).exec (xferInterp c) (fun n => env (n + 1))
      (Xfer.init mem f) = _ := h.exec_bind hpar pure
  rw [Prog.bind_pure] at hexec
  exact hexec

/-- One of the devices is the one that the command was sent to. -/
theorem own_of_parseList {dev : TcmuDev} {ctx : List TcmuDev} {a n : ℕ}
    (h : xcopyParseList dev ctx mem a n = .ok x) (hsrc : x.srcDev = some src)
    (hdst : x.dstDev = some dst) : src = dev ∨ dst = dev := by
  rw [xcopyParseList] at h
  dsimp only at h
  repeat' split at h
  · exact absurd h (by simp)
  · exact absurd h (by simp)
  · exact absurd h (by simp)
  · exact absurd h (by simp)
  · exact absurd h (by simp)
  · obtain ⟨y, hy, h⟩ := bind_eq_ok h
    have hy : y.Known [dev] := known_parseSegmentDescs hy
    rw [xcopyParseTargetDescs] at h
    split at h
    · exact absurd h (by simp)
    · obtain ⟨z, hz, h⟩ := bind_eq_ok h
      obtain ⟨w, hw, h⟩ := bind_eq_ok h
      -- so far there is no other device
      have hown : w.Known [dev] :=
        known_parseTargetDesc (known_parseTargetDesc hy List.mem_cons_self hz) List.mem_cons_self hw
      split at h
      · split at h
        · exact absurd h (by simp)
        · rw [← Except.ok.inj h] at hsrc
          exact Or.inl (List.mem_singleton.mp (hown.1 src hsrc))
      · split at h
        · split at h
          · exact absurd h (by simp)
          · rw [← Except.ok.inj h] at hdst
            exact Or.inr (List.mem_singleton.mp (hown.2 dst hdst))
        · rw [← Except.ok.inj h] at hsrc
          exact Or.inl (List.mem_singleton.mp (hown.1 src hsrc))

/-- The blocks of both devices are as large as those of the device that the command was sent to. -/
theorem Request.ParsedAt.blockSizes (h : c.ParsedAt mem par src dst x) :
    src.geo.blockSize = c.dev.geo.blockSize ∧ dst.geo.blockSize = c.dev.geo.blockSize := by
  rcases own_of_parseList h.list h.src_eq h.dst_eq with hown | hown
  · exact ⟨by rw [hown], by rw [← h.blockSize_eq, hown]⟩
  · exact ⟨by rw [h.blockSize_eq, hown], by rw [hown]⟩

end Parse

/-! ### The segment -/

/-- The segment that has been parsed. -/
structure Segment.Of {c : Request} (g : Segment c) (src dst : TcmuDev) (x : XcopyList) : Prop where
  src_eq : g.src = src
  dst_eq : g.dst = dst
  srcLba_eq : g.srcLba = x.srcLba
  dstLba_eq : g.dstLba = x.dstLba
  lbaCnt_eq : g.lbaCnt = x.lbaCnt

section Segments

variable {c : Request} {mem : Mem} {f : Formatting} {env : Prog.Env Op Ans} {src dst : TcmuDev}
  {x : XcopyList} {par : ℕ} {g : Segment c}

theorem Request.ParsedAt.segment (h : c.ParsedAt mem par src dst x) (hcnt : 0 < x.lbaCnt)
    (hsrc : 1 ≤ src.geo.maxXferLen) (hdst : 1 ≤ dst.geo.maxXferLen)
    (hread : src.handler.read = true) (hwrite : dst.handler.write = true) :
    ∃ g : Segment c, g.Of src dst x := by
  obtain ⟨hsrcSize, hdstSize⟩ := h.blockSizes
  obtain ⟨-, hseg, -⟩ := parseList_ok h.list
  have hsrcLba : x.srcLba < 2 ^ 64 := by
    rw [hseg.srcLba_eq]
    exact (beAt_lt ..).trans_eq (by norm_num)
  have hdstLba : x.dstLba < 2 ^ 64 := by
    rw [hseg.dstLba_eq]
    exact (beAt_lt ..).trans_eq (by norm_num)
  have hcntLt := (lbaCnt_lt_of_parseList h.list).trans (show 2 ^ 16 < 2 ^ 32 by norm_num)
  exact ⟨⟨src, dst, x.srcLba, x.dstLba, x.lbaCnt, hsrcSize, hdstSize, hsrc, hdst, hread, hwrite,
    hcnt, hcntLt, hsrcLba, hdstLba⟩, rfl, rfl, rfl, rfl, rfl⟩

/-- A buffer is allocated, and a chunk is read into it. -/
def beginCopy (c : Request) (p : ℕ × (ℕ → Xcopy)) : Daemon TcmuSts := do
  match ← ask (.calloc p.1) with
  | none => pure .noResource
  | some buf => asyncHandleCmd c (.xcopyRead (p.2 buf))

/-- What is done with a buffer depends on the address only. -/
theorem bind_calloc_congr {α : Type} {n : ℕ} {F G : Option ℕ → Daemon α} (hnone : F none = G none)
    (hsome : ∀ a, F (some a) = G (some a)) :
    ((ask (.calloc n) : Daemon (Option ℕ)) >>= F) =
      ((ask (.calloc n) : Daemon (Option ℕ)) >>= G) := by
  refine congrArg (_ >>= ·) (funext fun a => ?_)
  cases a with
  | none => exact hnone
  | some a => exact hsome a

/-- The first chunk is that of `handle_xcopy`. -/
theorem Segment.Of.start_eq (hg : g.Of src dst x) :
    g.start = beginCopy c
      (min (min (min src.geo.maxXferLen dst.geo.maxXferLen) 1024) x.lbaCnt *
          c.dev.geo.blockSize % 2 ^ 32,
        fun buf => ⟨src, dst, x.srcLba, x.dstLba, x.lbaCnt,
          min (min (min src.geo.maxXferLen dst.geo.maxXferLen) 1024) x.lbaCnt, buf,
          min (min (min src.geo.maxXferLen dst.geo.maxXferLen) 1024) x.lbaCnt *
            c.dev.geo.blockSize % 2 ^ 32⟩) := by
  have hbytes : g.bytes = min (min (min src.geo.maxXferLen dst.geo.maxXferLen) 1024) x.lbaCnt *
      c.dev.geo.blockSize % 2 ^ 32 := by
    rw [Segment.bytes, Segment.step, hg.src_eq, hg.dst_eq, hg.lbaCnt_eq]
  have hstart : g.start = beginCopy c (g.bytes, fun buf => g.chunk buf 0) :=
    bind_calloc_congr rfl fun _ => rfl
  rw [hstart]
  refine congrArg (beginCopy c) (Prod.ext hbytes (funext fun buf => ?_))
  change g.chunk buf 0 = _
  rw [Segment.chunk, Nat.zero_mul, Nat.add_zero, Nat.add_zero, Nat.sub_zero,
    Nat.mod_eq_of_lt g.srcLba_lt, Nat.mod_eq_of_lt g.dstLba_lt, Nat.min_eq_right g.step_le, hbytes,
    Segment.step, hg.src_eq, hg.dst_eq, hg.lbaCnt_eq, hg.srcLba_eq, hg.dstLba_eq]

/-- **Behind the parser** `handle_xcopy` copies the segment. -/
theorem exec_handleXcopy (hlength : 16 ≤ xferLengthOf c.cdb) (halloc : env 0 .alloc = true)
    (hpar : env 1 (.calloc (xferLengthOf c.cdb)) = some par)
    (h : c.ParsedAt mem par src dst x) (hg : g.Of src dst x) :
    (answer (handleXcopy c)).exec (xferInterp c) env (Xfer.init mem f) =
      (answer g.start).exec (xferInterp c) (fun n => env (n + 3))
        (Xfer.init (c.parMem mem par) f) := by
  have hfirst : xferInterp c (Xfer.init mem f) .alloc (env 0 .alloc) =
      some (true, Xfer.init mem f) := by
    rw [halloc]
    rfl
  have hcnt : x.lbaCnt ≠ 0 := by
    rw [← hg.lbaCnt_eq]
    exact g.lbaCnt_pos.ne'
  rw [answer, handleXcopy]
  dsimp only
  rw [if_neg (by omega), if_neg (by omega), Prog.bind_assoc, Prog.exec_ask_bind hfirst,
    if_neg (by simp), Prog.bind_assoc, h.exec_bind hpar]
  dsimp only
  rw [if_neg hcnt, hg.start_eq]
  exact congrArg (fun p => (answer p).exec (xferInterp c) (fun n => env (n + 3))
    (Xfer.init (c.parMem mem par) f)) (bind_calloc_congr rfl fun _ => rfl)

end Segments

/-! ### Runs behind the beginning -/

section Runs

variable {c : Request} {p q : Daemon TcmuSts} {mem : Mem} {f : Formatting} {Q : Under}
  {E : Formatting → List Happening → Prop} {s : Xfer}

/-- When the handler of a command has been called, it does not matter any more which it was. -/
theorem xferStep_of_begun (h : s.begun = true) (e : XferEvent) :
    xferStep c p s e = xferStep c q s e := by
  cases e with
  | start env => simp only [xferStep, h, if_true]
  | work i env => rfl
  | touch i a bs left => rfl
  | done i ret env => rfl

theorem run_eq_of_orderly (h : OneByOne c q mem f Q E) : ∀ {es : List XferEvent} {s : Xfer},
    s.Orderly Q E → run (xferStep c p) s es = run (xferStep c q) s es
  | [], _, _ => rfl
  | e :: es, s, hs => by
    rw [run_cons, run_cons, xferStep_of_begun hs.2.1 (q := q) e]
    cases hstep : xferStep c q s e with
    | none => rfl
    | some t => exact run_eq_of_orderly h (h.step (Or.inr hs) hstep)

end Runs

/-! ### Ranges -/

namespace Segment

section Ranges

variable {c : Request} {g : Segment c} {lba n size : ℕ}

/-- The chunks follow each other if their bytes fit. -/
theorem tiles_ranges (hfits : g.step * c.dev.geo.blockSize < 2 ^ 32)
    (hpos : 0 < c.dev.geo.blockSize) (hend : ∀ i < n, (lba + i * g.step) * c.dev.geo.blockSize <
      2 ^ 64) :
    Tiles (lba * c.dev.geo.blockSize) ((lba + n * g.step) * c.dev.geo.blockSize)
      (g.ranges lba n) := by
  induction n with
  | zero =>
    rw [Nat.zero_mul, Nat.add_zero]
    rfl
  | succ n ih =>
    have hlast := hend n (Nat.lt_succ_self n)
    have hlt : lba + n * g.step < 2 ^ 64 := (Nat.le_mul_of_pos_right _ hpos).trans_lt hlast
    rw [ranges_succ, Nat.mod_eq_of_lt hlt, Nat.mul_comm c.dev.geo.blockSize,
      Nat.mod_eq_of_lt hlast]
    refine tiles_concat.mpr ⟨ih fun i hi => hend i (hi.trans (Nat.lt_succ_self n)), ?_⟩
    rw [bytes, Nat.mod_eq_of_lt hfits, ← Nat.add_mul, Nat.succ_mul, Nat.add_assoc]

theorem sum_ranges (lba n : ℕ) : ((g.ranges lba n).map Prod.snd).sum = n * g.bytes := by
  induction n with
  | zero => exact (Nat.zero_mul _).symm
  | succ n ih =>
    rw [ranges_succ, List.map_append, List.sum_append, ih, Nat.succ_mul]
    rfl

/-- Where the chunks are if they follow each other. -/
theorem offset_of_tiles {lo stop i : ℕ} (hi : i < n) (h : Tiles lo stop (g.ranges lba n)) :
    c.dev.geo.blockSize * (lba + i * g.step) % 2 ^ 64 = lo + i * g.bytes := by
  induction n generalizing stop with
  | zero => exact absurd hi (Nat.not_lt_zero _)
  | succ n ih =>
    rw [ranges_succ, tiles_concat] at h
    rcases Nat.lt_or_eq_of_le (Nat.le_of_lt_succ hi) with hlt | rfl
    · exact ih hlt h.1
    · have hsum := h.1.eq_add_sum
      rwa [sum_ranges, Nat.mul_mod_mod] at hsum

/-- If the chunks follow each other and make up the range, there is no rest. -/
theorem of_tiles_ranges (hsize : c.dev.geo.blockSize < 2 ^ 32) (hpos : 0 < c.dev.geo.blockSize)
    (hle : g.lbaCnt ≤ n * g.step)
    (htiles : Tiles (lba * c.dev.geo.blockSize) ((lba + g.lbaCnt) * c.dev.geo.blockSize)
      (g.ranges lba n)) :
    g.step ∣ g.lbaCnt ∧ g.step * c.dev.geo.blockSize < 2 ^ 32 ∧
      (lba + g.lbaCnt - g.step) * c.dev.geo.blockSize < 2 ^ 64 := by
  have hcnt := g.lbaCnt_pos
  have hstep := g.step_le
  have hshort : g.step ≤ 1024 := (Nat.min_le_left _ _).trans (Nat.min_le_right _ _)
  have hchunk : g.step * c.dev.geo.blockSize < 2 ^ 42 :=
    (Nat.mul_le_mul_right _ hshort).trans_lt (by omega)
  obtain ⟨m, rfl⟩ : ∃ m, n = m + 1 := by
    refine Nat.exists_eq_succ_of_ne_zero fun hzero => ?_
    rw [hzero, Nat.zero_mul] at hle
    omega
  have hsum := htiles.eq_add_sum
  rw [sum_ranges, Nat.add_mul] at hsum
  have htotal : g.lbaCnt * c.dev.geo.blockSize = (m + 1) * g.bytes := by omega
  have hbytes : g.bytes = g.step * c.dev.geo.blockSize := by
    rcases Nat.eq_zero_or_pos m with rfl | hm
    · -- there is only one chunk
      have hone : g.lbaCnt = g.step := by omega
      rw [hone] at htotal
      omega
    · have hfirst := offset_of_tiles (Nat.succ_pos m) htiles
      have hsecond := offset_of_tiles (show 1 < m + 1 by omega) htiles
      rw [Nat.zero_mul, Nat.zero_mul, Nat.add_zero, Nat.add_zero, Nat.mul_comm] at hfirst
      rw [Nat.one_mul, Nat.one_mul, Nat.mul_comm, Nat.add_mul] at hsecond
      have hlt : g.bytes < 2 ^ 32 := Nat.mod_lt _ (by norm_num)
      omega
  have hall : g.lbaCnt = (m + 1) * g.step := by
    rw [hbytes, ← Nat.mul_assoc] at htotal
    exact Nat.eq_of_mul_eq_mul_right hpos htotal
  have hlast := offset_of_tiles (Nat.lt_succ_self m) htiles
  have hrest : lba + g.lbaCnt - g.step = lba + m * g.step := by
    rw [hall, Nat.succ_mul]
    omega
  refine ⟨⟨m + 1, by rw [hall, Nat.mul_comm]⟩, ?_, ?_⟩
  · rw [← hbytes]
    exact Nat.mod_lt _ (by norm_num)
  · rw [hbytes, ← Nat.mul_assoc, ← Nat.add_mul] at hlast
    rw [hrest, ← hlast]
    exact Nat.mod_lt _ (by norm_num)

end Ranges

end Segment

/-! ### Main result -/

/-- The number of blocks of a chunk. -/
def copyChunk (src dst : TcmuDev) (x : XcopyList) : ℕ :=
  min (min (min src.geo.maxXferLen dst.geo.maxXferLen) 1024) x.lbaCnt

/-- A copy in which nothing has failed. -/
structure Request.Copied (c : Request) (src dst : TcmuDev) (x : XcopyList) (s : Xfer) : Prop where
  /-- The daemon is up. -/
  up : s.fault = none
  /-- Nothing is called but `read` of the source and `write` of the destination. -/
  calls : ∀ y ∈ s.log, y.Copies src dst
  /-- The reads begin at the first block, follow each other, and stay inside the range. -/
  reads : ∃ n ≤ x.lbaCnt, Tiles (x.srcLba * c.dev.geo.blockSize)
    ((x.srcLba + n) * c.dev.geo.blockSize) (reads s.log)
  /-- So do the writes. -/
  writes : ∃ n ≤ x.lbaCnt, Tiles (x.dstLba * c.dev.geo.blockSize)
    ((x.dstLba + n) * c.dev.geo.blockSize) (writes s.log)
  /-- What is written is what has been read, in this order. -/
  data : written s.log <+: readBacks s.log
  /-- There is an end. -/
  ends : ∃ es t, run (xferStep c (handleXcopy c)) s es = some t ∧ t.begun = true ∧ t.jobs = [] ∧
    Clear t.log
  /-- At the end all has been read and written, and the command is completed. -/
  ended : s.jobs = [] →
    Tiles (x.srcLba * c.dev.geo.blockSize) ((x.srcLba + x.lbaCnt) * c.dev.geo.blockSize)
        (Tcmu.reads s.log) ∧
      Tiles (x.dstLba * c.dev.geo.blockSize) ((x.dstLba + x.lbaCnt) * c.dev.geo.blockSize)
        (Tcmu.writes s.log) ∧
      written s.log = readBacks s.log ∧ completions s.log = [.ok]

/-- If the segment is accepted and nothing fails, exactly its range is copied. -/
def Request.CopiesRange (c : Request) (mem : Mem) (f : Formatting) (src dst : TcmuDev)
    (x : XcopyList) : Prop :=
  ∀ env es s, c.AcceptsCopy mem f env src dst x →
    run (xferStep c (handleXcopy c)) (Xfer.init mem f) (.start env :: es) = some s →
      Clear s.log → c.Copied src dst x s

/-- The number of blocks is a multiple of a chunk, and the numbers of bytes fit. -/
structure Request.CopiesEvenly (c : Request) (src dst : TcmuDev) (x : XcopyList) : Prop where
  divides : copyChunk src dst x ∣ x.lbaCnt
  fits : copyChunk src dst x * c.dev.geo.blockSize < 2 ^ 32
  srcEnd : (x.srcLba + x.lbaCnt - copyChunk src dst x) * c.dev.geo.blockSize < 2 ^ 64
  dstEnd : (x.dstLba + x.lbaCnt - copyChunk src dst x) * c.dev.geo.blockSize < 2 ^ 64

instance (c : Request) (src dst : TcmuDev) (x : XcopyList) : Decidable (c.CopiesEvenly src dst x) :=
  decidable_of_iff (copyChunk src dst x ∣ x.lbaCnt ∧
      copyChunk src dst x * c.dev.geo.blockSize < 2 ^ 32 ∧
      (x.srcLba + x.lbaCnt - copyChunk src dst x) * c.dev.geo.blockSize < 2 ^ 64 ∧
      (x.dstLba + x.lbaCnt - copyChunk src dst x) * c.dev.geo.blockSize < 2 ^ 64)
    ⟨fun h => ⟨h.1, h.2.1, h.2.2.1, h.2.2.2⟩, fun h => ⟨h.1, h.2, h.3, h.4⟩⟩

section Main

variable {c : Request} {mem : Mem} {f : Formatting} {env : Prog.Env Op Ans} {src dst : TcmuDev}
  {x : XcopyList} {par size : ℕ} {g : Segment c} {s : Xfer}

theorem Segment.Of.step_eq (hg : g.Of src dst x) : g.step = copyChunk src dst x := by
  rw [Segment.step, copyChunk, hg.src_eq, hg.dst_eq, hg.lbaCnt_eq]

/-- The first step is that of `handle_xcopy`. -/
theorem step_handleXcopy (hlength : 16 ≤ xferLengthOf c.cdb) (halloc : env 0 .alloc = true)
    (hpar : env 1 (.calloc (xferLengthOf c.cdb)) = some par)
    (h : c.ParsedAt mem par src dst x) (hg : g.Of src dst x) :
    xferStep c (handleXcopy c) (Xfer.init mem f) (.start env) =
      xferStep c g.start (Xfer.init (c.parMem mem par) f) (.start fun n => env (n + 3)) :=
  congrArg (Option.map Xfer.settle) (exec_handleXcopy hlength halloc hpar h hg)

/-- There are not more callbacks than two for every block. -/
theorem Segment.Under.backs_lt {b : Bool} {j : Job} {m : Mem} {l : List Happening}
    (h : g.Under b j m f l) : backs l < 2 * g.lbaCnt := by
  obtain ⟨buf, i, hi, hcase⟩ := h
  have hlt : i < g.lbaCnt := (Nat.le_mul_of_pos_right i g.step_pos).trans_lt hi
  rcases hcase with ⟨-, -, hbacks, -⟩ | ⟨-, -, hbacks, -⟩
  · omega
  · omega

section Even

variable (heven : c.CopiesEvenly src dst x) (hg : g.Of src dst x) (hpos : 0 < c.dev.geo.blockSize)
  {n m : ℕ} {l : List Happening}

include heven hg

/-- No chunk goes beyond the range. -/
theorem Segment.Of.next_le (hn : n * g.step < g.lbaCnt) : (n + 1) * g.step ≤ g.lbaCnt := by
  have hdvd := heven.divides
  rw [← hg.step_eq, ← hg.lbaCnt_eq] at hdvd
  obtain ⟨k, hk⟩ := hdvd
  rw [hk, Nat.mul_comm g.step] at hn ⊢
  exact Nat.mul_le_mul_right _ (Nat.lt_of_mul_lt_mul_right hn)

include hpos

theorem Segment.Going.tiles_reads (h : g.Going n m l) (hn : n * g.step ≤ g.lbaCnt) :
    Tiles (x.srcLba * c.dev.geo.blockSize) ((x.srcLba + n * g.step) * c.dev.geo.blockSize)
      (reads l) := by
  rw [h.reads_eq, hg.srcLba_eq]
  refine tiles_ranges ?_ hpos fun i hi => ?_
  · rw [hg.step_eq]
    exact heven.fits
  · refine (Nat.mul_le_mul_right _ ?_).trans_lt heven.srcEnd
    have hle := (Nat.mul_le_mul_right g.step (Nat.succ_le_of_lt hi)).trans hn
    rw [Nat.succ_mul, hg.lbaCnt_eq] at hle
    rw [← hg.step_eq]
    omega

theorem Segment.Going.tiles_writes (h : g.Going n m l) (hm : m * g.step ≤ g.lbaCnt) :
    Tiles (x.dstLba * c.dev.geo.blockSize) ((x.dstLba + m * g.step) * c.dev.geo.blockSize)
      (writes l) := by
  rw [h.writes_eq, hg.dstLba_eq]
  refine tiles_ranges ?_ hpos fun i hi => ?_
  · rw [hg.step_eq]
    exact heven.fits
  · refine (Nat.mul_le_mul_right _ ?_).trans_lt heven.dstEnd
    have hle := (Nat.mul_le_mul_right g.step (Nat.succ_le_of_lt hi)).trans hm
    rw [Nat.succ_mul, hg.lbaCnt_eq] at hle
    rw [← hg.step_eq]
    omega

/-- **A copy that divides evenly** stays inside its ranges. -/
theorem Segment.Of.copied (hone : OneByOne c g.start mem f g.Under g.Ended)
    (hs : s.Orderly g.Under g.Ended) (hclear : Clear s.log) : c.Copied src dst x s := by
  have hends : ∃ es t, run (xferStep c (handleXcopy c)) s es = some t ∧ t.begun = true ∧
      t.jobs = [] ∧ Clear t.log := by
    obtain ⟨es, t, hrun, ht⟩ := hone.ends_clear Segment.Under.backs_lt (Or.inr hs) hclear
    exact ⟨es, t, (run_eq_of_orderly hone hs).trans hrun, ht⟩
  obtain ⟨hfault, -, ⟨b, j, hjobs, hunder⟩ | ⟨hjobs, hended⟩⟩ := hs
  · have hbusy : s.jobs ≠ [] := by
      rw [hjobs]
      exact List.cons_ne_nil _ _
    obtain ⟨buf, i, hi, hcase⟩ := hunder
    have hnext := hg.next_le heven hi
    have hle : (if b then i + 1 else i) * g.step ≤ g.lbaCnt := by
      split
      · exact hnext
      · exact hi.le
    rw [hg.lbaCnt_eq] at hnext hle hi
    rcases hcase with ⟨-, hgoing, -, heq⟩ | ⟨-, hgoing, -, hdata⟩
    · refine ⟨hfault, ?_, ⟨_, hle, ?_⟩, ⟨_, hi.le, ?_⟩, ?_, hends, fun hnil => absurd hnil hbusy⟩
      · rw [← hg.src_eq, ← hg.dst_eq]
        exact hgoing.calls
      · exact hgoing.tiles_reads heven hg hpos (hle.trans_eq hg.lbaCnt_eq.symm)
      · exact hgoing.tiles_writes heven hg hpos (hi.le.trans_eq hg.lbaCnt_eq.symm)
      · exact heq ▸ List.prefix_rfl
    · refine ⟨hfault, ?_, ⟨_, hnext, ?_⟩, ⟨_, hle, ?_⟩, ?_, hends, fun hnil => absurd hnil hbusy⟩
      · rw [← hg.src_eq, ← hg.dst_eq]
        exact hgoing.calls
      · exact hgoing.tiles_reads heven hg hpos (hnext.trans_eq hg.lbaCnt_eq.symm)
      · exact hgoing.tiles_writes heven hg hpos (hle.trans_eq hg.lbaCnt_eq.symm)
      · split at hdata
        · exact hdata ▸ List.prefix_rfl
        · rw [hdata]
          exact List.prefix_append _ _
  · obtain ⟨l, n, hl, hgoing, heq, hge, hlt⟩ := hended hclear
    have hall : n * g.step = g.lbaCnt := by
      obtain ⟨k, rfl⟩ : ∃ k, n = k + 1 := by
        refine Nat.exists_eq_succ_of_ne_zero fun hzero => ?_
        have hcnt := g.lbaCnt_pos
        rw [hzero, Nat.zero_mul] at hge
        omega
      have hnext : k * g.step < g.lbaCnt := by
        rw [Nat.succ_mul] at hlt
        omega
      exact (hg.next_le heven hnext).antisymm hge
    have hreads : reads s.log = reads l := by
      rw [hl, reads_append]
      exact List.append_nil _
    have hwrites : writes s.log = writes l := by
      rw [hl, writes_append]
      exact List.append_nil _
    have hwritten : written s.log = readBacks s.log := by
      rw [hl, written_append, readBacks_append, heq]
      rfl
    have hr := hgoing.tiles_reads heven hg hpos hall.le
    have hw := hgoing.tiles_writes heven hg hpos hall.le
    rw [hall, hg.lbaCnt_eq, ← hreads] at hr
    rw [hall, hg.lbaCnt_eq, ← hwrites] at hw
    refine ⟨hfault, ?_, ⟨_, le_rfl, hr⟩, ⟨_, le_rfl, hw⟩, ?_, hends,
      fun _ => ⟨hr, hw, hwritten, ?_⟩⟩
    · rw [hl, ← hg.src_eq, ← hg.dst_eq]
      exact List.forall_mem_append.mpr ⟨hgoing.calls, List.forall_mem_singleton.mpr trivial⟩
    · exact hwritten ▸ List.prefix_rfl
    · rw [hl, completions_append, hgoing.open_]
      rfl

end Even

/-- The surroundings of an accepted copy, except that nothing fails after the acceptance. -/
def Request.calmed (c : Request) (env : Prog.Env Op Ans) : Prog.Env Op Ans := fun n =>
  if n < 3 then env n else c.smooth

/-- **When exactly the range is copied.** `handle_xcopy` copies an accepted segment, block by block
and nothing else, if and only if the number of blocks is a multiple of a chunk, and the bytes of a
chunk and the addresses of the last chunks fit into their counters. -/
theorem xcopy_copies_iff (hadded : c.dev.geo.Added size) (h : c.AcceptsCopy mem f env src dst x)
    (hcnt : 0 < x.lbaCnt) (hsrc : 1 ≤ src.geo.maxXferLen) (hdst : 1 ≤ dst.geo.maxXferLen)
    (hread : src.handler.read = true) (hwrite : dst.handler.write = true) :
    c.CopiesRange mem f src dst x ↔ c.CopiesEvenly src dst x := by
  have hpos := hadded.blockSize_pos
  constructor
  · intro hcopies
    obtain ⟨par, hpar, hparsed⟩ := h.parsedAt
    obtain ⟨g, hg⟩ := hparsed.segment hcnt hsrc hdst hread hwrite
    have hone := g.oneByOne_start (c.parMem mem par) f
    -- after the acceptance nothing fails
    have hcalm : c.AcceptsCopy mem f (c.calmed env) src dst x :=
      hparsed.accepts h.length h.alloc hpar
    obtain ⟨t, hbegins, ht, hgoes⟩ := hone.begins
    have hfirst : xferStep c (handleXcopy c) (Xfer.init mem f) (.start (c.calmed env)) =
        xferStep c g.start (Xfer.init (c.parMem mem par) f) (.start fun _ => c.smooth) :=
      step_handleXcopy h.length h.alloc hpar hparsed hg
    have hstart : xferStep c (handleXcopy c) (Xfer.init mem f) (.start (c.calmed env)) = some t :=
      hfirst.trans hbegins
    obtain ⟨es, s, hrun, -, hjobs, hclear⟩ :=
      hone.ends_clear Segment.Under.backs_lt (Or.inr ht) (hgoes.clear clear_nil)
    have hwhole : run (xferStep c (handleXcopy c)) (Xfer.init mem f)
        (.start (c.calmed env) :: es) = some s := by
      rw [run_cons, hstart]
      exact (run_eq_of_orderly hone ht).trans hrun
    obtain ⟨hr, hw, -, -⟩ := (hcopies _ es s hcalm hwhole hclear).ended hjobs
    -- the state in which the copy has ended
    have hs : s.Orderly g.Under g.Ended :=
      run_invariant (fun _ _ _ hu hstep => hone.step (Or.inr hu) hstep) ht hrun
    obtain ⟨-, -, ⟨b, j, hjobs', -⟩ | ⟨-, hended⟩⟩ := hs
    · exact absurd (hjobs.symm.trans hjobs') (by simp)
    · obtain ⟨l, n, hl, hgoing, -, hge, -⟩ := hended hclear
      rw [hl, reads_append, hgoing.reads_eq, hg.srcLba_eq, ← hg.lbaCnt_eq] at hr
      rw [hl, writes_append, hgoing.writes_eq, hg.dstLba_eq, ← hg.lbaCnt_eq] at hw
      have hsize := hadded.blockSize_lt.trans (show 2 ^ 31 < 2 ^ 32 by norm_num)
      have hr : Tiles _ _ (g.ranges x.srcLba n) := (List.append_nil (g.ranges x.srcLba n)) ▸ hr
      have hw : Tiles _ _ (g.ranges x.dstLba n) := (List.append_nil (g.ranges x.dstLba n)) ▸ hw
      obtain ⟨hdvd, hfits, hsrcEnd⟩ := Segment.of_tiles_ranges hsize hpos hge hr
      obtain ⟨-, -, hdstEnd⟩ := Segment.of_tiles_ranges hsize hpos hge hw
      rw [hg.step_eq, hg.lbaCnt_eq] at hdvd hsrcEnd hdstEnd
      rw [hg.step_eq] at hfits
      exact ⟨hdvd, hfits, hsrcEnd, hdstEnd⟩
  · intro heven env es s h hrun hclear
    obtain ⟨par, hpar, hparsed⟩ := h.parsedAt
    obtain ⟨g, hg⟩ := hparsed.segment hcnt hsrc hdst hread hwrite
    have hone := g.oneByOne_start (c.parMem mem par) f
    rw [run_cons, step_handleXcopy h.length h.alloc hpar hparsed hg] at hrun
    obtain ⟨t, hstart, hrun⟩ := Option.bind_eq_some_iff.mp hrun
    have ht := hone.step (Or.inl rfl) hstart
    rw [run_eq_of_orderly hone ht] at hrun
    have hs : s.Orderly g.Under g.Ended :=
      run_invariant (fun _ _ _ hu hstep => hone.step (Or.inr hu) hstep) ht hrun
    exact hg.copied heven hpos hone hs hclear

end Main

/-- A device of eight blocks that moves two at a time, with a digit as its serial number. -/
def digitDev (id : ℕ) (digit : String) : TcmuDev :=
  ⟨id, ⟨512, 8, 2, 2, 0⟩, { allocHandler with nrThreads := 0 }, some digit⟩

/-- The target descriptor of such a device. -/
def digitTarget (digit : UInt8) : List UInt8 :=
  [0xe4, 0, 0, 0, 0x01, 0x03, 0, 16, 0x60, 0x01, 0x40, 0x50 + digit] ++ List.replicate 20 0

/-- A parameter list for a copy of the first blocks of the device `1` to the device `2`. -/
def digitList (blocks : UInt8) : List UInt8 :=
  [0, 0x18, 0, 64, 0, 0, 0, 0, 0, 0, 0, 28, 0, 0, 0, 0] ++ digitTarget 1 ++ digitTarget 2 ++
    [0x02, 0, 0, 0x18, 0, 0, 0, 1, 0, 0, 0, blocks] ++ List.replicate 16 0

/-- The memory that the scatter list describes. -/
def digitMem (blocks : UInt8) : Mem := Mem.store (fun _ => 0) 0x2000 (digitList blocks)

/-- The command that the device `1` is given. -/
def digitRequest : Request :=
  { copyRequest with
    dev := digitDev 0 "1"
    ctx := [digitDev 0 "1", digitDev 1 "2"] }

/-- What is found out about the copy. -/
def digitOf (blocks : ℕ) : XcopyList :=
  ⟨0, 1, blocks, 0, 0, ((digitTarget 1).drop 8).take 16, ((digitTarget 2).drop 8).take 16,
    some (digitDev 0 "1"), some (digitDev 1 "2")⟩

theorem digit_accepts {blocks : UInt8}
    (h : ((xcopyParseParameterList digitRequest).exec (xferInterp digitRequest)
      (fun _ => digitRequest.smooth) (Xfer.init (digitMem blocks) ⟨false, 0⟩)).map Prod.fst =
        some (.ok (.ok (digitDev 0 "1", digitDev 1 "2", digitOf blocks.toNat)))) :
    digitRequest.AcceptsCopy (digitMem blocks) ⟨false, 0⟩ (fun _ => digitRequest.smooth)
      (digitDev 0 "1") (digitDev 1 "2") (digitOf blocks.toNat) := by
  obtain ⟨p, hexec, hp⟩ := Option.map_eq_some_iff.mp h
  exact ⟨by decide, rfl, p.2, hexec.trans (congrArg some (Prod.ext hp rfl))⟩

/-- Four blocks are copied two at a time. -/
theorem xcopy_copies_four : digitRequest.CopiesRange (digitMem 4) ⟨false, 0⟩ (digitDev 0 "1")
    (digitDev 1 "2") (digitOf 4) := by
  have hadded : digitRequest.dev.geo.Added 4096 := by
    constructor <;> decide
  have haccepts : digitRequest.AcceptsCopy (digitMem 4) ⟨false, 0⟩ (fun _ => digitRequest.smooth)
      (digitDev 0 "1") (digitDev 1 "2") (digitOf 4) := digit_accepts (by decide +kernel)
  exact (xcopy_copies_iff hadded haccepts (by decide) (by decide) (by decide) rfl rfl).mpr
    (by decide)

/-- The chunks of the copy are read and written, with success. -/
def digitRun : List XferEvent :=
  [.done 0 .ok fun _ => digitRequest.smooth, .done 0 .ok fun _ => digitRequest.smooth,
    .done 0 .ok fun _ => digitRequest.smooth, .done 0 .ok fun _ => digitRequest.smooth]

/-- When three blocks are copied, the block behind them is overwritten. -/
theorem xcopy_overruns_three : digitDev 0 "1" ≠ digitDev 1 "2" ∧
    digitRequest.AcceptsCopy (digitMem 3) ⟨false, 0⟩ (fun _ => digitRequest.smooth)
      (digitDev 0 "1") (digitDev 1 "2") (digitOf 3) ∧
    (run (xferStep digitRequest (handleXcopy digitRequest)) (Xfer.init (digitMem 3) ⟨false, 0⟩)
      (.start (fun _ => digitRequest.smooth) :: digitRun)).map
        (fun s => (writes s.log, completions s.log)) = some ([(0, 1024), (1024, 1024)], [.ok]) ∧
    ¬ digitRequest.CopiesRange (digitMem 3) ⟨false, 0⟩ (digitDev 0 "1") (digitDev 1 "2")
      (digitOf 3) := by
  have haccepts : digitRequest.AcceptsCopy (digitMem 3) ⟨false, 0⟩ (fun _ => digitRequest.smooth)
      (digitDev 0 "1") (digitDev 1 "2") (digitOf 3) := digit_accepts (by decide +kernel)
  have hend : (run (xferStep digitRequest (handleXcopy digitRequest))
      (Xfer.init (digitMem 3) ⟨false, 0⟩) (.start (fun _ => digitRequest.smooth) :: digitRun)).map
        (fun s => ((writes s.log, completions s.log), s.jobs.length, decide (Clear s.log))) =
          some (([(0, 1024), (1024, 1024)], [.ok]), 0, true) := by decide +kernel
  obtain ⟨s, hrun, hs⟩ := Option.map_eq_some_iff.mp hend
  obtain ⟨hlog, hrest⟩ := Prod.mk.inj hs
  obtain ⟨hjobs, hclear⟩ := Prod.mk.inj hrest
  refine ⟨by decide, haccepts, ?_, fun hcopies => ?_⟩
  · rw [hrun]
    exact congrArg some hlog
  · obtain ⟨-, hw, -⟩ := (hcopies _ _ s haccepts hrun (of_decide_eq_true hclear)).ended
      (List.eq_nil_of_length_eq_zero hjobs)
    rw [(Prod.mk.inj hlog).1] at hw
    exact absurd hw (by decide)

end Tcmu

end LioProject
