import LioProject.Tcmu.Equipped
import LioProject.Tcmu.Life
import LioProject.Tcmu.Reads

/-!
# What an accepted `EXTENDED COPY` is like

`xcopy_parse_parameter_list` finds the two devices of a copy by designators that are chosen by the
initiator: the device that the command was sent to is compared with both, and the other device is
searched for. The indices that say which descriptor is the source and which the destination may be
equal, or swapped, or out of range.

The loop over the target descriptors keeps an invariant, `XcopyList.Upto`, that says which
designators have been seen and whether they are those of the own device. An index that is out of
range leaves a designator of zeros, and no device has that one.

The lists that are accepted have two target descriptors: if there were fewer, the type of the
segment descriptor would be read where that of a target descriptor has to be. The ranges of the copy
are checked as well, but their ends are computed in 64 bits.
-/

namespace LioProject

namespace Tcmu

/-! ### Designators of devices -/

section Naa

/-- The digits do not touch what is before the index. -/
theorem naaDigits_getD {cs : List Char} {j : ℕ} :
    ∀ {wwn : List UInt8} {ind : ℕ} {next : Bool}, j < ind →
      (naaDigits cs wwn ind next).getD j 0 = wwn.getD j 0 := by
  induction cs with
  | nil => exact fun _ => rfl
  | cons ch cs ih =>
    intro wwn ind next hj
    have hset : ∀ b : UInt8, (wwn.set ind b).getD j 0 = wwn.getD j 0 := by
      intro b
      rw [List.getD_eq_getElem?_getD, List.getElem?_set_ne (by omega), List.getD_eq_getElem?_getD]
    rw [naaDigits]
    split
    · rfl
    · cases charToHex ch with
      | none => exact ih hj
      | some val =>
        dsimp only
        split
        · rw [ih (Nat.lt_succ_of_lt hj), hset]
        · rw [ih hj, hset]

/-- No designator consists of zeros. -/
theorem xcopyGenNaaIeee_ne_zeros (dev : TcmuDev) :
    xcopyGenNaaIeee dev ≠ some (List.replicate 16 0) := by
  intro h
  rw [xcopyGenNaaIeee] at h
  obtain ⟨serial, -, hwwn⟩ := Option.map_eq_some_iff.mp h
  have hfirst := congrArg (List.getD · 0 (0 : UInt8)) hwwn
  rw [naaDigits_getD (by decide)] at hfirst
  exact absurd hfirst (by decide)

theorem xcopyGenNaaIeee_of_locate {wwn : List UInt8} {devs : List TcmuDev} {d : TcmuDev}
    (h : xcopyLocateUdev wwn devs = some d) : xcopyGenNaaIeee d = some wwn := by
  induction devs with
  | nil => exact absurd h (by simp [xcopyLocateUdev])
  | cons e devs ih =>
    rw [xcopyLocateUdev] at h
    cases hgen : xcopyGenNaaIeee e with
    | none =>
      rw [hgen] at h
      exact absurd h (by simp)
    | some w =>
      rw [hgen] at h
      dsimp only at h
      split at h
      · rename_i hw
        rw [← Option.some.inj h, hgen, hw]
      · exact ih h

end Naa

/-! ### Segments and targets -/

/-- The designator in the target descriptor with the given index. The first descriptor is at
address `a`. -/
def designator (mem : Mem) (a index : ℕ) : List UInt8 := mem.load (a + 32 * index + 8) 16

/-- The address of the segment descriptor of a parameter list at address `par`. -/
def segmentDesc (mem : Mem) (par : ℕ) : ℕ := par + 16 + mem.be (par + 2) 2

/-- What has been found out is what the segment descriptor at address `seg` says. -/
structure XcopyList.IsSegment (x : XcopyList) (mem : Mem) (seg : ℕ) : Prop where
  /-- The index of the source. -/
  stdi_eq : x.stdi = mem.be (seg + 4) 2
  /-- The index of the destination. -/
  dtdi_eq : x.dtdi = mem.be (seg + 6) 2
  /-- The number of blocks. -/
  lbaCnt_eq : x.lbaCnt = mem.be (seg + 10) 2
  /-- The first block of the source. -/
  srcLba_eq : x.srcLba = mem.be (seg + 12) 8
  /-- The first block of the destination. -/
  dstLba_eq : x.dstLba = mem.be (seg + 20) 8

/-- What is known when the target descriptors with an index below `i` have been parsed for a device
with designator `wwn`. -/
structure XcopyList.Upto (x : XcopyList) (dev : TcmuDev) (wwn : List UInt8) (mem : Mem) (a i : ℕ) :
    Prop where
  /-- The designator of the source. -/
  srcTidWwn_eq : x.srcTidWwn = if x.stdi < i then designator mem a x.stdi else List.replicate 16 0
  /-- The designator of the destination. -/
  dstTidWwn_eq : x.dstTidWwn = if x.dtdi < i then designator mem a x.dtdi else List.replicate 16 0
  /-- The source, if it is the device itself. -/
  srcDev_eq : x.srcDev = if x.stdi < i ∧ wwn = designator mem a x.stdi then some dev else none
  /-- The destination, if it is the device itself. -/
  dstDev_eq : x.dstDev = if x.dtdi < i ∧ wwn = designator mem a x.dtdi then some dev else none

section Parse

variable {dev : TcmuDev} {ctx : List TcmuDev} {mem : Mem} {a i tdll : ℕ} {x y : XcopyList}
  {wwn : List UInt8}

theorem parseSegmentDescs_ok {sdll : ℕ} (h : xcopyParseSegmentDescs mem a sdll = .ok x) :
    mem.byte a = 0x02 ∧ x.IsSegment mem a ∧ ∀ dev wwn b, x.Upto dev wwn mem b 0 := by
  rw [xcopyParseSegmentDescs] at h
  repeat' split at h
  · exact absurd h (by simp)
  · exact absurd h (by simp)
  · exact absurd h (by simp)
  · exact absurd h (by simp)
  · rename_i htype _
    rw [← Except.ok.inj h]
    exact ⟨not_not.mp htype, ⟨rfl, rfl, rfl, rfl, rfl⟩, fun _ _ _ => ⟨rfl, rfl, rfl, rfl⟩⟩

/-- The descriptor is one of the supported type, and both indices are compared with its own. -/
theorem parseTargetDesc_ok (h : xcopyParseTargetDesc dev mem a i x = .ok y) :
    mem.byte (a + 32 * i) = 0xe4 ∧ ∃ wwn, xcopyGenNaaIeee dev = some wwn ∧
      y = (x.withSrc dev wwn (designator mem a i) i).withDst dev wwn (designator mem a i) i := by
  rw [xcopyParseTargetDesc] at h
  split at h
  · rename_i htype
    refine ⟨htype, ?_⟩
    rw [xcopyParseTargetId] at h
    cases hgen : xcopyGenNaaIeee dev with
    | none =>
      rw [hgen] at h
      exact absurd h (by simp)
    | some wwn =>
      rw [hgen] at h
      dsimp only at h
      repeat' split at h
      · exact absurd h (by simp)
      · exact absurd h (by simp)
      · exact absurd h (by simp)
      · exact absurd h (by simp)
      · exact absurd h (by simp)
      · exact ⟨wwn, rfl, (Except.ok.inj h).symm⟩
  · exact absurd h (by simp)

theorem XcopyList.IsSegment.withTarget {seg : ℕ} (hx : x.IsSegment mem seg) (dev : TcmuDev)
    (wwn tid : List UInt8) (index : ℕ) :
    ((x.withSrc dev wwn tid index).withDst dev wwn tid index).IsSegment mem seg := by
  obtain ⟨hstdi, hdtdi, hcnt, hsrc, hdst⟩ := hx
  rw [XcopyList.withDst, XcopyList.withSrc]
  repeat' split
  all_goals exact ⟨hstdi, hdtdi, hcnt, hsrc, hdst⟩

/-- **One turn of the loop.** -/
theorem XcopyList.Upto.withTarget (hx : x.Upto dev wwn mem a i) :
    ((x.withSrc dev wwn (designator mem a i) i).withDst dev wwn (designator mem a i) i).Upto
      dev wwn mem a (i + 1) := by
  obtain ⟨hsrc, hdst, hsrcDev, hdstDev⟩ := hx
  -- an index that has been passed is not the present one
  have hpast : ∀ {k : ℕ}, i ≠ k → (k < i + 1 ↔ k < i) := fun _ => by omega
  by_cases hs : i = x.stdi
  · rw [XcopyList.withSrc, if_pos hs]
    have hnot : ¬ x.stdi < i := by omega
    rw [if_neg fun h => hnot h.1] at hsrcDev
    by_cases hd : i = x.dtdi
    · have hnot' : ¬ x.dtdi < i := by omega
      rw [if_neg fun h => hnot' h.1] at hdstDev
      rw [XcopyList.withDst, if_pos hd]
      constructor <;> simp [← hs, ← hd, hsrcDev, hdstDev]
    · rw [XcopyList.withDst, if_neg hd]
      constructor <;> simp [← hs, hpast hd, hsrcDev, hdst, hdstDev]
  · rw [XcopyList.withSrc, if_neg hs]
    by_cases hd : i = x.dtdi
    · have hnot' : ¬ x.dtdi < i := by omega
      rw [if_neg fun h => hnot' h.1] at hdstDev
      rw [XcopyList.withDst, if_pos hd]
      constructor <;> simp [← hd, hpast hs, hdstDev, hsrc, hsrcDev]
    · rw [XcopyList.withDst, if_neg hd]
      constructor <;> simp [hpast hs, hpast hd, hsrc, hdst, hsrcDev, hdstDev]

/-- The devices that have been found have the designators of the target descriptors with the two
indices. -/
def XcopyList.Named (x : XcopyList) (mem : Mem) (a : ℕ) : Prop :=
  (∀ d, x.srcDev = some d → x.stdi < 2 ∧ xcopyGenNaaIeee d = some (designator mem a x.stdi)) ∧
    ∀ d, x.dstDev = some d → x.dtdi < 2 ∧ xcopyGenNaaIeee d = some (designator mem a x.dtdi)

/-- A device that is found by the designator of an index shows that the index is in range. -/
theorem gen_of_locate {d : TcmuDev} {k : ℕ}
    (h : xcopyLocateUdev (if k < 2 then designator mem a k else List.replicate 16 0) ctx = some d) :
    k < 2 ∧ xcopyGenNaaIeee d = some (designator mem a k) := by
  have hgen := xcopyGenNaaIeee_of_locate h
  by_cases hk : k < 2
  · rw [if_pos hk] at hgen
    exact ⟨hk, hgen⟩
  · rw [if_neg hk] at hgen
    exact absurd hgen (xcopyGenNaaIeee_ne_zeros d)

/-- The device itself, if it has the designator of an index. -/
theorem gen_of_own {d : TcmuDev} {k : ℕ} (hgen : xcopyGenNaaIeee dev = some wwn)
    (h : (if k < 2 ∧ wwn = designator mem a k then some dev else none) = some d) :
    k < 2 ∧ xcopyGenNaaIeee d = some (designator mem a k) := by
  split at h
  · rename_i hk
    rw [← Option.some.inj h, hgen, hk.2]
    exact ⟨hk.1, rfl⟩
  · exact absurd h (by simp)

theorem named_of_upto (hgen : xcopyGenNaaIeee dev = some wwn) (hx : x.Upto dev wwn mem a 2) :
    x.Named mem a :=
  ⟨fun _ hd => gen_of_own hgen (hx.srcDev_eq ▸ hd), fun _ hd => gen_of_own hgen (hx.dstDev_eq ▸ hd)⟩

theorem parseTargetDescs_ok {seg : ℕ} (hseg : y.IsSegment mem seg)
    (hy : ∀ wwn, y.Upto dev wwn mem a 0) (h : xcopyParseTargetDescs dev ctx mem a tdll y = .ok x) :
    tdll ≤ 64 ∧ mem.byte a = 0xe4 ∧ mem.byte (a + 32) = 0xe4 ∧ x.IsSegment mem seg ∧
      x.Named mem a := by
  rw [xcopyParseTargetDescs] at h
  split at h
  · exact absurd h (by simp)
  · rename_i htdll
    obtain ⟨z, hz, h⟩ := bind_eq_ok h
    obtain ⟨hfirst, wwn, hgen, rfl⟩ := parseTargetDesc_ok hz
    obtain ⟨z, hz, h⟩ := bind_eq_ok h
    obtain ⟨hsecond, wwn', hgen', rfl⟩ := parseTargetDesc_ok hz
    obtain rfl : wwn = wwn' := Option.some.inj (hgen.symm.trans hgen')
    have hseg := (hseg.withTarget dev wwn (designator mem a 0) 0).withTarget dev wwn
      (designator mem a 1) 1
    have hupto := (hy wwn).withTarget.withTarget
    have hnamed := named_of_upto hgen hupto
    refine ⟨by omega, hfirst, hsecond, ?_⟩
    generalize ((((y.withSrc dev wwn (designator mem a 0) 0).withDst dev wwn
      (designator mem a 0) 0).withSrc dev wwn (designator mem a 1) 1).withDst dev wwn
      (designator mem a 1) 1) = z at h hseg hupto hnamed
    repeat' split at h
    · exact absurd h (by simp)
    · rename_i dst hdst
      rw [← Except.ok.inj h]
      obtain ⟨hstdi, hdtdi, hcnt, hsrc, hdst'⟩ := hseg
      refine ⟨⟨hstdi, hdtdi, hcnt, hsrc, hdst'⟩, hnamed.1, fun d hd => ?_⟩
      rw [hupto.dstTidWwn_eq] at hdst
      rw [← Option.some.inj hd]
      exact gen_of_locate hdst
    · exact absurd h (by simp)
    · rename_i src hsrc'
      rw [← Except.ok.inj h]
      obtain ⟨hstdi, hdtdi, hcnt, hsrc, hdst⟩ := hseg
      refine ⟨⟨hstdi, hdtdi, hcnt, hsrc, hdst⟩, fun d hd => ?_, hnamed.2⟩
      rw [hupto.srcTidWwn_eq] at hsrc'
      rw [← Option.some.inj hd]
      exact gen_of_locate hsrc'
    · rw [← Except.ok.inj h]
      exact ⟨hseg, hnamed⟩

/-- **What the list of an accepted copy says.** There are two target descriptors, and the devices
have their designators. -/
theorem parseList_ok {n : ℕ} (h : xcopyParseList dev ctx mem a n = .ok x) :
    mem.be (a + 2) 2 = 64 ∧ x.IsSegment mem (segmentDesc mem a) ∧ x.Named mem (a + 16) := by
  rw [xcopyParseList] at h
  dsimp only at h
  repeat' split at h
  · exact absurd h (by simp)
  · exact absurd h (by simp)
  · exact absurd h (by simp)
  · exact absurd h (by simp)
  · exact absurd h (by simp)
  · rename_i hdvd _ _ _
    obtain ⟨y, hy, h⟩ := bind_eq_ok h
    obtain ⟨htype, hseg, hupto⟩ := parseSegmentDescs_ok hy
    obtain ⟨htdll, hfirst, hsecond, hseg, hnamed⟩ :=
      parseTargetDescs_ok hseg (fun wwn => hupto dev wwn _) h
    refine ⟨?_, hseg, hnamed⟩
    -- with fewer descriptors, one type would be read as the other
    have hcases : mem.be (a + 2) 2 = 0 ∨ mem.be (a + 2) 2 = 32 ∨ mem.be (a + 2) 2 = 64 := by omega
    rcases hcases with hzero | hone | htwo
    · rw [hzero, Nat.add_zero, hfirst] at htype
      exact absurd htype (by decide)
    · rw [hone, hsecond] at htype
      exact absurd htype (by decide)
    · exact htwo

end Parse

/-! ### Accepted copies -/

/-- A copy from `src` to `dst` is well formed: both are devices of the context, with the designators
of the target descriptors that the segment descriptor names, with blocks of the same size, and with
room for the blocks that are copied. The list is at address `par`. -/
structure XcopyList.WellFormed (x : XcopyList) (ctx : List TcmuDev) (mem : Mem) (par : ℕ)
    (src dst : TcmuDev) : Prop where
  /-- What is copied is what the segment descriptor says. -/
  isSegment : x.IsSegment mem (segmentDesc mem par)
  /-- The source is a device of the context. -/
  src_mem : src ∈ ctx
  /-- The destination is a device of the context. -/
  dst_mem : dst ∈ ctx
  /-- There is a target descriptor with the index of the source. -/
  stdi_lt : x.stdi < mem.be (par + 2) 2 / 32
  /-- There is one with the index of the destination. -/
  dtdi_lt : x.dtdi < mem.be (par + 2) 2 / 32
  /-- It has the designator of the source. -/
  src_naa : xcopyGenNaaIeee src = some (designator mem (par + 16) x.stdi)
  /-- It has the designator of the destination. -/
  dst_naa : xcopyGenNaaIeee dst = some (designator mem (par + 16) x.dtdi)
  /-- The blocks have the same size. -/
  blockSize_eq : src.geo.blockSize = dst.geo.blockSize
  /-- The blocks that are read are blocks of the source. -/
  src_le : x.srcLba + x.lbaCnt ≤ src.geo.numLbas
  /-- The blocks that are written are blocks of the destination. -/
  dst_le : x.dstLba + x.lbaCnt ≤ dst.geo.numLbas

/-- The ends of both ranges of the segment descriptor at address `seg` fit into 64 bits. -/
def EndsFit (mem : Mem) (seg : ℕ) : Prop :=
  mem.be (seg + 12) 8 + mem.be (seg + 10) 2 < 2 ^ 64 ∧
    mem.be (seg + 20) 8 + mem.be (seg + 10) 2 < 2 ^ 64

section Accepted

variable {c : Request} {env : Prog.Env Op Ans} {s s' : Life} {src dst : TcmuDev} {x : XcopyList}

/-- What `xcopy_parse_parameter_list` has checked when it returns `TCMU_STS_OK`. -/
theorem exec_xcopyParse_ok (h : (xcopyParseParameterList c).exec lifeInterp env s =
      some (.ok (.ok (src, dst, x)), s')) :
    ∃ par, env 0 (.calloc (xferLengthOf c.cdb)) = some par ∧
      xcopyParseList c.dev c.ctx (c.paramMem (env 1 .mem) par) par (xferLengthOf c.cdb) = .ok x ∧
      x.srcDev = some src ∧ x.dstDev = some dst ∧ src.geo.blockSize = dst.geo.blockSize ∧
      (x.srcLba + x.lbaCnt) % 2 ^ 64 ≤ src.geo.numLbas ∧
      (x.dstLba + x.lbaCnt) % 2 ^ 64 ≤ dst.geo.numLbas := by
  rw [xcopyParseParameterList, Prog.exec_ask_bind rfl] at h
  cases hpar : env 0 (.calloc (xferLengthOf c.cdb)) with
  | none =>
    rw [hpar] at h
    exact absurd h (by simp [Prog.exec, pure])
  | some par =>
    rw [hpar, Option.isSome_some, if_pos rfl] at h
    dsimp only at h
    rw [Prog.exec_ask_bind rfl] at h
    refine ⟨par, rfl, ?_⟩
    have hmem : copyParam (env (0 + 1) .mem) par (xferLengthOf c.cdb) c.cmd.iov =
      c.paramMem (env 1 .mem) par := rfl
    rw [hmem] at h
    cases hlist : xcopyParseList c.dev c.ctx (c.paramMem (env 1 .mem) par) par
        (xferLengthOf c.cdb) with
    | error sts =>
      rw [hlist] at h
      exact absurd h (by simp [Prog.exec, pure])
    | ok y =>
      rw [hlist] at h
      dsimp only at h
      split at h
      · rename_i src' dst' hsrc hdst
        repeat' split at h
        · exact absurd h (by simp [Prog.exec, pure])
        · exact absurd h (by simp [Prog.exec, pure])
        · exact absurd h (by simp [Prog.exec, pure])
        · rename_i hbs hsrcLe hdstLe
          have hval := (Prod.mk.inj (Option.some.inj h)).1
          obtain ⟨rfl, rfl, rfl⟩ : src' = src ∧ dst' = dst ∧ y = x := by
            simpa using Except.ok.inj (Except.ok.inj hval)
          exact ⟨rfl, hsrc, hdst, not_not.mp hbs, Nat.not_lt.mp hsrcLe, Nat.not_lt.mp hdstLe⟩
      · exact absurd h (by simp [Prog.exec])

/-- **An accepted copy is well formed if and only if the ends of its ranges fit.** Whatever the
devices of the context and the parameter list are: when `xcopy_parse_parameter_list` returns
`TCMU_STS_OK`, both devices are devices of the context, with the designators and block sizes that
they should have, and the blocks to copy are blocks of the devices, unless the end of a range is
beyond 64 bits. -/
theorem xcopy_wellFormed_iff (hdev : c.dev ∈ c.ctx) (hlbas : ∀ d ∈ c.ctx, d.geo.numLbas < 2 ^ 64)
    (h : (xcopyParseParameterList c).exec lifeInterp env s =
      some (.ok (.ok (src, dst, x)), s')) :
    ∃ par, env 0 (.calloc (xferLengthOf c.cdb)) = some par ∧
      (x.WellFormed c.ctx (c.paramMem (env 1 .mem) par) par src dst ↔
        EndsFit (c.paramMem (env 1 .mem) par) (segmentDesc (c.paramMem (env 1 .mem) par) par)) := by
  obtain ⟨par, hpar, hlist, hsrc, hdst, hbs, hsrcLe, hdstLe⟩ := exec_xcopyParse_ok h
  refine ⟨par, hpar, ?_⟩
  generalize c.paramMem (env 1 .mem) par = mem at hlist ⊢
  obtain ⟨htdll, hseg, hnamed⟩ := parseList_ok hlist
  have hknown := (known_parseList hlist).1
  have hmem : ∀ d, d ∈ c.dev :: c.ctx → d ∈ c.ctx := by
    intro d hd
    rcases List.mem_cons.mp hd with rfl | hd
    · exact hdev
    · exact hd
  have hsrcMem := hmem src (hknown.1 src hsrc)
  have hdstMem := hmem dst (hknown.2 dst hdst)
  have hsrcLbas := hlbas src hsrcMem
  have hdstLbas := hlbas dst hdstMem
  obtain ⟨hstdi, hsrcNaa⟩ := hnamed.1 src hsrc
  obtain ⟨hdtdi, hdstNaa⟩ := hnamed.2 dst hdst
  rw [EndsFit, ← hseg.srcLba_eq, ← hseg.dstLba_eq, ← hseg.lbaCnt_eq]
  constructor
  · intro hwell
    have hsrcFit := hwell.src_le
    have hdstFit := hwell.dst_le
    exact ⟨by omega, by omega⟩
  · rintro ⟨hsrcFit, hdstFit⟩
    rw [Nat.mod_eq_of_lt hsrcFit] at hsrcLe
    rw [Nat.mod_eq_of_lt hdstFit] at hdstLe
    exact ⟨hseg, hsrcMem, hdstMem, by omega, by omega, hsrcNaa, hdstNaa, hbs, hsrcLe, hdstLe⟩

end Accepted

/-- A device of eight blocks whose serial number has no digits. -/
def copyDev : TcmuDev := ⟨0, ⟨512, 8, 128, 128, 0⟩, allocHandler, some ""⟩

/-- A target descriptor with its designator. -/
def copyTarget : List UInt8 :=
  [0xe4, 0, 0, 0, 0x01, 0x03, 0, 16, 0x60, 0x01, 0x40, 0x50] ++ List.replicate 20 0

/-- A parameter list for a copy of one block, with the given last byte in the addresses of the two
blocks, and with the given byte in front of it. -/
def copyList (high low : UInt8) : List UInt8 :=
  [0, 0x18, 0, 64, 0, 0, 0, 0, 0, 0, 0, 28, 0, 0, 0, 0] ++ copyTarget ++ copyTarget ++
    [0x02, 0, 0, 0x18, 0, 0, 0, 1, 0, 0, 0, 1] ++ List.replicate 7 high ++ [low] ++
    List.replicate 7 high ++ [low]

/-- The command with this list. -/
def copyRequest : Request :=
  { dev := copyDev
    ctx := [copyDev]
    cmd := ⟨0, some [0x83, 0, 0, 0, 0, 0, 0, 0, 0, 0, 0, 0, 0, 108, 0, 0], [⟨0x2000, 108⟩], 1, []⟩
    cdb := [0x83, 0, 0, 0, 0, 0, 0, 0, 0, 0, 0, 0, 0, 108, 0, 0]
    hcdb := rfl }

/-- The memory that its scatter list describes. -/
def copyMem (high low : UInt8) : Mem := Mem.store (fun _ => 0) 0x2000 (copyList high low)

/-- What is found out about a copy of a block of the device to the same address. -/
def copyOf (lba : ℕ) : XcopyList :=
  ⟨0, 1, 1, lba, lba, (copyTarget.drop 8).take 16, (copyTarget.drop 8).take 16, some copyDev,
    some copyDev⟩

/-- The last block of the device is copied to itself. -/
theorem xcopy_wellFormed_last : (xcopyParseParameterList copyRequest).exec lifeInterp
      (calm (copyMem 0 7)) Life.init = some (.ok (.ok (copyDev, copyDev, copyOf 7)), Life.init) ∧
    (copyOf 7).WellFormed [copyDev] (copyRequest.paramMem (copyMem 0 7) 0x1000) 0x1000 copyDev
      copyDev := by
  have hexec : (xcopyParseParameterList copyRequest).exec lifeInterp (calm (copyMem 0 7))
      Life.init = some (.ok (.ok (copyDev, copyDev, copyOf 7)), Life.init) := by decide +kernel
  refine ⟨hexec, ?_⟩
  obtain ⟨par, hpar, hiff⟩ := xcopy_wellFormed_iff (List.mem_singleton_self _) (by decide) hexec
  obtain rfl : 0x1000 = par := Option.some.inj hpar
  exact hiff.mpr (by unfold EndsFit; decide +kernel)

/-- The block with the highest address of all, of a device with eight blocks, is accepted. -/
theorem xcopy_accepts_beyond : (xcopyParseParameterList copyRequest).exec lifeInterp
      (calm (copyMem 0xff 0xff)) Life.init =
        some (.ok (.ok (copyDev, copyDev, copyOf (2 ^ 64 - 1))), Life.init) ∧
    ¬ (copyOf (2 ^ 64 - 1)).WellFormed [copyDev]
      (copyRequest.paramMem (copyMem 0xff 0xff) 0x1000) 0x1000 copyDev copyDev :=
  ⟨by decide +kernel, fun h => absurd h.src_le (by decide)⟩

end Tcmu

end LioProject
