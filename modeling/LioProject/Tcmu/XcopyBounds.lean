import LioProject.Lib.Watch
import LioProject.Tcmu.XcopyAccept

/-!
# What the parser of `EXTENDED COPY` looks at

The parser of the parameter list, with every read of the list spelled out: `readList` and what it
calls. It has the value of `xcopyParseList` (`value_readList`), and its trail is the list of the
reads, each with an address and a number of bytes. A byte that is printed in a message has been read
before, and is not listed again.

Three lengths are cut off before they are compared. The sum of all lengths is computed in 32 bits,
the length of the segment descriptors is kept in 16 and then in 8 bits, and the length of the one
segment descriptor in 8 bits. `xcopy_decodes_iff` says when this does no harm.
-/

namespace LioProject

namespace Tcmu

/-! ### The parser with its reads -/

/-- A parser reads memory, and may find an error. -/
abbrev Reader := Prog Read (fun _ => List UInt8) TcmuSts

/-- Read `k` bytes. -/
def readBytes (a k : ℕ) : Reader (List UInt8) := Prog.ask (a, k)

/-- Read a big-endian number of `k` bytes. -/
def readBe (a k : ℕ) : Reader ℕ := do
  let bs ← readBytes a k
  pure (beAt bs 0 k)

/-- Read one byte. -/
def readByte (a : ℕ) : Reader ℕ := readBe a 1

/-- `xcopy_parse_segment_descs`. -/
def readSegmentDescs (a sdll : ℕ) : Reader XcopyList :=
  if sdll % 28 ≠ 0 then .fail .invalidParamList
  else if sdll > 1 * 28 then .fail .invalidParamList
  else do
    if (← readByte a) ≠ 0x02 then .fail .notsuppSegDescType
    else if (← readBe (a + 2) 2) % 2 ^ 8 ≠ 0x18 then .fail .invalidParamList
    else
      let stdi ← readBe (a + 4) 2
      let dtdi ← readBe (a + 6) 2
      let lbaCnt ← readBe (a + 10) 2
      let srcLba ← readBe (a + 12) 8
      let dstLba ← readBe (a + 20) 8
      pure ⟨stdi, dtdi, lbaCnt, srcLba, dstLba, List.replicate 16 0, List.replicate 16 0, none,
        none⟩

/-- The designator is copied if the index of the source is that of the descriptor. -/
def readSrc (dev : TcmuDev) (wwn : List UInt8) (a index : ℕ) (x : XcopyList) : Reader XcopyList :=
  if index = x.stdi then do
    let tid ← readBytes (a + 8) 16
    pure (x.withSrc dev wwn tid index)
  else pure x

/-- The same for the destination. -/
def readDst (dev : TcmuDev) (wwn : List UInt8) (a index : ℕ) (x : XcopyList) : Reader XcopyList :=
  if index = x.dtdi then do
    let tid ← readBytes (a + 8) 16
    pure (x.withDst dev wwn tid index)
  else pure x

/-- `xcopy_parse_target_id`. -/
def readTargetId (dev : TcmuDev) (a index : ℕ) (x : XcopyList) : Reader XcopyList :=
  match xcopyGenNaaIeee dev with
  | none => .fail .hwErr
  | some wwn => do
    if (← readByte (a + 4)) &&& 0x0f ≠ 0x1 then .fail .invalidParamList
    else if (← readByte (a + 5)) &&& 0x30 ≠ 0x00 then .fail .invalidParamList
    else if (← readByte (a + 5)) &&& 0x0f ≠ 0x3 then .fail .invalidParamList
    else if (← readByte (a + 7)) ≠ 16 then .fail .invalidParamList
    else if (← readByte (a + 8)) >>> 4 ≠ 0x06 then .fail .invalidParamList
    else
      let x ← readSrc dev wwn a index x
      readDst dev wwn a index x

/-- One turn of the loop of `xcopy_parse_target_descs`. -/
def readTargetDesc (dev : TcmuDev) (a index : ℕ) (x : XcopyList) : Reader XcopyList := do
  if (← readByte (a + 32 * index)) = 0xe4 then readTargetId dev (a + 32 * index) index x
  else .fail .notsuppTgtDescType

/-- `xcopy_parse_target_descs`. -/
def readTargetDescs (dev : TcmuDev) (ctx : List TcmuDev) (a tdll : ℕ) (x : XcopyList) :
    Reader XcopyList :=
  if tdll > 2 * 32 then .fail .invalidParamList
  else do
    let x ← readTargetDesc dev a 0 x
    let x ← readTargetDesc dev a 1 x
    if x.srcDev.isSome then
      match xcopyLocateUdev x.dstTidWwn ctx with
      | none => .fail .cpTgtDevNotconn
      | some dst => pure { x with dstDev := some dst }
    else if x.dstDev.isSome then
      match xcopyLocateUdev x.srcTidWwn ctx with
      | none => .fail .cpTgtDevNotconn
      | some src => pure { x with srcDev := some src }
    else pure x

/-- `xcopy_parse_parameter_list`, as far as it looks at the list of `n` bytes at address `a`. -/
def readList (dev : TcmuDev) (ctx : List TcmuDev) (a n : ℕ) : Reader XcopyList := do
  let usage ← readByte (a + 1)
  let listId ← readByte a
  if usage &&& 0x18 ≠ 0x18 ∨ listId ≠ 0 then .fail .invalidParamList
  else
    let tdll ← readBe (a + 2) 2
    if tdll % 32 ≠ 0 then .fail .invalidParamListLen
    else
      let sdll32 ← readBe (a + 8) 4
      let sdll := sdll32 % 2 ^ 16
      if sdll < 8 then .fail .invalidParamListLen
      else if tdll + sdll > 1024 then .fail .invalidParamListLen
      else
        let inlineDl ← readBe (a + 12) 4
        if n < (16 + tdll + sdll + inlineDl) % 2 ^ 32 then .fail .invalidParamListLen
        else
          let x ← readSegmentDescs (a + 16 + tdll) (sdll % 2 ^ 8)
          readTargetDescs dev ctx (a + 16) tdll x

/-! ### The value of the parser -/

section Value

variable {α : Type} {dev : TcmuDev} {ctx : List TcmuDev} {mem : Mem}

theorem value_readBe_bind (a k : ℕ) (f : ℕ → Reader α) :
    (readBe a k >>= f).value mem.look = (f (mem.be a k)).value mem.look := rfl

theorem trail_readBe_bind (a k : ℕ) (f : ℕ → Reader α) :
    (readBe a k >>= f).trail mem.look = (a, k) :: (f (mem.be a k)).trail mem.look := rfl

theorem value_readByte_bind (a : ℕ) (f : ℕ → Reader α) :
    (readByte a >>= f).value mem.look = (f (mem.byte a)).value mem.look := by
  rw [readByte, value_readBe_bind, Mem.be_one]

theorem trail_readByte_bind (a : ℕ) (f : ℕ → Reader α) :
    (readByte a >>= f).trail mem.look = (a, 1) :: (f (mem.byte a)).trail mem.look := by
  rw [readByte, trail_readBe_bind, Mem.be_one]

theorem value_readSegmentDescs (a sdll : ℕ) :
    (readSegmentDescs a sdll).value mem.look = xcopyParseSegmentDescs mem a sdll := by
  rw [readSegmentDescs, xcopyParseSegmentDescs]
  split
  · rfl
  · split
    · rfl
    · rw [value_readByte_bind]
      split
      · rfl
      · rw [value_readBe_bind]
        split
        · rfl
        · rfl

theorem value_readSrc (wwn : List UInt8) (a index : ℕ) (x : XcopyList) :
    (readSrc dev wwn a index x).value mem.look =
      .ok (x.withSrc dev wwn (mem.load (a + 8) 16) index) := by
  by_cases hs : index = x.stdi
  · rw [readSrc, if_pos hs]
    rfl
  · rw [readSrc, if_neg hs, XcopyList.withSrc, if_neg hs]
    rfl

theorem value_readDst (wwn : List UInt8) (a index : ℕ) (x : XcopyList) :
    (readDst dev wwn a index x).value mem.look =
      .ok (x.withDst dev wwn (mem.load (a + 8) 16) index) := by
  by_cases hd : index = x.dtdi
  · rw [readDst, if_pos hd]
    rfl
  · rw [readDst, if_neg hd, XcopyList.withDst, if_neg hd]
    rfl

theorem value_readTargetId (a index : ℕ) (x : XcopyList) :
    (readTargetId dev a index x).value mem.look = xcopyParseTargetId dev mem a index x := by
  rw [readTargetId, xcopyParseTargetId]
  cases xcopyGenNaaIeee dev with
  | none => rfl
  | some wwn =>
    dsimp only
    rw [value_readByte_bind]
    split
    · rfl
    · rw [value_readByte_bind]
      split
      · rfl
      · rw [value_readByte_bind]
        split
        · rfl
        · rw [value_readByte_bind]
          split
          · rfl
          · rw [value_readByte_bind]
            split
            · rfl
            · rw [Prog.value_bind_ok (value_readSrc wwn a index x)]
              exact value_readDst wwn a index _

theorem value_readTargetDesc (a index : ℕ) (x : XcopyList) :
    (readTargetDesc dev a index x).value mem.look = xcopyParseTargetDesc dev mem a index x := by
  rw [readTargetDesc, xcopyParseTargetDesc, value_readByte_bind]
  split
  · exact value_readTargetId _ index x
  · rfl

theorem value_readTargetDescs (a tdll : ℕ) (x : XcopyList) :
    (readTargetDescs dev ctx a tdll x).value mem.look =
      xcopyParseTargetDescs dev ctx mem a tdll x := by
  rw [readTargetDescs, xcopyParseTargetDescs]
  split
  · rfl
  · rw [Prog.value_bind, value_readTargetDesc]
    refine congrArg _ (funext fun y => ?_)
    rw [Prog.value_bind, value_readTargetDesc]
    refine congrArg _ (funext fun z => ?_)
    split
    · cases xcopyLocateUdev z.dstTidWwn ctx with
      | none => rfl
      | some dst => rfl
    · split
      · cases xcopyLocateUdev z.srcTidWwn ctx with
        | none => rfl
        | some src => rfl
      · rfl

/-- **The parser with its reads has the value of the parser.** -/
theorem value_readList (a n : ℕ) :
    (readList dev ctx a n).value mem.look = xcopyParseList dev ctx mem a n := by
  rw [readList, xcopyParseList, value_readByte_bind, value_readByte_bind]
  split
  · rfl
  · dsimp only
    rw [value_readBe_bind]
    split
    · rfl
    · rw [value_readBe_bind]
      split
      · rfl
      · split
        · rfl
        · rw [value_readBe_bind]
          split
          · rfl
          · rw [Prog.value_bind, value_readSegmentDescs]
            exact congrArg _ (funext fun x => value_readTargetDescs _ _ x)

end Value

/-! ### The reads of the parser -/

section Reads

variable {dev : TcmuDev} {ctx : List TcmuDev} {mem : Mem}

theorem inside_readSrc (wwn : List UInt8) (a index : ℕ) (x : XcopyList) :
    Inside a (a + 24) ((readSrc dev wwn a index x).trail mem.look) := by
  rw [readSrc]
  split
  · exact inside_cons.mpr ⟨by omega, inside_nil⟩
  · exact inside_nil

theorem inside_readDst (wwn : List UInt8) (a index : ℕ) (x : XcopyList) :
    Inside a (a + 24) ((readDst dev wwn a index x).trail mem.look) := by
  rw [readDst]
  split
  · exact inside_cons.mpr ⟨by omega, inside_nil⟩
  · exact inside_nil

theorem inside_readTargetId (a index : ℕ) (x : XcopyList) :
    Inside a (a + 24) ((readTargetId dev a index x).trail mem.look) := by
  rw [readTargetId]
  cases xcopyGenNaaIeee dev with
  | none => exact inside_nil
  | some wwn =>
    dsimp only
    rw [trail_readByte_bind]
    refine inside_cons.mpr ⟨by omega, ?_⟩
    split
    · exact inside_nil
    · rw [trail_readByte_bind]
      refine inside_cons.mpr ⟨by omega, ?_⟩
      split
      · exact inside_nil
      · rw [trail_readByte_bind]
        refine inside_cons.mpr ⟨by omega, ?_⟩
        split
        · exact inside_nil
        · rw [trail_readByte_bind]
          refine inside_cons.mpr ⟨by omega, ?_⟩
          split
          · exact inside_nil
          · rw [trail_readByte_bind]
            refine inside_cons.mpr ⟨by omega, ?_⟩
            split
            · exact inside_nil
            · rw [Prog.trail_bind_ok (value_readSrc wwn a index x)]
              exact inside_append.mpr ⟨inside_readSrc wwn a index x, inside_readDst wwn a index _⟩

/-- A target descriptor is read up to its designator. -/
theorem inside_readTargetDesc (a index : ℕ) (x : XcopyList) :
    Inside (a + 32 * index) (a + 32 * index + 24)
      ((readTargetDesc dev a index x).trail mem.look) := by
  rw [readTargetDesc, trail_readByte_bind]
  refine inside_cons.mpr ⟨by omega, ?_⟩
  split
  · exact inside_readTargetId _ index x
  · exact inside_nil

/-- The target descriptors are read inside the list if the segment descriptor is inside: there are
two of them, or they end where it begins. -/
theorem inside_readTargetDescs {a tdll : ℕ} (htdll : tdll % 32 = 0)
    (htype : mem.byte (a + tdll) = 0x02) (x : XcopyList) :
    Inside a (a + tdll + 28) ((readTargetDescs dev ctx a tdll x).trail mem.look) := by
  rw [readTargetDescs]
  split
  · exact inside_nil
  · rcases Nat.eq_zero_or_pos tdll with rfl | hpos
    · -- the type of the segment descriptor is not that of a target
      rw [Nat.add_zero] at htype
      have htrail : (readTargetDesc dev a 0 x).trail mem.look = [(a, 1)] := by
        rw [readTargetDesc, trail_readByte_bind, Nat.mul_zero, Nat.add_zero, htype]
        rfl
      have hvalue : (readTargetDesc dev a 0 x).value mem.look = .error .notsuppTgtDescType := by
        rw [readTargetDesc, value_readByte_bind, Nat.mul_zero, Nat.add_zero, htype]
        rfl
      rw [Prog.trail_bind_error hvalue, htrail]
      exact inside_cons.mpr ⟨by omega, inside_nil⟩
    · have hge : 32 ≤ tdll := by omega
      refine Prog.forall_trail_bind ((inside_readTargetDesc a 0 x).mono (by omega) (by omega))
        fun y _ => Prog.forall_trail_bind
          ((inside_readTargetDesc a 1 y).mono (by omega) (by omega)) fun z _ => ?_
      -- looking for the devices reads nothing
      split
      · cases xcopyLocateUdev z.dstTidWwn ctx with
        | none => exact inside_nil
        | some dst => exact inside_nil
      · split
        · cases xcopyLocateUdev z.srcTidWwn ctx with
          | none => exact inside_nil
          | some src => exact inside_nil
        · exact inside_nil

/-- The reads of the header. -/
def headerReads (a : ℕ) : List Read := [(a + 1, 1), (a, 1), (a + 2, 2), (a + 8, 4), (a + 12, 4)]

/-- The reads of a segment descriptor. -/
def segmentReads (a : ℕ) : List Read :=
  [(a, 1), (a + 2, 2), (a + 4, 2), (a + 6, 2), (a + 10, 2), (a + 12, 8), (a + 20, 8)]

end Reads

/-! ### Lengths -/

section Lengths

variable (mem : Mem) (a : ℕ)

/-- TARGET DESCRIPTOR LIST LENGTH. -/
def listTdll : ℕ := mem.be (a + 2) 2

/-- SEGMENT DESCRIPTOR LIST LENGTH. -/
def listSdll : ℕ := mem.be (a + 8) 4

/-- INLINE DATA LENGTH. -/
def listInline : ℕ := mem.be (a + 12) 4

/-- DESCRIPTOR LENGTH of the segment descriptor. -/
def listDescLen : ℕ := mem.be (segmentDesc mem a + 2) 2

/-- The lengths in the list are the supported ones, and they fit into its `n` bytes. -/
def LengthsFit (n : ℕ) : Prop :=
  listSdll mem a = 28 ∧ listDescLen mem a = 0x18 ∧
    16 + listTdll mem a + listSdll mem a + listInline mem a ≤ n

/-- **The list is decoded as it should.** For all devices, the parser reads bytes of the list only,
and it returns an error if the lengths do not fit. -/
def XcopyDecodes (n : ℕ) : Prop :=
  ∀ dev ctx, Inside a (a + n) ((readList dev ctx a n).trail mem.look) ∧
    (¬ LengthsFit mem a n → ∃ sts, (readList dev ctx a n).value mem.look = .error sts)

/-- The checks on the header, on what is left of the lengths: those of
`xcopy_parse_parameter_list`, and the first two of `xcopy_parse_segment_descs`. -/
structure Passes (n : ℕ) : Prop where
  /-- LIST ID USAGE. -/
  usage : mem.byte (a + 1) &&& 0x18 = 0x18
  /-- LIST IDENTIFIER. -/
  listId : mem.byte a = 0
  /-- Target descriptors have 32 bytes. -/
  tdll : listTdll mem a % 32 = 0
  /-- A segment descriptor has a header. -/
  sdll : 8 ≤ listSdll mem a % 2 ^ 16
  /-- The descriptors are not too long. -/
  desc : listTdll mem a + listSdll mem a % 2 ^ 16 ≤ 1024
  /-- Everything seems to fit. -/
  sum : (16 + listTdll mem a + listSdll mem a % 2 ^ 16 + listInline mem a) % 2 ^ 32 ≤ n
  /-- There seems to be one segment descriptor, or none. -/
  segment : listSdll mem a % 2 ^ 16 % 2 ^ 8 = 28 ∨ listSdll mem a % 2 ^ 16 % 2 ^ 8 = 0

/-- No length is cut off. -/
structure NoneCut : Prop where
  /-- The length of the segment descriptors has 8 bits. -/
  sdll_lt : listSdll mem a < 2 ^ 8
  /-- The length of the segment descriptor has 8 bits. -/
  descLen_lt : listDescLen mem a < 2 ^ 8
  /-- The sum of the lengths has 32 bits. -/
  sum_lt : 16 + listTdll mem a + listSdll mem a + listInline mem a < 2 ^ 32

/-- The target descriptor at address `a` is one of the supported kind. -/
structure TargetOk : Prop where
  /-- DESCRIPTOR TYPE CODE. -/
  type : mem.byte a = 0xe4
  /-- CODE SET. -/
  codeSet : mem.byte (a + 4) &&& 0x0f = 0x1
  /-- ASSOCIATION. -/
  association : mem.byte (a + 5) &&& 0x30 = 0x00
  /-- DESIGNATOR TYPE. -/
  designatorType : mem.byte (a + 5) &&& 0x0f = 0x3
  /-- DESIGNATOR LENGTH. -/
  designatorLength : mem.byte (a + 7) = 16
  /-- NAA. -/
  naa : mem.byte (a + 8) >>> 4 = 0x06

/-- The list has two target descriptors of the supported kind. -/
def TargetsOk : Prop :=
  listTdll mem a ≤ 64 ∧ TargetOk mem (a + 16) ∧ TargetOk mem (a + 48)

/-- The list is refused because of its descriptors, before a byte behind its `n` bytes is read: for
the type of the segment descriptor, for its length, or for the target descriptors. -/
def Refused (n : ℕ) : Prop :=
  (16 + listTdll mem a + 1 ≤ n ∧ mem.byte (segmentDesc mem a) ≠ 0x02) ∨
    (16 + listTdll mem a + 4 ≤ n ∧ listDescLen mem a % 2 ^ 8 ≠ 0x18) ∨
    (16 + listTdll mem a + 28 ≤ n ∧ ¬ TargetsOk mem a)

end Lengths

section Decode

variable {dev : TcmuDev} {ctx : List TcmuDev} {mem : Mem} {a n : ℕ} {x : XcopyList}

/-! ### Targets -/

/-- A descriptor of another kind is an error. -/
theorem parseTargetDesc_error {index : ℕ} (h : ¬ TargetOk mem (a + 32 * index)) (dev : TcmuDev)
    (x : XcopyList) :
    ∃ sts, xcopyParseTargetDesc dev mem a index x = .error sts := by
  rw [xcopyParseTargetDesc]
  split
  · rename_i htype
    rw [xcopyParseTargetId]
    cases xcopyGenNaaIeee dev with
    | none => exact ⟨_, rfl⟩
    | some wwn =>
      dsimp only
      repeat' split
      · exact ⟨_, rfl⟩
      · exact ⟨_, rfl⟩
      · exact ⟨_, rfl⟩
      · exact ⟨_, rfl⟩
      · exact ⟨_, rfl⟩
      · rename_i hcode hassoc htype' hlength hnaa
        exact absurd ⟨htype, not_not.mp hcode, not_not.mp hassoc, not_not.mp htype',
          not_not.mp hlength, not_not.mp hnaa⟩ h
  · exact ⟨_, rfl⟩

/-- A descriptor of the supported kind is none. -/
theorem parseTargetDesc_of_targetOk {index : ℕ} {wwn : List UInt8}
    (h : TargetOk mem (a + 32 * index)) (hgen : xcopyGenNaaIeee dev = some wwn) :
    xcopyParseTargetDesc dev mem a index x =
      .ok ((x.withSrc dev wwn (designator mem a index) index).withDst dev wwn
        (designator mem a index) index) := by
  rw [xcopyParseTargetDesc, if_pos h.type, xcopyParseTargetId, hgen]
  dsimp only
  rw [if_neg (not_not.mpr h.codeSet), if_neg (not_not.mpr h.association),
    if_neg (not_not.mpr h.designatorType), if_neg (not_not.mpr h.designatorLength),
    if_neg (not_not.mpr h.naa)]
  rfl

theorem parseTargetDescs_error (h : ¬ TargetsOk mem a) (dev : TcmuDev) (ctx : List TcmuDev)
    (x : XcopyList) :
    ∃ sts, xcopyParseTargetDescs dev ctx mem (a + 16) (listTdll mem a) x = .error sts := by
  rw [xcopyParseTargetDescs]
  split
  · exact ⟨_, rfl⟩
  · rename_i htdll
    cases hfirst : xcopyParseTargetDesc dev mem (a + 16) 0 x with
    | error sts => exact ⟨sts, rfl⟩
    | ok y =>
      by_cases hok : TargetOk mem (a + 16 + 32 * 0)
      · have hsecond : ¬ TargetOk mem (a + 16 + 32 * 1) :=
          fun hok' => h ⟨by omega, hok, hok'⟩
        obtain ⟨sts, hsts⟩ := parseTargetDesc_error hsecond dev y
        refine ⟨sts, ?_⟩
        change (xcopyParseTargetDesc dev mem (a + 16) 1 y >>= _) = _
        rw [hsts]
        rfl
      · obtain ⟨sts, hsts⟩ := parseTargetDesc_error hok dev x
        exact absurd (hfirst.symm.trans hsts) (by simp)

/-- If the device is neither of the two, nothing is looked for. -/
theorem parseTargetDescs_of_none {tdll : ℕ} {y z : XcopyList} (htdll : tdll ≤ 64)
    (hy : xcopyParseTargetDesc dev mem a 0 x = .ok y)
    (hz : xcopyParseTargetDesc dev mem a 1 y = .ok z) (hsrc : z.srcDev = none)
    (hdst : z.dstDev = none) : xcopyParseTargetDescs dev ctx mem a tdll x = .ok z := by
  rw [xcopyParseTargetDescs, if_neg (by omega), hy]
  change (xcopyParseTargetDesc dev mem a 1 y >>= _) = _
  rw [hz]
  change (if z.srcDev.isSome = true then _ else if z.dstDev.isSome = true then _ else _) = _
  rw [hsrc, hdst]
  rfl

/-- There are devices with other designators than two given ones. -/
theorem exists_other_device (w w' : List UInt8) :
    ∃ dev wwn, xcopyGenNaaIeee dev = some wwn ∧ wwn ≠ w ∧ wwn ≠ w' := by
  have hnaa : ∀ serial wwn, xcopyGenNaaIeee { copyDev with wwn := some serial } = some wwn →
      wwn ≠ w → wwn ≠ w' → ∃ dev wwn, xcopyGenNaaIeee dev = some wwn ∧ wwn ≠ w ∧ wwn ≠ w' :=
    fun _ wwn hgen hw hw' => ⟨_, wwn, hgen, hw, hw'⟩
  have hzero := hnaa "" ([0x60, 0x01, 0x40, 0x50] ++ List.replicate 12 0) (by decide +kernel)
  have hone := hnaa "1" ([0x60, 0x01, 0x40, 0x51] ++ List.replicate 12 0) (by decide +kernel)
  have htwo := hnaa "2" ([0x60, 0x01, 0x40, 0x52] ++ List.replicate 12 0) (by decide +kernel)
  -- two of three can be taken
  by_cases hw : [0x60, 0x01, 0x40, 0x50] ++ List.replicate 12 0 = w
  · subst hw
    by_cases hw' : [0x60, 0x01, 0x40, 0x51] ++ List.replicate 12 0 = w'
    · subst hw'
      exact htwo (by decide) (by decide)
    · exact hone (by decide) hw'
  · by_cases hw' : [0x60, 0x01, 0x40, 0x50] ++ List.replicate 12 0 = w'
    · subst hw'
      by_cases hw : [0x60, 0x01, 0x40, 0x51] ++ List.replicate 12 0 = w
      · subst hw
        exact htwo (by decide) (by decide)
      · exact hone hw (by decide)
    · exact hzero hw hw'

/-- Two target descriptors of the supported kind are accepted by some device. -/
theorem exists_parseTargetDescs (h : TargetsOk mem a)
    (hx : ∀ dev wwn b, x.Upto dev wwn mem b 0) :
    ∃ dev y, xcopyParseTargetDescs dev [] mem (a + 16) (listTdll mem a) x = .ok y := by
  obtain ⟨htdll, hfirst, hsecond⟩ := h
  obtain ⟨dev, wwn, hgen, hne, hne'⟩ :=
    exists_other_device (designator mem (a + 16) 0) (designator mem (a + 16) 1)
  have hupto := (hx dev wwn (a + 16)).withTarget.withTarget
  -- neither descriptor names the device
  have hother : ∀ k, ¬ (k < 2 ∧ wwn = designator mem (a + 16) k) := by
    rintro k ⟨hk, heq⟩
    rcases Nat.lt_or_ge k 1 with hlt | hge
    · obtain rfl : k = 0 := by omega
      exact hne heq
    · obtain rfl : k = 1 := by omega
      exact hne' heq
  have hsrc := hupto.srcDev_eq
  have hdst := hupto.dstDev_eq
  rw [if_neg (hother _)] at hsrc hdst
  exact ⟨dev, _, parseTargetDescs_of_none htdll (parseTargetDesc_of_targetOk hfirst hgen)
    (parseTargetDesc_of_targetOk hsecond hgen) hsrc hdst⟩

/-! ### The header and the segment descriptor -/

/-- A segment descriptor is not read if its length cannot be right. -/
theorem readSegmentDescs_of_length {sdll : ℕ} (h : ¬ (sdll = 28 ∨ sdll = 0)) :
    readSegmentDescs a sdll = .fail .invalidParamList := by
  rw [readSegmentDescs]
  split
  · rfl
  · rw [if_pos (by omega)]

/-- A header that does not pass is an error, and nothing behind it is read. -/
theorem readList_of_not_passes (hn : 16 ≤ n) (h : ¬ Passes mem a n) (dev : TcmuDev)
    (ctx : List TcmuDev) : Inside a (a + n) ((readList dev ctx a n).trail mem.look) ∧
      ∃ sts, (readList dev ctx a n).value mem.look = .error sts := by
  rw [readList, trail_readByte_bind, trail_readByte_bind, value_readByte_bind, value_readByte_bind,
    inside_cons, inside_cons]
  split
  · exact ⟨⟨by omega, by omega, inside_nil⟩, _, rfl⟩
  · rename_i husage
    rw [trail_readBe_bind, value_readBe_bind, inside_cons]
    split
    · exact ⟨⟨by omega, by omega, by omega, inside_nil⟩, _, rfl⟩
    · rename_i htdll
      rw [trail_readBe_bind, value_readBe_bind, inside_cons]
      dsimp only
      split
      · exact ⟨⟨by omega, by omega, by omega, by omega, inside_nil⟩, _, rfl⟩
      · rename_i hsdll
        split
        · exact ⟨⟨by omega, by omega, by omega, by omega, inside_nil⟩, _, rfl⟩
        · rename_i hdesc
          rw [trail_readBe_bind, value_readBe_bind, inside_cons]
          split
          · exact ⟨⟨by omega, by omega, by omega, by omega, by omega, inside_nil⟩, _, rfl⟩
          · rename_i hsum
            have hseg : ¬ (mem.be (a + 8) 4 % 2 ^ 16 % 2 ^ 8 = 28 ∨
                mem.be (a + 8) 4 % 2 ^ 16 % 2 ^ 8 = 0) := fun hseg =>
              h ⟨not_not.mp fun hne => husage (Or.inl hne), not_not.mp fun hne =>
                husage (Or.inr hne), not_not.mp htdll, Nat.not_lt.mp hsdll, Nat.not_lt.mp hdesc,
                Nat.not_lt.mp hsum, hseg⟩
            rw [readSegmentDescs_of_length hseg]
            exact ⟨⟨by omega, by omega, by omega, by omega, by omega, inside_nil⟩, _, rfl⟩

/-- What is left to parse when the header passes. -/
theorem readList_of_passes (h : Passes mem a n) (dev : TcmuDev) (ctx : List TcmuDev) :
    (readList dev ctx a n).trail mem.look = headerReads a ++
      ((readSegmentDescs (segmentDesc mem a) (listSdll mem a % 2 ^ 16 % 2 ^ 8) >>= fun x =>
        readTargetDescs dev ctx (a + 16) (listTdll mem a) x).trail mem.look) ∧
    (readList dev ctx a n).value mem.look =
      (readSegmentDescs (segmentDesc mem a) (listSdll mem a % 2 ^ 16 % 2 ^ 8) >>= fun x =>
        readTargetDescs dev ctx (a + 16) (listTdll mem a) x).value mem.look := by
  obtain ⟨husage, hlistId, htdll, hsdll, hdesc, hsum, -⟩ := h
  have hheader : ¬ (mem.byte (a + 1) &&& 0x18 ≠ 0x18 ∨ mem.byte a ≠ 0) := by
    rintro (hne | hne)
    · exact hne husage
    · exact hne hlistId
  rw [listTdll, listSdll, listInline] at *
  rw [readList, trail_readByte_bind, trail_readByte_bind, value_readByte_bind, value_readByte_bind,
    if_neg hheader, trail_readBe_bind, value_readBe_bind, if_neg (not_not.mpr htdll),
    trail_readBe_bind, value_readBe_bind, if_neg (Nat.not_lt.mpr hsdll),
    if_neg (Nat.not_lt.mpr hdesc), trail_readBe_bind, value_readBe_bind,
    if_neg (Nat.not_lt.mpr hsum)]
  exact ⟨rfl, rfl⟩

/-- The segment descriptor is read up to its type, up to its length, or to its end. -/
theorem readSegmentDescs_of_type {sdll : ℕ} (hsdll : sdll = 28 ∨ sdll = 0)
    (h : mem.byte a ≠ 0x02) : (readSegmentDescs a sdll).trail mem.look = [(a, 1)] ∧
      (readSegmentDescs a sdll).value mem.look = .error .notsuppSegDescType := by
  rw [readSegmentDescs, if_neg (by omega), if_neg (by omega), trail_readByte_bind,
    value_readByte_bind, if_pos h]
  exact ⟨rfl, rfl⟩

@[inherit_doc readSegmentDescs_of_type]
theorem readSegmentDescs_of_descLen {sdll : ℕ} (hsdll : sdll = 28 ∨ sdll = 0)
    (htype : mem.byte a = 0x02) (h : mem.be (a + 2) 2 % 2 ^ 8 ≠ 0x18) :
    (readSegmentDescs a sdll).trail mem.look = [(a, 1), (a + 2, 2)] ∧
      (readSegmentDescs a sdll).value mem.look = .error .invalidParamList := by
  rw [readSegmentDescs, if_neg (by omega), if_neg (by omega), trail_readByte_bind,
    value_readByte_bind, if_neg (not_not.mpr htype), trail_readBe_bind, value_readBe_bind, if_pos h]
  exact ⟨rfl, rfl⟩

@[inherit_doc readSegmentDescs_of_type]
theorem readSegmentDescs_of_ok {sdll : ℕ} (hsdll : sdll = 28 ∨ sdll = 0)
    (htype : mem.byte a = 0x02) (h : mem.be (a + 2) 2 % 2 ^ 8 = 0x18) :
    (readSegmentDescs a sdll).trail mem.look = segmentReads a ∧
      ∃ x, (readSegmentDescs a sdll).value mem.look = .ok x ∧
        ∀ dev wwn b, x.Upto dev wwn mem b 0 := by
  rw [readSegmentDescs, if_neg (by omega), if_neg (by omega), trail_readByte_bind,
    value_readByte_bind, if_neg (not_not.mpr htype), trail_readBe_bind, value_readBe_bind,
    if_neg (not_not.mpr h)]
  exact ⟨rfl, _, rfl, fun _ _ _ => ⟨rfl, rfl, rfl, rfl⟩⟩

/-! ### The main result -/

theorem inside_headerReads (hn : 16 ≤ n) : Inside a (a + n) (headerReads a) := by
  simp only [headerReads, inside_cons]
  exact ⟨by omega, by omega, by omega, by omega, by omega, inside_nil⟩

/-- Where nothing is cut off, what passes fits. -/
theorem Passes.fit (hp : Passes mem a n) (hcut : NoneCut mem a) :
    listSdll mem a = 28 ∧ 16 + listTdll mem a + 28 + listInline mem a ≤ n := by
  obtain ⟨-, -, -, hsdll, -, hsum, hsegment⟩ := hp
  obtain ⟨hsdllLt, -, hsumLt⟩ := hcut
  have heq : listSdll mem a % 2 ^ 16 = listSdll mem a := Nat.mod_eq_of_lt (by omega)
  rw [heq, Nat.mod_eq_of_lt hsdllLt] at hsegment
  rw [heq] at hsdll hsum
  rw [Nat.mod_eq_of_lt hsumLt] at hsum
  omega

/-- What fits is not cut off. -/
theorem LengthsFit.noneCut (hn : n < 2 ^ 32) (h : LengthsFit mem a n) : NoneCut mem a := by
  obtain ⟨hsdll, hdescLen, hsum⟩ := h
  exact ⟨by omega, by omega, by omega⟩

/-- A list that is refused at its segment descriptor is decoded as it should if the bytes that are
read of it are there. -/
theorem decodes_iff_of_error {rs : List Read} {k : ℕ} {sts : TcmuSts} (hn : 16 ≤ n)
    (hp : Passes mem a n)
    (hseg : (readSegmentDescs (segmentDesc mem a) (listSdll mem a % 2 ^ 16 % 2 ^ 8)).trail
      mem.look = rs)
    (herr : (readSegmentDescs (segmentDesc mem a) (listSdll mem a % 2 ^ 16 % 2 ^ 8)).value
      mem.look = .error sts)
    (hrs : Inside a (a + n) rs ↔ 16 + listTdll mem a + k ≤ n) :
    XcopyDecodes mem a n ↔ 16 + listTdll mem a + k ≤ n := by
  have htrail : ∀ dev ctx, (readList dev ctx a n).trail mem.look = headerReads a ++ rs := by
    intro dev ctx
    rw [(readList_of_passes hp dev ctx).1, Prog.trail_bind_error herr, hseg]
  have hvalue : ∀ dev ctx, (readList dev ctx a n).value mem.look = .error sts := by
    intro dev ctx
    rw [(readList_of_passes hp dev ctx).2, Prog.value_bind, herr]
    rfl
  rw [← hrs]
  constructor
  · intro h
    have hinside := (h copyDev []).1
    rw [htrail, inside_append] at hinside
    exact hinside.2
  · intro h dev ctx
    rw [htrail, hvalue, inside_append]
    exact ⟨⟨inside_headerReads hn, h⟩, fun _ => ⟨sts, rfl⟩⟩

/-- A list whose segment descriptor is accepted. -/
theorem decodes_iff_of_segment (hn : 16 ≤ n) (hp : Passes mem a n)
    (htype : mem.byte (segmentDesc mem a) = 0x02) (hdescLen : listDescLen mem a % 2 ^ 8 = 0x18) :
    XcopyDecodes mem a n ↔
      16 + listTdll mem a + 28 ≤ n ∧ (¬ LengthsFit mem a n → ¬ TargetsOk mem a) := by
  obtain ⟨hseg, x, hx, hupto⟩ := readSegmentDescs_of_ok hp.segment htype hdescLen
  have htrail : ∀ dev ctx, (readList dev ctx a n).trail mem.look =
      headerReads a ++ (segmentReads (segmentDesc mem a) ++
        (readTargetDescs dev ctx (a + 16) (listTdll mem a) x).trail mem.look) := by
    intro dev ctx
    rw [(readList_of_passes hp dev ctx).1, Prog.trail_bind_ok hx, hseg]
  have hvalue : ∀ dev ctx, (readList dev ctx a n).value mem.look =
      xcopyParseTargetDescs dev ctx mem (a + 16) (listTdll mem a) x := by
    intro dev ctx
    rw [(readList_of_passes hp dev ctx).2, Prog.value_bind_ok hx, value_readTargetDescs]
  have haddr : segmentDesc mem a = a + 16 + listTdll mem a := rfl
  constructor
  · intro h
    refine ⟨?_, fun hfit htargets => ?_⟩
    · -- the last field of the segment descriptor
      have hinside := (h copyDev []).1
      rw [htrail, inside_append, inside_append] at hinside
      have hlast := hinside.2.1 (segmentDesc mem a + 20, 8) (by simp [segmentReads])
      rw [haddr] at hlast
      omega
    · obtain ⟨dev, y, hy⟩ := exists_parseTargetDescs htargets hupto
      obtain ⟨sts, hsts⟩ := (h dev []).2 hfit
      rw [hvalue, hy] at hsts
      exact absurd hsts (by simp)
  · rintro ⟨hle, htargets⟩ dev ctx
    rw [htrail, hvalue, inside_append, inside_append]
    refine ⟨⟨inside_headerReads hn, ?_, ?_⟩, fun hfit => ?_⟩
    · rw [haddr]
      simp only [segmentReads, inside_cons]
      exact ⟨by omega, by omega, by omega, by omega, by omega, by omega, by omega, inside_nil⟩
    · exact (inside_readTargetDescs hp.tdll htype x).mono (by omega) (by omega)
    · exact parseTargetDescs_error (htargets hfit) dev ctx x

/-- **The parameter list is decoded as it should**, for all devices, if and only if it is refused
because of its header, or no length is cut off, or it is refused because of its descriptors. -/
theorem xcopy_decodes_iff (hn : 16 ≤ n) (hlt : n < 2 ^ 32) :
    XcopyDecodes mem a n ↔ (Passes mem a n → NoneCut mem a ∨ Refused mem a n) := by
  by_cases hp : Passes mem a n
  · rw [imp_iff_right hp]
    have haddr : segmentDesc mem a = a + 16 + listTdll mem a := rfl
    by_cases htype : mem.byte (segmentDesc mem a) = 0x02
    · by_cases hdescLen : listDescLen mem a % 2 ^ 8 = 0x18
      · rw [decodes_iff_of_segment hn hp htype hdescLen]
        constructor
        · rintro ⟨hle, htargets⟩
          by_cases hcut : NoneCut mem a
          · exact Or.inl hcut
          · exact Or.inr (Or.inr (Or.inr ⟨hle, htargets fun hfit => hcut (hfit.noneCut hlt)⟩))
        · rintro (hcut | ⟨-, hne⟩ | ⟨-, hne⟩ | ⟨hle, htargets⟩)
          · obtain ⟨hsdll, hsum⟩ := hp.fit hcut
            rw [Nat.mod_eq_of_lt hcut.descLen_lt] at hdescLen
            exact ⟨by omega, fun hnot => absurd ⟨hsdll, hdescLen, by omega⟩ hnot⟩
          · exact absurd htype hne
          · exact absurd hdescLen hne
          · exact ⟨hle, fun _ => htargets⟩
      · obtain ⟨hseg, herr⟩ := readSegmentDescs_of_descLen hp.segment htype hdescLen
        rw [decodes_iff_of_error (k := 4) hn hp hseg herr
          (by simp only [inside_cons, inside_nil, haddr, and_true]; omega)]
        constructor
        · exact fun hle => Or.inr (Or.inr (Or.inl ⟨hle, hdescLen⟩))
        · rintro (hcut | ⟨-, hne⟩ | ⟨hle, -⟩ | ⟨hle, -⟩)
          · obtain ⟨-, hsum⟩ := hp.fit hcut
            omega
          · exact absurd htype hne
          · exact hle
          · omega
    · obtain ⟨hseg, herr⟩ := readSegmentDescs_of_type hp.segment htype
      rw [decodes_iff_of_error (k := 1) hn hp hseg herr
        (by simp only [inside_cons, inside_nil, haddr, and_true]; omega)]
      constructor
      · exact fun hle => Or.inr (Or.inl ⟨hle, htype⟩)
      · rintro (hcut | ⟨hle, -⟩ | ⟨hle, -⟩ | ⟨hle, -⟩)
        · obtain ⟨-, hsum⟩ := hp.fit hcut
          omega
        · exact hle
        · omega
        · omega
  · refine iff_of_true (fun dev ctx => ?_) fun h => absurd h hp
    obtain ⟨hinside, herr⟩ := readList_of_not_passes hn hp dev ctx
    exact ⟨hinside, fun _ => herr⟩

end Decode

/-- A list of 108 bytes, in which nothing is cut off. -/
theorem xcopy_decodes_last :
    LengthsFit (copyRequest.paramMem (copyMem 0 7) 0x1000) 0x1000 108 ∧
      XcopyDecodes (copyRequest.paramMem (copyMem 0 7) 0x1000) 0x1000 108 :=
  ⟨⟨by decide +kernel, by decide +kernel, by decide +kernel⟩,
    (xcopy_decodes_iff (by decide) (by decide)).mpr fun _ =>
      Or.inl ⟨by decide +kernel, by decide +kernel, by decide +kernel⟩⟩

/-- The memory with a parameter list at address 0x1000. -/
def listMem (list : List UInt8) : Mem := Mem.store (fun _ => 0) 0x1000 list

/-- A header whose inline data length makes the sum of the lengths zero. -/
def wrapList : List UInt8 := [0, 0x18, 0, 64, 0, 0, 0, 0, 0, 0, 0, 28, 0xff, 0xff, 0xff, 0x94]

/-- A list with a length of the segment descriptors of 65564 bytes. -/
def longList : List UInt8 := (copyList 0 7).set 9 1

/-- Of a list of 16 bytes the byte at offset 80 is read, and a list of 108 bytes is accepted that
announces 65564 bytes of segment descriptors. -/
theorem xcopy_cuts_lengths :
    ((0x1000 + 80, 1) ∈ (readList copyDev [copyDev] 0x1000 16).trail (listMem wrapList).look ∧
      ¬ XcopyDecodes (listMem wrapList) 0x1000 16) ∧
    ((readList copyDev [copyDev] 0x1000 108).value (listMem longList).look = .ok (copyOf 7) ∧
      listSdll (listMem longList) 0x1000 = 65564 ∧
      ¬ XcopyDecodes (listMem longList) 0x1000 108) := by
  have hread : (0x1000 + 80, 1) ∈
      (readList copyDev [copyDev] 0x1000 16).trail (listMem wrapList).look := by decide +kernel
  have hvalue : (readList copyDev [copyDev] 0x1000 108).value (listMem longList).look =
      .ok (copyOf 7) := by decide +kernel
  have hsdll : listSdll (listMem longList) 0x1000 = 65564 := by decide +kernel
  refine ⟨⟨hread, fun h => ?_⟩, hvalue, hsdll, fun h => ?_⟩
  · exact absurd ((h copyDev [copyDev]).1 _ hread) (by decide)
  · have hfit : ¬ LengthsFit (listMem longList) 0x1000 108 := by
      rintro ⟨heq, -⟩
      exact absurd (hsdll.symm.trans heq) (by decide)
    obtain ⟨sts, hsts⟩ := (h copyDev [copyDev]).2 hfit
    exact absurd (hvalue.symm.trans hsts) (by simp)

end Tcmu

end LioProject
