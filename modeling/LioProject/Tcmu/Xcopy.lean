import LioProject.Tcmu.Runner

/-!
# The parameter list of `EXTENDED COPY`

`xcopy_parse_parameter_list` and what it calls. The list is read from memory, at the address where
it has been copied to: nothing keeps the parser from looking behind its end.

Several lengths are narrowed on the way. The segment descriptor length is a 32-bit field that is
kept in 16 bits and handed on in 8, and the sum of the lengths is computed in 32 bits.

The devices of the copy are found by their designators. If neither descriptor names the device that
the command was sent to, none is looked up, and the pointers stay `NULL`.
-/

namespace LioProject

namespace Tcmu

/-! ### Designators -/

/-- `char_to_hex`. -/
def charToHex (c : Char) : Option ℕ :=
  if '0' ≤ c ∧ c ≤ '9' then some (c.toNat - '0'.toNat)
  else if 'a' ≤ c ∧ c ≤ 'f' then some (c.toNat - 'a'.toNat + 10)
  else if 'A' ≤ c ∧ c ≤ 'F' then some (c.toNat - 'A'.toNat + 10)
  else none

/-- The loop of `xcopy_gen_naa_ieee`: the digits of the serial number fill the designator from
index `ind` on, half a byte each, the lower half first when `next` is set. -/
def naaDigits : List Char → List UInt8 → ℕ → Bool → List UInt8
  | [], wwn, _, _ => wwn
  | c :: cs, wwn, ind, next =>
    if 16 ≤ ind then wwn
    else
      match charToHex c with
      | none => naaDigits cs wwn ind next
      | some val =>
        if next then
          naaDigits cs (wwn.set ind (wwn.getD ind 0 ||| UInt8.ofNat val)) (ind + 1) false
        else naaDigits cs (wwn.set ind (UInt8.ofNat (val <<< 4))) ind true

/-- `xcopy_gen_naa_ieee`: the designator of a device. -/
def xcopyGenNaaIeee (dev : TcmuDev) : Option (List UInt8) :=
  dev.wwn.map fun serial =>
    naaDigits serial.toList ([0x60, 0x01, 0x40, 0x50] ++ List.replicate 12 0) 3 true

/-- `xcopy_locate_udev`: the first device with the designator, unless a designator before it cannot
be read. -/
def xcopyLocateUdev (wwn : List UInt8) : List TcmuDev → Option TcmuDev
  | [] => none
  | dev :: devs =>
    match xcopyGenNaaIeee dev with
    | none => none
    | some w => if w = wwn then some dev else xcopyLocateUdev wwn devs

/-! ### Descriptors -/

/-- What has been found out about a copy: the fields of `struct xcopy` that the parser fills in. -/
structure XcopyList where
  /-- `stdi`. -/
  stdi : ℕ
  /-- `dtdi`. -/
  dtdi : ℕ
  /-- `lba_cnt`. -/
  lbaCnt : ℕ
  /-- `src_lba`. -/
  srcLba : ℕ
  /-- `dst_lba`. -/
  dstLba : ℕ
  /-- `src_tid_wwn`. -/
  srcTidWwn : List UInt8
  /-- `dst_tid_wwn`. -/
  dstTidWwn : List UInt8
  /-- `src_dev`. -/
  srcDev : Option TcmuDev
  /-- `dst_dev`. -/
  dstDev : Option TcmuDev
  deriving DecidableEq, Repr

/-- `xcopy_parse_segment_descs`, for the descriptor at address `a`. `sdll` is a `uint8_t` here. -/
def xcopyParseSegmentDescs (mem : Mem) (a sdll : ℕ) : Except TcmuSts XcopyList :=
  if sdll % 28 ≠ 0 then .error .invalidParamList
  else if sdll > 1 * 28 then .error .invalidParamList
  else if mem.byte a ≠ 0x02 then .error .notsuppSegDescType
  -- the length of the descriptor is kept in a `uint8_t`
  else if mem.be (a + 2) 2 % 2 ^ 8 ≠ 0x18 then .error .invalidParamList
  else .ok
    { stdi := mem.be (a + 4) 2
      dtdi := mem.be (a + 6) 2
      lbaCnt := mem.be (a + 10) 2
      srcLba := mem.be (a + 12) 8
      dstLba := mem.be (a + 20) 8
      srcTidWwn := List.replicate 16 0
      dstTidWwn := List.replicate 16 0
      srcDev := none
      dstDev := none }

/-- The designator `tid` of the descriptor with the given index, if it is that of the source, and
the device that the command was sent to, if its designator is the same. -/
def XcopyList.withSrc (x : XcopyList) (dev : TcmuDev) (wwn tid : List UInt8) (index : ℕ) :
    XcopyList :=
  if index = x.stdi then
    { x with srcTidWwn := tid, srcDev := if wwn = tid then some dev else x.srcDev }
  else x

/-- The same for the destination. -/
def XcopyList.withDst (x : XcopyList) (dev : TcmuDev) (wwn tid : List UInt8) (index : ℕ) :
    XcopyList :=
  if index = x.dtdi then
    { x with dstTidWwn := tid, dstDev := if wwn = tid then some dev else x.dstDev }
  else x

/-- `xcopy_parse_target_id`, for the descriptor at address `a`, which has the given index. -/
def xcopyParseTargetId (dev : TcmuDev) (mem : Mem) (a index : ℕ) (x : XcopyList) :
    Except TcmuSts XcopyList :=
  match xcopyGenNaaIeee dev with
  | none => .error .hwErr
  | some wwn =>
    if mem.byte (a + 4) &&& 0x0f ≠ 0x1 then .error .invalidParamList
    else if mem.byte (a + 5) &&& 0x30 ≠ 0x00 then .error .invalidParamList
    else if mem.byte (a + 5) &&& 0x0f ≠ 0x3 then .error .invalidParamList
    else if mem.byte (a + 7) ≠ 16 then .error .invalidParamList
    else if mem.byte (a + 8) >>> 4 ≠ 0x06 then .error .invalidParamList
    else
      let tid := mem.load (a + 8) 16
      .ok ((x.withSrc dev wwn tid index).withDst dev wwn tid index)

/-- One turn of the loop of `xcopy_parse_target_descs`. -/
def xcopyParseTargetDesc (dev : TcmuDev) (mem : Mem) (a index : ℕ) (x : XcopyList) :
    Except TcmuSts XcopyList :=
  if mem.byte (a + 32 * index) = 0xe4 then xcopyParseTargetId dev mem (a + 32 * index) index x
  else .error .notsuppTgtDescType

/-- `xcopy_parse_target_descs`, for the descriptors from address `a` on. There are always two. -/
def xcopyParseTargetDescs (dev : TcmuDev) (ctx : List TcmuDev) (mem : Mem) (a tdll : ℕ)
    (x : XcopyList) : Except TcmuSts XcopyList :=
  if tdll > 2 * 32 then .error .invalidParamList
  else do
    let x ← xcopyParseTargetDesc dev mem a 0 x
    let x ← xcopyParseTargetDesc dev mem a 1 x
    if x.srcDev.isSome then
      match xcopyLocateUdev x.dstTidWwn ctx with
      | none => .error .cpTgtDevNotconn
      | some dst => .ok { x with dstDev := some dst }
    else if x.dstDev.isSome then
      match xcopyLocateUdev x.srcTidWwn ctx with
      | none => .error .cpTgtDevNotconn
      | some src => .ok { x with srcDev := some src }
    else .ok x

/-- The checks of `xcopy_parse_parameter_list` on a list of `n` bytes at address `a`. -/
def xcopyParseList (dev : TcmuDev) (ctx : List TcmuDev) (mem : Mem) (a n : ℕ) :
    Except TcmuSts XcopyList :=
  if mem.byte (a + 1) &&& 0x18 ≠ 0x18 ∨ mem.byte a ≠ 0 then .error .invalidParamList
  else
    let tdll := mem.be (a + 2) 2
    if tdll % 32 ≠ 0 then .error .invalidParamListLen
    else
      -- a 32-bit field in a `uint16_t`
      let sdll := mem.be (a + 8) 4 % 2 ^ 16
      if sdll < 8 then .error .invalidParamListLen
      else if tdll + sdll > 1024 then .error .invalidParamListLen
      else
        let inlineDl := mem.be (a + 12) 4
        if n < (16 + tdll + sdll + inlineDl) % 2 ^ 32 then .error .invalidParamListLen
        else do
          let x ← xcopyParseSegmentDescs mem (a + 16 + tdll) (sdll % 2 ^ 8)
          xcopyParseTargetDescs dev ctx mem (a + 16) tdll x

/-- `xcopy_parse_parameter_list`: the source and the destination, and the segment. -/
def xcopyParseParameterList (c : Request) :
    Daemon (Except TcmuSts (TcmuDev × TcmuDev × XcopyList)) := do
  let dataLength := xferLengthOf c.cdb
  match ← ask (.calloc dataLength) with
  | none => pure (.error .noResource)
  | some par =>
    let mem ← ask .mem
    match xcopyParseList c.dev c.ctx (copyParam mem par dataLength c.cmd.iov) par dataLength with
    | .error sts => pure (.error sts)
    | .ok x =>
      match x.srcDev, x.dstDev with
      | some src, some dst =>
        if src.geo.blockSize ≠ dst.geo.blockSize then pure (.error .invalidCpTgtDevType)
        else if (x.srcLba + x.lbaCnt) % 2 ^ 64 > src.geo.numLbas then pure (.error .range)
        else if (x.dstLba + x.lbaCnt) % 2 ^ 64 > dst.geo.numLbas then pure (.error .range)
        else pure (.ok (src, dst, x))
      | _, _ => .fail .nullDevice

/-! ### The devices of a copy -/

theorem bind_eq_ok {ε α β : Type} {x : Except ε α} {f : α → Except ε β} {b : β}
    (h : x >>= f = .ok b) : ∃ a, x = .ok a ∧ f a = .ok b := by
  cases x with
  | error e => exact absurd h (by simp [bind, Except.bind])
  | ok a => exact ⟨a, rfl, h⟩

theorem mem_of_xcopyLocateUdev {wwn : List UInt8} {devs : List TcmuDev} {d : TcmuDev}
    (h : xcopyLocateUdev wwn devs = some d) : d ∈ devs := by
  induction devs with
  | nil => exact absurd h (by simp [xcopyLocateUdev])
  | cons e devs ih =>
    rw [xcopyLocateUdev] at h
    split at h
    · exact absurd h (by simp)
    · split at h
      · rw [← Option.some.inj h]
        exact List.mem_cons_self ..
      · exact List.mem_cons_of_mem _ (ih h)

/-- The devices that have been found are among the given ones. -/
def XcopyList.Known (devs : List TcmuDev) (x : XcopyList) : Prop :=
  (∀ d, x.srcDev = some d → d ∈ devs) ∧ ∀ d, x.dstDev = some d → d ∈ devs

section Known

variable {devs : List TcmuDev} {dev : TcmuDev} {mem : Mem} {a index : ℕ} {x x' : XcopyList}

theorem known_parseSegmentDescs {sdll : ℕ} (h : xcopyParseSegmentDescs mem a sdll = .ok x) :
    x.Known devs := by
  rw [xcopyParseSegmentDescs] at h
  repeat' split at h
  · exact absurd h (by simp)
  · exact absurd h (by simp)
  · exact absurd h (by simp)
  · exact absurd h (by simp)
  · rw [← Except.ok.inj h]
    exact ⟨fun _ hd => absurd hd (by simp), fun _ hd => absurd hd (by simp)⟩

theorem known_withSrc (hx : x.Known devs) (hdev : dev ∈ devs) (wwn tid : List UInt8) :
    (x.withSrc dev wwn tid index).Known devs := by
  rw [XcopyList.withSrc]
  split
  · refine ⟨fun d hd => ?_, hx.2⟩
    dsimp only at hd
    split at hd
    · rw [← Option.some.inj hd]
      exact hdev
    · exact hx.1 d hd
  · exact hx

theorem known_withDst (hx : x.Known devs) (hdev : dev ∈ devs) (wwn tid : List UInt8) :
    (x.withDst dev wwn tid index).Known devs := by
  rw [XcopyList.withDst]
  split
  · refine ⟨hx.1, fun d hd => ?_⟩
    dsimp only at hd
    split at hd
    · rw [← Option.some.inj hd]
      exact hdev
    · exact hx.2 d hd
  · exact hx

theorem known_parseTargetId (hx : x.Known devs) (hdev : dev ∈ devs)
    (h : xcopyParseTargetId dev mem a index x = .ok x') : x'.Known devs := by
  rw [xcopyParseTargetId] at h
  repeat' split at h
  · exact absurd h (by simp)
  · exact absurd h (by simp)
  · exact absurd h (by simp)
  · exact absurd h (by simp)
  · exact absurd h (by simp)
  · exact absurd h (by simp)
  · rw [← Except.ok.inj h]
    exact known_withDst (known_withSrc hx hdev _ _) hdev _ _

theorem known_parseTargetDesc (hx : x.Known devs) (hdev : dev ∈ devs)
    (h : xcopyParseTargetDesc dev mem a index x = .ok x') : x'.Known devs := by
  rw [xcopyParseTargetDesc] at h
  split at h
  · exact known_parseTargetId hx hdev h
  · exact absurd h (by simp)

/-- The devices of a copy are devices of the context, and there are both of them or none. -/
theorem known_parseTargetDescs {ctx : List TcmuDev} {tdll : ℕ} (hx : x.Known (dev :: ctx))
    (h : xcopyParseTargetDescs dev ctx mem a tdll x = .ok x') :
    x'.Known (dev :: ctx) ∧ (x'.srcDev.isSome = true ↔ x'.dstDev.isSome = true) := by
  rw [xcopyParseTargetDescs] at h
  split at h
  · exact absurd h (by simp)
  · obtain ⟨y, hy, h⟩ := bind_eq_ok h
    obtain ⟨z, hz, h⟩ := bind_eq_ok h
    have hz := known_parseTargetDesc (known_parseTargetDesc hx (List.mem_cons_self ..) hy)
      (List.mem_cons_self ..) hz
    split at h
    · rename_i hsrc
      split at h
      · exact absurd h (by simp)
      · rename_i dst hdst
        rw [← Except.ok.inj h]
        refine ⟨⟨hz.1, fun d hd => ?_⟩, iff_of_true hsrc rfl⟩
        rw [← Option.some.inj hd]
        exact List.mem_cons_of_mem _ (mem_of_xcopyLocateUdev hdst)
    · rename_i hsrc
      split at h
      · rename_i hdst
        split at h
        · exact absurd h (by simp)
        · rename_i src hfound
          rw [← Except.ok.inj h]
          refine ⟨⟨fun d hd => ?_, hz.2⟩, iff_of_true rfl hdst⟩
          rw [← Option.some.inj hd]
          exact List.mem_cons_of_mem _ (mem_of_xcopyLocateUdev hfound)
      · rename_i hdst
        rw [← Except.ok.inj h]
        exact ⟨hz, iff_of_false hsrc hdst⟩

theorem known_parseList {ctx : List TcmuDev} {n : ℕ}
    (h : xcopyParseList dev ctx mem a n = .ok x) :
    x.Known (dev :: ctx) ∧ (x.srcDev.isSome = true ↔ x.dstDev.isSome = true) := by
  rw [xcopyParseList] at h
  dsimp only at h
  repeat' split at h
  · exact absurd h (by simp)
  · exact absurd h (by simp)
  · exact absurd h (by simp)
  · exact absurd h (by simp)
  · exact absurd h (by simp)
  · obtain ⟨y, hy, h⟩ := bind_eq_ok h
    exact known_parseTargetDescs (known_parseSegmentDescs hy) h

/-- The number of blocks is read from the segment descriptor only. -/
theorem lbaCnt_parseTargetDesc (h : xcopyParseTargetDesc dev mem a index x = .ok x') :
    x'.lbaCnt = x.lbaCnt := by
  rw [xcopyParseTargetDesc, xcopyParseTargetId] at h
  repeat' split at h
  · exact absurd h (by simp)
  · exact absurd h (by simp)
  · exact absurd h (by simp)
  · exact absurd h (by simp)
  · exact absurd h (by simp)
  · exact absurd h (by simp)
  · rw [← Except.ok.inj h, XcopyList.withDst, XcopyList.withSrc]
    repeat' split
    all_goals rfl
  · exact absurd h (by simp)

theorem lbaCnt_parseTargetDescs {ctx : List TcmuDev} {tdll : ℕ}
    (h : xcopyParseTargetDescs dev ctx mem a tdll x = .ok x') : x'.lbaCnt = x.lbaCnt := by
  rw [xcopyParseTargetDescs] at h
  split at h
  · exact absurd h (by simp)
  · obtain ⟨y, hy, h⟩ := bind_eq_ok h
    obtain ⟨z, hz, h⟩ := bind_eq_ok h
    have hz := (lbaCnt_parseTargetDesc hz).trans (lbaCnt_parseTargetDesc hy)
    repeat' split at h
    · exact absurd h (by simp)
    · rw [← Except.ok.inj h]
      exact hz
    · exact absurd h (by simp)
    · rw [← Except.ok.inj h]
      exact hz
    · rw [← Except.ok.inj h]
      exact hz

/-- A segment descriptor has 16 bits for the number of blocks. -/
theorem lbaCnt_lt_of_parseList {ctx : List TcmuDev} {n : ℕ}
    (h : xcopyParseList dev ctx mem a n = .ok x) : x.lbaCnt < 2 ^ 16 := by
  rw [xcopyParseList] at h
  dsimp only at h
  repeat' split at h
  · exact absurd h (by simp)
  · exact absurd h (by simp)
  · exact absurd h (by simp)
  · exact absurd h (by simp)
  · exact absurd h (by simp)
  · obtain ⟨y, hy, h⟩ := bind_eq_ok h
    rw [lbaCnt_parseTargetDescs h]
    rw [xcopyParseSegmentDescs] at hy
    repeat' split at hy
    · exact absurd hy (by simp)
    · exact absurd hy (by simp)
    · exact absurd hy (by simp)
    · exact absurd hy (by simp)
    · rw [← Except.ok.inj hy]
      exact beAt_lt _ 0 2

end Known

/-! ### The errors of the parser -/

theorem bind_eq_error {ε α β : Type} {x : Except ε α} {f : α → Except ε β} {e : ε}
    (h : x >>= f = .error e) : x = .error e ∨ ∃ a, x = .ok a ∧ f a = .error e := by
  cases x with
  | error e' => exact Or.inl (by simpa [bind, Except.bind] using h)
  | ok a => exact Or.inr ⟨a, rfl, h⟩

section Errors

variable {dev : TcmuDev} {mem : Mem} {a : ℕ} {x : XcopyList} {sts : TcmuSts}

theorem parseSegmentDescs_ne_async {sdll : ℕ} (h : xcopyParseSegmentDescs mem a sdll = .error sts) :
    sts ≠ .asyncHandled := by
  rw [xcopyParseSegmentDescs] at h
  repeat' split at h
  · simp [← Except.error.inj h]
  · simp [← Except.error.inj h]
  · simp [← Except.error.inj h]
  · simp [← Except.error.inj h]
  · exact absurd h (by simp)

theorem parseTargetDesc_ne_async {index : ℕ}
    (h : xcopyParseTargetDesc dev mem a index x = .error sts) : sts ≠ .asyncHandled := by
  rw [xcopyParseTargetDesc] at h
  split at h
  · rw [xcopyParseTargetId] at h
    repeat' split at h
    · simp [← Except.error.inj h]
    · simp [← Except.error.inj h]
    · simp [← Except.error.inj h]
    · simp [← Except.error.inj h]
    · simp [← Except.error.inj h]
    · simp [← Except.error.inj h]
    · exact absurd h (by simp)
  · simp [← Except.error.inj h]

theorem parseTargetDescs_ne_async {ctx : List TcmuDev} {tdll : ℕ}
    (h : xcopyParseTargetDescs dev ctx mem a tdll x = .error sts) : sts ≠ .asyncHandled := by
  rw [xcopyParseTargetDescs] at h
  split at h
  · simp [← Except.error.inj h]
  · rcases bind_eq_error h with h | ⟨y, -, h⟩
    · exact parseTargetDesc_ne_async h
    · rcases bind_eq_error h with h | ⟨z, -, h⟩
      · exact parseTargetDesc_ne_async h
      · repeat' split at h
        · simp [← Except.error.inj h]
        · exact absurd h (by simp)
        · simp [← Except.error.inj h]
        · exact absurd h (by simp)
        · exact absurd h (by simp)

/-- An error of the parser is no promise. -/
theorem parseList_ne_async {ctx : List TcmuDev} {n : ℕ}
    (h : xcopyParseList dev ctx mem a n = .error sts) : sts ≠ .asyncHandled := by
  rw [xcopyParseList] at h
  dsimp only at h
  repeat' split at h
  · simp [← Except.error.inj h]
  · simp [← Except.error.inj h]
  · simp [← Except.error.inj h]
  · simp [← Except.error.inj h]
  · simp [← Except.error.inj h]
  · rcases bind_eq_error h with h | ⟨y, -, h⟩
    · exact parseSegmentDescs_ne_async h
    · exact parseTargetDescs_ne_async h

end Errors

end Tcmu

end LioProject
