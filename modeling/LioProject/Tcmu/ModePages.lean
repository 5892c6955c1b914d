import LioProject.Lib.Disk
import LioProject.Tcmu.Scatter

/-!
# Mode pages

`tcmu_emulate_mode_sense` and `tcmu_emulate_mode_select` of `api.c`, for the three pages of a disk.

MODE SENSE fills a buffer of the size that the initiator has allocated. The pages are handled one
after the other; once the buffer is full, its pointer is set to `NULL`, and the handlers only count.
So the data is cut off and its MODE DATA LENGTH is not (`mode_sense_truncates`).

MODE SELECT accepts the page that MODE SENSE returns, and no other. It compares the page with an
array on the stack into which it has copied the parameter list; how much it has copied it does not
look at (`mode_select_sound_iff`).
-/

namespace LioProject

namespace Tcmu

/-! ### The pages -/

/-- `copy_to_response_buf`. `toBuf` is the place in the buffer, and `none` for `NULL`. -/
def copyToResponseBuf (buf : List UInt8) (toBuf : Option ℕ) (toLen : ℕ) (src : List UInt8) :
    Option (List UInt8) :=
  match toBuf with
  | none => some buf
  | some a => place buf a (src.take (if toLen > src.length then src.length else toLen))

/-- What `handle_rwrecovery_page` copies. -/
def rwrecoveryPage : List UInt8 := [0x1, 0xa] ++ List.replicate 10 0

/-- What `handle_cache_page` copies: WCE is set if the device has a write cache. -/
def cachePage (wce : Bool) : List UInt8 :=
  [0x8, 0x12, if wce then 0x4 else 0] ++ List.replicate 17 0

/-- What `handle_control_page` copies. -/
def controlPage : List UInt8 := [0x0a, 0x0a, 0x02, 0, 0, 0x40, 0, 0, 0xff, 0xff, 0, 0]

/-- `struct mode_sense_handler`. A handler copies its page, as far as there is room, and returns
the length of the page. -/
structure ModeSenseHandler where
  /-- `page`. -/
  page : ℕ
  /-- `subpage`. -/
  subpage : ℕ
  /-- The page, for a device with or without a write cache. -/
  data : Bool → List UInt8

/-- `get`. -/
def ModeSenseHandler.get (h : ModeSenseHandler) (wce : Bool) (buf : List UInt8) (toBuf : Option ℕ)
    (toLen : ℕ) : Option (List UInt8 × ℕ) :=
  (copyToResponseBuf buf toBuf toLen (h.data wce)).map fun buf => (buf, (h.data wce).length)

/-- `modesense_handlers`. -/
def modesenseHandlers : List ModeSenseHandler :=
  [⟨0x1, 0, fun _ => rwrecoveryPage⟩, ⟨0x8, 0, cachePage⟩, ⟨0xa, 0, fun _ => controlPage⟩]

/-- The handler of a page. -/
def findHandler (page subpage : ℕ) : Option ModeSenseHandler :=
  modesenseHandlers.find? fun h => page = h.page ∧ subpage = h.subpage

/-! ### MODE SENSE -/

/-- `orig_buf`, `buf` relative to it, and `used_len`. -/
structure ModeBuf where
  /-- `orig_buf`. -/
  origBuf : List UInt8
  /-- `buf`. -/
  buf : Option ℕ
  /-- `used_len`. -/
  usedLen : ℕ

/-- `handle_mode_sense`. There is no result if it writes outside the buffer, and the result is
`none` if it returns `-EINVAL`. -/
def handleModeSense (wce senseTen : Bool) (allocLen : ℕ) (h : ModeSenseHandler) (s : ModeBuf) :
    Option (Option ModeBuf) :=
  (h.get wce s.origBuf s.buf ((allocLen + 2 ^ 64 - s.usedLen) % 2 ^ 64)).map fun (origBuf, ret) =>
    if senseTen = false ∧ s.usedLen + ret ≥ 255 then none
    else
      -- just increment the used length from here on
      let buf := if s.usedLen + ret ≥ allocLen then none else s.buf
      some ⟨origBuf, buf.map (· + ret), s.usedLen + ret⟩

/-- The loop over all handlers. -/
def handleAllPages (wce senseTen : Bool) (allocLen : ℕ) :
    List ModeSenseHandler → ModeBuf → Option (Option ModeBuf)
  | [], s => some (some s)
  | h :: hs, s =>
    match handleModeSense wce senseTen allocLen h s with
    | some (some s) => handleAllPages wce senseTen allocLen hs s
    | r => r

/-- The length of the mode parameter header. -/
def modeHeaderLength (ten : Bool) : ℕ := if ten then 8 else 4

/-- MODE DATA LENGTH, as it is put in front of the header. -/
def modeDataLength (ten : Bool) (usedLen : ℕ) : List UInt8 :=
  if ten then [UInt8.ofNat ((usedLen - 2) / 256), UInt8.ofNat (usedLen - 2)]
  else [UInt8.ofNat (usedLen - 1)]

/-- The part of `tcmu_emulate_mode_sense` that fills in the pages. -/
def handlePages (wce senseTen : Bool) (pageCode subpageCode allocLen : ℕ) (s : ModeBuf) :
    Option (Option ModeBuf) :=
  if pageCode = 0x3f then handleAllPages wce senseTen allocLen modesenseHandlers s
  else
    match findHandler pageCode subpageCode with
    | none => some none
    | some h => handleModeSense wce senseTen allocLen h s

/-- `tcmu_emulate_mode_sense`: the status, and the memory after the response has been copied.
`calloc` says whether the buffer is allocated. There is no result if something is written outside
the buffer, or if the CDB has no allocation length. -/
def tcmuEmulateModeSense (wce calloc : Bool) (cdb : Cdb) (mem : Mem) (iov : List Iovec) :
    Option (TcmuSts × Mem) :=
  let senseTen : Bool := opcode cdb = .modeSense10
  let usedLen := modeHeaderLength senseTen
  match tcmuGetXferLength cdb with
  | none => none
  | some allocLen =>
    if allocLen = 0 then some (.ok, mem)
    else if usedLen > allocLen then some (.invalidCdb, mem)
    else if calloc = false then some (.noResource, mem)
    else
      match handlePages wce senseTen (byteAt cdb 2 &&& 0x3f) (byteAt cdb 3) allocLen
        ⟨List.replicate allocLen 0, some usedLen, usedLen⟩ with
      | none => none
      | some none => some (.invalidCdb, mem)
      | some (some s) =>
        (place s.origBuf 0 (modeDataLength senseTen s.usedLen)).map fun data =>
          (.ok, (tcmuMemcpyIntoIovec mem iov data).1)

/-- The pages that a page code asks for, one behind the other. -/
def modeSensePages (wce : Bool) (page subpage : ℕ) : Option (List UInt8) :=
  if page = 0x3f then some (modesenseHandlers.flatMap fun h => h.data wce)
  else (findHandler page subpage).map fun h => h.data wce

/-- The whole response: the header, with the length of what follows, and the pages. -/
def modeSenseResponse (ten : Bool) (pages : List UInt8) : List UInt8 :=
  modeDataLength ten (modeHeaderLength ten + pages.length) ++
    List.replicate (modeHeaderLength ten - (if ten then 2 else 1)) 0 ++ pages

section Sense

variable (wce ten : Bool) {allocLen : ℕ} {h : ModeSenseHandler} {s : ModeBuf} {c : List UInt8}

/-- The buffer holds as much of `c` as fits, and its pointer is behind it or `NULL`. -/
structure ModeBuf.Holds (s : ModeBuf) (allocLen : ℕ) (c : List UInt8) : Prop where
  /-- The contents. -/
  origBuf : s.origBuf = fit 0 allocLen c
  /-- The count. -/
  usedLen : s.usedLen = c.length
  /-- The pointer. -/
  buf : (s.buf = some c.length ∧ c.length ≤ allocLen) ∨ (s.buf = none ∧ allocLen ≤ c.length)

/-- A page is added to what the buffer holds. -/
theorem ModeBuf.Holds.handleModeSense (hs : s.Holds allocLen c) (h64 : allocLen < 2 ^ 64)
    (hshort : c.length + (h.data wce).length < 255) :
    ∃ t, Tcmu.handleModeSense wce ten allocLen h s = some (some t) ∧
      t.Holds allocLen (c ++ h.data wce) := by
  obtain ⟨hbuf, hused, hptr⟩ := hs
  have hlen : (c ++ h.data wce).length = c.length + (h.data wce).length := List.length_append
  have hfits : ¬ (ten = false ∧ s.usedLen + (h.data wce).length ≥ 255) := by
    rintro ⟨-, hlong⟩
    omega
  -- the page is copied as far as there is room
  have hcopy : copyToResponseBuf s.origBuf s.buf ((allocLen + 2 ^ 64 - s.usedLen) % 2 ^ 64)
      (h.data wce) = some (fit 0 allocLen (c ++ h.data wce)) := by
    rcases hptr with ⟨hsome, hle⟩ | ⟨hnone, hle⟩
    · have hroom : (allocLen + 2 ^ 64 - s.usedLen) % 2 ^ 64 = allocLen - c.length := by omega
      rw [hsome, hbuf, hroom, copyToResponseBuf]
      split
      · rename_i hlt
        have hplace := place_fit 0 (h.data wce) hle
        rw [List.take_of_length_le (by omega)] at hplace
        rw [List.take_length, hplace]
      · exact place_fit 0 (h.data wce) hle
    · rw [hnone, hbuf, copyToResponseBuf, fit_append_of_le 0 _ hle]
  refine ⟨⟨fit 0 allocLen (c ++ h.data wce),
    (if s.usedLen + (h.data wce).length ≥ allocLen then none else s.buf).map
      (· + (h.data wce).length), s.usedLen + (h.data wce).length⟩, ?_, rfl, ?_, ?_⟩
  · rw [Tcmu.handleModeSense, ModeSenseHandler.get, hcopy]
    simp only [Option.map_some, if_neg hfits]
  · dsimp only
    omega
  · dsimp only
    rw [hused, hlen]
    split
    · exact Or.inr ⟨rfl, by omega⟩
    · refine Or.inl ⟨?_, by omega⟩
      rcases hptr with ⟨hsome, -⟩ | ⟨-, hle⟩
      · rw [hsome]
        rfl
      · omega

/-- All pages are added. -/
theorem ModeBuf.Holds.handleAllPages (hh : s.Holds allocLen c) (hs : List ModeSenseHandler)
    (h64 : allocLen < 2 ^ 64)
    (hshort : c.length + (hs.flatMap fun h => h.data wce).length < 255) :
    ∃ t, Tcmu.handleAllPages wce ten allocLen hs s = some (some t) ∧
      t.Holds allocLen (c ++ hs.flatMap fun h => h.data wce) := by
  induction hs generalizing s c with
  | nil =>
    rw [List.flatMap_nil, List.append_nil]
    exact ⟨s, rfl, hh⟩
  | cons h hs ih =>
    rw [List.flatMap_cons, List.length_append] at hshort
    obtain ⟨t, hrun, ht⟩ := hh.handleModeSense wce ten (h := h) h64 (by omega)
    obtain ⟨u, hrun', hu⟩ := ih ht (by rw [List.length_append]; omega)
    rw [List.append_assoc] at hu
    refine ⟨u, ?_, by rwa [List.flatMap_cons]⟩
    rw [Tcmu.handleAllPages, hrun]
    exact hrun'

/-- What the pages come to. -/
theorem length_modeSensePages {page subpage : ℕ} {pages : List UInt8}
    (h : modeSensePages wce page subpage = some pages) : pages.length ≤ 44 := by
  rw [modeSensePages] at h
  split at h
  · obtain rfl := Option.some.inj h
    cases wce <;> decide
  · obtain ⟨handler, hfind, rfl⟩ := Option.map_eq_some_iff.mp h
    have hmem : handler ∈ modesenseHandlers := List.mem_of_find?_eq_some hfind
    have hall : ∀ handler ∈ modesenseHandlers, ∀ wce, (handler.data wce).length ≤ 44 := by decide
    exact hall handler hmem wce

/-- The pages that a command asks for are filled in behind a header of zeros. -/
theorem handlePages_eq (page subpage : ℕ) (h64 : allocLen < 2 ^ 64)
    (hle : modeHeaderLength ten ≤ allocLen) :
    handlePages wce ten page subpage allocLen
        ⟨List.replicate allocLen 0, some (modeHeaderLength ten), modeHeaderLength ten⟩ = some none ∧
      modeSensePages wce page subpage = none ∨
    ∃ pages t, modeSensePages wce page subpage = some pages ∧
      handlePages wce ten page subpage allocLen
        ⟨List.replicate allocLen 0, some (modeHeaderLength ten), modeHeaderLength ten⟩
        = some (some t) ∧
      t.Holds allocLen (List.replicate (modeHeaderLength ten) 0 ++ pages) := by
  have hheader : (List.replicate (modeHeaderLength ten) (0 : UInt8)).length
      = modeHeaderLength ten := List.length_replicate
  have hshort : modeHeaderLength ten ≤ 8 := by cases ten <;> decide
  have hstart : (ModeBuf.mk (List.replicate allocLen 0) (some (modeHeaderLength ten))
      (modeHeaderLength ten)).Holds allocLen (List.replicate (modeHeaderLength ten) 0) := by
    refine ⟨?_, hheader.symm, Or.inl ⟨by rw [hheader], by rwa [hheader]⟩⟩
    rw [fit, List.take_of_length_le (by omega), hheader, List.replicate_append_replicate,
      Nat.add_sub_cancel' hle]
  rw [modeSensePages, handlePages]
  split
  · rename_i hall
    have hlen := length_modeSensePages wce
      (show modeSensePages wce page subpage = some _ by rw [modeSensePages, if_pos hall])
    obtain ⟨t, hrun, ht⟩ := hstart.handleAllPages wce ten modesenseHandlers h64 (by omega)
    exact Or.inr ⟨_, t, rfl, hrun, ht⟩
  · rename_i hone
    cases hfind : findHandler page subpage with
    | none => exact Or.inl ⟨rfl, rfl⟩
    | some h =>
      have hlen := length_modeSensePages wce
        (show modeSensePages wce page subpage = some (h.data wce) by
          rw [modeSensePages, if_neg hone, hfind]; rfl)
      obtain ⟨t, hrun, ht⟩ := hstart.handleModeSense wce ten (h := h) h64 (by omega)
      exact Or.inr ⟨_, t, rfl, hrun, ht⟩

/-- MODE DATA LENGTH, as an initiator reads it. -/
def readModeDataLength (data : List UInt8) : ℕ := if ten then beAt data 0 2 else byteAt data 0

/-- The field says how much follows it in the whole response, however much of it there is. -/
theorem readModeDataLength_fit {pages : List UInt8} (hpages : pages.length ≤ 44)
    (hle : modeHeaderLength ten ≤ allocLen) :
    readModeDataLength ten (fit 0 allocLen (modeSenseResponse ten pages))
      = (modeSenseResponse ten pages).length - if ten then 2 else 1 := by
  cases ten with
  | true =>
    change 8 ≤ allocLen at hle
    rw [modeSenseResponse, List.append_assoc, fit_append 0 _ (by simp [modeDataLength]; omega)]
    simp only [readModeDataLength, modeDataLength, modeHeaderLength, if_true, beAt, byteAt,
      List.cons_append, List.length_append, List.length_cons, List.length_nil,
      List.length_replicate, List.getD_cons_zero, List.getD_cons_succ, UInt8.toNat_ofNat',
      Nat.zero_add]
    omega
  | false =>
    change 4 ≤ allocLen at hle
    rw [modeSenseResponse, List.append_assoc, fit_append 0 _ (by simp [modeDataLength]; omega)]
    simp only [readModeDataLength, modeDataLength, modeHeaderLength, Bool.false_eq_true, if_false,
      byteAt, List.cons_append, List.length_append, List.length_cons, List.length_nil,
      List.length_replicate, List.getD_cons_zero, UInt8.toNat_ofNat']
    omega

/-- The length is put into the header. -/
theorem place_modeDataLength {pages : List UInt8} (hle : modeHeaderLength ten ≤ allocLen) :
    place (fit 0 allocLen (List.replicate (modeHeaderLength ten) 0 ++ pages)) 0
        (modeDataLength ten (modeHeaderLength ten + pages.length))
      = some (fit 0 allocLen (modeSenseResponse ten pages)) := by
  have hlen : (List.replicate (if ten then 2 else 1) (0 : UInt8)).length
      = (modeDataLength ten (modeHeaderLength ten + pages.length)).length := by
    cases ten <;> rfl
  have hsplit : List.replicate (modeHeaderLength ten) (0 : UInt8)
      = List.replicate (if ten then 2 else 1) 0 ++
        List.replicate (modeHeaderLength ten - if ten then 2 else 1) 0 := by
    cases ten <;> rfl
  have hfront : (List.replicate (if ten then 2 else 1) (0 : UInt8)).length ≤ allocLen := by
    refine le_trans ?_ hle
    cases ten <;> decide
  rw [hsplit, List.append_assoc, place_fit_front 0 _ hlen hfront, modeSenseResponse,
    List.append_assoc]

/-- **Cutting off a response does not change it.** A MODE SENSE never writes outside its buffer.
When it succeeds, the initiator is given the first bytes of the whole response, or all of it and
zeros behind it, and MODE DATA LENGTH is that of the whole response. -/
theorem mode_sense_truncates {cdb : Cdb}
    (hop : opcode cdb = if ten then .modeSense10 else .modeSense)
    (halloc : tcmuGetXferLength cdb = some allocLen) (hle : modeHeaderLength ten ≤ allocLen)
    (calloc : Bool) (mem : Mem) (iov : List Iovec) :
    (tcmuEmulateModeSense wce calloc cdb mem iov).isSome ∧
      ∀ mem', tcmuEmulateModeSense wce calloc cdb mem iov = some (.ok, mem') →
        ∃ pages, modeSensePages wce (byteAt cdb 2 &&& 0x3f) (byteAt cdb 3) = some pages ∧
          mem' = scatter mem iov (fit 0 allocLen (modeSenseResponse ten pages)) ∧
          (iov.Pairwise Iovec.Disjoint →
            (gather iov mem').take (min allocLen (iovTotal iov)) =
              (fit 0 allocLen (modeSenseResponse ten pages)).take (min allocLen (iovTotal iov))) ∧
          readModeDataLength ten (fit 0 allocLen (modeSenseResponse ten pages))
            = (modeSenseResponse ten pages).length - if ten then 2 else 1 := by
  have h64 : allocLen < 2 ^ 64 := (tcmuGetXferLength_lt halloc).trans (by decide)
  have hten : decide (opcode cdb = .modeSense10) = ten := by
    rw [hop]
    cases ten <;> rfl
  have hpos : 0 < modeHeaderLength ten := by cases ten <;> decide
  rw [tcmuEmulateModeSense, hten, halloc]
  dsimp only
  rw [if_neg (by omega), if_neg (by omega)]
  cases calloc with
  | false => exact ⟨rfl, fun mem' h => by simp at h⟩
  | true =>
    rw [if_neg (by decide)]
    rcases handlePages_eq wce ten (byteAt cdb 2 &&& 0x3f) (byteAt cdb 3) h64 hle
      with ⟨hrun, -⟩ | ⟨pages, t, hpages, hrun, ht⟩
    · rw [hrun]
      exact ⟨rfl, fun mem' h => by simp at h⟩
    · have hused : t.usedLen = modeHeaderLength ten + pages.length := by
        rw [ht.usedLen, List.length_append, List.length_replicate]
      rw [hrun]
      dsimp only
      rw [ht.origBuf, hused, place_modeDataLength ten hle]
      refine ⟨rfl, fun mem' h => ?_⟩
      have hmem : mem' = scatter mem iov (fit 0 allocLen (modeSenseResponse ten pages)) := by
        rw [← tcmuMemcpyIntoIovec_fst]
        exact ((Prod.mk.inj (Option.some.inj h)).2).symm
      refine ⟨pages, hpages, hmem, fun hdisjoint => ?_,
        readModeDataLength_fit ten (length_modeSensePages wce hpages) hle⟩
      rw [hmem, gather_scatter_take hdisjoint, List.take_append_of_le_length, List.take_take,
        Nat.min_eq_left (Nat.min_le_right _ _)]
      rw [List.length_take, length_fit, Nat.min_comm]

end Sense

/-- MODE SENSE(6) for all pages, with room for 20 bytes of 48 and 16 of these in the scatter
list. -/
theorem mode_sense_truncates_all :
    ∃ mem' pages, tcmuEmulateModeSense true true [0x1a, 0, 0x3f, 0, 20, 0] (fun _ => 0) [⟨100, 16⟩]
        = some (.ok, mem') ∧ modeSensePages true 0x3f 0 = some pages ∧
      (gather [⟨100, 16⟩] mem').take 16 = (fit 0 20 (modeSenseResponse false pages)).take 16 ∧
      readModeDataLength false (fit 0 20 (modeSenseResponse false pages))
        = (modeSenseResponse false pages).length - 1 := by
  obtain ⟨hsome, hok⟩ := mode_sense_truncates true false
    (show opcode [0x1a, 0, 0x3f, 0, 20, 0] = .modeSense from rfl) (show _ = some 20 from rfl)
    (by decide) true (fun _ => 0) [⟨100, 16⟩]
  obtain ⟨⟨sts, mem'⟩, hrun⟩ := Option.isSome_iff_exists.mp hsome
  have hsts : (tcmuEmulateModeSense true true [0x1a, 0, 0x3f, 0, 20, 0] (fun _ => 0)
      [⟨100, 16⟩]).map Prod.fst = some .ok := by decide
  rw [hrun] at hsts
  obtain rfl : sts = .ok := Option.some.inj hsts
  obtain ⟨pages, hpages, -, hdata, hlen⟩ := hok mem' hrun
  exact ⟨mem', pages, hrun, hpages, hdata (List.pairwise_singleton ..), hlen⟩

/-! ### MODE SELECT -/

/-- `tcmu_emulate_mode_select`. `stack` is what `in_buf` contains before the parameter list is
copied into it. There is no result if something is written outside `buf`, or if the CDB has no
parameter list length. -/
def tcmuEmulateModeSelect (wce : Bool) (cdb : Cdb) (mem : Mem) (iov : List Iovec)
    (stack : List UInt8) : Option TcmuSts :=
  let selectTen : Bool := opcode cdb = .modeSelect10
  let hdrLen := modeHeaderLength selectTen
  match tcmuGetXferLength cdb with
  | none => none
  | some allocLen =>
    if allocLen = 0 then some .ok
    else
      let inBuf := splice stack 0 ((gather iov mem).take 512)
      if copiedParam 512 iov ≥ 512 then some .invalidParamListLen
      -- "Abort if !pf or sp"
      else if byteAt cdb 1 &&& 0x10 = 0 ∨ byteAt cdb 1 &&& 0x01 ≠ 0 then some .invalidCdb
      else
        match findHandler (byteAt cdb 2 &&& 0x3f) (byteAt cdb 3) with
        | none => some .invalidCdb
        | some h =>
          match h.get wce (List.replicate 512 0) (some hdrLen) (512 - hdrLen) with
          | none => none
          | some (buf, ret) =>
            if ret = 0 then some .invalidCdb
            else if selectTen = false ∧ hdrLen + ret ≥ 255 then some .invalidCdb
            else if allocLen < hdrLen + ret then some .invalidParamListLen
            else if slice buf hdrLen ret ≠ slice inBuf hdrLen ret then some .invalidParamList
            else some .ok

section Select

variable {wce : Bool} {cdb : Cdb} {mem : Mem} {iov : List Iovec} {allocLen : ℕ}
  {h : ModeSenseHandler} {stack : List UInt8}

/-- The length of the header of the parameter list. -/
def selectHeaderLength (cdb : Cdb) : ℕ := modeHeaderLength (opcode cdb = .modeSelect10)

/-- The command gets as far as the comparison with the page of a handler. -/
structure Compares (wce : Bool) (cdb : Cdb) (iov : List Iovec) (allocLen : ℕ)
    (h : ModeSenseHandler) : Prop where
  /-- The parameter list is shorter than the array. -/
  short : iovTotal iov < 512
  /-- PF is set. -/
  pf : byteAt cdb 1 &&& 0x10 ≠ 0
  /-- SP is not. -/
  sp : byteAt cdb 1 &&& 0x01 = 0
  /-- There is such a page. -/
  found : findHandler (byteAt cdb 2 &&& 0x3f) (byteAt cdb 3) = some h
  /-- The length in the CDB covers the header and the page. -/
  covered : selectHeaderLength cdb + (h.data wce).length ≤ allocLen

/-- The pages are short, and none is empty. -/
theorem length_handler {page subpage : ℕ} (hfind : findHandler page subpage = some h) (wce : Bool) :
    0 < (h.data wce).length ∧ (h.data wce).length ≤ 20 := by
  have hmem : h ∈ modesenseHandlers := List.mem_of_find?_eq_some hfind
  have hall : ∀ h ∈ modesenseHandlers, ∀ wce,
      0 < (h.data wce).length ∧ (h.data wce).length ≤ 20 := by decide
  exact hall h hmem wce

/-- What a handler puts into `buf`. -/
theorem get_eq (wce : Bool) {page subpage hdrLen : ℕ} (hfind : findHandler page subpage = some h)
    (hhdr : hdrLen ≤ 8) :
    ∃ buf, h.get wce (List.replicate 512 0) (some hdrLen) (512 - hdrLen)
        = some (buf, (h.data wce).length) ∧
      slice buf hdrLen (h.data wce).length = h.data wce := by
  obtain ⟨-, hlen⟩ := length_handler hfind wce
  have hroom : hdrLen + (h.data wce).length ≤ (List.replicate 512 (0 : UInt8)).length := by
    rw [List.length_replicate]
    omega
  refine ⟨splice (List.replicate 512 0) hdrLen (h.data wce), ?_, slice_splice hroom⟩
  rw [ModeSenseHandler.get, copyToResponseBuf, if_pos (by omega), List.take_length, place,
    if_pos hroom]
  rfl

/-- What is compared with the page: the parameter list, and behind it the array as it was. -/
def comparedBytes (cdb : Cdb) (mem : Mem) (iov : List Iovec) (stack : List UInt8) (n : ℕ) :
    List UInt8 :=
  slice (gather iov mem ++ stack.drop (iovTotal iov)) (selectHeaderLength cdb) n

/-- A command that gets as far as the comparison ends with its result. -/
theorem Compares.select_eq (hc : Compares wce cdb iov allocLen h)
    (halloc : tcmuGetXferLength cdb = some allocLen) :
    tcmuEmulateModeSelect wce cdb mem iov stack =
      if h.data wce ≠ comparedBytes cdb mem iov stack (h.data wce).length
        then some .invalidParamList else some .ok := by
  obtain ⟨hshort, hpf, hsp, hfound, hcovered⟩ := hc
  obtain ⟨hpos, hlen⟩ := length_handler hfound wce
  have hhdr : selectHeaderLength cdb ≤ 8 := by
    rw [selectHeaderLength, modeHeaderLength]
    split <;> decide
  obtain ⟨buf, hget, hslice⟩ := get_eq wce hfound hhdr
  have htake : (gather iov mem).take 512 = gather iov mem :=
    List.take_of_length_le (by rw [length_gather]; omega)
  have hbuf : splice stack 0 (gather iov mem) = gather iov mem ++ stack.drop (iovTotal iov) := by
    rw [splice_zero, length_gather]
  rw [selectHeaderLength] at hget hslice hcovered hhdr
  rw [tcmuEmulateModeSelect, halloc]
  dsimp only
  rw [if_neg (by omega), if_neg (by rw [copiedParam]; omega), if_neg (by simp [hpf, hsp]), hfound]
  dsimp only
  rw [hget]
  dsimp only
  rw [if_neg (by omega), if_neg (by rintro ⟨-, hlong⟩; omega), if_neg (by omega), hslice, htake,
    hbuf, comparedBytes, selectHeaderLength]

/-- A command that does not get there fails, whatever is on the stack. -/
theorem select_of_not_compares (mem : Mem) (halloc : tcmuGetXferLength cdb = some allocLen)
    (hpos : allocLen ≠ 0) (hc : ∀ h, ¬ Compares wce cdb iov allocLen h) :
    ∃ sts, sts ≠ .ok ∧ ∀ stack, tcmuEmulateModeSelect wce cdb mem iov stack = some sts := by
  by_cases hshort : copiedParam 512 iov ≥ 512
  · refine ⟨.invalidParamListLen, by decide, fun stack => ?_⟩
    rw [tcmuEmulateModeSelect, halloc]
    dsimp only
    rw [if_neg hpos, if_pos hshort]
  by_cases hbits : byteAt cdb 1 &&& 0x10 = 0 ∨ byteAt cdb 1 &&& 0x01 ≠ 0
  · refine ⟨.invalidCdb, by decide, fun stack => ?_⟩
    rw [tcmuEmulateModeSelect, halloc]
    dsimp only
    rw [if_neg hpos, if_neg hshort, if_pos hbits]
  cases hfound : findHandler (byteAt cdb 2 &&& 0x3f) (byteAt cdb 3) with
  | none =>
    refine ⟨.invalidCdb, by decide, fun stack => ?_⟩
    rw [tcmuEmulateModeSelect, halloc]
    dsimp only
    rw [if_neg hpos, if_neg hshort, if_neg hbits, hfound]
  | some h =>
    obtain ⟨hpage, hlen⟩ := length_handler hfound wce
    have hhdr : selectHeaderLength cdb ≤ 8 := by
      rw [selectHeaderLength, modeHeaderLength]
      split <;> decide
    obtain ⟨buf, hget, -⟩ := get_eq wce hfound hhdr
    have hcovered : allocLen < selectHeaderLength cdb + (h.data wce).length := by
      by_contra hge
      obtain ⟨hpf, hsp⟩ := not_or.mp hbits
      rw [copiedParam] at hshort
      exact hc h ⟨by omega, hpf, not_not.mp hsp, hfound, by omega⟩
    refine ⟨.invalidParamListLen, by decide, fun stack => ?_⟩
    rw [selectHeaderLength] at hget hcovered hhdr
    rw [tcmuEmulateModeSelect, halloc]
    dsimp only
    rw [if_neg hpos, if_neg hshort, if_neg hbits, hfound]
    dsimp only
    rw [hget]
    dsimp only
    rw [if_neg (by omega), if_neg (by rintro ⟨-, hlong⟩; omega), if_pos hcovered]

/-- The result depends on the command only, and it is success only if the parameter list has the
header and the page that MODE SENSE returns. -/
def ModeSelectSound (wce : Bool) (cdb : Cdb) (mem : Mem) (iov : List Iovec) : Prop :=
  (∀ stack stack' : List UInt8, stack.length = 512 → stack'.length = 512 →
      tcmuEmulateModeSelect wce cdb mem iov stack = tcmuEmulateModeSelect wce cdb mem iov stack') ∧
    ∀ stack : List UInt8, stack.length = 512 →
      tcmuEmulateModeSelect wce cdb mem iov stack = some .ok →
        ∃ page, modeSensePages wce (byteAt cdb 2 &&& 0x3f) (byteAt cdb 3) = some page ∧
          selectHeaderLength cdb + page.length ≤ iovTotal iov ∧
          slice (gather iov mem) (selectHeaderLength cdb) page.length = page

/-- The parameter list ends too early, and as far as it goes it is right. -/
def EndsEarly (wce : Bool) (cdb : Cdb) (mem : Mem) (iov : List Iovec) (allocLen : ℕ) : Prop :=
  ∃ h, Compares wce cdb iov allocLen h ∧
    iovTotal iov < selectHeaderLength cdb + (h.data wce).length ∧
    (gather iov mem).drop (selectHeaderLength cdb) <+: h.data wce

/-- The page of a handler is what MODE SENSE returns for it. -/
theorem Compares.modeSensePages_eq (hc : Compares wce cdb iov allocLen h) :
    modeSensePages wce (byteAt cdb 2 &&& 0x3f) (byteAt cdb 3) = some (h.data wce) := by
  have hfound := hc.found
  have hne : byteAt cdb 2 &&& 0x3f ≠ 0x3f := by
    intro heq
    rw [heq] at hfound
    have hnone : ∀ h ∈ modesenseHandlers, (0x3f : ℕ) ≠ h.page := by decide
    have hpage := List.find?_some hfound
    simp only [decide_eq_true_eq] at hpage
    exact hnone h (List.mem_of_find?_eq_some hfound) hpage.1
  rw [modeSensePages, if_neg hne, hfound]
  rfl

/-- A parameter list that is long enough is compared as it is. -/
theorem comparedBytes_of_le {n : ℕ} (hle : selectHeaderLength cdb + n ≤ iovTotal iov) :
    comparedBytes cdb mem iov stack n = slice (gather iov mem) (selectHeaderLength cdb) n := by
  have hlen : n ≤ ((gather iov mem).drop (selectHeaderLength cdb)).length := by
    rw [List.length_drop, length_gather]
    omega
  rw [comparedBytes, slice, slice, List.drop_append_of_le_length (by rw [length_gather]; omega),
    List.take_append_of_le_length hlen]

/-- What is compared with the page: the rest of the parameter list, and then the array. -/
theorem comparedBytes_eq (n : ℕ) :
    comparedBytes cdb mem iov stack n = ((gather iov mem).drop (selectHeaderLength cdb) ++
      (stack.drop (iovTotal iov)).drop (selectHeaderLength cdb - iovTotal iov)).take n := by
  rw [comparedBytes, slice, List.drop_append, length_gather]

/-- If it is too short and right as far as it goes, the array can contain the rest. -/
theorem exists_stack {page : List UInt8}
    (hend : selectHeaderLength cdb + page.length ≤ 512)
    (hlt : iovTotal iov < selectHeaderLength cdb + page.length)
    (hfront : (gather iov mem).drop (selectHeaderLength cdb) <+: page) :
    ∃ stack : List UInt8, stack.length = 512 ∧
      comparedBytes cdb mem iov stack page.length = page := by
  obtain ⟨rest, rfl⟩ := hfront
  have hlen : ((gather iov mem).drop (selectHeaderLength cdb)).length
      = iovTotal iov - selectHeaderLength cdb := by rw [List.length_drop, length_gather]
  rw [List.length_append, hlen] at hend hlt
  refine ⟨List.replicate (max (iovTotal iov) (selectHeaderLength cdb)) 0 ++ (rest ++
    List.replicate (512 - max (iovTotal iov) (selectHeaderLength cdb) - rest.length) 0), ?_, ?_⟩
  · simp only [List.length_append, List.length_replicate]
    omega
  · have hdrop : iovTotal iov + (selectHeaderLength cdb - iovTotal iov)
        = (List.replicate (max (iovTotal iov) (selectHeaderLength cdb)) (0 : UInt8)).length := by
      rw [List.length_replicate]
      omega
    rw [comparedBytes_eq, List.drop_drop, hdrop, List.drop_left, ← List.append_assoc,
      List.take_left]

/-- If it is too short and wrong, nothing makes it right. -/
theorem comparedBytes_ne {page : List UInt8}
    (hlt : iovTotal iov < selectHeaderLength cdb + page.length)
    (hfront : ¬ (gather iov mem).drop (selectHeaderLength cdb) <+: page) :
    page ≠ comparedBytes cdb mem iov stack page.length := by
  intro heq
  refine hfront ?_
  rw [heq, comparedBytes_eq, List.take_append, List.take_of_length_le]
  · exact List.prefix_append _ _
  · rw [List.length_drop, length_gather]
    omega

/-- **A parameter list that ends too early may be accepted**, and only then is anything else than
the parameter list looked at: when the length in the CDB covers the page, the parameter list does
not, and what there is of it is right. -/
theorem mode_select_sound_iff (halloc : tcmuGetXferLength cdb = some allocLen)
    (hpos : allocLen ≠ 0) (mem : Mem) :
    ModeSelectSound wce cdb mem iov ↔ ¬ EndsEarly wce cdb mem iov allocLen := by
  refine ⟨?_, fun hends => ?_⟩
  · rintro ⟨-, hok⟩ ⟨h, hc, hlt, hfront⟩
    have hlen := (length_handler hc.found wce).2
    have hhdr : selectHeaderLength cdb ≤ 8 := by
      rw [selectHeaderLength, modeHeaderLength]
      split <;> decide
    obtain ⟨stack, hstack, heq⟩ := exists_stack (by omega) hlt hfront
    have hrun : tcmuEmulateModeSelect wce cdb mem iov stack = some .ok := by
      rw [hc.select_eq halloc, if_neg (not_not.mpr heq.symm)]
    obtain ⟨page, hpage, hcontains, -⟩ := hok stack hstack hrun
    rw [hc.modeSensePages_eq] at hpage
    obtain rfl := Option.some.inj hpage
    omega
  · by_cases hcmp : ∃ h, Compares wce cdb iov allocLen h
    · obtain ⟨h, hc⟩ := hcmp
      rcases Nat.lt_or_ge (iovTotal iov) (selectHeaderLength cdb + (h.data wce).length) with
        hlt | hge
      · have hbad : ∀ stack, tcmuEmulateModeSelect wce cdb mem iov stack
            = some .invalidParamList := fun stack => by
          rw [hc.select_eq halloc,
            if_pos (comparedBytes_ne hlt fun hfront => hends ⟨h, hc, hlt, hfront⟩)]
        refine ⟨fun stack stack' _ _ => (hbad stack).trans (hbad stack').symm,
          fun stack _ hrun => ?_⟩
        rw [hbad] at hrun
        exact absurd hrun (by decide)
      · have heq : ∀ stack, tcmuEmulateModeSelect wce cdb mem iov stack =
            if h.data wce ≠ slice (gather iov mem) (selectHeaderLength cdb) (h.data wce).length
              then some .invalidParamList else some .ok := fun stack => by
          rw [hc.select_eq halloc, comparedBytes_of_le hge]
        refine ⟨fun stack stack' _ _ => (heq stack).trans (heq stack').symm,
          fun stack _ hrun => ⟨_, hc.modeSensePages_eq, hge, ?_⟩⟩
        rw [heq] at hrun
        by_contra hne
        rw [if_pos (Ne.symm hne)] at hrun
        exact absurd hrun (by decide)
    · obtain ⟨sts, hne, hrun⟩ := select_of_not_compares mem halloc hpos
        (not_exists.mp hcmp)
      refine ⟨fun stack stack' _ _ => (hrun stack).trans (hrun stack').symm, fun stack _ hok => ?_⟩
      rw [hrun] at hok
      exact absurd (Option.some.inj hok) hne

end Select

/-- MODE SELECT(6) for the cache page, with 24 bytes of parameters. -/
def selectCdb : Cdb := [0x15, 0x10, 0x08, 0, 24, 0]

theorem mode_select_sound_whole :
    ModeSelectSound true selectCdb (fun _ => 0) [⟨100, 24⟩] := by
  refine (mode_select_sound_iff (show _ = some 24 from rfl) (by decide) _).mpr ?_
  rintro ⟨h, hc, hlt, -⟩
  have hlen := (length_handler hc.found true).2
  change 24 < 4 + _ at hlt
  omega

/-- An array that contains the cache page where a parameter list would have it. -/
def pageOnStack : List UInt8 := List.replicate 4 0 ++ cachePage true ++ List.replicate 488 0

/-- A parameter list of four bytes, none of them of the page. If the array happens to contain the
page, the command succeeds; if it contains zeros, it fails. -/
theorem mode_select_stale :
    tcmuEmulateModeSelect true selectCdb (fun _ => 0) [⟨100, 4⟩] pageOnStack = some .ok ∧
      tcmuEmulateModeSelect true selectCdb (fun _ => 0) [⟨100, 4⟩] (List.replicate 512 0)
        = some .invalidParamList ∧
      ¬ ModeSelectSound true selectCdb (fun _ => 0) [⟨100, 4⟩] := by
  have hok : tcmuEmulateModeSelect true selectCdb (fun _ => 0) [⟨100, 4⟩] pageOnStack
      = some .ok := by decide +kernel
  have hfail : tcmuEmulateModeSelect true selectCdb (fun _ => 0) [⟨100, 4⟩] (List.replicate 512 0)
      = some .invalidParamList := by decide +kernel
  refine ⟨hok, hfail, fun h => ?_⟩
  have heq := h.1 pageOnStack (List.replicate 512 0) (by decide +kernel) List.length_replicate
  rw [hok, hfail] at heq
  exact absurd heq (by decide)

end Tcmu

end LioProject
