import LioProject.Tcmu.Inquiry
import Mathlib.Data.List.Forall2

/-!
# The bounds of page 83h

The page is built in an array of 512 bytes on the stack. Three things go wrong with long strings.
The length of a designator is a byte, and that of the serial number or of the configuration string
may not fit into it; then the next designator is put on top of the string. `snprintf` is told that
there is room for `sizeof(data) - used - 4` bytes, although it starts eight bytes behind
`data[used]`; it may write four bytes behind the array. And nobody asks whether there is any room
left: once `used` is past 508 the room is huge, and at the end `used + 4` bytes are copied out.

Which bytes are written is a list of stores (`vpdStores`), of which the memory of `Inquiry` is the
result (`vpdStores_data`).

## Two accounts of one page

What is said about bounds is said about the list of stores: each of them is in the array if the
strings are short (`within_vpdStores`), and the list is put together as the function is, designator
by designator. What is said about contents is said about the page as it is copied: it is read back
by `parseDesignators`, which knows nothing of how the page was made, and the designators that it
finds have the strings that were to be announced. `VpdPage.Lists` is the invariant of the second
account: the bytes up to `used` are those of a list of designators. Each step of the function adds
one to the list (`VpdPage.Lists.text`, `VpdPage.Lists.naa`, `VpdPage.Lists.portNumber`), and there
is a lemma for every step that says how far `used` moves.

In the other direction a string that is too long shows. The length of its designator is a byte, and
the bytes behind it are taken for the next designator; so what is parsed does not contain the string
(`VpdSound.serial`, `VpdSound.config`).

## Main definitions

* `vpdStores`: what is stored in the array, in order.
* `parseDesignators`: a page as an initiator reads it.
* `VpdFits`: the strings are short.
* `VpdSound`: all stores and the copy are in the array, and the page has the strings.

## Main results

* `vpd_page_sound_iff`: the page is sound if and only if the strings are short.
* `vpd_page_overflows`: one that is not, and that copies more than the array has.
-/

namespace LioProject

namespace Tcmu

/-! ### The stores -/

/-- Stores, in order: where, and what. -/
abbrev Stores := List (ℕ × List UInt8)

/-- The memory after some stores. -/
def Mem.storeAll (mem : Mem) (ss : Stores) : Mem := ss.foldl (fun m s => m.store s.1 s.2) mem

theorem Mem.storeAll_append (mem : Mem) (ss ts : Stores) :
    mem.storeAll (ss ++ ts) = (mem.storeAll ss).storeAll ts := List.foldl_append

/-- The store of a `snprintf`. -/
def snprintfStores (a size : ℕ) (s : List UInt8) : Stores :=
  if size = 0 then [] else [(a, s.take (size - 1) ++ [0])]

theorem storeAll_snprintfStores (mem : Mem) (a size : ℕ) (s : List UInt8) :
    mem.storeAll (snprintfStores a size s) = mem.snprintf a size s := by
  rw [snprintfStores, Mem.snprintf]
  split
  · rfl
  · rfl

/-- The stores of `VpdPage.vendorId`. -/
def VpdPage.vendorIdStores (p : VpdPage) (wwn : String) : Stores :=
  [(p.ptr, [2, 1]), (p.ptr + 4, cString "LIO-ORG ")]
    ++ snprintfStores (p.ptr + 12) (512 - 16) (cString wwn)
    ++ [(p.ptr + 3, [UInt8.ofNat (8 + wwn.length + 1)])]

/-- The stores of `vpdNaaDigits`. -/
def vpdNaaDigitsStores (ptr : ℕ) : List Char → Mem → ℕ → Bool → Stores
  | [], _, _, _ => []
  | c :: cs, data, i, next =>
    if 20 ≤ i then []
    else
      match charToHex c with
      | none => vpdNaaDigitsStores ptr cs data i next
      | some val =>
        if next then
          (ptr + i, [data (ptr + i) ||| UInt8.ofNat val]) ::
            vpdNaaDigitsStores ptr cs (data.store (ptr + i) [data (ptr + i) ||| UInt8.ofNat val])
              (i + 1) false
        else
          (ptr + i, [UInt8.ofNat (val <<< 4)]) ::
            vpdNaaDigitsStores ptr cs (data.store (ptr + i) [UInt8.ofNat (val <<< 4)]) i true

/-- The stores of `VpdPage.naa`. -/
def VpdPage.naaStores (p : VpdPage) (wwn : String) : Stores :=
  let header : Stores := [(p.ptr, [1, 3]), (p.ptr + 3, [16]), (p.ptr + 4, [0x60, 0x01, 0x40, 0x50])]
  header ++ vpdNaaDigitsStores p.ptr wwn.toList (p.data.storeAll header) 7 true

/-- The stores of `VpdPage.vendorSpecific`. -/
def VpdPage.vendorSpecificStores (p : VpdPage) (cfgstring : String) : Stores :=
  [(p.ptr, [2, 0])] ++ snprintfStores (p.ptr + 4) (pageRoom p.used) (cString cfgstring)
    ++ [(p.ptr + 3, [UInt8.ofNat (cfgstring.length + 1)])]

/-- The stores of `VpdPage.portNumber`. -/
def VpdPage.portNumberStores (p : VpdPage) (protoId : ℕ) (kind : UInt8) (n : ℕ) : Stores :=
  [(p.ptr, [UInt8.ofNat (protoId <<< 4) ||| 0x1, 0x80 ||| 0x10 ||| kind]), (p.ptr + 3, [4]),
    (p.ptr + 6, [UInt8.ofNat (n >>> 8 &&& 0xff), UInt8.ofNat (n &&& 0xff)])]

/-- The stores of `VpdPage.scsiName`. -/
def VpdPage.scsiNameStores (p : VpdPage) (protoId : ℕ) (association : UInt8) (name : String) :
    Stores :=
  [(p.ptr, [UInt8.ofNat (protoId <<< 4) ||| 0x3, 0x80 ||| association ||| 0x8])]
    ++ snprintfStores (p.ptr + 4) (pageRoom p.used) (cString name)
    ++ [(p.ptr + 3, [UInt8.ofNat (scsiNameLength name.length)])]

/-- The stores of `VpdPage.port`. -/
def VpdPage.portStores (p : VpdPage) : Option ReportedPort → Stores
  | none => []
  | some port =>
    let p₁ := p.portNumber port.protoId 0x4 port.relPortId
    let p₂ := p₁.portNumber port.protoId 0x5 port.grpId
    let p₃ := p₂.scsiName port.protoId 0x10 port.name
    p.portNumberStores port.protoId 0x4 port.relPortId
      ++ p₁.portNumberStores port.protoId 0x5 port.grpId
      ++ p₂.scsiNameStores port.protoId 0x10 port.name
      ++ p₃.scsiNameStores port.protoId 0x20 port.wwn

/-- The page before the first descriptor: `memset`, and the page code. -/
def vpdStart : VpdPage := ⟨Mem.store (fun _ => 0) 1 [0x83], 0⟩

/-- The page with all descriptors. -/
def vpdPage (wwn cfgstring : String) (port : Option ReportedPort) : VpdPage :=
  (((vpdStart.vendorId wwn).naa wwn).vendorSpecific cfgstring).port port

/-- Everything that is stored for page 83h, in order: `memset`, the page code, the descriptors and
the length of the page. -/
def vpdStores (wwn cfgstring : String) (port : Option ReportedPort) : Stores :=
  let p₁ := vpdStart.vendorId wwn
  let p₂ := p₁.naa wwn
  let p₃ := p₂.vendorSpecific cfgstring
  let p₄ := p₃.port port
  [(0, List.replicate 512 0), (1, [0x83])] ++ vpdStart.vendorIdStores wwn ++ p₁.naaStores wwn
    ++ p₂.vendorSpecificStores cfgstring ++ p₃.portStores port
    ++ [(2, [UInt8.ofNat (p₄.used / 256), UInt8.ofNat p₄.used])]

section Connection

variable (p : VpdPage)

theorem storeAll_vendorId (wwn : String) :
    p.data.storeAll (p.vendorIdStores wwn) = (p.vendorId wwn).data := by
  rw [VpdPage.vendorIdStores, Mem.storeAll_append, Mem.storeAll_append, storeAll_snprintfStores]
  rfl

theorem storeAll_vpdNaaDigits (ptr : ℕ) (cs : List Char) (data : Mem) (i : ℕ) (next : Bool) :
    data.storeAll (vpdNaaDigitsStores ptr cs data i next) = vpdNaaDigits ptr cs data i next := by
  induction cs generalizing data i next with
  | nil => rfl
  | cons c cs ih =>
    rw [vpdNaaDigitsStores, vpdNaaDigits]
    split
    · rfl
    · cases charToHex c with
      | none => exact ih data i next
      | some val =>
        cases next with
        | true => exact ih _ (i + 1) false
        | false => exact ih _ i true

theorem storeAll_naa (wwn : String) : p.data.storeAll (p.naaStores wwn) = (p.naa wwn).data := by
  rw [VpdPage.naaStores, Mem.storeAll_append, storeAll_vpdNaaDigits]
  rfl

theorem storeAll_vendorSpecific (cfgstring : String) :
    p.data.storeAll (p.vendorSpecificStores cfgstring) = (p.vendorSpecific cfgstring).data := by
  rw [VpdPage.vendorSpecificStores, Mem.storeAll_append, Mem.storeAll_append,
    storeAll_snprintfStores]
  rfl

theorem storeAll_portNumber (protoId : ℕ) (kind : UInt8) (n : ℕ) :
    p.data.storeAll (p.portNumberStores protoId kind n) = (p.portNumber protoId kind n).data := rfl

theorem storeAll_scsiName (protoId : ℕ) (association : UInt8) (name : String) :
    p.data.storeAll (p.scsiNameStores protoId association name)
      = (p.scsiName protoId association name).data := by
  rw [VpdPage.scsiNameStores, Mem.storeAll_append, Mem.storeAll_append, storeAll_snprintfStores]
  rfl

theorem storeAll_port (port : Option ReportedPort) :
    p.data.storeAll (p.portStores port) = (p.port port).data := by
  cases port with
  | none => rfl
  | some port =>
    rw [VpdPage.portStores, Mem.storeAll_append, Mem.storeAll_append, Mem.storeAll_append,
      storeAll_portNumber, storeAll_portNumber, storeAll_scsiName, storeAll_scsiName]
    rfl

/-- Storing zeros where there are zeros changes nothing. -/
theorem store_zeros (a n : ℕ) : Mem.store (fun _ => 0) a (List.replicate n 0) = fun _ => 0 := by
  funext x
  rw [Mem.store]
  split
  · rw [List.getD_eq_getElem?_getD]
    exact List.getElem?_getD_replicate_default_eq _ _ _
  · rfl

/-- The stores leave what is copied to the initiator. -/
theorem vpdStores_data (wwn cfgstring : String) (port : Option ReportedPort) :
    (vpdPage wwn cfgstring port).bytes =
      (Mem.storeAll (fun _ => 0) (vpdStores wwn cfgstring port)).load 0
        ((vpdPage wwn cfgstring port).used + 4) := by
  have hstart : Mem.storeAll (fun _ => 0) [(0, List.replicate 512 0), (1, [0x83])]
      = vpdStart.data := by
    change Mem.store (Mem.store (fun _ => 0) 0 (List.replicate 512 0)) 1 [0x83] = _
    rw [store_zeros]
    rfl
  rw [vpdStores, Mem.storeAll_append, Mem.storeAll_append, Mem.storeAll_append,
    Mem.storeAll_append, Mem.storeAll_append, hstart, storeAll_vendorId, storeAll_naa,
    storeAll_vendorSpecific, storeAll_port]
  rfl

end Connection

/-! ### Where the stores end -/

/-- All stores end before byte `n`. -/
def Stores.Within (ss : Stores) (n : ℕ) : Prop := ∀ s ∈ ss, s.1 + s.2.length ≤ n

section Within

variable {ss ts : Stores} {m n : ℕ} {p : VpdPage}

theorem Stores.Within.mono (h : Stores.Within ss m) (hle : m ≤ n) : Stores.Within ss n :=
  fun s hs => (h s hs).trans hle

theorem Stores.Within.append (h : Stores.Within ss n) (h' : Stores.Within ts n) :
    Stores.Within (ss ++ ts) n := List.forall_mem_append.mpr ⟨h, h'⟩

theorem within_singleton {a : ℕ} {bs : List UInt8} (h : a + bs.length ≤ n) :
    Stores.Within [(a, bs)] n := List.forall_mem_singleton.mpr h

theorem within_snprintfStores {a size : ℕ} {s : List UInt8} (h : a + (s.length + 1) ≤ n) :
    Stores.Within (snprintfStores a size s) n := by
  rw [snprintfStores]
  split
  · exact fun s hs => absurd hs (List.not_mem_nil)
  · refine within_singleton ?_
    rw [List.length_append, List.length_take, List.length_singleton]
    omega

theorem within_vpdNaaDigitsStores (ptr : ℕ) (cs : List Char) (data : Mem) (i : ℕ) (next : Bool) :
    Stores.Within (vpdNaaDigitsStores ptr cs data i next) (ptr + 20) := by
  induction cs generalizing data i next with
  | nil => exact fun s hs => absurd hs (List.not_mem_nil)
  | cons c cs ih =>
    rw [vpdNaaDigitsStores]
    split
    · exact fun s hs => absurd hs (List.not_mem_nil)
    · cases charToHex c with
      | none => exact ih data i next
      | some val =>
        cases next with
        | true =>
          refine List.forall_mem_cons.mpr ⟨?_, ih _ (i + 1) false⟩
          simp only [List.length_singleton]
          omega
        | false =>
          refine List.forall_mem_cons.mpr ⟨?_, ih _ i true⟩
          simp only [List.length_singleton]
          omega

theorem within_vendorIdStores (wwn : String) :
    Stores.Within (p.vendorIdStores wwn) (p.ptr + 13 + wwn.length) := by
  have hname : (cString "LIO-ORG ").length = 8 := rfl
  rw [VpdPage.vendorIdStores]
  refine Stores.Within.append (Stores.Within.append ?_ (within_snprintfStores ?_))
    (within_singleton ?_)
  · simp only [Stores.Within, List.forall_mem_cons, List.length_cons, List.length_nil, hname,
      List.not_mem_nil, false_implies, implies_true, and_true]
    omega
  · rw [length_cString]
    omega
  · rw [List.length_singleton]
    omega

theorem within_naaStores (wwn : String) : Stores.Within (p.naaStores wwn) (p.ptr + 20) := by
  rw [VpdPage.naaStores]
  refine Stores.Within.append ?_ (within_vpdNaaDigitsStores _ _ _ _ _)
  simp only [Stores.Within, List.forall_mem_cons, List.length_cons, List.length_nil,
    List.not_mem_nil, false_implies, implies_true, and_true]
  omega

theorem within_vendorSpecificStores (cfgstring : String) :
    Stores.Within (p.vendorSpecificStores cfgstring) (p.ptr + 5 + cfgstring.length) := by
  refine ((within_singleton ?_).append (within_snprintfStores ?_)).append (within_singleton ?_)
  · simp only [List.length_cons, List.length_nil]
    omega
  · rw [length_cString]
    omega
  · rw [List.length_singleton]
    omega

theorem within_portNumberStores (protoId : ℕ) (kind : UInt8) (k : ℕ) :
    Stores.Within (p.portNumberStores protoId kind k) (p.ptr + 8) := by
  simp only [VpdPage.portNumberStores, Stores.Within, List.forall_mem_cons, List.length_cons,
    List.length_nil, List.not_mem_nil, false_implies, implies_true, and_true]
  omega

theorem within_scsiNameStores (protoId : ℕ) (association : UInt8) (name : String) :
    Stores.Within (p.scsiNameStores protoId association name) (p.ptr + 5 + name.length) := by
  refine ((within_singleton ?_).append (within_snprintfStores ?_)).append (within_singleton ?_)
  · simp only [List.length_cons, List.length_nil]
    omega
  · rw [length_cString]
    omega
  · rw [List.length_singleton]
    omega

end Within

/-! ### Designator lists -/

/-- A designation descriptor. -/
structure Designator where
  /-- The protocol identifier and the code set. -/
  codeSet : UInt8
  /-- The association and the type. -/
  kind : UInt8
  /-- The reserved byte. -/
  reserved : UInt8
  /-- The designator. -/
  body : List UInt8
  deriving DecidableEq, Repr

/-- A descriptor on the wire. -/
def Designator.bytes (d : Designator) : List UInt8 :=
  [d.codeSet, d.kind, d.reserved, UInt8.ofNat d.body.length] ++ d.body

/-- The descriptors that some bytes consist of. -/
def parseDesignators : ℕ → List UInt8 → Option (List Designator)
  | _, [] => some []
  | n + 1, codeSet :: kind :: reserved :: len :: rest =>
    if rest.length < len.toNat then none
    else
      (parseDesignators n (rest.drop len.toNat)).map
        (⟨codeSet, kind, reserved, rest.take len.toNat⟩ :: ·)
  | _, _ => none

/-- Descriptors one after the other are parsed again, if their lengths fit into a byte. -/
theorem parseDesignators_flatMap {ds : List Designator} (h : ∀ d ∈ ds, d.body.length < 256) {n : ℕ}
    (hn : ds.length ≤ n) : parseDesignators n (ds.flatMap Designator.bytes) = some ds := by
  induction ds generalizing n with
  | nil =>
    cases n <;> rfl
  | cons d ds ih =>
    obtain ⟨hd, hds⟩ := List.forall_mem_cons.mp h
    obtain ⟨n, rfl⟩ : ∃ m, n = m + 1 := ⟨n - 1, by rw [List.length_cons] at hn; omega⟩
    have hlen : (UInt8.ofNat d.body.length).toNat = d.body.length := UInt8.toNat_ofNat_of_lt' hd
    rw [List.flatMap_cons, Designator.bytes]
    change parseDesignators (n + 1) (d.codeSet :: d.kind :: d.reserved ::
      UInt8.ofNat d.body.length :: (d.body ++ ds.flatMap Designator.bytes)) = _
    rw [parseDesignators, hlen, if_neg (by rw [List.length_append]; omega), List.drop_left,
      List.take_left, ih hds (by rw [List.length_cons] at hn; omega)]
    rfl

theorem length_flatMap_bytes (ds : List Designator) :
    (ds.flatMap Designator.bytes).length = (ds.map fun d => 4 + d.body.length).sum := by
  rw [List.length_flatMap]
  congr 1
  refine List.map_congr_left fun d _ => ?_
  rw [Designator.bytes, List.length_append]
  rfl

/-- The first descriptor that is found in memory. -/
theorem parseDesignators_load {mem : Mem} {n a k : ℕ} {d : Designator} {ds : List Designator}
    (h : parseDesignators n (mem.load a k) = some (d :: ds)) :
    d.body.length = (mem (a + 3)).toNat ∧
      ∃ m, parseDesignators m (mem.load (a + 4 + (mem (a + 3)).toNat)
        (k - 4 - (mem (a + 3)).toNat)) = some ds := by
  rcases Nat.lt_or_ge k 4 with hk | hk
  · obtain rfl | rfl | rfl | rfl : k = 0 ∨ k = 1 ∨ k = 2 ∨ k = 3 := by omega
    all_goals cases n <;> exact absurd h (by simp [Mem.load, List.range_succ, parseDesignators])
  · obtain ⟨j, rfl⟩ : ∃ j, k = j + 4 := ⟨k - 4, by omega⟩
    have hload : mem.load a (j + 4) =
        mem a :: mem (a + 1) :: mem (a + 2) :: mem (a + 3) :: mem.load (a + 4) j := by
      rw [Mem.load_succ, Mem.load_succ, Mem.load_succ, Mem.load_succ]
    rw [hload] at h
    cases n with
    | zero => exact absurd h (by simp [parseDesignators])
    | succ n =>
      rw [parseDesignators, Mem.length_load] at h
      split at h
      · exact absurd h (by simp)
      · rename_i hlen
        obtain ⟨es, hes, heq⟩ := Option.map_eq_some_iff.mp h
        obtain ⟨rfl, rfl⟩ := List.cons.inj heq
        refine ⟨?_, n, ?_⟩
        · rw [List.length_take, Mem.length_load]
          omega
        · rw [Mem.load_drop] at hes
          rwa [Nat.add_sub_cancel]

/-! ### The page as a list of designators -/

/-- The descriptors so far are `ds`, and there are zeros behind them. -/
structure VpdPage.Lists (p : VpdPage) (ds : List Designator) : Prop where
  /-- What is in use. -/
  bytes : p.data.load 4 p.used = ds.flatMap Designator.bytes
  /-- What is not. -/
  zeros : ∀ x, p.ptr ≤ x → p.data x = 0

section Lists

variable {p q : VpdPage} {ds : List Designator} {d : Designator}

theorem lists_vpdStart : vpdStart.Lists [] := by
  refine ⟨rfl, fun x hx => ?_⟩
  have hx : 1 + [(0x83 : UInt8)].length ≤ x := (show 2 ≤ 4 by decide).trans hx
  show Mem.store (fun _ => 0) 1 [0x83] x = 0
  exact Mem.store_of_out (Or.inr hx)

/-- One more descriptor. -/
theorem VpdPage.Lists.append (h : p.Lists ds) (hkeeps : p.Keeps q)
    (hused : q.used = p.used + (4 + d.body.length))
    (hload : q.data.load p.ptr (4 + d.body.length) = d.bytes)
    (hzeros : ∀ x, q.ptr ≤ x → q.data x = 0) : q.Lists (ds ++ [d]) := by
  refine ⟨?_, hzeros⟩
  have hfront : q.data.load 4 p.used = p.data.load 4 p.used :=
    Mem.load_eq_load.mpr fun i hi => hkeeps.data_eq _ (Nat.add_lt_add_left hi 4)
  rw [hused, Mem.load_add, hfront, h.bytes, List.flatMap_append, List.flatMap_singleton]
  exact congrArg _ hload

/-- A descriptor in memory, from its four bytes and its body. -/
theorem load_designator {mem : Mem} {a : ℕ} (hcode : mem a = d.codeSet)
    (hkind : mem (a + 1) = d.kind) (hreserved : mem (a + 2) = d.reserved)
    (hlen : mem (a + 3) = UInt8.ofNat d.body.length)
    (hbody : mem.load (a + 4) d.body.length = d.body) :
    mem.load a (4 + d.body.length) = d.bytes := by
  have hhead : mem.load a 4 = [mem a, mem (a + 1), mem (a + 2), mem (a + 3)] := by
    rw [Mem.load_succ, Mem.load_succ, Mem.load_succ, Mem.load_succ]
    rfl
  rw [Mem.load_add, hhead, hcode, hkind, hreserved, hlen, hbody]
  rfl

/-- A text with its `NUL`, and zeros behind it, where there were zeros. -/
theorem load_snprintf {mem : Mem} {a size : ℕ} {s : List UInt8} (hsize : s.length < size)
    (hzeros : ∀ x, a ≤ x → mem x = 0) (k : ℕ) :
    (mem.snprintf a size s).load a (s.length + 1 + k) = s ++ [0] ++ List.replicate k 0 := by
  have htext : (s.take (size - 1) ++ [0]).length = s.length + 1 := by
    rw [List.take_of_length_le (by omega), List.length_append]
    rfl
  rw [Mem.snprintf, if_neg (by omega), Mem.load_add, Mem.load_store _ _ htext,
    List.take_of_length_le (by omega)]
  congr 1
  refine List.eq_replicate_iff.mpr ⟨Mem.length_load .., fun b hb => ?_⟩
  obtain ⟨i, -, rfl⟩ := List.mem_map.mp hb
  refine (Mem.store_of_out (Or.inr ?_)).trans (hzeros _ (by omega))
  rw [List.length_append, List.length_singleton]
  omega

/-- A descriptor that holds a text, its `NUL` and `k` more zeros. -/
theorem VpdPage.Lists.text (h : p.Lists ds) (codeSet kind : UInt8) {size : ℕ} {s : List UInt8}
    (hsize : s.length < size) (k : ℕ) :
    (VpdPage.mk (((p.data.store p.ptr [codeSet, kind]).snprintf (p.ptr + 4) size s).store
        (p.ptr + 3) [UInt8.ofNat (s.length + 1 + k)]) (p.used + (s.length + 1 + k) + 4)).Lists
      (ds ++ [⟨codeSet, kind, 0, s ++ [0] ++ List.replicate k 0⟩]) := by
  have hbody : (s ++ [0] ++ List.replicate k 0).length = s.length + 1 + k := by
    rw [List.length_append, List.length_append, List.length_replicate]
    rfl
  have hheader : ∀ x, x < p.ptr ∨ p.ptr + 2 ≤ x →
      p.data.store p.ptr [codeSet, kind] x = p.data x := fun x hx => Mem.store_of_out hx
  refine h.append ⟨by dsimp only; omega, fun x hx => ?_⟩ (by rw [hbody]; dsimp only; omega)
    (load_designator ?_ ?_ ?_ ?_ ?_) fun x hx => ?_
  · exact (Mem.store_of_out (by omega)).trans ((Mem.snprintf_of_out (by omega)).trans
      (hheader x (by omega)))
  · refine (Mem.store_of_out (by omega)).trans ((Mem.snprintf_of_out (by omega)).trans ?_)
    simp [Mem.store]
  · refine (Mem.store_of_out (by omega)).trans ((Mem.snprintf_of_out (by omega)).trans ?_)
    simp [Mem.store]
  · exact (Mem.store_of_out (by omega)).trans ((Mem.snprintf_of_out (by omega)).trans
      ((hheader _ (by omega)).trans (h.zeros _ (by omega))))
  · rw [hbody]
    simp [Mem.store]
  · rw [hbody, Mem.load_store_of_disjoint _ (by simp only [List.length_singleton]; omega)]
    exact load_snprintf hsize (fun x hx => (hheader x (by omega)).trans (h.zeros x (by omega))) k
  · rw [VpdPage.ptr] at hx
    dsimp only at hx
    have hptr : p.ptr = 4 + p.used := rfl
    exact (Mem.store_of_out (by simp only [List.length_singleton]; omega)).trans
      ((Mem.snprintf_of_out (by omega)).trans ((hheader x (by omega)).trans
        (h.zeros x (by omega))))

/-- The descriptor of the serial number. -/
theorem VpdPage.Lists.vendorId (h : p.Lists ds) {wwn : String} (hwwn : wwn.length ≤ 246) :
    (p.vendorId wwn).Lists
      (ds ++ [⟨2, 1, 0, cString "LIO-ORG " ++ (cString wwn ++ [0])⟩]) := by
  have hname : (cString "LIO-ORG ").length = 8 := rfl
  have hbody : (cString "LIO-ORG " ++ (cString wwn ++ [0])).length = 8 + (wwn.length + 1) := by
    rw [List.length_append, List.length_append, length_cString wwn, hname]
    rfl
  have hwlen := length_cString wwn
  have hptr : p.ptr = 4 + p.used := rfl
  have hheader : ∀ x, x < p.ptr ∨ p.ptr + 2 ≤ x →
      p.data.store p.ptr [2, 1] x = p.data x := fun x hx => Mem.store_of_out hx
  have hvendor : ∀ x, x < p.ptr ∨ p.ptr + 12 ≤ x →
      (p.data.store p.ptr [2, 1]).store (p.ptr + 4) (cString "LIO-ORG ") x = p.data x :=
    fun x hx => (Mem.store_of_out (by omega)).trans (hheader x (by omega))
  refine h.append ⟨by rw [used_vendorId hwwn]; omega, fun x hx => ?_⟩
    (by rw [used_vendorId hwwn, hbody]; omega) (load_designator ?_ ?_ ?_ ?_ ?_) fun x hx => ?_
  · exact (Mem.store_of_out (by omega)).trans ((Mem.snprintf_of_out (by omega)).trans
      (hvendor x (by omega)))
  · refine (Mem.store_of_out (by omega)).trans ((Mem.snprintf_of_out (by omega)).trans
      ((Mem.store_of_out (by omega)).trans ?_))
    simp [Mem.store]
  · exact (vendorId_header hwwn).1
  · exact (Mem.store_of_out (by omega)).trans ((Mem.snprintf_of_out (by omega)).trans
      ((Mem.store_of_out (by omega)).trans ((hheader _ (by omega)).trans (h.zeros _ (by omega)))))
  · rw [hbody, ← Nat.add_assoc]
    simp [VpdPage.vendorId, Mem.store]
  · rw [hbody, VpdPage.vendorId,
      Mem.load_store_of_disjoint _ (by simp only [List.length_singleton]; omega), Mem.load_add]
    congr 1
    · have hfirst : ∀ i < 8, ((p.data.store p.ptr [2, 1]).store (p.ptr + 4)
          (cString "LIO-ORG ")).snprintf (p.ptr + 12) (512 - 16) (cString wwn) (p.ptr + 4 + i)
          = (p.data.store p.ptr [2, 1]).store (p.ptr + 4) (cString "LIO-ORG ") (p.ptr + 4 + i) :=
        fun i hi => Mem.snprintf_of_out (by omega)
      rw [Mem.load_eq_load.mpr hfirst, Mem.load_store _ _ hname]
    · have htext := load_snprintf (show (cString wwn).length < 512 - 16 by omega)
        (fun x (hx : p.ptr + 12 ≤ x) => (hvendor x (by omega)).trans (h.zeros x (by omega))) 0
      rw [hwlen, Nat.add_zero, List.replicate_zero, List.append_nil] at htext
      exact htext
  · have hle := hx
    rw [VpdPage.ptr, used_vendorId hwwn] at hle
    exact (vendorId_of_ge hwwn hx).trans (h.zeros x (by omega))

/-- The NAA descriptor. -/
theorem VpdPage.Lists.naa (h : p.Lists ds) (wwn : String) :
    (p.naa wwn).Lists (ds ++ [⟨1, 3, 0, naaOf wwn⟩]) := by
  have hbody : (naaOf wwn).length = 16 := length_naaDigits ..
  have hptr : p.ptr = 4 + p.used := rfl
  obtain ⟨hkind, hlen⟩ := naa_header p wwn
  refine h.append keeps_naa (by rw [hbody]; rfl)
    (load_designator ?_ hkind ?_ (by rw [hlen, hbody]; rfl)
      (by rw [hbody]; exact load_naa wwn h.zeros)) fun x hx => ?_
  · refine (vpdNaaDigits_of_out (by omega)).trans ((Mem.store_of_out (by omega)).trans
      ((Mem.store_of_out (by omega)).trans ?_))
    simp [Mem.store]
  · exact (vpdNaaDigits_of_out (by omega)).trans ((Mem.store_of_out (by omega)).trans
      ((Mem.store_of_out (by omega)).trans
        ((Mem.store_of_out (Or.inr (Nat.le_refl _))).trans (h.zeros _ (by omega)))))
  · have hx : 4 + (p.used + 20) ≤ x := hx
    exact (vpdNaaDigits_of_out (by omega)).trans
      ((Mem.store_of_out (by simp only [List.length_cons, List.length_nil]; omega)).trans
        ((Mem.store_of_out (by simp only [List.length_singleton]; omega)).trans
          ((Mem.store_of_out (by simp only [List.length_cons, List.length_nil]; omega)).trans
            (h.zeros _ (by omega)))))

/-- A descriptor that holds a number. -/
theorem VpdPage.Lists.portNumber (h : p.Lists ds) (protoId : ℕ) (kind : UInt8) (n : ℕ) :
    (p.portNumber protoId kind n).Lists
      (ds ++ [⟨UInt8.ofNat (protoId <<< 4) ||| 0x1, 0x80 ||| 0x10 ||| kind, 0,
        [0, 0, UInt8.ofNat (n >>> 8 &&& 0xff), UInt8.ofNat (n &&& 0xff)]⟩]) := by
  have hptr : p.ptr = 4 + p.used := rfl
  refine h.append (keeps_portNumber _ _ _) rfl (load_designator ?_ ?_ ?_ ?_ ?_) fun x hx => ?_
  · simp [VpdPage.portNumber, Mem.store]
  · simp [VpdPage.portNumber, Mem.store]
  · simp [VpdPage.portNumber, Mem.store, h.zeros (p.ptr + 2) (by omega)]
  · simp [VpdPage.portNumber, Mem.store]
  · have hfive : p.ptr + 4 + 1 - p.ptr = 5 := by omega
    simp [VpdPage.portNumber, Mem.store, Mem.load, List.range_succ, hfive,
      h.zeros (p.ptr + 4) (by omega), h.zeros (p.ptr + 4 + 1) (by omega)]
  · have hx : 4 + (p.used + 8) ≤ x := hx
    exact (Mem.store_of_out (by simp only [List.length_cons, List.length_nil]; omega)).trans
      ((Mem.store_of_out (by simp only [List.length_singleton]; omega)).trans
        ((Mem.store_of_out (by simp only [List.length_cons, List.length_nil]; omega)).trans
          (h.zeros _ (by omega))))

theorem used_vendorSpecific {cfgstring : String} (hcfg : cfgstring.length ≤ 254) :
    (p.vendorSpecific cfgstring).used = p.used + (cfgstring.length + 1) + 4 := by
  have hlen : (UInt8.ofNat (cfgstring.length + 1)).toNat = cfgstring.length + 1 :=
    UInt8.toNat_ofNat_of_lt' (by change _ < 256; omega)
  rw [VpdPage.vendorSpecific]
  simp only [Mem.store, Nat.le_refl, if_true, Nat.sub_self, List.getD_cons_zero, hlen]

/-- The descriptor of the configuration string. -/
theorem VpdPage.Lists.vendorSpecific (h : p.Lists ds) {cfgstring : String}
    (hcfg : cfgstring.length ≤ 254) (hroom : p.used + cfgstring.length < 508) :
    (p.vendorSpecific cfgstring).Lists (ds ++ [⟨2, 0, 0, cString cfgstring ++ [0]⟩]) := by
  have htext := h.text 2 0 (show (cString cfgstring).length < pageRoom p.used by
    rw [length_cString, pageRoom]; omega) 0
  rw [length_cString, Nat.add_zero, List.replicate_zero, List.append_nil,
    ← used_vendorSpecific hcfg] at htext
  exact htext

theorem le_scsiNameLength {n : ℕ} (h : n < 256) : n + 1 ≤ scsiNameLength n := by
  rw [scsiNameLength]
  omega

/-- The descriptor of a name. -/
theorem VpdPage.Lists.scsiName (h : p.Lists ds) (protoId : ℕ) (association : UInt8) {name : String}
    (hname : name.length < 256) (hroom : p.used + name.length < 508) :
    (p.scsiName protoId association name).Lists
      (ds ++ [⟨UInt8.ofNat (protoId <<< 4) ||| 0x3, 0x80 ||| association ||| 0x8, 0,
        cString name ++ [0] ++
          List.replicate (scsiNameLength name.length - (name.length + 1)) 0⟩]) := by
  have hle := le_scsiNameLength hname
  have htext := h.text (UInt8.ofNat (protoId <<< 4) ||| 0x3) (0x80 ||| association ||| 0x8)
    (show (cString name).length < pageRoom p.used by rw [length_cString, pageRoom]; omega)
    (scsiNameLength name.length - (name.length + 1))
  rw [length_cString, Nat.add_sub_cancel' hle] at htext
  exact htext

end Lists

/-! ### Whole pages -/

/-- The length of a name of a port: its `wwn`, and nine characters for the target port group. -/
theorem length_name (port : ReportedPort) : port.name.length = port.wwn.length + 9 := by
  have htag : ",t,0x".length = 5 := by decide +kernel
  simp [ReportedPort.name, Nat.add_assoc, htag]

/-- The bytes of the four descriptors of a port. -/
def portBytes : Option ReportedPort → ℕ
  | none => 0
  | some port => 24 + scsiNameLength port.name.length + scsiNameLength port.wwn.length

/-- Every length fits into its byte, and everything fits into the array. -/
structure VpdFits (wwn cfgstring : String) (port : Option ReportedPort) : Prop where
  /-- The serial number, with the vendor and the `NUL`. -/
  serial : wwn.length + 9 ≤ 255
  /-- The configuration string, with the `NUL`. -/
  config : cfgstring.length + 1 ≤ 255
  /-- The page. -/
  total : 42 + wwn.length + cfgstring.length + portBytes port ≤ 512

/-- The strings that the descriptors of a page announce, each with its `NUL`; some announce none. -/
def announced (wwn cfgstring : String) (port : Option ReportedPort) : List (List UInt8) :=
  [cString "LIO-ORG " ++ (cString wwn ++ [0]), [], cString cfgstring ++ [0]] ++
    match port with
    | none => []
    | some port => [[], [], cString port.name ++ [0], cString port.wwn ++ [0]]

/-- All that is stored or copied is in the array, and the page is a list of designators, each with
the string that it announces. -/
structure VpdSound (wwn cfgstring : String) (port : Option ReportedPort) (page : List UInt8) :
    Prop where
  /-- The stores are in the array. -/
  stores : (vpdStores wwn cfgstring port).Within 512
  /-- What is copied is in the array. -/
  copied : page.length ≤ 512
  /-- The descriptors, and PAGE LENGTH. -/
  parsed : ∃ ds, parseDesignators page.length (page.drop 4) = some ds ∧
    beAt page 2 2 = (ds.map fun d => 4 + d.body.length).sum ∧
    List.Forall₂ (fun s d => s <+: d.body) (announced wwn cfgstring port) ds

section Pages

variable {wwn cfgstring : String} {port : Option ReportedPort}

theorem length_bytes (p : VpdPage) : p.bytes.length = p.used + 4 := Mem.length_load ..

/-- What is copied, behind the header. -/
theorem drop_bytes (p : VpdPage) : p.bytes.drop 4 = p.data.load 4 p.used := by
  rw [VpdPage.bytes, Mem.load_drop, Nat.zero_add, Nat.add_sub_cancel]
  exact Mem.load_eq_load.mpr fun i _ => Mem.store_of_out (Or.inr (Nat.le_add_right 4 i))

/-- PAGE LENGTH and the descriptors are found in a page where they have been put. -/
theorem bytes_of_lists {p : VpdPage} {ds : List Designator} (h : p.Lists ds)
    (hused : p.used < 65536) (hlen : ∀ d ∈ ds, d.body.length < 256) :
    parseDesignators p.bytes.length (p.bytes.drop 4) = some ds ∧
      beAt p.bytes 2 2 = (ds.map fun d => 4 + d.body.length).sum := by
  have hload : p.bytes.drop 4 = ds.flatMap Designator.bytes := (drop_bytes p).trans h.bytes
  have hsum : p.used = (ds.map fun d => 4 + d.body.length).sum := by
    rw [← length_flatMap_bytes, ← h.bytes, Mem.length_load]
  have hcount : ds.length ≤ (ds.map fun d => 4 + d.body.length).sum := by
    clear hsum hload hlen h
    induction ds with
    | nil => exact Nat.le_refl _
    | cons d ds ih =>
      rw [List.length_cons, List.map_cons, List.sum_cons]
      omega
  refine ⟨?_, ?_⟩
  · rw [hload]
    exact parseDesignators_flatMap hlen (by rw [length_bytes]; omega)
  · have hbyte : ∀ i < p.used + 4, byteAt p.bytes i =
        (p.data.store 2 [UInt8.ofNat (p.used / 256), UInt8.ofNat p.used] i).toNat := by
      intro i hi
      simp [byteAt, VpdPage.bytes, Mem.load, hi]
    have hhigh : (UInt8.ofNat (p.used / 256)).toNat = p.used / 256 :=
      UInt8.toNat_ofNat_of_lt' (by change _ < 256; omega)
    rw [← hsum, beAt, beAt, beAt, hbyte 2 (by omega), hbyte 3 (by omega)]
    simp only [Mem.store, Nat.le_refl, if_true, Nat.sub_self, List.getD_cons_zero, hhigh,
      show (2 : ℕ) ≤ 3 from by decide, Nat.reduceSub, List.getD_cons_succ, UInt8.toNat_ofNat']
    omega

/-- Where the first two descriptors end. -/
theorem used_naa (h : wwn.length ≤ 246) :
    ((vpdStart.vendorId wwn).naa wwn).used = 33 + wwn.length := by
  show (vpdStart.vendorId wwn).used + 20 = _
  rw [used_vendorId h]
  show 0 + (13 + wwn.length) + 20 = _
  omega

theorem used_port (p : VpdPage) (port : Option ReportedPort) :
    (p.port port).used = p.used + portBytes port := by
  cases port with
  | none => rfl
  | some port =>
    show p.used + 8 + 8 + scsiNameLength port.name.length + 4 + scsiNameLength port.wwn.length + 4
      = p.used + portBytes (some port)
    rw [portBytes]
    omega

/-- Where the page ends, if the two lengths fit into their bytes. -/
theorem used_vpdPage (hwwn : wwn.length ≤ 246) (hcfg : cfgstring.length ≤ 254) :
    (vpdPage wwn cfgstring port).used = 38 + wwn.length + cfgstring.length + portBytes port := by
  rw [vpdPage, used_port, used_vendorSpecific hcfg, used_naa hwwn]
  omega

/-- The strings that the descriptors of a port announce. -/
theorem VpdPage.Lists.ofPort {p : VpdPage} {ds : List Designator} (h : p.Lists ds)
    {port : ReportedPort} (hwwn : port.wwn.length ≤ 223)
    (hroom : p.used + portBytes (some port) ≤ 508) :
    ∃ es, (p.port (some port)).Lists (ds ++ es) ∧ (∀ d ∈ es, d.body.length < 256) ∧
      List.Forall₂ (fun s d => s <+: d.body)
        [[], [], cString port.name ++ [0], cString port.wwn ++ [0]] es := by
  have hname := length_name port
  rw [portBytes] at hroom
  have hle := le_scsiNameLength (n := port.name.length) (by omega)
  have hle' := le_scsiNameLength (n := port.wwn.length) (by omega)
  have hshort : scsiNameLength port.name.length < 256 := by
    rw [scsiNameLength]
    omega
  have hshort' : scsiNameLength port.wwn.length < 256 := by
    rw [scsiNameLength]
    omega
  have hnumbers := (h.portNumber port.protoId 0x4 port.relPortId).portNumber port.protoId 0x5
    port.grpId
  have hused : ((p.portNumber port.protoId 0x4 port.relPortId).portNumber port.protoId 0x5
      port.grpId).used = p.used + 16 := rfl
  have hfirst := hnumbers.scsiName port.protoId 0x10
    (show port.name.length < 256 by omega) (by omega)
  have hused' : (((p.portNumber port.protoId 0x4 port.relPortId).portNumber port.protoId 0x5
      port.grpId).scsiName port.protoId 0x10 port.name).used
      = p.used + 16 + scsiNameLength port.name.length + 4 := rfl
  have hsecond := hfirst.scsiName port.protoId 0x20
    (show port.wwn.length < 256 by omega) (by omega)
  rw [List.append_assoc, List.append_assoc, List.append_assoc] at hsecond
  refine ⟨_, hsecond, ?_, ?_⟩
  · simp only [List.forall_mem_append, List.forall_mem_singleton, List.length_append,
      List.length_replicate, length_cString, List.length_cons, List.length_nil]
    omega
  · exact .cons List.nil_prefix (.cons List.nil_prefix (.cons (List.prefix_append _ _)
      (.cons (List.prefix_append _ _) .nil)))

/-- All descriptors. -/
theorem lists_vpdPage (h : VpdFits wwn cfgstring port)
    (hport : ∀ p, port = some p → p.wwn.length ≤ 223) :
    ∃ ds, (vpdPage wwn cfgstring port).Lists ds ∧ (∀ d ∈ ds, d.body.length < 256) ∧
      List.Forall₂ (fun s d => s <+: d.body) (announced wwn cfgstring port) ds := by
  obtain ⟨hserial, hconfig, htotal⟩ := h
  have hused := used_naa (show wwn.length ≤ 246 by omega)
  have hused' : (((vpdStart.vendorId wwn).naa wwn).vendorSpecific cfgstring).used = _ :=
    used_vendorSpecific (by omega)
  have hlists := ((lists_vpdStart.vendorId (show wwn.length ≤ 246 by omega)).naa
    wwn).vendorSpecific (show cfgstring.length ≤ 254 by omega) (by omega)
  have hdevice : ∀ d ∈ ([⟨2, 1, 0, cString "LIO-ORG " ++ (cString wwn ++ [0])⟩,
      ⟨1, 3, 0, naaOf wwn⟩, ⟨2, 0, 0, cString cfgstring ++ [0]⟩] : List Designator),
      d.body.length < 256 := by
    have hvendor : (cString "LIO-ORG ").length = 8 := rfl
    have hnaa : (naaOf wwn).length = 16 := length_naaDigits ..
    simp only [List.forall_mem_cons, List.length_append, length_cString wwn,
      length_cString cfgstring, hvendor, hnaa, List.length_singleton, List.not_mem_nil,
      false_implies, implies_true, and_true]
    omega
  have hstrings : List.Forall₂ (fun (s : List UInt8) (d : Designator) => s <+: d.body)
      [cString "LIO-ORG " ++ (cString wwn ++ [0]), [], cString cfgstring ++ [0]]
      [⟨2, 1, 0, cString "LIO-ORG " ++ (cString wwn ++ [0])⟩, ⟨1, 3, 0, naaOf wwn⟩,
        ⟨2, 0, 0, cString cfgstring ++ [0]⟩] :=
    .cons (List.prefix_refl _) (.cons List.nil_prefix (.cons (List.prefix_refl _) .nil))
  cases port with
  | none => exact ⟨_, hlists, hdevice, hstrings⟩
  | some port =>
    obtain ⟨es, hes, hlen, hnames⟩ := hlists.ofPort (hport port rfl) (by omega)
    exact ⟨_, hes, List.forall_mem_append.mpr ⟨hdevice, hlen⟩, List.rel_append hstrings hnames⟩

/-- The stores of a port end where its descriptors do. -/
theorem within_portStores (p : VpdPage) (hport : ∀ q, port = some q → q.wwn.length ≤ 223) :
    (p.portStores port).Within (p.ptr + portBytes port) := by
  cases port with
  | none => exact fun s hs => absurd hs (List.not_mem_nil)
  | some port =>
    have hwwn := hport port rfl
    have hname := length_name port
    have hle := le_scsiNameLength (n := port.name.length) (by omega)
    have hle' := le_scsiNameLength (n := port.wwn.length) (by omega)
    rw [VpdPage.portStores, portBytes]
    refine Stores.Within.append (Stores.Within.append (Stores.Within.append ?_ ?_) ?_) ?_
    · exact (within_portNumberStores _ _ _).mono (by omega)
    · refine (within_portNumberStores _ _ _).mono ?_
      show 4 + (p.used + 8) + 8 ≤ 4 + p.used + _
      omega
    · refine (within_scsiNameStores _ _ _).mono ?_
      show 4 + (p.used + 8 + 8) + 5 + _ ≤ 4 + p.used + _
      omega
    · refine (within_scsiNameStores _ _ _).mono ?_
      show 4 + (p.used + 8 + 8 + scsiNameLength port.name.length + 4) + 5 + _ ≤ 4 + p.used + _
      omega

/-- If everything fits, the stores are in the array. -/
theorem within_vpdStores (h : VpdFits wwn cfgstring port)
    (hport : ∀ p, port = some p → p.wwn.length ≤ 223) :
    (vpdStores wwn cfgstring port).Within 512 := by
  obtain ⟨hserial, hconfig, htotal⟩ := h
  have hfirst : (vpdStart.vendorId wwn).ptr = 17 + wwn.length := by
    rw [VpdPage.ptr, used_vendorId (by omega)]
    show 4 + (0 + (13 + wwn.length)) = _
    omega
  have hsecond : ((vpdStart.vendorId wwn).naa wwn).ptr = 37 + wwn.length := by
    rw [VpdPage.ptr, used_naa (by omega)]
    omega
  have hthird : (((vpdStart.vendorId wwn).naa wwn).vendorSpecific cfgstring).ptr
      = 42 + wwn.length + cfgstring.length := by
    rw [VpdPage.ptr, used_vendorSpecific (by omega), used_naa (by omega)]
    omega
  have hend := within_portStores (((vpdStart.vendorId wwn).naa wwn).vendorSpecific cfgstring) hport
  rw [hthird] at hend
  rw [vpdStores]
  refine Stores.Within.append (Stores.Within.append (Stores.Within.append (Stores.Within.append
    (Stores.Within.append ?_ ?_) ?_) ?_) (hend.mono htotal)) 
    (within_singleton (show 2 + 2 ≤ 512 by decide))
  · simp only [Stores.Within, List.forall_mem_cons, List.length_replicate, List.length_singleton,
      List.not_mem_nil, false_implies, implies_true, and_true]
    omega
  · refine (within_vendorIdStores wwn).mono ?_
    show 4 + 0 + 13 + _ ≤ 512
    omega
  · exact (within_naaStores wwn).mono (by omega)
  · exact (within_vendorSpecificStores cfgstring).mono (by omega)

theorem store_byte_self (mem : Mem) (a : ℕ) (b : UInt8) : mem.store a [b] a = b := by
  simp [Mem.store]

/-- A serial number that is contained in its descriptor is short. -/
theorem VpdSound.serial (h : VpdSound wwn cfgstring port (vpdPage wwn cfgstring port).bytes) :
    wwn.length + 9 ≤ 255 := by
  obtain ⟨ds, hparse, -, hstrings⟩ := h.parsed
  obtain ⟨d, ds', hd, -, rfl⟩ := List.forall₂_cons_left_iff.mp hstrings
  rw [drop_bytes] at hparse
  have hbyte := (parseDesignators_load hparse).1
  have hkeeps : (vpdStart.vendorId wwn).Keeps (vpdPage wwn cfgstring port) :=
    (keeps_naa.trans (keeps_vendorSpecific cfgstring)).trans (keeps_port port)
  have hbehind : 7 < (vpdStart.vendorId wwn).ptr := by
    show 7 < 4 + (0 + _ + 4)
    omega
  have hlen : (vpdStart.vendorId wwn).data 7 = UInt8.ofNat (8 + wwn.length + 1) := by
    show (vpdStart.vendorId wwn).data (vpdStart.ptr + 3) = _
    rw [VpdPage.vendorId]
    dsimp only
    exact store_byte_self ..
  rw [hkeeps.data_eq 7 hbehind, hlen] at hbyte
  have hlt : d.body.length < 256 := by
    rw [hbyte]
    exact UInt8.toNat_lt _
  have hcontains := hd.length_le
  have hvendor : (cString "LIO-ORG ").length = 8 := rfl
  rw [List.length_append, List.length_append, length_cString wwn, hvendor,
    List.length_singleton] at hcontains
  omega

/-- A configuration string that is contained in its descriptor is short. -/
theorem VpdSound.config (h : VpdSound wwn cfgstring port (vpdPage wwn cfgstring port).bytes) :
    cfgstring.length + 1 ≤ 255 := by
  have hserial := h.serial
  obtain ⟨ds, hparse, -, hstrings⟩ := h.parsed
  obtain ⟨d₁, ds₁, -, hstrings₁, rfl⟩ := List.forall₂_cons_left_iff.mp hstrings
  obtain ⟨d₂, ds₂, -, hstrings₂, rfl⟩ := List.forall₂_cons_left_iff.mp hstrings₁
  obtain ⟨d₃, ds₃, hd, -, rfl⟩ := List.forall₂_cons_left_iff.mp hstrings₂
  have hfirst : (vpdStart.vendorId wwn).ptr = 17 + wwn.length := by
    rw [VpdPage.ptr, used_vendorId (by omega)]
    show 4 + (0 + (13 + wwn.length)) = _
    omega
  have hsecond : ((vpdStart.vendorId wwn).naa wwn).ptr = 37 + wwn.length := by
    rw [VpdPage.ptr, used_naa (by omega)]
    omega
  have hkeeps₂ : ((vpdStart.vendorId wwn).naa wwn).Keeps (vpdPage wwn cfgstring port) :=
    (keeps_vendorSpecific cfgstring).trans (keeps_port port)
  have hkeeps₁ : (vpdStart.vendorId wwn).Keeps (vpdPage wwn cfgstring port) :=
    keeps_naa.trans hkeeps₂
  have hkeeps₃ : (((vpdStart.vendorId wwn).naa wwn).vendorSpecific cfgstring).Keeps
      (vpdPage wwn cfgstring port) := keeps_port port
  -- the three length bytes of the page
  have hlen₁ : ((vpdPage wwn cfgstring port).data (4 + 3)).toNat = 9 + wwn.length := by
    rw [hkeeps₁.data_eq _ (by omega)]
    exact (vendorId_header (p := vpdStart) (by omega)).2
  have hlen₂ : ((vpdPage wwn cfgstring port).data (17 + wwn.length + 3)).toNat = 16 := by
    rw [hkeeps₂.data_eq _ (by omega), ← hfirst, (naa_header _ wwn).2]
    rfl
  have hlen₃ : (vpdPage wwn cfgstring port).data (37 + wwn.length + 3)
      = UInt8.ofNat (cfgstring.length + 1) := by
    have hbehind : 37 + wwn.length + 3
        < (((vpdStart.vendorId wwn).naa wwn).vendorSpecific cfgstring).ptr := by
      show _ < 4 + (((vpdStart.vendorId wwn).naa wwn).used + _ + 4)
      rw [used_naa (by omega)]
      omega
    rw [hkeeps₃.data_eq _ hbehind, ← hsecond]
    exact store_byte_self ..
  rw [drop_bytes] at hparse
  obtain ⟨-, n₁, hparse⟩ := parseDesignators_load hparse
  rw [hlen₁, show 4 + 4 + (9 + wwn.length) = 17 + wwn.length by omega] at hparse
  obtain ⟨-, n₂, hparse⟩ := parseDesignators_load hparse
  rw [hlen₂, show 17 + wwn.length + 4 + 16 = 37 + wwn.length by omega] at hparse
  have hbyte := (parseDesignators_load hparse).1
  rw [hlen₃] at hbyte
  have hlt : d₃.body.length < 256 := by
    rw [hbyte]
    exact UInt8.toNat_lt _
  have hcontains := hd.length_le
  rw [List.length_append, length_cString, List.length_singleton] at hcontains
  omega

/-- A page is sound if and only if everything fits. -/
theorem vpdSound_iff (hport : ∀ p, port = some p → p.wwn.length ≤ 223) :
    VpdSound wwn cfgstring port (vpdPage wwn cfgstring port).bytes ↔
      VpdFits wwn cfgstring port := by
  refine ⟨fun h => ?_, fun h => ?_⟩
  · have hserial := h.serial
    have hconfig := h.config
    have hcopied := h.copied
    rw [length_bytes, used_vpdPage (by omega) (by omega)] at hcopied
    exact ⟨hserial, hconfig, by omega⟩
  · obtain ⟨ds, hlists, hlen, hstrings⟩ := lists_vpdPage h hport
    have hused : (vpdPage wwn cfgstring port).used
        = 38 + wwn.length + cfgstring.length + portBytes port :=
      used_vpdPage (by have := h.serial; omega) (by have := h.config; omega)
    have htotal := h.total
    obtain ⟨hparse, hsum⟩ := bytes_of_lists hlists (by omega) hlen
    exact ⟨within_vpdStores h hport, by rw [length_bytes]; omega, ds, hparse, hsum, hstrings⟩

/-- What is answered. -/
theorem tcmuEmulateEvpdInquiry_eq {dev : TcmuDev} (hdev : dev.wwn = some wwn) :
    tcmuEmulateEvpdInquiry dev cfgstring port = .ok (vpdPage wwn cfgstring port).bytes := by
  rw [tcmuEmulateEvpdInquiry, hdev]
  rfl

/-- **Page 83h is sound if and only if the strings are short.** For every serial number, every
configuration string and every port, or none, the page that is copied is what the stores leave. All
stores and the copy stay in the array, and the page is a list of designators with whole strings,
exactly if the length of either string fits into its byte and all descriptors fit into the
array. -/
theorem vpd_page_sound_iff {dev : TcmuDev} (hdev : dev.wwn = some wwn)
    (hport : ∀ p, port = some p → p.wwn.length ≤ 223) :
    ∃ page, tcmuEmulateEvpdInquiry dev cfgstring port = .ok page ∧
      page = (Mem.storeAll (fun _ => 0) (vpdStores wwn cfgstring port)).load 0 page.length ∧
      (VpdSound wwn cfgstring port page ↔ VpdFits wwn cfgstring port) := by
  refine ⟨_, tcmuEmulateEvpdInquiry_eq hdev, ?_, vpdSound_iff hport⟩
  rw [length_bytes]
  exact vpdStores_data wwn cfgstring port

end Pages

/-- A string of `n` zeros. -/
def zeroString (n : ℕ) : String := String.ofList (List.replicate n '0')

theorem length_zeroString (n : ℕ) : (zeroString n).length = n := by
  rw [zeroString, String.length_ofList, List.length_replicate]

/-- A device with a serial number of 36 characters. -/
def serialDev : TcmuDev := { dashDev with wwn := some (zeroString 36) }

/-- A port whose name has `n` characters. -/
def namedPort (n : ℕ) : ReportedPort := ⟨1, 5, zeroString n, 1, 0⟩

theorem length_namedPort (n : ℕ) : (namedPort n).wwn.length = n := length_zeroString n

/-- The bytes of the descriptors of such a port. -/
theorem portBytes_namedPort (n : ℕ) :
    portBytes (some (namedPort n)) = 24 + scsiNameLength (n + 9) + scsiNameLength n := by
  rw [portBytes, length_name, length_namedPort]

/-- A configuration string of 100 characters and a port whose name has 60. -/
theorem vpd_page_sound_short :
    VpdFits (zeroString 36) (zeroString 100) (some (namedPort 60)) ∧
      ∃ page, tcmuEmulateEvpdInquiry serialDev (zeroString 100) (some (namedPort 60)) = .ok page ∧
        VpdSound (zeroString 36) (zeroString 100) (some (namedPort 60)) page := by
  have hfits : VpdFits (zeroString 36) (zeroString 100) (some (namedPort 60)) := by
    refine ⟨by rw [length_zeroString]; decide, by rw [length_zeroString]; decide, ?_⟩
    rw [portBytes_namedPort, length_zeroString, length_zeroString]
    decide
  have hport : ∀ p, some (namedPort 60) = some p → p.wwn.length ≤ 223 := by
    rintro p ⟨⟩
    exact (length_namedPort 60).trans_le (by decide)
  have hwwn : serialDev.wwn = some (zeroString 36) := rfl
  obtain ⟨page, hpage, -, hiff⟩ := @vpd_page_sound_iff _ (zeroString 100) _ _ hwwn hport
  exact ⟨hfits, page, hpage, hiff.mpr hfits⟩

/-- A configuration string of 250 characters and a port whose name has 200: 768 bytes of the stack
are copied, and there is text behind the array. -/
theorem vpd_page_overflows :
    ∃ page, tcmuEmulateEvpdInquiry serialDev (zeroString 250) (some (namedPort 200)) = .ok page ∧
      page.length = 768 ∧
      ¬ VpdSound (zeroString 36) (zeroString 250) (some (namedPort 200)) page := by
  have hlen : (vpdPage (zeroString 36) (zeroString 250) (some (namedPort 200))).bytes.length
      = 768 := by
    rw [length_bytes, used_vpdPage (by rw [length_zeroString]; decide)
      (by rw [length_zeroString]; decide), portBytes_namedPort, length_zeroString,
      length_zeroString]
    rfl
  refine ⟨_, tcmuEmulateEvpdInquiry_eq rfl, hlen, fun h => ?_⟩
  have hcopied := h.copied
  omega

end Tcmu

end LioProject
