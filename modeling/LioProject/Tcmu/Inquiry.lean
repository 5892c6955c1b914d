import LioProject.Tcmu.Xcopy

/-!
# Device identification

VPD page 83h lists the designators of a device. `tcmu_emulate_evpd_inquiry` and `zbc_evpd_inquiry`
build it in a buffer of 512 bytes, which is followed by other memory, and `xcopy_gen_naa_ieee`
computes one of the designators on its own. The three of them agree on it as long as the length of
the descriptor before it fits into a byte (`naa_agrees`).

A C string is a `String` here whose characters stand for single bytes.
-/

namespace LioProject

namespace Tcmu

/-! ### The page -/

/-- The bytes of a C string. -/
def cString (s : String) : List UInt8 := s.toList.map fun c => UInt8.ofNat c.toNat

theorem length_cString (s : String) : (cString s).length = s.length := by
  rw [cString, List.length_map, String.length_toList]

/-- `snprintf` of a text with room for `size` bytes at address `a`: what fits, and a `NUL`. -/
def Mem.snprintf (mem : Mem) (a size : ℕ) (s : List UInt8) : Mem :=
  if size = 0 then mem else mem.store a (s.take (size - 1) ++ [0])

/-- `sizeof(data) - used - 4`, a `size_t`. -/
def pageRoom (used : ℕ) : ℕ := (2 ^ 64 + 512 - used - 4) % 2 ^ 64

/-- `data` and `used`. The pointer `ptr` is always at `data[4 + used]`. -/
structure VpdPage where
  /-- `data`, from address 0 on. -/
  data : Mem
  /-- `used`. -/
  used : ℕ

/-- `ptr`. -/
def VpdPage.ptr (p : VpdPage) : ℕ := 4 + p.used

/-- `struct tgt_port`, as far as the page shows it. -/
structure ReportedPort where
  /-- `rel_port_id`. -/
  relPortId : ℕ
  /-- `proto_id`. -/
  protoId : ℕ
  /-- `wwn`. -/
  wwn : String
  /-- `tpgt`. -/
  tpgt : ℕ
  /-- `grp->id`. -/
  grpId : ℕ

/-- The first descriptor: the T10 vendor id. -/
def VpdPage.vendorId (p : VpdPage) (wwn : String) : VpdPage :=
  let data := p.data.store p.ptr [2, 1]
  let data := data.store (p.ptr + 4) (cString "LIO-ORG ")
  let data := data.snprintf (p.ptr + 12) (512 - 16) (cString wwn)
  let data := data.store (p.ptr + 3) [UInt8.ofNat (8 + wwn.length + 1)]
  ⟨data, p.used + (data (p.ptr + 3)).toNat + 4⟩

/-- The loop that fills in the digits of the serial number. -/
def vpdNaaDigits (ptr : ℕ) : List Char → Mem → ℕ → Bool → Mem
  | [], data, _, _ => data
  | c :: cs, data, i, next =>
    if 20 ≤ i then data
    else
      match charToHex c with
      | none => vpdNaaDigits ptr cs data i next
      | some val =>
        if next then
          vpdNaaDigits ptr cs (data.store (ptr + i) [data (ptr + i) ||| UInt8.ofNat val]) (i + 1)
            false
        else vpdNaaDigits ptr cs (data.store (ptr + i) [UInt8.ofNat (val <<< 4)]) i true

/-- The second descriptor: the NAA designator. -/
def VpdPage.naa (p : VpdPage) (wwn : String) : VpdPage :=
  let data := p.data.store p.ptr [1, 3]
  let data := data.store (p.ptr + 3) [16]
  let data := data.store (p.ptr + 4) [0x60, 0x01, 0x40, 0x50]
  ⟨vpdNaaDigits p.ptr wwn.toList data 7 true, p.used + 20⟩

/-- The third descriptor: the configuration string. -/
def VpdPage.vendorSpecific (p : VpdPage) (cfgstring : String) : VpdPage :=
  let data := p.data.store p.ptr [2, 0]
  let data := data.snprintf (p.ptr + 4) (pageRoom p.used) (cString cfgstring)
  let data := data.store (p.ptr + 3) [UInt8.ofNat (cfgstring.length + 1)]
  ⟨data, p.used + (data (p.ptr + 3)).toNat + 4⟩

/-- A descriptor of eight bytes that holds a number of 16 bits: the relative target port, and the
target port group. -/
def VpdPage.portNumber (p : VpdPage) (protoId : ℕ) (kind : UInt8) (n : ℕ) : VpdPage :=
  let data := p.data.store p.ptr [UInt8.ofNat (protoId <<< 4) ||| 0x1, 0x80 ||| 0x10 ||| kind]
  let data := data.store (p.ptr + 3) [4]
  let data := data.store (p.ptr + 6) [UInt8.ofNat (n >>> 8 &&& 0xff), UInt8.ofNat (n &&& 0xff)]
  ⟨data, p.used + 8⟩

/-- The length of a SCSI name with its `NUL`, rounded up to a multiple of four, and cut off. -/
def scsiNameLength (n : ℕ) : ℕ := min ((n + 1 + 3) / 4 * 4) 256

/-- A descriptor that holds a SCSI name: that of the target port, and that of the device. -/
def VpdPage.scsiName (p : VpdPage) (protoId : ℕ) (association : UInt8) (name : String) : VpdPage :=
  let data := p.data.store p.ptr
    [UInt8.ofNat (protoId <<< 4) ||| 0x3, 0x80 ||| association ||| 0x8]
  let data := data.snprintf (p.ptr + 4) (pageRoom p.used) (cString name)
  let data := data.store (p.ptr + 3) [UInt8.ofNat (scsiNameLength name.length)]
  ⟨data, p.used + scsiNameLength name.length + 4⟩

/-- A digit of `%x`. -/
def hexDigit (n : ℕ) : Char := "0123456789abcdef".toList.getD n '0'

/-- `%s,t,0x%04x`, of a port. -/
def ReportedPort.name (port : ReportedPort) : String :=
  port.wwn ++ ",t,0x" ++ String.ofList
    ((List.range 4).reverse.map fun i => hexDigit (port.tpgt / 16 ^ i % 16))

/-- The descriptors of the port, if there is one. -/
def VpdPage.port (p : VpdPage) : Option ReportedPort → VpdPage
  | none => p
  | some port =>
    let p := p.portNumber port.protoId 0x4 port.relPortId
    let p := p.portNumber port.protoId 0x5 port.grpId
    let p := p.scsiName port.protoId 0x10 port.name
    p.scsiName port.protoId 0x20 port.wwn

/-- What is copied to the initiator: the page with its length filled in. -/
def VpdPage.bytes (p : VpdPage) : List UInt8 :=
  (p.data.store 2 [UInt8.ofNat (p.used / 256), UInt8.ofNat p.used]).load 0 (p.used + 4)

/-- `tcmu_emulate_evpd_inquiry`, for page 83h. -/
def tcmuEmulateEvpdInquiry (dev : TcmuDev) (cfgstring : String) (port : Option ReportedPort) :
    Except TcmuSts (List UInt8) :=
  let data : Mem := Mem.store (fun _ => 0) 1 [0x83]
  match dev.wwn with
  | none => .error .hwErr
  | some wwn =>
    .ok ((((VpdPage.mk data 0).vendorId wwn).naa wwn).vendorSpecific cfgstring |>.port port).bytes

/-- `zbc_evpd_inquiry`, for page 83h. -/
def zbcEvpdInquiry (dev : TcmuDev) (model : UInt8) (sense : Sense) :
    Except (TcmuSts × Sense) (List UInt8) :=
  let data : Mem := Mem.store (fun _ => 0) 0 [model, 0x83]
  match dev.wwn with
  | none => .error (.passthroughErr, setSenseData sense .hardwareError 0x4400)
  | some wwn => .ok (((VpdPage.mk data 0).vendorId wwn).naa wwn).bytes

/-! ### The initiator -/

/-- The first NAA designator in a list of designation descriptors, as an initiator finds it. -/
def findNaa : ℕ → List UInt8 → Option (List UInt8)
  | 0, _ => none
  | n + 1, _ :: kind :: _ :: len :: rest =>
    if rest.length < len.toNat then none
    else if kind &&& 0x3f = 3 then some (rest.take len.toNat)
    else findNaa n (rest.drop len.toNat)
  | _ + 1, _ => none

/-- The NAA designator that an initiator learns from a page, or from the part of it that the
allocation length of its `INQUIRY` leaves. -/
def learnedNaa (page : List UInt8) : Option (List UInt8) := findNaa page.length (page.drop 4)

/-- What is found in a part of the descriptors is found in all of them. -/
theorem findNaa_take {n m k : ℕ} {bs w : List UInt8} (hle : n ≤ m)
    (h : findNaa n (bs.take k) = some w) : findNaa m bs = some w := by
  induction n generalizing m k bs with
  | zero => exact absurd h (by simp [findNaa])
  | succ n ih =>
    obtain ⟨m, rfl⟩ : ∃ m', m = m' + 1 := ⟨m - 1, by omega⟩
    match bs, k with
    | c :: kind :: r :: len :: rest, k + 4 =>
      simp only [List.take_succ_cons, findNaa] at h ⊢
      split at h
      · exact absurd h (by simp)
      · rename_i hlen
        rw [List.length_take] at hlen
        rw [if_neg (by omega)]
        split at h
        · rename_i hkind
          rw [if_pos hkind, ← h, List.take_take, min_eq_left (by omega)]
        · rename_i hkind
          rw [if_neg hkind]
          rw [List.drop_take] at h
          exact ih (by omega) h
    | [], _ => exact absurd h (by simp [findNaa])
    | [_], k => exact absurd h (by cases k <;> simp [findNaa])
    | [_, _], k => exact absurd h (by rcases k with _ | _ | k <;> simp [findNaa])
    | [_, _, _], k => exact absurd h (by rcases k with _ | _ | _ | k <;> simp [findNaa])
    | _ :: _ :: _ :: _ :: _, 0 => exact absurd h (by simp [findNaa])
    | _ :: _ :: _ :: _ :: _, 1 => exact absurd h (by simp [findNaa])
    | _ :: _ :: _ :: _ :: _, 2 => exact absurd h (by simp [findNaa])
    | _ :: _ :: _ :: _ :: _, 3 => exact absurd h (by simp [findNaa])

/-- What is learned from a part of a page is learned from all of it. -/
theorem learnedNaa_take {k : ℕ} {page w : List UInt8} (h : learnedNaa (page.take k) = some w) :
    learnedNaa page = some w := by
  rw [learnedNaa, List.drop_take] at h
  exact findNaa_take (by simp) h

/-! ### Bytes of the page -/

section Bytes

variable {mem : Mem} {a k n x : ℕ} {bs : List UInt8}

theorem Mem.snprintf_of_out {size : ℕ} (h : x < a ∨ a + bs.length + 1 ≤ x) :
    mem.snprintf a size bs x = mem x := by
  rw [Mem.snprintf]
  split
  · rfl
  · refine Mem.store_of_out (h.imp_right fun hle => ?_)
    rw [List.length_append, List.length_take, List.length_singleton]
    omega

/-- Storing one byte in a range. -/
theorem Mem.load_store_byte (mem : Mem) (a k n : ℕ) (b : UInt8) :
    (mem.store (a + k) [b]).load a n = (mem.load a n).set k b := by
  refine List.ext_getElem (by simp) fun i hi hi' => ?_
  rw [List.getElem_set]
  split
  · rename_i hik
    simp [Mem.load, Mem.store, hik]
  · rename_i hik
    simp only [Mem.load, List.getElem_map, List.getElem_range]
    exact Mem.store_of_out (by simp only [List.length_singleton]; omega)

end Bytes

/-! ### The digits -/

section Digits

variable {data : Mem} {ptr i ind x : ℕ} {next : Bool} {cs : List Char}

/-- The loop does not write in front of the index that it starts at, nor behind the designator. -/
theorem vpdNaaDigits_of_out (h : x < ptr + i ∨ ptr + 20 ≤ x) :
    vpdNaaDigits ptr cs data i next x = data x := by
  induction cs generalizing data i next with
  | nil => rfl
  | cons c cs ih =>
    rw [vpdNaaDigits]
    split
    · rfl
    · have hstore : ∀ b, data.store (ptr + i) [b] x = data x := fun b =>
        Mem.store_of_out (by simp only [List.length_singleton]; omega)
      cases charToHex c with
      | none => exact ih h
      | some val =>
        cases next with
        | true => exact (ih (by omega)).trans (hstore _)
        | false => exact (ih h).trans (hstore _)

/-- In the page the loop does what that of `xcopy_gen_naa_ieee` does to a designator. -/
theorem load_vpdNaaDigits (cs : List Char) (data : Mem) (ptr ind : ℕ) (next : Bool) :
    (vpdNaaDigits ptr cs data (4 + ind) next).load (ptr + 4) 16 =
      naaDigits cs (data.load (ptr + 4) 16) ind next := by
  induction cs generalizing data ind next with
  | nil => rfl
  | cons c cs ih =>
    rw [vpdNaaDigits, naaDigits]
    rcases Nat.lt_or_ge ind 16 with hind | hind
    · rw [if_neg (by omega), if_neg (by omega), ← Nat.add_assoc]
      cases charToHex c with
      | none => exact ih data ind next
      | some val =>
        have hbyte : data (ptr + 4 + ind) = (data.load (ptr + 4) 16).getD ind 0 := by
          simp [Mem.load, hind]
        cases next with
        | true =>
          show (vpdNaaDigits ptr cs _ (4 + (ind + 1)) false).load (ptr + 4) 16 =
            naaDigits cs ((data.load (ptr + 4) 16).set ind _) (ind + 1) false
          rw [← hbyte, ih, Mem.load_store_byte]
        | false =>
          show (vpdNaaDigits ptr cs _ (4 + ind) true).load (ptr + 4) 16 =
            naaDigits cs ((data.load (ptr + 4) 16).set ind _) ind true
          rw [ih, Mem.load_store_byte]
    · rw [if_pos (by omega), if_pos hind]

/-- The designator has 16 bytes. -/
theorem length_naaDigits (cs : List Char) (wwn : List UInt8) (ind : ℕ) (next : Bool) :
    (naaDigits cs wwn ind next).length = wwn.length := by
  induction cs generalizing wwn ind next with
  | nil => rfl
  | cons c cs ih =>
    rw [naaDigits]
    split
    · rfl
    · split
      · exact ih _ _ _
      · split
        · rw [ih, List.length_set]
        · rw [ih, List.length_set]

/-- Bytes in front of the index stay. -/
theorem getElem?_naaDigits {j : ℕ} (cs : List Char) (wwn : List UInt8) (hj : j < ind)
    (next : Bool) : (naaDigits cs wwn ind next)[j]? = wwn[j]? := by
  induction cs generalizing wwn ind next with
  | nil => rfl
  | cons c cs ih =>
    rw [naaDigits]
    split
    · rfl
    · split
      · exact ih wwn hj next
      · split
        · rw [ih _ (by omega), List.getElem?_set_ne (by omega)]
        · rw [ih _ hj, List.getElem?_set_ne (by omega)]

end Digits

/-! ### Descriptors -/

/-- A later page: what the earlier one has in use stays. -/
structure VpdPage.Keeps (p q : VpdPage) : Prop where
  /-- More is in use. -/
  used_le : p.used ≤ q.used
  /-- What was in use is unchanged. -/
  data_eq : ∀ x < p.ptr, q.data x = p.data x

section Descriptors

variable {p q r : VpdPage} {wwn : String} {x : ℕ}

theorem VpdPage.Keeps.refl (p : VpdPage) : p.Keeps p := ⟨Nat.le_refl _, fun _ _ => rfl⟩

theorem VpdPage.Keeps.trans (h : p.Keeps q) (h' : q.Keeps r) : p.Keeps r := by
  refine ⟨h.used_le.trans h'.used_le, fun x hx => ?_⟩
  have hptr : p.ptr ≤ q.ptr := Nat.add_le_add_left h.used_le 4
  rw [h'.data_eq x (by omega), h.data_eq x hx]

theorem keeps_naa : p.Keeps (p.naa wwn) := by
  refine ⟨Nat.le_add_right _ _, fun x hx => ?_⟩
  exact (vpdNaaDigits_of_out (by omega)).trans ((Mem.store_of_out (by omega)).trans
    ((Mem.store_of_out (by omega)).trans (Mem.store_of_out (by omega))))

theorem keeps_vendorSpecific (cfgstring : String) : p.Keeps (p.vendorSpecific cfgstring) := by
  refine ⟨(Nat.le_add_right _ _).trans (Nat.le_add_right _ _), fun x hx => ?_⟩
  exact (Mem.store_of_out (by omega)).trans ((Mem.snprintf_of_out (by omega)).trans
    (Mem.store_of_out (by omega)))

theorem keeps_portNumber (protoId : ℕ) (kind : UInt8) (n : ℕ) :
    p.Keeps (p.portNumber protoId kind n) := by
  refine ⟨Nat.le_add_right _ _, fun x hx => ?_⟩
  exact (Mem.store_of_out (by omega)).trans ((Mem.store_of_out (by omega)).trans
    (Mem.store_of_out (by omega)))

theorem keeps_scsiName (protoId : ℕ) (association : UInt8) (name : String) :
    p.Keeps (p.scsiName protoId association name) := by
  refine ⟨(Nat.le_add_right _ _).trans (Nat.le_add_right _ _), fun x hx => ?_⟩
  exact (Mem.store_of_out (by omega)).trans ((Mem.snprintf_of_out (by omega)).trans
    (Mem.store_of_out (by omega)))

theorem keeps_port (port : Option ReportedPort) : p.Keeps (p.port port) := by
  cases port with
  | none => exact VpdPage.Keeps.refl p
  | some port =>
    exact (keeps_portNumber _ _ _).trans ((keeps_portNumber _ _ _).trans
      ((keeps_scsiName _ _ _).trans (keeps_scsiName _ _ _)))

/-- The first descriptor ends where the text of the serial number does, if its length fits into a
byte. -/
theorem used_vendorId (h : wwn.length ≤ 246) :
    (p.vendorId wwn).used = p.used + (13 + wwn.length) := by
  rw [VpdPage.vendorId]
  have hlen : (UInt8.ofNat (8 + wwn.length + 1)).toNat = 8 + wwn.length + 1 :=
    UInt8.toNat_ofNat_of_lt' (by change _ < 256; omega)
  simp only [Mem.store, Nat.le_refl, if_true, Nat.sub_self, List.getD_cons_zero, hlen]
  omega

theorem vendorId_of_ge (h : wwn.length ≤ 246) (hx : (p.vendorId wwn).ptr ≤ x) :
    (p.vendorId wwn).data x = p.data x := by
  rw [VpdPage.ptr, used_vendorId h] at hx
  have hlen : (cString wwn).length = wwn.length := by
    rw [cString, List.length_map, String.length_toList]
  have hshort : ∀ {c : UInt8}, x < p.ptr + 3 ∨ p.ptr + 3 + [c].length ≤ x := by
    simp only [List.length_singleton, VpdPage.ptr]
    omega
  have htext : x < p.ptr + 12 ∨ p.ptr + 12 + (cString wwn).length + 1 ≤ x := by
    rw [VpdPage.ptr]
    omega
  have hname : x < p.ptr + 4 ∨ p.ptr + 4 + 8 ≤ x := by
    rw [VpdPage.ptr]
    omega
  have hkind : x < p.ptr ∨ p.ptr + 2 ≤ x := by
    rw [VpdPage.ptr]
    omega
  exact (Mem.store_of_out hshort).trans ((Mem.snprintf_of_out htext).trans
    ((Mem.store_of_out hname).trans (Mem.store_of_out hkind)))

/-- The kind of the first descriptor, and its length. -/
theorem vendorId_header (h : wwn.length ≤ 246) :
    (p.vendorId wwn).data (p.ptr + 1) = 1 ∧
      ((p.vendorId wwn).data (p.ptr + 3)).toNat = 9 + wwn.length := by
  constructor
  · have hkind : p.data.store p.ptr [2, 1] (p.ptr + 1) = 1 := by simp [Mem.store]
    exact (Mem.store_of_out (by omega)).trans ((Mem.snprintf_of_out (by omega)).trans
      ((Mem.store_of_out (by omega)).trans hkind))
  · have hlen : ∀ (data : Mem) (b : UInt8), data.store (p.ptr + 3) [b] (p.ptr + 3) = b := by
      simp [Mem.store]
    rw [VpdPage.vendorId]
    dsimp only
    rw [hlen, UInt8.toNat_ofNat_of_lt' (by change _ < 256; omega)]
    omega

/-- The kind of the second descriptor, and its length. -/
theorem naa_header (p : VpdPage) (wwn : String) :
    (p.naa wwn).data (p.ptr + 1) = 3 ∧ (p.naa wwn).data (p.ptr + 3) = 16 := by
  constructor
  · have hkind : p.data.store p.ptr [1, 3] (p.ptr + 1) = 3 := by simp [Mem.store]
    exact (vpdNaaDigits_of_out (by omega)).trans ((Mem.store_of_out (by omega)).trans
      ((Mem.store_of_out (by omega)).trans hkind))
  · have hlen : (p.data.store p.ptr [1, 3]).store (p.ptr + 3) [16] (p.ptr + 3) = 16 := by
      simp [Mem.store]
    exact (vpdNaaDigits_of_out (by omega)).trans ((Mem.store_of_out (by omega)).trans hlen)

/-- The designator of a serial number. -/
def naaOf (wwn : String) : List UInt8 :=
  naaDigits wwn.toList ([0x60, 0x01, 0x40, 0x50] ++ List.replicate 12 0) 3 true

/-- The designator in the page, if there are zeros where it is put. -/
theorem load_naa (wwn : String) (h : ∀ x, p.ptr ≤ x → p.data x = 0) :
    (p.naa wwn).data.load (p.ptr + 4) 16 = naaOf wwn := by
  refine (load_vpdNaaDigits _ _ _ 3 true).trans ?_
  rw [naaOf]
  congr 1
  refine List.ext_getElem (by simp) fun i hi hi' => ?_
  rw [Mem.length_load] at hi
  simp only [Mem.load, List.getElem_map, List.getElem_range]
  rcases Nat.lt_or_ge i 4 with hlt | hge
  · rw [List.getElem_append_left hlt]
    simp [Mem.store, hlt]
  · rw [List.getElem_append_right hge, List.getElem_replicate]
    exact (Mem.store_of_out (Or.inr (Nat.add_le_add_left hge _))).trans
      ((Mem.store_of_out (Or.inr (by simp only [List.length_singleton]; omega))).trans
        ((Mem.store_of_out (Or.inr (by simp only [List.length_cons, List.length_nil]; omega))).trans
          (h _ (by omega))))

end Descriptors

/-! ### What is learned -/

section Learned

variable {dev : TcmuDev} {wwn : String} {data : Mem}

/-- Walking over a descriptor in memory. -/
theorem findNaa_load {mem : Mem} {a n k : ℕ} (h : 4 + (mem (a + 3)).toNat ≤ k) :
    findNaa (n + 1) (mem.load a k) =
      if mem (a + 1) &&& 0x3f = 3 then some (mem.load (a + 4) (mem (a + 3)).toNat)
      else findNaa n (mem.load (a + 4 + (mem (a + 3)).toNat) (k - 4 - (mem (a + 3)).toNat)) := by
  obtain ⟨j, rfl⟩ : ∃ j, k = j + 4 := ⟨k - 4, by omega⟩
  have hload : mem.load a (j + 4) =
      mem a :: mem (a + 1) :: mem (a + 2) :: mem (a + 3) :: mem.load (a + 4) j := by
    rw [Mem.load_succ, Mem.load_succ, Mem.load_succ, Mem.load_succ]
  rw [hload, findNaa, Mem.length_load, if_neg (by omega), Mem.load_take _ _ (by omega),
    Mem.load_drop, Nat.add_sub_cancel]

/-- Walking over a first descriptor of `len` bytes of text, up to the second. -/
theorem findNaa_second {mem : Mem} {len n k : ℕ} (hkind : mem 5 = 1)
    (hlen : (mem 7).toNat = 9 + len) (hnaa : mem (18 + len) = 3) (hsize : mem (20 + len) = 16)
    (h : 33 + len ≤ k) : findNaa (n + 2) (mem.load 4 k) = some (mem.load (21 + len) 16) := by
  have hnext : 4 + 4 + (9 + len) = 17 + len := by omega
  have hone : 17 + len + 1 = 18 + len := by omega
  have hthree : 17 + len + 3 = 20 + len := by omega
  have hfour : 17 + len + 4 = 21 + len := by omega
  rw [findNaa_load (by rw [hlen]; omega), if_neg (by rw [hkind]; decide), hlen, hnext,
    findNaa_load (by rw [hthree, hsize]; change 4 + 16 ≤ _; omega), hone, hthree, hfour, hnaa,
    hsize]
  rfl

/-- The designator is learned from every page that begins with the first two descriptors. -/
theorem learnedNaa_bytes {q : VpdPage} (hlen : wwn.length ≤ 246) (hzero : ∀ x, 4 ≤ x → data x = 0)
    (h : (((VpdPage.mk data 0).vendorId wwn).naa wwn).Keeps q) :
    learnedNaa q.bytes = some (naaOf wwn) := by
  have hptr : ((VpdPage.mk data 0).vendorId wwn).ptr = 17 + wwn.length := by
    rw [VpdPage.ptr, used_vendorId hlen]
    show 4 + (0 + (13 + wwn.length)) = _
    omega
  have hptr' : (((VpdPage.mk data 0).vendorId wwn).naa wwn).ptr = 37 + wwn.length := by
    show ((VpdPage.mk data 0).vendorId wwn).ptr + 20 = _
    omega
  obtain ⟨hkind, hbyte⟩ := vendorId_header (p := ⟨data, 0⟩) hlen
  obtain ⟨hkind', hbyte'⟩ := naa_header ((VpdPage.mk data 0).vendorId wwn) wwn
  have hload := load_naa (p := (VpdPage.mk data 0).vendorId wwn) wwn fun x hx =>
    (vendorId_of_ge hlen hx).trans (hzero x (by omega))
  rw [hptr] at hkind' hbyte' hload
  -- what the page has in these places when it is copied
  have hcopied : ∀ x, 4 ≤ x → x < 37 + wwn.length →
      q.data.store 2 [UInt8.ofNat (q.used / 256), UInt8.ofNat q.used] x =
        (((VpdPage.mk data 0).vendorId wwn).naa wwn).data x :=
    fun x hx hlt => (Mem.store_of_out (Or.inr hx)).trans (h.data_eq x (by omega))
  have hfirst : ∀ x, 4 ≤ x → x < 17 + wwn.length →
      q.data.store 2 [UInt8.ofNat (q.used / 256), UInt8.ofNat q.used] x =
        ((VpdPage.mk data 0).vendorId wwn).data x :=
    fun x hx hlt => (hcopied x hx (by omega)).trans (keeps_naa.data_eq x (by omega))
  have hused : 33 + wwn.length ≤ q.used := by
    have hle := h.used_le
    rw [VpdPage.ptr] at hptr'
    omega
  rw [VpdPage.bytes, learnedNaa, Mem.load_drop, Mem.length_load, Nat.add_sub_cancel, Nat.zero_add,
    show q.used + 4 = (q.used + 2) + 2 from rfl,
    findNaa_second ((hfirst 5 (by omega) (by omega)).trans hkind)
      ((congrArg UInt8.toNat (hfirst 7 (by omega) (by omega))).trans hbyte)
      ((hcopied _ (by omega) (by omega)).trans (by rw [← hkind']; congr 1; omega))
      ((hcopied _ (by omega) (by omega)).trans (by rw [← hbyte']; congr 1; omega)) hused,
    ← hload]
  refine congrArg some (Mem.load_eq_load.mpr fun i hi => ?_)
  rw [hcopied _ (by omega) (by omega)]
  congr 1
  omega

/-- The page holds the designator, and nothing else is learned from any part of it. -/
def ShowsNaa (page w : List UInt8) : Prop :=
  learnedNaa page = some w ∧ ∀ n v, learnedNaa (page.take n) = some v → v = w

theorem showsNaa_bytes {q : VpdPage} (hlen : wwn.length ≤ 246) (hzero : ∀ x, 4 ≤ x → data x = 0)
    (h : (((VpdPage.mk data 0).vendorId wwn).naa wwn).Keeps q) : ShowsNaa q.bytes (naaOf wwn) := by
  have hlearned := learnedNaa_bytes hlen hzero h
  refine ⟨hlearned, fun n v hv => ?_⟩
  rw [learnedNaa_take hv] at hlearned
  exact Option.some.inj hlearned

theorem showsNaa_emulated (hlen : wwn.length ≤ 246) (hdev : dev.wwn = some wwn)
    (cfgstring : String) (port : Option ReportedPort) :
    ∃ page, tcmuEmulateEvpdInquiry dev cfgstring port = .ok page ∧ ShowsNaa page (naaOf wwn) := by
  rw [tcmuEmulateEvpdInquiry, hdev]
  refine ⟨_, rfl, showsNaa_bytes hlen (fun x hx => ?_)
    ((keeps_vendorSpecific cfgstring).trans (keeps_port port))⟩
  exact Mem.store_of_out (Or.inr (by simp only [List.length_singleton]; omega))

theorem showsNaa_zbc (hlen : wwn.length ≤ 246) (hdev : dev.wwn = some wwn) (model : UInt8)
    (sense : Sense) :
    ∃ page, zbcEvpdInquiry dev model sense = .ok page ∧ ShowsNaa page (naaOf wwn) := by
  rw [zbcEvpdInquiry, hdev]
  refine ⟨_, rfl, showsNaa_bytes hlen (fun x hx => ?_) (VpdPage.Keeps.refl _)⟩
  exact Mem.store_of_out (Or.inr (by simp only [List.length_cons, List.length_nil]; omega))

end Learned

/-! ### Comparisons -/

/-- The target descriptor at address `a` names the designator `w`. -/
structure NamesTarget (mem : Mem) (a : ℕ) (w : List UInt8) : Prop where
  /-- The code set is binary. -/
  codeSet : mem.byte (a + 4) &&& 0x0f = 0x1
  /-- The designator is that of the logical unit. -/
  association : mem.byte (a + 5) &&& 0x30 = 0x00
  /-- It is of type NAA. -/
  kind : mem.byte (a + 5) &&& 0x0f = 0x3
  /-- It has 16 bytes. -/
  length : mem.byte (a + 7) = 16
  /-- The designator. -/
  designator : mem.load (a + 8) 16 = w

section Compared

variable {dev : TcmuDev} {w : List UInt8}

/-- A device is found by its designator, unless another one before it has the same. -/
theorem xcopyLocateUdev_append {before after : List TcmuDev} (hdev : xcopyGenNaaIeee dev = some w)
    (h : ∀ e ∈ before, ∃ v, xcopyGenNaaIeee e = some v ∧ v ≠ w) :
    xcopyLocateUdev w (before ++ dev :: after) = some dev := by
  induction before with
  | nil =>
    rw [List.nil_append, xcopyLocateUdev, hdev]
    exact if_pos rfl
  | cons e before ih =>
    obtain ⟨v, hv, hne⟩ := h e (List.mem_cons_self ..)
    rw [List.cons_append, xcopyLocateUdev, hv]
    exact (if_neg hne).trans (ih fun e he => h e (List.mem_cons_of_mem _ he))

theorem withDst_src (x : XcopyList) (dev : TcmuDev) (v tid : List UInt8) (index : ℕ) :
    (x.withDst dev v tid index).srcTidWwn = x.srcTidWwn ∧
      (x.withDst dev v tid index).srcDev = x.srcDev := by
  rw [XcopyList.withDst]
  split
  · exact ⟨rfl, rfl⟩
  · exact ⟨rfl, rfl⟩

theorem withSrc_dtdi (x : XcopyList) (dev : TcmuDev) (v tid : List UInt8) (index : ℕ) :
    (x.withSrc dev v tid index).dtdi = x.dtdi := by
  rw [XcopyList.withSrc]
  split
  · rfl
  · rfl

/-- A descriptor with the designator of the device makes it the source or the destination. -/
theorem xcopyParseTargetId_named {mem : Mem} {a index : ℕ} {x : XcopyList}
    (hdev : xcopyGenNaaIeee dev = some w) (hhead : w[0]? = some 0x60)
    (h : NamesTarget mem a w) :
    xcopyParseTargetId dev mem a index x =
      .ok ((x.withSrc dev w w index).withDst dev w w index) := by
  have hfirst : mem.byte (a + 8) >>> 4 = 0x06 := by
    rw [← h.designator, Mem.load_succ, List.getElem?_cons_zero] at hhead
    rw [Mem.byte, Option.some.inj hhead]
    rfl
  simp only [xcopyParseTargetId, hdev, h.codeSet, h.association, h.kind, h.length, hfirst,
    h.designator, ne_eq, not_true_eq_false, if_false]

end Compared

/-! ### Main result -/

/-- **Device identity.** For every serial number of up to 246 characters the NAA designator that is
computed for `EXTENDED COPY` is the one that an initiator learns from either of the two pages 83h,
and it compares equal where a copy looks for its devices. -/
theorem naa_agrees {serial : String} (hlen : serial.length ≤ 246) {dev : TcmuDev}
    (hdev : dev.wwn = some serial) :
    ∃ w, w.length = 16 ∧ xcopyGenNaaIeee dev = some w ∧
      (∀ cfgstring port, ∃ page,
        tcmuEmulateEvpdInquiry dev cfgstring port = .ok page ∧ ShowsNaa page w) ∧
      (∀ model sense, ∃ page, zbcEvpdInquiry dev model sense = .ok page ∧ ShowsNaa page w) ∧
      (∀ before after, (∀ e ∈ before, ∃ v, xcopyGenNaaIeee e = some v ∧ v ≠ w) →
        xcopyLocateUdev w (before ++ dev :: after) = some dev) ∧
      ∀ mem a index x, NamesTarget mem a w → ∃ x', xcopyParseTargetId dev mem a index x = .ok x' ∧
        (index = x.stdi → x'.srcTidWwn = w ∧ x'.srcDev = some dev) ∧
        (index = x.dtdi → x'.dstTidWwn = w ∧ x'.dstDev = some dev) := by
  have hgen : xcopyGenNaaIeee dev = some (naaOf serial) := by
    rw [xcopyGenNaaIeee, hdev]
    rfl
  refine ⟨naaOf serial, ?_, hgen, showsNaa_emulated hlen hdev, showsNaa_zbc hlen hdev,
    fun before after h => xcopyLocateUdev_append hgen h, fun mem a index x h => ?_⟩
  · exact length_naaDigits _ _ _ _
  · have hhead : (naaOf serial)[0]? = some 0x60 := getElem?_naaDigits _ _ (by omega) true
    refine ⟨_, xcopyParseTargetId_named hgen hhead h, fun hsrc => ?_, fun hdst => ?_⟩
    · obtain ⟨htid, hfound⟩ := withDst_src (x.withSrc dev (naaOf serial) (naaOf serial) index) dev
        (naaOf serial) (naaOf serial) index
      rw [htid, hfound, XcopyList.withSrc, if_pos hsrc]
      exact ⟨rfl, if_pos rfl⟩
    · rw [XcopyList.withDst, if_pos (hdst.trans (withSrc_dtdi ..).symm)]
      exact ⟨rfl, if_pos rfl⟩

/-- A device whose serial number has a character that is not a digit. -/
def dashDev : TcmuDev :=
  ⟨0, ⟨512, 8, 128, 128, 0⟩, ⟨true, true, true, false, false, false, false, false, 1⟩, some "a-1"⟩

/-- It is skipped in all three places. -/
theorem naa_agrees_dash :
    ∃ w, xcopyGenNaaIeee dashDev = some w ∧
      (∃ page, tcmuEmulateEvpdInquiry dashDev "file/d" none = .ok page ∧ ShowsNaa page w) ∧
      ∃ page, zbcEvpdInquiry dashDev 0x14 [] = .ok page ∧ ShowsNaa page w := by
  have hdev : dashDev.wwn = some "a-1" := rfl
  obtain ⟨w, -, hgen, hpage, hzbc, -⟩ := naa_agrees (by decide) hdev
  exact ⟨w, hgen, hpage "file/d" none, hzbc 0x14 []⟩

end Tcmu

end LioProject
