import LioProject.Tcmu.QcowCaches

/-!
# QCOW images: what is where in the file

The file of an image consists of areas: the header, the L1 table, L2 tables, clusters, the table of
reference counts and its blocks. `Placed` says where they are, according to the tables. A cluster of
QCOW2 that has the flag `QCOW2_OFLAG_COPIED` is referred to by one entry only, and is written where
it is. Other clusters may be in several places of the disk, or of other disks that are in the same
file, and are copied before they are written.

`TablesSound` says that the areas are in the file, and that those that are written in place are
apart from all others. They stay where they are when the file changes elsewhere
(`Placed.of_stays`). An area is added when a table changes: `placed_withTable`, `placed_map` and
`placed_withBlock` say that nothing else happens.
-/

namespace LioProject

namespace Tcmu

/-! ### Bytes that stay -/

/-- The `n` bytes from `o` on are the same in both files. -/
def Stays (file file' : List UInt8) (o n : ℕ) : Prop :=
  ∀ x, o ≤ x → x < o + n → file'.getD x 0 = file.getD x 0

section Stays

variable {file file' : List UInt8} {o n : ℕ}

theorem Stays.refl (file : List UInt8) (o n : ℕ) : Stays file file o n := fun _ _ _ => rfl

theorem Stays.trans {file'' : List UInt8} (h : Stays file file' o n)
    (h' : Stays file' file'' o n) : Stays file file'' o n :=
  fun x hlo hhi => (h' x hlo hhi).trans (h x hlo hhi)

/-- A write elsewhere. -/
theorem stays_writeAt {a : ℕ} {bs : List UInt8}
    (h : ∀ x, o ≤ x → x < o + n → x < a ∨ a + bs.length ≤ x) :
    Stays file (writeAt 0 file a bs) o n := by
  intro x hlo hhi
  rw [getD_writeAt, if_neg]
  rcases h x hlo hhi with hlt | hge
  · exact fun hin => absurd hin.1 (by omega)
  · exact fun hin => absurd hin.2 (by omega)

theorem Stays.beAt_eq {i k : ℕ} (h : Stays file file' o n) (hlo : o ≤ i) (hhi : i + k ≤ o + n) :
    beAt file' i k = beAt file i k := by
  induction k with
  | zero => rfl
  | succ k ih => rw [beAt, beAt, ih (by omega), byteAt, byteAt, h _ (by omega) (by omega)]

theorem Stays.slice_eq (h : Stays file file' o n) (hin : o + n ≤ file.length)
    (hin' : o + n ≤ file'.length) : slice file' o n = slice file o n := by
  rw [← padded_eq_slice 0 hin, ← padded_eq_slice 0 hin', padded, padded]
  refine List.map_congr_left fun i hi => ?_
  exact h _ (Nat.le_add_right _ _) (Nat.add_lt_add_left (List.mem_range.mp hi) _)

theorem byteAt_slice (o : ℕ) {i : ℕ} (hi : i < n) :
    byteAt (slice file o n) i = byteAt file (o + i) := by
  rw [byteAt, byteAt, getD_slice, if_pos hi]

theorem beAt_slice (o : ℕ) {i k : ℕ} (hi : i + k ≤ n) :
    beAt (slice file o n) i k = beAt file (o + i) k := by
  induction k with
  | zero => rfl
  | succ k ih => rw [beAt, beAt, ih (by omega), byteAt_slice o (by omega), Nat.add_assoc]

end Stays

/-! ### Flags -/

section Flags

theorem lt_two_pow_of_and_eq_zero {x k : ℕ} (h : x &&& 2 ^ k = 0) (hx : x < 2 ^ (k + 1)) :
    x < 2 ^ k := by
  have hbit : x.testBit k = false := by
    have h' := congrArg (fun y => y.testBit k) h
    simpa [Nat.testBit_two_pow] using h'
  refine Nat.lt_pow_two_of_testBit x fun i hi => ?_
  rcases Nat.eq_or_lt_of_le hi with rfl | hlt
  · exact hbit
  · exact Nat.testBit_lt_two_pow (hx.trans_le (Nat.pow_le_pow_right (by decide) hlt))

theorem and_two_pow_of_lt {x k : ℕ} (h : x < 2 ^ k) : x &&& 2 ^ k = 0 := by
  rw [Nat.and_comm, Nat.two_pow_and, Nat.testBit_lt_two_pow h]
  rfl

/-- Masking the lowest bit and the flags, of an even number. -/
theorem and_even_mask {x : ℕ} (heven : x % 2 = 0) : x &&& (2 ^ 62 - 1) <<< 1 = x % 2 ^ 63 := by
  refine Nat.eq_of_testBit_eq fun i => ?_
  rw [Nat.testBit_and, Nat.testBit_shiftLeft, Nat.testBit_two_pow_sub_one, Nat.testBit_mod_two_pow]
  cases i with
  | zero => simp [heven]
  | succ i =>
    have hiff : i < 62 ↔ i + 1 < 63 := by omega
    simp [hiff, Bool.and_comm]

namespace QcowTables

variable {t : QcowTables} {c : ℕ}

theorem uncopied_eq {x : ℕ} (hx : x < 2 ^ 64) :
    t.uncopied x = match t.version with | .qcow => x | .qcow2 => x % 2 ^ 63 := by
  rw [uncopied, clusterCopied]
  cases t.version with
  | qcow =>
    change x &&& (2 ^ 64 - 1) = x
    exact Nat.and_two_pow_sub_one_of_lt_two_pow hx
  | qcow2 =>
    change x &&& (2 ^ 63 - 1) = x % 2 ^ 63
    exact Nat.and_two_pow_sub_one_eq_mod x 63

/-- Offsets in the file are below this number. The flags are not. -/
def offsetLimit (t : QcowTables) : ℕ :=
  match t.version with
  | .qcow => 2 ^ 63
  | .qcow2 => 2 ^ 62

/-- The offset of a new table, out of its entry. -/
theorem and_clusterMask (hc : c < t.offsetLimit) (heven : c % 2 = 0) :
    (c ||| t.clusterCopied) &&& t.clusterMask = c := by
  rw [offsetLimit] at hc
  rw [clusterCopied, clusterMask]
  cases hv : t.version with
  | qcow =>
    rw [hv] at hc
    change (c ||| 0) &&& (2 ^ 63 - 1) = c
    rw [Nat.or_zero]
    exact Nat.and_two_pow_sub_one_of_lt_two_pow hc
  | qcow2 =>
    rw [hv] at hc
    change c < 2 ^ 62 at hc
    change (c ||| 2 ^ 63) &&& (2 ^ 62 - 1) <<< 1 = c
    rw [Nat.or_two_pow_eq_add_of_lt (by omega), and_even_mask (by omega)]
    omega

theorem offsetLimit_le (t : QcowTables) : t.offsetLimit ≤ 2 ^ 63 := by
  rw [offsetLimit]
  cases t.version with
  | qcow => exact Nat.le_refl _
  | qcow2 => exact Nat.pow_le_pow_right (by decide) (by decide)

theorem or_clusterCopied_lt (hc : c < t.offsetLimit) : c ||| t.clusterCopied < 2 ^ 64 := by
  have hlt := hc.trans_le t.offsetLimit_le
  refine Nat.or_lt_two_pow (by omega) ?_
  rw [clusterCopied]
  cases t.version with
  | qcow => exact Nat.two_pow_pos 64
  | qcow2 => exact Nat.pow_lt_pow_right (by decide) (by decide)

/-- The offset of a new cluster, out of its entry. -/
theorem uncopied_or (hc : c < t.offsetLimit) : t.uncopied (c ||| t.clusterCopied) = c := by
  have hlt := hc.trans_le t.offsetLimit_le
  rw [uncopied_eq (or_clusterCopied_lt hc), clusterCopied]
  cases t.version with
  | qcow => exact Nat.or_zero c
  | qcow2 =>
    change (c ||| 2 ^ 63) % 2 ^ 63 = c
    rw [Nat.or_two_pow_eq_add_of_lt hlt]
    omega

theorem uncopied_of_lt (hc : c < t.offsetLimit) : t.uncopied c = c := by
  have hlt := hc.trans_le t.offsetLimit_le
  rw [uncopied_eq (by omega)]
  cases t.version with
  | qcow => rfl
  | qcow2 => exact Nat.mod_eq_of_lt hlt

/-- An offset is not that of a compressed cluster. -/
theorem and_clusterCompressed (hc : c < t.offsetLimit) : c &&& t.clusterCompressed = 0 := by
  rw [offsetLimit] at hc
  rw [clusterCompressed]
  cases hv : t.version with
  | qcow =>
    rw [hv] at hc
    exact and_two_pow_of_lt hc
  | qcow2 =>
    rw [hv] at hc
    exact and_two_pow_of_lt hc

end QcowTables

end Flags

/-! ### Areas -/

/-- Where the bytes of a cluster are: not in the image, nowhere as they are zero, compressed in some
bytes of the file, or from an offset on. -/
inductive Mapping where
  | hole
  | zero
  | compressed (offset size : ℕ)
  | plain (offset : ℕ)
  deriving DecidableEq, Repr

namespace QcowTables

/-- The entry of a cluster in its L2 table. -/
def l2Entry (t : QcowTables) (file : List UInt8) (i j : ℕ) : ℕ :=
  beAt file (t.l2Offset i + 8 * j) 8

/-- What an entry says. -/
def mappingOf (t : QcowTables) (entry : ℕ) : Mapping :=
  let e := t.uncopied entry
  if e = 0 then .hole
  else if e = 1 then .zero
  else if e &&& t.clusterCompressed ≠ 0 then
    .compressed (e &&& t.clusterOffsetMask) ((e >>> (63 - t.clusterBits)) &&& (t.clusterSize - 1))
  else .plain e

/-- Where the bytes of cluster `j` of L2 table `i` are. -/
def mapping (t : QcowTables) (file : List UInt8) (i j : ℕ) : Mapping :=
  if t.l2Offset i = 0 then .hole else t.mappingOf (t.l2Entry file i j)

/-- The offset of a block of reference counts, 0 if there is none. -/
def refblock (t : QcowTables) (k : ℕ) : ℕ := beAt t.refcountTable (8 * k) 8

end QcowTables

/-- The areas of a file. -/
inductive Area where
  | header
  | l1
  | table (i : ℕ)
  | cluster (i j : ℕ)
  | rcTable
  | rcBlock (k : ℕ)
  deriving DecidableEq, Repr

/-- An area begins at an offset and has a length. The header is as long as somebody says, so that
it may be the whole first cluster. -/
inductive Placed (hdr : ℕ) (t : QcowTables) (file : List UInt8) : Area → ℕ → ℕ → Prop
  | header : Placed hdr t file .header 0 hdr
  | l1 : Placed hdr t file .l1 t.l1TableOffset (8 * t.l1Size)
  | table {i : ℕ} (hi : i < t.l1Size) (h : t.l2Offset i ≠ 0) :
    Placed hdr t file (.table i) (t.l2Offset i) (8 * t.l2Size)
  | plain {i j o : ℕ} (hi : i < t.l1Size) (hj : j < t.l2Size) (h : t.mapping file i j = .plain o) :
    Placed hdr t file (.cluster i j) o t.clusterSize
  | compressed {i j o n : ℕ} (hi : i < t.l1Size) (hj : j < t.l2Size)
    (h : t.mapping file i j = .compressed o n) : Placed hdr t file (.cluster i j) o n
  | rcTable (hv : t.version = .qcow2) :
    Placed hdr t file .rcTable t.refcountTableOffset t.refcountTable.length
  | rcBlock {k : ℕ} (hv : t.version = .qcow2) (hk : 8 * k + 8 ≤ t.refcountTable.length)
    (h : t.refblock k ≠ 0) : Placed hdr t file (.rcBlock k) (t.refblock k) t.clusterSize

/-- The area is written where it is: everything but clusters without `cluster_copied`. -/
def Area.Owned (t : QcowTables) (file : List UInt8) : Area → Prop
  | .cluster i j => t.l2Entry file i j &&& t.clusterCopied ≠ 0
  | _ => True

/-- No area has a byte among the `n` bytes from `c` on. -/
def Fresh (hdr : ℕ) (t : QcowTables) (file : List UInt8) (c n : ℕ) : Prop :=
  ∀ ⦃a o m⦄, Placed hdr t file a o m → ∀ x, o ≤ x → x < o + m → x < c ∨ c + n ≤ x

/-- The tables and what they say are as they should be. -/
structure TablesSound (hdr : ℕ) (t : QcowTables) (file : List UInt8) : Prop where
  hdr_pos : 0 < hdr
  clusterBits : 9 ≤ t.clusterBits ∧ t.clusterBits ≤ 16
  l2Bits : 6 ≤ t.l2Bits ∧ t.l2Bits ≤ 13
  l2Bits_qcow2 : t.version = .qcow2 → t.l2Bits + 3 = t.clusterBits
  l1_length : t.l1Table.length = 8 * t.l1Size
  l1_lt : t.l1Size < 2 ^ 28
  size_le : t.size ≤ t.l1Size * 2 ^ (t.l2Bits + t.clusterBits)
  /-- The first cluster is in the file. -/
  room : t.clusterSize ≤ file.length
  placed_le : ∀ {a o n}, Placed hdr t file a o n → o + n ≤ file.length
  apart : ∀ {a b o n p m}, Placed hdr t file a o n → Placed hdr t file b p m → a.Owned t file →
    ∀ x, o ≤ x → x < o + n → p ≤ x → x < p + m → a = b
  /-- There are no flags on an entry without an offset. -/
  hole : ∀ {i j}, i < t.l1Size → j < t.l2Size → t.l2Offset i ≠ 0 →
    t.mapping file i j = .hole → t.l2Entry file i j = 0
  zero : ∀ {i j}, i < t.l1Size → j < t.l2Size → t.mapping file i j = .zero →
    t.version = .qcow2 ∧ t.l2Entry file i j = 1
  aligned : ∀ {i j o}, i < t.l1Size → j < t.l2Size → t.mapping file i j = .plain o →
    t.version = .qcow2 → o % t.clusterSize = 0

section Areas

variable {hdr : ℕ} {t : QcowTables} {file file' : List UInt8} {a : Area} {i j o n : ℕ}

theorem QcowTables.clusterSize_pos (t : QcowTables) : 0 < t.clusterSize := Nat.two_pow_pos _

theorem QcowTables.l2Entry_lt (t : QcowTables) (file : List UInt8) (i j : ℕ) :
    t.l2Entry file i j < 2 ^ 64 :=
  beAt_lt file _ 8

/-- No other area has a byte of one that is not shared. -/
theorem TablesSound.outside (hs : TablesSound hdr t file) {b : Area} {p m : ℕ}
    (hp : Placed hdr t file a o n) (hown : a.Owned t file) (hp' : Placed hdr t file b p m)
    (hne : b ≠ a) : ∀ x, p ≤ x → x < p + m → x < o ∨ o + n ≤ x := by
  intro x hlo hhi
  by_contra hout
  rw [not_or, Nat.not_lt, Nat.not_le] at hout
  exact hne (hs.apart hp hp' hown x hout.1 hout.2 hlo hhi).symm

/-- L2 tables of QCOW2 are clusters. -/
theorem TablesSound.l2Size_eq (hs : TablesSound hdr t file) (hv : t.version = .qcow2) :
    8 * t.l2Size = t.clusterSize := by
  rw [QcowTables.clusterSize, ← hs.l2Bits_qcow2 hv, Nat.pow_add, Nat.mul_comm]
  rfl

/-- Entries of L2 tables that stay. -/
theorem l2Entry_of_stays (h : Stays file file' (t.l2Offset i) (8 * t.l2Size))
    (hj : j < t.l2Size) : t.l2Entry file' i j = t.l2Entry file i j :=
  h.beAt_eq (Nat.le_add_right _ _) (by omega)

theorem mapping_of_stays
    (h : t.l2Offset i ≠ 0 → Stays file file' (t.l2Offset i) (8 * t.l2Size))
    (hj : j < t.l2Size) : t.mapping file' i j = t.mapping file i j := by
  rw [QcowTables.mapping, QcowTables.mapping]
  split
  · rfl
  · rename_i h0
    rw [l2Entry_of_stays (h h0) hj]

/-- The L2 tables of one file are those of the other. -/
def TablesStay (t : QcowTables) (file file' : List UInt8) : Prop :=
  ∀ i < t.l1Size, t.l2Offset i ≠ 0 → Stays file file' (t.l2Offset i) (8 * t.l2Size)

theorem TablesStay.symm (h : TablesStay t file file') : TablesStay t file' file :=
  fun i hi h0 x hlo hhi => (h i hi h0 x hlo hhi).symm

/-- **Areas stay** where they are when the L2 tables stay. -/
theorem Placed.of_stays (h : TablesStay t file file') (hp : Placed hdr t file a o n) :
    Placed hdr t file' a o n := by
  cases hp with
  | header => exact .header
  | l1 => exact .l1
  | table hi h0 => exact .table hi h0
  | plain hi hj hm => exact .plain hi hj ((mapping_of_stays (h _ hi) hj).trans hm)
  | compressed hi hj hm => exact .compressed hi hj ((mapping_of_stays (h _ hi) hj).trans hm)
  | rcTable hv => exact .rcTable hv
  | rcBlock hv hk h0 => exact .rcBlock hv hk h0

/-- A cluster that is somewhere has an L2 table. -/
theorem Placed.l2Offset_ne (hp : Placed hdr t file (.cluster i j) o n) :
    i < t.l1Size ∧ j < t.l2Size ∧ t.l2Offset i ≠ 0 := by
  cases hp with
  | plain hi hj hm =>
    refine ⟨hi, hj, fun h0 => ?_⟩
    rw [QcowTables.mapping, if_pos h0] at hm
    cases hm
  | compressed hi hj hm =>
    refine ⟨hi, hj, fun h0 => ?_⟩
    rw [QcowTables.mapping, if_pos h0] at hm
    cases hm

theorem Area.Owned.of_stays (h : TablesStay t file file') (hp : Placed hdr t file a o n)
    (hown : a.Owned t file) : a.Owned t file' := by
  cases a with
  | cluster i j =>
    obtain ⟨hi, hj, h0⟩ := hp.l2Offset_ne
    change t.l2Entry file' i j &&& t.clusterCopied ≠ 0
    rw [l2Entry_of_stays (h i hi h0) hj]
    exact hown
  | header | l1 | table | rcTable | rcBlock => trivial

/-- The file changes outside of the L2 tables. -/
theorem TablesSound.of_stays (hs : TablesSound hdr t file) (h : TablesStay t file file')
    (hlen : file.length ≤ file'.length) : TablesSound hdr t file' where
  hdr_pos := hs.hdr_pos
  clusterBits := hs.clusterBits
  l2Bits := hs.l2Bits
  l2Bits_qcow2 := hs.l2Bits_qcow2
  l1_length := hs.l1_length
  l1_lt := hs.l1_lt
  size_le := hs.size_le
  room := hs.room.trans hlen
  placed_le hp := (hs.placed_le (hp.of_stays h.symm)).trans hlen
  apart ha hb hown :=
    hs.apart (ha.of_stays h.symm) (hb.of_stays h.symm) (hown.of_stays h.symm ha)
  hole hi hj h0 hm := by
    rw [l2Entry_of_stays (h _ hi h0) hj]
    exact hs.hole hi hj h0 ((mapping_of_stays (h _ hi) hj).symm.trans hm)
  zero hi hj hm := by
    have hm' := (mapping_of_stays (h _ hi) hj).symm.trans hm
    refine ⟨(hs.zero hi hj hm').1, ?_⟩
    have h0 : t.l2Offset _ ≠ 0 := fun h0 => by
      rw [QcowTables.mapping, if_pos h0] at hm
      cases hm
    rw [l2Entry_of_stays (h _ hi h0) hj]
    exact (hs.zero hi hj hm').2
  aligned hi hj hm := hs.aligned hi hj ((mapping_of_stays (h _ hi) hj).symm.trans hm)

end Areas

/-! ### Areas that are added -/

/-- The tables with an L2 table at `c` in the L1 table. -/
def QcowTables.withTable (t : QcowTables) (i c : ℕ) : QcowTables :=
  { t with l1Table := putBe t.l1Table (8 * i) (c ||| t.clusterCopied) 8 }

/-- The tables with a block of reference counts at `c`. -/
def QcowTables.withBlock (t : QcowTables) (k c : ℕ) : QcowTables :=
  { t with refcountTable := putBe t.refcountTable (8 * k) c 8 }

/-- An offset that can be put into a table. -/
structure Offset (t : QcowTables) (c : ℕ) : Prop where
  lt : c < t.offsetLimit
  even : c % 2 = 0
  ne_zero : c ≠ 0

section Added

variable {hdr : ℕ} {t : QcowTables} {file file' : List UInt8} {a : Area} {i j k c o n : ℕ}

theorem l2Offset_withTable (hs : TablesSound hdr t file) (hi : i < t.l1Size) (hc : Offset t c)
    (i' : ℕ) : (t.withTable i c).l2Offset i' = if i' = i then c else t.l2Offset i' := by
  have hin : (i + 1) * 8 ≤ t.l1Table.length := by
    rw [hs.l1_length]
    omega
  change beAt (putBe t.l1Table (8 * i) (c ||| t.clusterCopied) 8) (8 * i') 8 &&& t.clusterMask = _
  rw [beAt_putBe_mul hin (QcowTables.or_clusterCopied_lt hc.lt)]
  split
  · exact QcowTables.and_clusterMask hc.lt hc.even
  · rfl

theorem mappingOf_zero (t : QcowTables) : t.mappingOf 0 = .hole := by
  rw [QcowTables.mappingOf]
  exact if_pos (Nat.zero_and _)

/-- A new L2 table of zeros maps nothing. -/
theorem mapping_withTable (hs : TablesSound hdr t file) (hi : i < t.l1Size)
    (h0 : t.l2Offset i = 0) (hc : Offset t c) (hzero : ∀ j < t.l2Size, beAt file (c + 8 * j) 8 = 0)
    (i' : ℕ) {j : ℕ} (hj : j < t.l2Size) :
    (t.withTable i c).mapping file i' j = t.mapping file i' j := by
  have hoff := l2Offset_withTable hs hi hc i'
  by_cases hii : i' = i
  · rw [if_pos hii] at hoff
    have hentry : (t.withTable i c).l2Entry file i' j = 0 := by
      rw [QcowTables.l2Entry, hoff, hzero j hj]
    have hhole : (t.withTable i c).mapping file i' j = .hole := by
      rw [QcowTables.mapping, hentry, mappingOf_zero, ite_self]
    rw [hhole, QcowTables.mapping, hii, if_pos h0]
  · rw [if_neg hii] at hoff
    have hentry : (t.withTable i c).l2Entry file i' j = t.l2Entry file i' j := by
      rw [QcowTables.l2Entry, hoff, QcowTables.l2Entry]
    rw [QcowTables.mapping, QcowTables.mapping, hoff, hentry]
    rfl

/-- The new table is the only new area. -/
theorem placed_withTable (hs : TablesSound hdr t file) (hi : i < t.l1Size)
    (h0 : t.l2Offset i = 0) (hc : Offset t c) (hzero : ∀ j < t.l2Size, beAt file (c + 8 * j) 8 = 0)
    (hp : Placed hdr (t.withTable i c) file a o n) :
    (a = .table i ∧ o = c ∧ n = 8 * t.l2Size) ∨ (a ≠ .table i ∧ Placed hdr t file a o n) := by
  cases hp with
  | header => exact Or.inr ⟨Area.noConfusion, .header⟩
  | l1 => exact Or.inr ⟨Area.noConfusion, .l1⟩
  | @table i' hi' h' =>
    have hoff := l2Offset_withTable hs hi hc i'
    by_cases hii : i' = i
    · rw [if_pos hii] at hoff
      exact Or.inl ⟨congrArg _ hii, hoff, rfl⟩
    · rw [if_neg hii] at hoff
      rw [hoff] at h' ⊢
      exact Or.inr ⟨fun heq => hii (Area.table.inj heq), .table hi' h'⟩
  | @plain i' _ _ hi' hj hm =>
    have hmap := mapping_withTable hs hi h0 hc hzero i' hj
    exact Or.inr ⟨Area.noConfusion, .plain hi' hj (hmap.symm.trans hm)⟩
  | @compressed i' _ _ _ hi' hj hm =>
    have hmap := mapping_withTable hs hi h0 hc hzero i' hj
    exact Or.inr ⟨Area.noConfusion, .compressed hi' hj (hmap.symm.trans hm)⟩
  | rcTable hv => exact Or.inr ⟨Area.noConfusion, .rcTable hv⟩
  | rcBlock hv hk h => exact Or.inr ⟨Area.noConfusion, .rcBlock hv hk h⟩

/-- The entries of the other tables are what they were. -/
theorem l2Entry_withTable (hs : TablesSound hdr t file) (hi : i < t.l1Size) (hc : Offset t c)
    {i' : ℕ} (hii : i' ≠ i) (j : ℕ) :
    (t.withTable i c).l2Entry file i' j = t.l2Entry file i' j := by
  rw [QcowTables.l2Entry, l2Offset_withTable hs hi hc, if_neg hii, QcowTables.l2Entry]

/-- **A new L2 table.** -/
theorem TablesSound.withTable (hs : TablesSound hdr t file) (hi : i < t.l1Size)
    (h0 : t.l2Offset i = 0) (hc : Offset t c) (hzero : ∀ j < t.l2Size, beAt file (c + 8 * j) 8 = 0)
    (hin : c + 8 * t.l2Size ≤ file.length) (hfresh : Fresh hdr t file c (8 * t.l2Size)) :
    TablesSound hdr (t.withTable i c) file := by
  have hplaced : ∀ {a o n}, Placed hdr (t.withTable i c) file a o n →
      (a = .table i ∧ o = c ∧ n = 8 * t.l2Size) ∨ (a ≠ .table i ∧ Placed hdr t file a o n) :=
    fun hp => placed_withTable hs hi h0 hc hzero hp
  have hmap : ∀ (i' : ℕ) {j : ℕ}, j < t.l2Size →
      (t.withTable i c).mapping file i' j = t.mapping file i' j :=
    fun i' _ hj => mapping_withTable hs hi h0 hc hzero i' hj
  have hother : ∀ {i' j : ℕ}, t.l2Offset i' ≠ 0 →
      (t.withTable i c).l2Entry file i' j = t.l2Entry file i' j :=
    fun h' => l2Entry_withTable hs hi hc (fun hii => h' (by rw [hii, h0])) _
  have howned : ∀ {a o n}, Placed hdr t file a o n → a.Owned (t.withTable i c) file →
      a.Owned t file := by
    intro a o n hp hown
    cases a with
    | cluster i' j =>
      change t.l2Entry file i' j &&& t.clusterCopied ≠ 0
      rw [← hother hp.l2Offset_ne.2.2]
      exact hown
    | header | l1 | table | rcTable | rcBlock => trivial
  refine { hs with
    l1_length := (length_putBe ..).trans hs.l1_length
    placed_le := fun hp => ?_
    apart := fun ha hb hown x hx hx' hy hy' => ?_
    hole := fun hi' hj h0' hm => ?_
    zero := fun hi' hj hm => ?_
    aligned := fun hi' hj hm => hs.aligned hi' hj ((hmap _ hj).symm.trans hm) }
  · rcases hplaced hp with ⟨-, rfl, rfl⟩ | ⟨-, hp⟩
    · exact hin
    · exact hs.placed_le hp
  · rcases hplaced ha with ⟨rfl, rfl, rfl⟩ | ⟨-, ha'⟩
    · rcases hplaced hb with ⟨rfl, -, -⟩ | ⟨-, hb'⟩
      · rfl
      · rcases hfresh hb' x hy hy' with hlt | hge <;> omega
    · rcases hplaced hb with ⟨rfl, rfl, rfl⟩ | ⟨-, hb'⟩
      · rcases hfresh ha' x hx hx' with hlt | hge <;> omega
      · exact hs.apart ha' hb' (howned ha' hown) x hx hx' hy hy'
  · rename_i i' j
    by_cases hii : i' = i
    · rw [QcowTables.l2Entry, l2Offset_withTable hs hi hc, if_pos hii]
      exact hzero j hj
    · have hoff := l2Offset_withTable hs hi hc i'
      rw [if_neg hii] at hoff
      rw [hoff] at h0'
      rw [hother h0']
      exact hs.hole hi' hj h0' ((hmap _ hj).symm.trans hm)
  · have hm' := (hmap _ hj).symm.trans hm
    have h0' : t.l2Offset _ ≠ 0 := fun h0' => by
      rw [QcowTables.mapping, if_pos h0'] at hm'
      cases hm'
    refine ⟨(hs.zero hi' hj hm').1, ?_⟩
    rw [hother h0']
    exact (hs.zero hi' hj hm').2

theorem refblock_withBlock (hk : 8 * k + 8 ≤ t.refcountTable.length) (hc : c < 2 ^ 64)
    (k' : ℕ) : (t.withBlock k c).refblock k' = if k' = k then c else t.refblock k' :=
  beAt_putBe_mul (by omega) hc

/-- The new block is the only new area. -/
theorem placed_withBlock (hk : 8 * k + 8 ≤ t.refcountTable.length) (hc : Offset t c)
    (hp : Placed hdr (t.withBlock k c) file a o n) :
    (a = .rcBlock k ∧ o = c ∧ n = t.clusterSize) ∨ (a ≠ .rcBlock k ∧ Placed hdr t file a o n) := by
  cases hp with
  | header => exact Or.inr ⟨Area.noConfusion, .header⟩
  | l1 => exact Or.inr ⟨Area.noConfusion, .l1⟩
  | table hi h => exact Or.inr ⟨Area.noConfusion, .table hi h⟩
  | plain hi hj hm => exact Or.inr ⟨Area.noConfusion, .plain hi hj hm⟩
  | compressed hi hj hm => exact Or.inr ⟨Area.noConfusion, .compressed hi hj hm⟩
  | rcTable hv =>
    have hlen : (t.withBlock k c).refcountTable.length = t.refcountTable.length :=
      length_putBe ..
    rw [hlen]
    exact Or.inr ⟨Area.noConfusion, .rcTable hv⟩
  | @rcBlock k' hv hk' h =>
    have hblock := refblock_withBlock hk (hc.lt.trans_le (t.offsetLimit_le.trans (by decide))) k'
    by_cases hkk : k' = k
    · rw [if_pos hkk] at hblock
      exact Or.inl ⟨congrArg _ hkk, hblock, rfl⟩
    · rw [if_neg hkk] at hblock
      rw [hblock] at h ⊢
      have hlen : 8 * k' + 8 ≤ t.refcountTable.length := hk'.trans_eq (length_putBe ..)
      exact Or.inr ⟨fun heq => hkk (Area.rcBlock.inj heq), .rcBlock hv hlen h⟩

/-- **A new block of reference counts.** -/
theorem TablesSound.withBlock (hs : TablesSound hdr t file)
    (hk : 8 * k + 8 ≤ t.refcountTable.length) (hc : Offset t c)
    (hin : c + t.clusterSize ≤ file.length) (hfresh : Fresh hdr t file c t.clusterSize) :
    TablesSound hdr (t.withBlock k c) file := by
  refine { hs with
    placed_le := fun hp => ?_
    apart := fun ha hb hown x hx hx' hy hy' => ?_ }
  · rcases placed_withBlock hk hc hp with ⟨-, rfl, rfl⟩ | ⟨-, hp⟩
    · exact hin
    · exact hs.placed_le hp
  · rcases placed_withBlock hk hc ha with ⟨rfl, rfl, rfl⟩ | ⟨-, ha'⟩
    · rcases placed_withBlock hk hc hb with ⟨rfl, -, -⟩ | ⟨-, hb'⟩
      · rfl
      · rcases hfresh hb' x hy hy' with hlt | hge <;> omega
    · rcases placed_withBlock hk hc hb with ⟨rfl, rfl, rfl⟩ | ⟨-, hb'⟩
      · rcases hfresh ha' x hx hx' with hlt | hge <;> omega
      · exact hs.apart ha' hb' hown x hx hx' hy hy'

/-! ### A cluster that is mapped -/

theorem mappingOf_or (hc : Offset t c) : t.mappingOf (c ||| t.clusterCopied) = .plain c := by
  have hne := hc.ne_zero
  have heven := hc.even
  rw [QcowTables.mappingOf, QcowTables.uncopied_or hc.lt]
  rw [if_neg hne, if_neg (by omega), if_neg (not_not.mpr (QcowTables.and_clusterCompressed hc.lt))]

/-- The file changes in one entry of the L2 tables: that of cluster `j` of table `i`. -/
structure Mapped (t : QcowTables) (file file' : List UInt8) (i j c : ℕ) : Prop where
  entry : t.l2Entry file' i j = c ||| t.clusterCopied
  others : ∀ {i' j' : ℕ}, i' < t.l1Size → j' < t.l2Size → t.l2Offset i' ≠ 0 →
    ¬(i' = i ∧ j' = j) → t.l2Entry file' i' j' = t.l2Entry file i' j'

theorem Mapped.mapping_self (h : Mapped t file file' i j c) (h0 : t.l2Offset i ≠ 0)
    (hc : Offset t c) : t.mapping file' i j = .plain c := by
  rw [QcowTables.mapping, if_neg h0, h.entry, mappingOf_or hc]

theorem Mapped.mapping_of_ne (h : Mapped t file file' i j c) {i' j' : ℕ} (hi' : i' < t.l1Size)
    (hj' : j' < t.l2Size) (hne : ¬(i' = i ∧ j' = j)) :
    t.mapping file' i' j' = t.mapping file i' j' := by
  rw [QcowTables.mapping, QcowTables.mapping]
  split
  · rfl
  · rename_i h0
    rw [h.others hi' hj' h0 hne]

/-- The cluster is at its new place, and the other areas are where they were. -/
theorem placed_map (h : Mapped t file file' i j c) (h0 : t.l2Offset i ≠ 0) (hc : Offset t c)
    (hp : Placed hdr t file' a o n) :
    (a = .cluster i j ∧ o = c ∧ n = t.clusterSize) ∨
      (a ≠ .cluster i j ∧ Placed hdr t file a o n) := by
  cases hp with
  | header => exact Or.inr ⟨Area.noConfusion, .header⟩
  | l1 => exact Or.inr ⟨Area.noConfusion, .l1⟩
  | table hi' h' => exact Or.inr ⟨Area.noConfusion, .table hi' h'⟩
  | @plain i' j' _ hi' hj' hm =>
    by_cases hij : i' = i ∧ j' = j
    · obtain ⟨rfl, rfl⟩ := hij
      have hself := (h.mapping_self h0 hc).symm.trans hm
      exact Or.inl ⟨rfl, (Mapping.plain.inj hself).symm, rfl⟩
    · have hm' := (h.mapping_of_ne hi' hj' hij).symm.trans hm
      refine Or.inr ⟨fun heq => hij ?_, .plain hi' hj' hm'⟩
      exact Area.cluster.inj heq
  | @compressed i' j' _ _ hi' hj' hm =>
    by_cases hij : i' = i ∧ j' = j
    · obtain ⟨rfl, rfl⟩ := hij
      have hself := (h.mapping_self h0 hc).symm.trans hm
      cases hself
    · have hm' := (h.mapping_of_ne hi' hj' hij).symm.trans hm
      refine Or.inr ⟨fun heq => hij ?_, .compressed hi' hj' hm'⟩
      exact Area.cluster.inj heq
  | rcTable hv => exact Or.inr ⟨Area.noConfusion, .rcTable hv⟩
  | rcBlock hv hk h => exact Or.inr ⟨Area.noConfusion, .rcBlock hv hk h⟩

/-- **A cluster is mapped** to a place where nothing is. -/
theorem TablesSound.map (hs : TablesSound hdr t file) (h : Mapped t file file' i j c)
    (h0 : t.l2Offset i ≠ 0) (hc : Offset t c) (hlen : file.length ≤ file'.length)
    (hin : c + t.clusterSize ≤ file.length) (hfresh : Fresh hdr t file c t.clusterSize)
    (halign : t.version = .qcow2 → c % t.clusterSize = 0) : TablesSound hdr t file' := by
  have howned : ∀ {a o n}, Placed hdr t file a o n → a ≠ .cluster i j → a.Owned t file' →
      a.Owned t file := by
    intro a o n hp hne hown
    cases a with
    | cluster i' j' =>
      obtain ⟨hi', hj', h0'⟩ := hp.l2Offset_ne
      have hij : ¬(i' = i ∧ j' = j) := fun hij => hne (by rw [hij.1, hij.2])
      change t.l2Entry file i' j' &&& t.clusterCopied ≠ 0
      rw [← h.others hi' hj' h0' hij]
      exact hown
    | header | l1 | table | rcTable | rcBlock => trivial
  refine { hs with
    room := hs.room.trans hlen
    placed_le := fun hp => ?_
    apart := fun ha hb hown x hx hx' hy hy' => ?_
    hole := fun {i' j'} hi' hj' h0' hm => ?_
    zero := fun {i' j'} hi' hj' hm => ?_
    aligned := fun {i' j' o} hi' hj' hm hv => ?_ }
  · rcases placed_map h h0 hc hp with ⟨-, rfl, rfl⟩ | ⟨-, hp⟩
    · exact hin.trans hlen
    · exact (hs.placed_le hp).trans hlen
  · rcases placed_map h h0 hc ha with ⟨rfl, rfl, rfl⟩ | ⟨hne, ha'⟩
    · rcases placed_map h h0 hc hb with ⟨rfl, -, -⟩ | ⟨-, hb'⟩
      · rfl
      · rcases hfresh hb' x hy hy' with hlt | hge <;> omega
    · rcases placed_map h h0 hc hb with ⟨rfl, rfl, rfl⟩ | ⟨-, hb'⟩
      · rcases hfresh ha' x hx hx' with hlt | hge <;> omega
      · exact hs.apart ha' hb' (howned ha' hne hown) x hx hx' hy hy'
  · by_cases hij : i' = i ∧ j' = j
    · rw [hij.1, hij.2, h.mapping_self h0 hc] at hm
      cases hm
    · rw [h.others hi' hj' h0' hij]
      exact hs.hole hi' hj' h0' ((h.mapping_of_ne hi' hj' hij).symm.trans hm)
  · by_cases hij : i' = i ∧ j' = j
    · rw [hij.1, hij.2, h.mapping_self h0 hc] at hm
      cases hm
    · have hm' := (h.mapping_of_ne hi' hj' hij).symm.trans hm
      have h0' : t.l2Offset i' ≠ 0 := fun h0' => by
        rw [QcowTables.mapping, if_pos h0'] at hm'
        cases hm'
      refine ⟨(hs.zero hi' hj' hm').1, ?_⟩
      rw [h.others hi' hj' h0' hij]
      exact (hs.zero hi' hj' hm').2
  · by_cases hij : i' = i ∧ j' = j
    · rw [hij.1, hij.2, h.mapping_self h0 hc] at hm
      obtain rfl := Mapping.plain.inj hm
      exact halign hv
    · exact hs.aligned hi' hj' ((h.mapping_of_ne hi' hj' hij).symm.trans hm) hv

end Added

end Tcmu

end LioProject
