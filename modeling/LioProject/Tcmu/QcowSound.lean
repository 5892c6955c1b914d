import LioProject.Tcmu.QcowAreas
import LioProject.Tcmu.QcowRefcount

/-!
# QCOW images: sound images

An image is sound (`Sound`) if its tables are, if the tables in memory and the lines of the caches
are those of the file, and if what is said to be compressed can be decompressed. For QCOW2, every
area is in clusters that have a reference count, or are below `first_free_cluster` (`Covered`). So
no cluster that is in use is found to be free.

`clusterData` is what is in a cluster. Writes to the file that are not about areas of the image, or
about plain clusters, keep an image sound (`Sound.of_stays`), and change the data of no other
cluster.
-/

namespace LioProject

namespace Tcmu

/-! ### Clusters and counts -/

section Data

variable (z : Inflate) (t : QcowTables) (file : List UInt8)

/-- What the `n` bytes from `o` on are decompressed to. -/
def inflated (o n : ℕ) : List UInt8 := (z (slice file o n) t.clusterSize).2.take t.clusterSize

/-- They can be decompressed, to a cluster. -/
def Inflates (o n : ℕ) : Prop :=
  (z (slice file o n) t.clusterSize).1 = true ∧ (inflated z t file o n).length = t.clusterSize

/-- What is in a cluster; nothing if it is not in the image. -/
def clusterData (i j : ℕ) : Option (List UInt8) :=
  match t.mapping file i j with
  | .hole => none
  | .zero => some (List.replicate t.clusterSize 0)
  | .compressed o n => some (inflated z t file o n)
  | .plain o => some (slice file o t.clusterSize)

/-- The number of the block with the reference count of the cluster with number `c`. -/
def QcowTables.countBlock (c : ℕ) : ℕ := c >>> t.refcountBits

/-- The index in the block. -/
def QcowTables.countIndex (c : ℕ) : ℕ := c &&& (2 ^ t.refcountBits - 1)

/-- The reference count of the cluster with number `c`. -/
def refcountOf (c : ℕ) : ℕ :=
  if t.refcountTable.length < 8 * t.countBlock c + 8 ∨ t.refblock (t.countBlock c) = 0 then 0
  else
    (getRefcount t.refcountOrder (slice file (t.refblock (t.countBlock c)) t.clusterSize)
      (t.countIndex c)).getD 0

end Data

/-! ### Sound images -/

/-- Every cluster with a byte of an area has a reference count, but for the bytes in `E`. -/
def Covered (hdr : ℕ) (t : QcowTables) (file : List UInt8) (E : ℕ → Prop) : Prop :=
  ∀ ⦃a o n⦄, Placed hdr t file a o n → ∀ x, o ≤ x → x < o + n →
    refcountOf t file (x / t.clusterSize) ≠ 0 ∨ E x

/-- The offsets of blocks of reference counts. -/
def IsBlock (t : QcowTables) (o : ℕ) : Prop :=
  ∃ k, 8 * k + 8 ≤ t.refcountTable.length ∧ t.refblock k = o

/-- The reference counts are as they should be. -/
structure RefcountsSound (hdr : ℕ) (s : QcowState) (file : List UInt8) : Prop where
  /-- No count but zero can be set where a count has 64 bits. -/
  order_le : s.refcountOrder ≤ 5
  /-- There are no counts for clusters whose offset could not be told from the flags. -/
  capacity : s.refcountTable.length / 8 * 2 ^ s.refcountBits * s.clusterSize ≤ 2 ^ 62
  table_disk : slice file s.refcountTableOffset s.refcountTable.length = s.refcountTable
  cache : CacheOf file s.clusterSize (IsBlock s.toQcowTables) s.rcCache
  free_aligned : s.firstFreeCluster % s.clusterSize = 0
  in_use : Covered hdr s.toQcowTables file (· < s.firstFreeCluster)

/-- The tables and the copies of them, and what is compressed, are as they should be. -/
structure MapSound (z : Inflate) (hdr : ℕ) (s : QcowState) (file : List UInt8) : Prop where
  tables : TablesSound hdr s.toQcowTables file
  l1_disk : slice file s.l1TableOffset (8 * s.l1Size) = s.l1Table
  l2Cache : CacheOf file (8 * s.l2Size) (fun o => ∃ i < s.l1Size, s.l2Offset i = o) s.l2Cache
  inflates : ∀ {i j o n}, i < s.l1Size → j < s.l2Size → s.mapping file i j = .compressed o n →
    Inflates z s.toQcowTables file o n
  /-- `cluster_cache` is known by the offset only. -/
  same : ∀ {i j i' j' o n n'}, i < s.l1Size → j < s.l2Size → s.mapping file i j = .compressed o n →
    i' < s.l1Size → j' < s.l2Size → s.mapping file i' j' = .compressed o n' → n = n'
  clusterCache_length : s.clusterCache.length = s.clusterSize
  clusterCache : ∀ {i j o n}, i < s.l1Size → j < s.l2Size → s.mapping file i j = .compressed o n →
    o = s.clusterCacheOffset → s.clusterCache = inflated z s.toQcowTables file o n

/-- The image is as it should be. -/
structure Sound (z : Inflate) (hdr : ℕ) (s : QcowState) (file : List UInt8) : Prop
    extends MapSound z hdr s file where
  refcounts : s.version = .qcow2 → RefcountsSound hdr s file

section Stay

variable {z : Inflate} {hdr : ℕ} {s : QcowState} {t : QcowTables} {file file' : List UInt8}
  {i j o n : ℕ}

theorem CacheOf.of_slice {T : ℕ → Prop} {ls : List (CacheLine (List UInt8))}
    (h : CacheOf file n T ls)
    (hslice : ∀ o, o ≠ 0 → T o → slice file' o n = slice file o n) : CacheOf file' n T ls where
  coherent := h.coherent.congr fun hl h0 => hslice _ h0 (h.tags hl h0)
  lines := h.lines
  tags := h.tags

/-- The counts are what they were if their blocks are. -/
theorem refcountOf_of_slice
    (hblock : ∀ k, 8 * k + 8 ≤ t.refcountTable.length → t.refblock k ≠ 0 →
      slice file' (t.refblock k) t.clusterSize = slice file (t.refblock k) t.clusterSize)
    (c : ℕ) : refcountOf t file' c = refcountOf t file c := by
  rw [refcountOf, refcountOf]
  split
  · rfl
  · rename_i h
    rw [not_or, Nat.not_lt] at h
    rw [hblock _ h.1 h.2]

theorem Covered.mono {E E' : ℕ → Prop} (h : Covered hdr t file E) (hE : ∀ x, E x → E' x) :
    Covered hdr t file E' :=
  fun _ _ _ hp x hlo hhi => (h hp x hlo hhi).imp_right (hE x)

/-- An area whose bytes may change without anything else: a plain cluster, or one about reference
counts. -/
def Area.Aside (t : QcowTables) (file : List UInt8) (o : ℕ) : Area → Prop
  | .cluster i j => t.mapping file i j = .plain o
  | .rcTable | .rcBlock _ => True
  | _ => False

/-- All other areas stay. -/
def AreasStay (hdr : ℕ) (t : QcowTables) (file file' : List UInt8) : Prop :=
  ∀ ⦃a o n⦄, Placed hdr t file a o n → a.Aside t file o ∨ Stays file file' o n

theorem AreasStay.tables (h : AreasStay hdr t file file') : TablesStay t file file' :=
  fun _ hi h0 => (h (@Placed.table hdr _ file _ hi h0)).resolve_left id

theorem AreasStay.compressed (h : AreasStay hdr t file file') (hi : i < t.l1Size)
    (hj : j < t.l2Size) (hm : t.mapping file i j = .compressed o n) : Stays file file' o n := by
  refine (h (@Placed.compressed hdr _ _ _ _ _ _ hi hj hm)).resolve_left fun hplain => ?_
  change t.mapping file i j = .plain o at hplain
  cases hm.symm.trans hplain

theorem TablesSound.slice_eq (hs : TablesSound hdr t file) (hlen : file.length ≤ file'.length)
    {a : Area} (hp : Placed hdr t file a o n) (hstays : Stays file file' o n) :
    slice file' o n = slice file o n :=
  hstays.slice_eq (hs.placed_le hp) ((hs.placed_le hp).trans hlen)

/-- What is said about compressed clusters stays true if those that there are were there before,
with the same data. -/
theorem MapSound.of_compressed {l1 : List UInt8} {ls : List (CacheLine (List UInt8))}
    (hs : MapSound z hdr s file)
    (htables : TablesSound hdr { s.toQcowTables with l1Table := l1 } file')
    (hdisk : slice file' s.l1TableOffset (8 * s.l1Size) = l1)
    (hcache : CacheOf file' (8 * s.l2Size)
      (fun o => ∃ i < s.l1Size, QcowTables.l2Offset { s.toQcowTables with l1Table := l1 } i = o) ls)
    (hcompressed : ∀ {i j o n}, i < s.l1Size → j < s.l2Size →
      QcowTables.mapping { s.toQcowTables with l1Table := l1 } file' i j = .compressed o n →
      s.mapping file i j = .compressed o n ∧ slice file' o n = slice file o n) :
    MapSound z hdr { s with l1Table := l1, l2Cache := ls } file' where
  tables := htables
  l1_disk := hdisk
  l2Cache := hcache
  inflates := by
    intro i j o n hi hj hm
    obtain ⟨hm', hslice⟩ := hcompressed hi hj hm
    have hinflates := hs.inflates hi hj hm'
    rw [Inflates, inflated, ← hslice] at hinflates
    exact hinflates
  same hi hj hm hi' hj' hm' := hs.same hi hj (hcompressed hi hj hm).1 hi' hj'
    (hcompressed hi' hj' hm').1
  clusterCache_length := hs.clusterCache_length
  clusterCache := by
    intro i j o n hi hj hm ho
    obtain ⟨hm', hslice⟩ := hcompressed hi hj hm
    have hcache := hs.clusterCache hi hj hm' ho
    rw [inflated, ← hslice] at hcache
    exact hcache

/-- **An image stays sound** when its areas stay, and plain clusters and reference counts are
changed. -/
theorem MapSound.of_stays (hs : MapSound z hdr s file) (h : AreasStay hdr s.toQcowTables file file')
    (hlen : file.length ≤ file'.length) : MapSound z hdr s file' := by
  have hl1 : Stays file file' s.l1TableOffset (8 * s.l1Size) := (h .l1).resolve_left id
  refine hs.of_compressed (hs.tables.of_stays h.tables hlen)
    ((hs.tables.slice_eq hlen .l1 hl1).trans hs.l1_disk) ?_ ?_
  · refine hs.l2Cache.of_slice ?_
    rintro o h0 ⟨i, hi, rfl⟩
    exact hs.tables.slice_eq hlen (.table hi h0) (h.tables i hi h0)
  · intro i j o n hi hj hm
    have hm' : s.mapping file i j = .compressed o n :=
      (mapping_of_stays (h.tables _ hi) hj).symm.trans hm
    exact ⟨hm', hs.tables.slice_eq hlen (.compressed hi hj hm') (h.compressed hi hj hm')⟩

/-- The blocks of reference counts stay, and the table of them. -/
structure CountsStay (t : QcowTables) (file file' : List UInt8) : Prop where
  table : Stays file file' t.refcountTableOffset t.refcountTable.length
  block : ∀ {k}, 8 * k + 8 ≤ t.refcountTable.length → t.refblock k ≠ 0 →
    Stays file file' (t.refblock k) t.clusterSize

theorem CountsStay.slice_block (h : CountsStay t file file') (hs : TablesSound hdr t file)
    (hv : t.version = .qcow2) (hlen : file.length ≤ file'.length) {k : ℕ}
    (hk : 8 * k + 8 ≤ t.refcountTable.length) (h0 : t.refblock k ≠ 0) :
    slice file' (t.refblock k) t.clusterSize = slice file (t.refblock k) t.clusterSize :=
  hs.slice_eq hlen (.rcBlock hv hk h0) (h.block hk h0)

theorem CountsStay.refcountOf_eq (h : CountsStay t file file') (hs : TablesSound hdr t file)
    (hv : t.version = .qcow2) (hlen : file.length ≤ file'.length) (c : ℕ) :
    refcountOf t file' c = refcountOf t file c :=
  refcountOf_of_slice (fun _ hk h0 => h.slice_block hs hv hlen hk h0) c

theorem Covered.of_stays {E : ℕ → Prop} (h : Covered hdr t file E) (hs : TablesSound hdr t file)
    (htables : TablesStay t file file') (hcounts : CountsStay t file file')
    (hv : t.version = .qcow2) (hlen : file.length ≤ file'.length) : Covered hdr t file' E := by
  intro a o n hp x hlo hhi
  rw [hcounts.refcountOf_eq hs hv hlen]
  exact h (hp.of_stays htables.symm) x hlo hhi

theorem RefcountsSound.of_stays (hr : RefcountsSound hdr s file)
    (hs : TablesSound hdr s.toQcowTables file) (htables : TablesStay s.toQcowTables file file')
    (hcounts : CountsStay s.toQcowTables file file') (hv : s.version = .qcow2)
    (hlen : file.length ≤ file'.length) : RefcountsSound hdr s file' :=
  { hr with
    table_disk := (hs.slice_eq hlen (.rcTable hv) hcounts.table).trans hr.table_disk
    cache := hr.cache.of_slice fun o h0 hblock => by
      obtain ⟨k, hk, rfl⟩ := hblock
      exact hcounts.slice_block hs hv hlen hk h0
    in_use := hr.in_use.of_stays hs htables hcounts hv hlen }

theorem Sound.of_stays (hs : Sound z hdr s file) (h : AreasStay hdr s.toQcowTables file file')
    (hcounts : s.version = .qcow2 → CountsStay s.toQcowTables file file')
    (hlen : file.length ≤ file'.length) : Sound z hdr s file' where
  toMapSound := hs.toMapSound.of_stays h hlen
  refcounts hv := (hs.refcounts hv).of_stays hs.tables h.tables (hcounts hv) hv hlen

/-- A cluster has the data that it had, and is not one of zeros if it was not. -/
structure ClusterKept (z : Inflate) (t : QcowTables) (file : List UInt8) (t' : QcowTables)
    (file' : List UInt8) (i j : ℕ) : Prop where
  data : clusterData z t' file' i j = clusterData z t file i j
  zero : t'.mapping file' i j = .zero → t.mapping file i j = .zero

theorem ClusterKept.trans {t' t'' : QcowTables} {file'' : List UInt8}
    (h : ClusterKept z t file t' file' i j) (h' : ClusterKept z t' file' t'' file'' i j) :
    ClusterKept z t file t'' file'' i j :=
  ⟨h'.data.trans h.data, fun hzero => h.zero (h'.zero hzero)⟩

/-- What is in a cluster stays if its area does, and is where it was. -/
theorem clusterKept_of_stays (hs : TablesSound hdr t file)
    (hmap : t.mapping file' i j = t.mapping file i j) (hlen : file.length ≤ file'.length)
    (hi : i < t.l1Size) (hj : j < t.l2Size)
    (hstays : ∀ {o n}, Placed hdr t file (.cluster i j) o n → Stays file file' o n) :
    ClusterKept z t file t file' i j := by
  refine ⟨?_, fun hzero => hmap ▸ hzero⟩
  have hslice : ∀ {o n}, Placed hdr t file (.cluster i j) o n →
      slice file' o n = slice file o n :=
    fun hp => hs.slice_eq hlen hp (hstays hp)
  rw [clusterData, clusterData, hmap]
  cases hm : t.mapping file i j with
  | hole => rfl
  | zero => rfl
  | compressed o n =>
    dsimp only
    rw [inflated, hslice (.compressed hi hj hm), inflated]
  | plain o =>
    dsimp only
    rw [hslice (.plain hi hj hm)]

/-- The lines of the cache of blocks of reference counts are not part of the file. -/
theorem Sound.withRcCache (hs : Sound z hdr s file) {ls : List (CacheLine (List UInt8))}
    (hls : s.version = .qcow2 → CacheOf file s.clusterSize (IsBlock s.toQcowTables) ls) :
    Sound z hdr { s with rcCache := ls } file :=
  { hs with refcounts := fun hv => { hs.refcounts hv with cache := hls hv } }

/-- Nor are those of the cache of L2 tables. -/
theorem Sound.withL2Cache (hs : Sound z hdr s file) {ls : List (CacheLine (List UInt8))}
    (hls : CacheOf file (8 * s.l2Size) (fun o => ∃ i < s.l1Size, s.l2Offset i = o) ls) :
    Sound z hdr { s with l2Cache := ls } file :=
  { hs with l2Cache := hls, refcounts := fun hv => { hs.refcounts hv with } }

end Stay

/-! ### The smallest image -/

section Small

/-- A QCOW2 image with clusters of 512 bytes and no L2 tables: the header, the L1 table, the table
of reference counts and a block of them, in a cluster each. -/
def smallFile : List UInt8 :=
  [0x51, 0x46, 0x49, 0xfb, 0, 0, 0, 2, 0, 0, 0, 0, 0, 0, 0, 0, 0, 0, 0, 0, 0, 0, 0, 9,
    0, 0, 0, 0, 0, 0, 0x80, 0, 0, 0, 0, 0, 0, 0, 0, 1, 0, 0, 0, 0, 0, 0, 2, 0,
    0, 0, 0, 0, 0, 0, 4, 0, 0, 0, 0, 1, 0, 0, 0, 0, 0, 0, 0, 0, 0, 0, 0, 0] ++
    List.replicate 952 0 ++ [0, 0, 0, 0, 0, 0, 6, 0] ++ List.replicate 504 0 ++
    [0, 1, 0, 1, 0, 1, 0, 1] ++ List.replicate 504 0

/-- The state of the image after it has been opened. -/
def smallState : QcowState where
  fd := 3
  size := 32768
  clusterBits := 9
  l2Bits := 6
  l1Size := 1
  l1TableOffset := 512
  l1Table := List.replicate 8 0
  version := .qcow2
  refcountTableOffset := 1024
  refcountTable := [0, 0, 0, 0, 0, 0, 6, 0] ++ List.replicate 504 0
  refcountOrder := 4
  l2Cache := List.replicate l2CacheSize ⟨0, 0, List.replicate 512 0⟩
  clusterCache := List.replicate 512 0
  clusterCacheOffset := 2 ^ 64 - 1
  rcCache := List.replicate l2CacheSize ⟨0, 0, List.replicate 512 0⟩
  firstFreeCluster := 0

theorem length_smallFile : smallFile.length = 2048 := by decide +kernel

theorem refblock_smallState : ∀ k < 64, smallState.refblock k = if k = 0 then 1536 else 0 := by
  decide +kernel

theorem refcountOf_smallFile : ∀ c < 4, refcountOf smallState.toQcowTables smallFile c = 1 := by
  decide +kernel

theorem l2Offset_smallState {i : ℕ} (hi : i < smallState.l1Size) : smallState.l2Offset i = 0 := by
  obtain rfl : i = 0 := Nat.lt_one_iff.mp hi
  decide +kernel

theorem mapping_smallFile {i j : ℕ} (hi : i < smallState.l1Size) :
    smallState.mapping smallFile i j = .hole :=
  if_pos (l2Offset_smallState hi)

/-- The areas of the image. -/
theorem placed_smallFile {hdr : ℕ} {a : Area} {o n : ℕ}
    (h : Placed hdr smallState.toQcowTables smallFile a o n) :
    (a = .header ∧ o = 0 ∧ n = hdr) ∨ (a = .l1 ∧ o = 512 ∧ n = 8) ∨
      (a = .rcTable ∧ o = 1024 ∧ n = 512) ∨ (a = .rcBlock 0 ∧ o = 1536 ∧ n = 512) := by
  cases h with
  | header => exact Or.inl ⟨rfl, rfl, rfl⟩
  | l1 => exact Or.inr (Or.inl ⟨rfl, rfl, rfl⟩)
  | table hi h0 => exact absurd (l2Offset_smallState hi) h0
  | plain hi hj hm => cases (mapping_smallFile hi).symm.trans hm
  | compressed hi hj hm => cases (mapping_smallFile hi).symm.trans hm
  | rcTable hv => exact Or.inr (Or.inr (Or.inl ⟨rfl, rfl, by decide +kernel⟩))
  | @rcBlock k hv hk h0 =>
    have hlen : smallState.refcountTable.length = 512 := by decide +kernel
    rw [hlen] at hk
    have hblock := refblock_smallState k (by omega)
    by_cases hzero : k = 0
    · subst hzero
      exact Or.inr (Or.inr (Or.inr ⟨rfl, hblock, by decide +kernel⟩))
    · rw [if_neg hzero] at hblock
      exact absurd hblock h0

/-- A line of a cache that has not been used. -/
theorem cacheOf_replicate {file : List UInt8} {T : ℕ → Prop} {k n : ℕ} {bs : List UInt8}
    (hk : 0 < k) : CacheOf file n T (List.replicate k ⟨0, 0, bs⟩) := by
  have htag : ∀ {i : ℕ} {l : CacheLine (List UInt8)},
      (List.replicate k (⟨0, 0, bs⟩ : CacheLine (List UInt8)))[i]? = some l → l.tag = 0 := by
    intro i l hl
    rw [List.eq_of_mem_replicate (List.mem_of_getElem? hl)]
  refine ⟨⟨fun hl h0 => absurd (htag hl) h0, fun hl _ _ h0 => absurd (htag hl) h0⟩, ?_,
    fun hl h0 => absurd (htag hl) h0⟩
  rw [List.length_replicate]
  exact hk

theorem tablesSound_small : TablesSound 104 smallState.toQcowTables smallFile where
  hdr_pos := by decide
  clusterBits := by decide
  l2Bits := by decide
  l2Bits_qcow2 _ := by decide
  l1_length := by decide
  l1_lt := by decide
  size_le := by decide
  room := by rw [length_smallFile]; decide
  placed_le h := by
    rw [length_smallFile]
    rcases placed_smallFile h with ⟨-, rfl, rfl⟩ | ⟨-, rfl, rfl⟩ | ⟨-, rfl, rfl⟩ | ⟨-, rfl, rfl⟩ <;>
      decide
  apart h h' _ x hlo hhi hlo' hhi' := by
    rcases placed_smallFile h with ⟨rfl, rfl, rfl⟩ | ⟨rfl, rfl, rfl⟩ | ⟨rfl, rfl, rfl⟩ |
      ⟨rfl, rfl, rfl⟩ <;>
    rcases placed_smallFile h' with ⟨rfl, rfl, rfl⟩ | ⟨rfl, rfl, rfl⟩ | ⟨rfl, rfl, rfl⟩ |
      ⟨rfl, rfl, rfl⟩ <;>
    first | rfl | omega
  hole hi _ h0 _ := absurd (l2Offset_smallState hi) h0
  zero hi _ hm := by cases (mapping_smallFile hi).symm.trans hm
  aligned hi _ hm := by cases (mapping_smallFile hi).symm.trans hm

/-- Every cluster of the file has a reference count. -/
theorem covered_small (E : ℕ → Prop) : Covered 104 smallState.toQcowTables smallFile E := by
  intro a o n hp x hlo hhi
  have hle := tablesSound_small.placed_le hp
  rw [length_smallFile] at hle
  refine Or.inl ?_
  rw [refcountOf_smallFile _ ((Nat.div_lt_iff_lt_mul (by decide)).mpr (by
    change x < 4 * 512
    omega))]
  decide

/-- **The image is sound.** -/
theorem sound_small (z : Inflate) : Sound z 104 smallState smallFile where
  tables := tablesSound_small
  l1_disk := by decide +kernel
  l2Cache := cacheOf_replicate (by decide)
  inflates hi _ hm := by cases (mapping_smallFile hi).symm.trans hm
  same hi _ hm := by cases (mapping_smallFile hi).symm.trans hm
  clusterCache_length := by decide +kernel
  clusterCache hi _ hm := by cases (mapping_smallFile hi).symm.trans hm
  refcounts _ :=
    { order_le := by decide
      capacity := by decide +kernel
      table_disk := by decide +kernel
      cache := cacheOf_replicate (by decide)
      free_aligned := by decide
      in_use := covered_small _ }

theorem smallState_version : smallState.version = .qcow2 := rfl

theorem smallState_fd : smallState.fd = 3 := rfl

theorem smallState_size : smallState.size = 32768 := rfl

-- programs that work on the image are not to be executed by the elaborator
attribute [irreducible] smallFile smallState

end Small

end Tcmu

end LioProject
