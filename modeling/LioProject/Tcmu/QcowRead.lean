import LioProject.Tcmu.IovecSegment
import LioProject.Tcmu.QcowLocate

/-!
# QCOW images: reading

An image shows a disk. `ImageView` says which, for images of one kind, and in which files it is.
`ReadsAs` says that reading gives the bytes of this disk: what is read is what is put into the
scatter list, and nothing else changes. A read may stop early, or fail, if the file system reads
less than it should, but never gives other bytes.

A file is an image (`raw_readsAs`), and a QCOW image is one whose clusters are what `clusterData`
says, with the bytes of the backing image for those that are not there (`qcow_readsAs`). Backing
images may have backing images themselves (`bdev_readsAs`).
-/

namespace LioProject

namespace Tcmu

/-! ### The disk that an image shows -/

/-- Images of one kind, in some state of the files: when they are as they should be, and the disks
that they show. -/
structure ImageView (β : Type) where
  good : β → Kernel → Prop
  size : β → Kernel → ℕ
  byte : β → Kernel → ℕ → UInt8
  /-- What is behind it. -/
  behind : β → Kernel → ℕ → UInt8
  /-- The files that they are in. -/
  uses : β → ℕ → Prop
  /-- Their tables, and those of their backing images. -/
  tables : β → List QcowTables

/-- Nothing has changed for an image. -/
structure ImageView.Same {β : Type} (v : ImageView β) (b : β) (k : Kernel) (b' : β) (k' : Kernel) :
    Prop where
  good : v.good b' k'
  size : v.size b' k' = v.size b k
  byte : v.byte b' k' = v.byte b k
  behind : v.behind b' k' = v.behind b k
  uses : v.uses b' = v.uses b
  tables : v.tables b' = v.tables b

theorem ImageView.Same.refl {β : Type} {v : ImageView β} {b : β} {k : Kernel} (h : v.good b k) :
    v.Same b k b k :=
  ⟨h, rfl, rfl, rfl, rfl, rfl⟩

theorem ImageView.Same.trans {β : Type} {v : ImageView β} {b b' b'' : β} {k k' k'' : Kernel}
    (h : v.Same b k b' k') (h' : v.Same b' k' b'' k'') : v.Same b k b'' k'' :=
  ⟨h'.good, h'.size.trans h.size, h'.byte.trans h.byte, h'.behind.trans h.behind,
    h'.uses.trans h.uses, h'.tables.trans h.tables⟩

/-- What is known after a read of the bytes from byte `x` of the disk on: some of them are in
memory. -/
structure ReadResult (m : Calls) (disk : ℕ → UInt8) (iov : List Iovec) (x : ℕ) (mem : Mem) (ret : ℤ)
    (mem' : Mem) : Prop where
  read : ∃ d ≤ iovTotal iov, (m.reads = true → d = iovTotal iov) ∧
    (ret = d ∨ (ret < 0 ∧ d = 0)) ∧ FilledUpTo mem mem' (addresses iov) (diskBytes disk x d)

/-- Images are read as the disks that they show. -/
structure ReadsAs {β : Type} (m : Calls) (ops : BdevOps β) (v : ImageView β) : Prop where
  /-- Nothing depends on other files. -/
  stable : ∀ {b k k'}, v.good b k → (∀ fd, v.uses b fd → k'.files fd = k.files fd) →
    v.Same b k b k'
  preadv : ∀ {b k iov x}, v.good b k → 512 ∣ x → 512 ∣ iovTotal iov → 0 < iovTotal iov →
    x + iovTotal iov ≤ v.size b k → iovTotal iov < 2 ^ 63 →
    Does m (ops.preadv b iov x) (fun r k' => k'.files = k.files ∧ v.Same b k r.2 k' ∧
      ReadResult m (v.byte b k) iov x k.mem r.1 k'.mem) k

/-- A byte of the disk that a QCOW image shows, if `back` are those of its backing image. -/
def diskByte (z : Inflate) (t : QcowTables) (file : List UInt8) (back : ℕ → UInt8) (x : ℕ) :
    UInt8 :=
  match clusterData z t file (t.l1Index x) (t.l2Index x) with
  | some bs => bs.getD (x % t.clusterSize) 0
  | none => back x

section View

variable {β : Type}

/-- The bytes of the backing image, or zeros. -/
def ImageView.backByte (v : ImageView β) (backing : Option β) (k : Kernel) (x : ℕ) : UInt8 :=
  match backing with
  | some image => v.byte image k x
  | none => 0

/-- Files as disks. -/
def rawView : ImageView ℕ where
  good _ _ := True
  size fd k := (k.files fd).length
  byte fd k x := (k.files fd).getD x 0
  behind _ _ _ := 0
  uses fd fd' := fd' = fd
  tables _ := []

/-- QCOW images as disks, over other images. The backing image is not smaller, and in other files.
The first `hdr` bytes of the file are for nothing else. -/
def qcowView (z : Inflate) (hdr : ℕ) (v : ImageView β) : ImageView (QcowImage β) where
  good b k := Sound z hdr b.state (k.files b.state.fd) ∧
    ∀ image, b.backing = some image → v.good image k ∧ ¬v.uses image b.state.fd ∧
      b.state.size ≤ v.size image k
  size b _ := b.state.size
  byte b k := diskByte z b.state.toQcowTables (k.files b.state.fd) (v.backByte b.backing k)
  behind b k := v.backByte b.backing k
  uses b fd := fd = b.state.fd ∨ ∃ image, b.backing = some image ∧ v.uses image fd
  tables b := b.state.toQcowTables :: b.backing.elim [] v.tables

end View

/-! ### Files -/

section Raw

variable {m : Calls}

theorem rawView_same {fd : ℕ} {k k' : Kernel} (h : k'.files fd = k.files fd) :
    rawView.Same fd k fd k' where
  good := trivial
  size := congrArg List.length h
  byte := by
    funext x
    exact congrArg (List.getD · x 0) h
  behind := rfl
  uses := rfl
  tables := rfl

/-- **Files are read as they are.** -/
theorem raw_readsAs : ReadsAs m rawOps rawView where
  stable _ h := rawView_same (h _ rfl)
  preadv {fd k iov x} _ _ _ hpos hin _ := by
    refine Does.seq (does_preadv (Q := fun r k' => k'.files = k.files ∧
      ReadResult m (rawView.byte fd k) iov x k.mem r k'.mem) ?_ ?_) ?_
    · intro hreads r hr
      refine ⟨rfl, ⟨0, Nat.zero_le _, fun h => ?_, Or.inr ⟨hr, rfl⟩, FilledUpTo.refl _ _⟩⟩
      rw [hreads] at h
      cases h
    · intro l hl hfull
      have hlen : (slice (k.files fd) x l).length = l := by
        change x + iovTotal iov ≤ (k.files fd).length at hin
        exact length_slice (by omega)
      have hbytes : diskBytes (rawView.byte fd k) x l = slice (k.files fd) x l :=
        diskBytes_eq hlen fun i hi => by
          rw [getD_slice, if_pos hi]
          rfl
      rw [hlen]
      refine ⟨rfl, ⟨l, hl, hfull, Or.inl rfl, ?_⟩⟩
      rw [hbytes]
      exact .of_eq (scatter_eq_fill ..)
    · rintro r k' ⟨hfiles, hread⟩
      exact does_pure ⟨hfiles, rawView_same (congrFun hfiles fd), hread⟩

end Raw

/-! ### Bytes of one cluster -/

section Cluster

variable {z : Inflate} {t : QcowTables} {file : List UInt8} {back : ℕ → UInt8} {x i : ℕ}

theorem QcowTables.l1Index_of_div (t : QcowTables) (x : ℕ) :
    t.l1Index x = x / t.clusterSize / t.l2Size % 2 ^ 32 := by
  rw [QcowTables.l1Index, Nat.shiftRight_eq_div_pow, Nat.add_comm, Nat.pow_add,
    ← Nat.div_div_eq_div_mul]
  rfl

theorem QcowTables.l2Index_of_div (t : QcowTables) (x : ℕ) :
    t.l2Index x = x / t.clusterSize % t.l2Size := by
  rw [QcowTables.l2Index, QcowTables.l2Size, Nat.and_two_pow_sub_one_eq_mod,
    Nat.shiftRight_eq_div_pow]
  rfl

/-- Bytes that are in the same cluster as byte `x`. -/
theorem div_add_of_lt {n : ℕ} (h : x % n + i < n) :
    (x + i) / n = x / n ∧ (x + i) % n = x % n + i := by
  have hmod : (x + i) % n = x % n + i := by
    rw [Nat.add_mod, Nat.mod_eq_of_lt (show i < n by omega), Nat.mod_eq_of_lt h]
  refine ⟨?_, hmod⟩
  have hx := Nat.div_add_mod x n
  have hxi := Nat.div_add_mod (x + i) n
  have hpos : 0 < n := by omega
  refine Nat.eq_of_mul_eq_mul_left hpos ?_
  omega

theorem diskByte_add (h : x % t.clusterSize + i < t.clusterSize) :
    diskByte z t file back (x + i) =
      match clusterData z t file (t.l1Index x) (t.l2Index x) with
      | some bs => bs.getD (x % t.clusterSize + i) 0
      | none => back (x + i) := by
  obtain ⟨hdiv, hmod⟩ := div_add_of_lt h
  rw [diskByte, t.l1Index_of_div, t.l2Index_of_div, hdiv, hmod, ← t.l1Index_of_div,
    ← t.l2Index_of_div]

/-- The bytes of a part of a cluster. -/
theorem diskBytes_of_cluster {n : ℕ} {bs : List UInt8} (hin : x % t.clusterSize + n ≤ t.clusterSize)
    (hdata : clusterData z t file (t.l1Index x) (t.l2Index x) = some bs)
    (hlen : bs.length = t.clusterSize) :
    diskBytes (diskByte z t file back) x n = slice bs (x % t.clusterSize) n := by
  refine diskBytes_eq (length_slice (by omega)) fun i hi => ?_
  rw [getD_slice, if_pos hi, diskByte_add (by omega), hdata]

theorem diskBytes_of_hole {n : ℕ} (hin : x % t.clusterSize + n ≤ t.clusterSize)
    (hdata : clusterData z t file (t.l1Index x) (t.l2Index x) = none) :
    diskBytes (diskByte z t file back) x n = diskBytes back x n := by
  refine diskBytes_congr fun i hi => ?_
  rw [diskByte_add (by omega), hdata]

end Cluster

/-! ### Turns -/

section Turn

variable {β : Type} {z : Inflate} {hdr : ℕ} {m : Calls} {back : BdevOps β} {v : ImageView β}
  {b : QcowImage β} {k : Kernel} {seg : List Iovec} {sector n : ℕ}

/-- Only caches have changed, of the image or of its backing image. -/
theorem qcowView_same {s' : QcowState} {backing' : Option β} {k' : Kernel}
    (hgood : (qcowView z hdr v).good b k)
    (hs' : Sound z hdr s' (k.files b.state.fd))
    (hstate : ∃ l2 cc co, s' = { b.state with
      l2Cache := l2, clusterCache := cc, clusterCacheOffset := co })
    (hfiles : k'.files b.state.fd = k.files b.state.fd) (hnone : b.backing = none → backing' = none)
    (hsome : ∀ image, b.backing = some image →
      ∃ image', backing' = some image' ∧ v.Same image k image' k') :
    (qcowView z hdr v).Same b k ⟨s', backing'⟩ k' := by
  obtain ⟨l2, cc, co, rfl⟩ := hstate
  have hfile : k'.files b.state.fd = k.files b.state.fd := hfiles
  have hbyte : v.backByte backing' k' = v.backByte b.backing k := by
    cases hb : b.backing with
    | none =>
      rw [hnone hb]
      rfl
    | some image =>
      obtain ⟨image', rfl, hsame⟩ := hsome image hb
      exact hsame.byte
  have huses : ∀ image', backing' = some image' → ∃ image, b.backing = some image ∧
      v.Same image k image' k' := by
    intro image' himage'
    cases hb : b.backing with
    | none =>
      rw [hnone hb] at himage'
      cases himage'
    | some image =>
      obtain ⟨image'', himage'', hsame⟩ := hsome image hb
      obtain rfl := Option.some.inj (himage'.symm.trans himage'')
      exact ⟨image, rfl, hsame⟩
  refine ⟨⟨?_, fun image' himage' => ?_⟩, rfl, ?_, hbyte, ?_, ?_⟩
  · change Sound z _ _ (k'.files b.state.fd)
    rw [hfile]
    exact hs'
  · obtain ⟨image, himage, hsame⟩ := huses image' himage'
    obtain ⟨-, hother, hsize⟩ := hgood.2 image himage
    exact ⟨hsame.good, hsame.uses ▸ hother, hsame.size ▸ hsize⟩
  · change diskByte z b.state.toQcowTables (k'.files b.state.fd) (v.backByte backing' k') = _
    rw [hfile, hbyte]
    rfl
  · funext fd
    refine propext (or_congr_right ⟨?_, ?_⟩)
    · rintro ⟨image', himage', hfd⟩
      obtain ⟨image, himage, hsame⟩ := huses image' himage'
      exact ⟨image, himage, hsame.uses ▸ hfd⟩
    · rintro ⟨image, himage, hfd⟩
      obtain ⟨image', himage', hsame⟩ := hsome image himage
      exact ⟨image', himage', hsame.uses.symm ▸ hfd⟩
  · change _ :: backing'.elim [] v.tables = _ :: b.backing.elim [] v.tables
    cases hb : b.backing with
    | none =>
      rw [hnone hb]
    | some image =>
      obtain ⟨image', rfl, hsame⟩ := hsome image hb
      exact congrArg _ hsame.tables

/-- What is known after a turn: the part of the request in one cluster has been read, or the file
system has not read all of it. -/
def TurnResult (m : Calls) (disk : ℕ → UInt8) (seg : List Iovec) (x : ℕ) (mem : Mem)
    (r : Bool ⊕ ℤ) (mem' : Mem) : Prop :=
  (r = .inl true ∧ FilledUpTo mem mem' (addresses seg) (diskBytes disk x (iovTotal seg))) ∨
    (r = .inl false ∧ m.reads = false ∧ FilledUpTo mem mem' (addresses seg) [])

theorem QcowTables.clusterSize_eq {hdr : ℕ} {t : QcowTables} {file : List UInt8}
    (hs : TablesSound hdr t file) : t.clusterSize = t.clusterSectors * 512 := by
  have hbits := hs.clusterBits.1
  rw [QcowTables.clusterSize, QcowTables.clusterSectors, show 512 = 2 ^ 9 from rfl, ← Nat.pow_add,
    Nat.sub_add_cancel hbits]

/-- Where a sector is in its cluster. -/
theorem sectorIndex_mul {hdr : ℕ} {t : QcowTables} {file : List UInt8}
    (hs : TablesSound hdr t file) (sector : ℕ) :
    (sector &&& (t.clusterSectors - 1)) * 512 = sector * 512 % t.clusterSize := by
  rw [QcowTables.clusterSize_eq hs, Nat.mul_mod_mul_right, QcowTables.clusterSectors,
    Nat.and_two_pow_sub_one_eq_mod]

theorem TurnResult.of_scatter {disk : ℕ → UInt8} {x : ℕ} {mem : Mem} {bs : List UInt8}
    (h : diskBytes disk x (iovTotal seg) = bs) :
    TurnResult m disk seg x mem (.inl true) (scatter mem seg bs) :=
  Or.inl ⟨rfl, h ▸ .of_eq (scatter_eq_fill ..)⟩

theorem diskBytes_zeros {disk : ℕ → UInt8} {x l : ℕ} (h : ∀ i < l, disk (x + i) = 0) :
    diskBytes disk x l = List.replicate l 0 := by
  refine diskBytes_eq List.length_replicate fun i hi => ?_
  rw [h i hi, List.getD_eq_getElem?_getD, List.getElem?_replicate_of_lt hi]
  rfl

/-- A part of a plain cluster is read. -/
theorem does_readPlain {disk : ℕ → UInt8} {x o : ℕ}
    (hin : o + iovTotal seg ≤ (k.files b.state.fd).length)
    (hdisk : diskBytes disk x (iovTotal seg) = slice (k.files b.state.fd) o (iovTotal seg)) :
    Does m (Sys.preadv b.state.fd seg o) (fun r k' => k'.files = k.files ∧
      TurnResult m disk seg x k.mem (.inl (decide (r = (iovTotal seg : ℕ)))) k'.mem) k := by
  refine does_preadv ?_ ?_
  · intro hreads r hr
    have hne : r ≠ (iovTotal seg : ℕ) := by omega
    rw [decide_eq_false hne]
    exact ⟨rfl, Or.inr ⟨rfl, hreads, FilledUpTo.refl _ _⟩⟩
  · intro l hl hfull
    have hlen : (slice (k.files b.state.fd) o l).length = l := length_slice (by omega)
    rw [hlen]
    refine ⟨rfl, ?_⟩
    by_cases hall : l = iovTotal seg
    · rw [decide_eq_true (by rw [hall]), hall]
      exact .of_scatter hdisk
    · have hne : (l : ℤ) ≠ (iovTotal seg : ℕ) := by omega
      rw [decide_eq_false hne]
      refine Or.inr ⟨rfl, ?_, ?_⟩
      · cases hreads : m.reads with
        | false => rfl
        | true => exact absurd (hfull hreads) hall
      · exact (FilledUpTo.of_eq (scatter_eq_fill k.mem seg _)).start

/-- What a turn leaves behind, which is to read from byte `x` on. -/
def ReadTurned (z : Inflate) (hdr : ℕ) (m : Calls) (v : ImageView β) (b : QcowImage β) (k : Kernel)
    (seg : List Iovec) (x : ℕ) (r : (Bool ⊕ ℤ) × QcowImage β) (k' : Kernel) : Prop :=
  k'.files = k.files ∧ (qcowView z hdr v).Same b k r.2 k' ∧
    TurnResult m ((qcowView z hdr v).byte b k) seg x k.mem r.1 k'.mem

/-- A lookup has changed a cache, and then no file has been written. -/
theorem qcowView_looked (hv : ReadsAs m back v) (hgood : (qcowView z hdr v).good b k)
    {s' : QcowState} (hs' : Sound z hdr s' (k.files b.state.fd))
    (hstate : ∃ l2 cc co, s' = { b.state with
      l2Cache := l2, clusterCache := cc, clusterCacheOffset := co })
    {k' : Kernel} (hfiles : k'.files = k.files) :
    (qcowView z hdr v).Same b k ⟨s', b.backing⟩ k' :=
  qcowView_same hgood hs' hstate (congrFun hfiles _) id fun image himage =>
    ⟨image, himage, hv.stable (hgood.2 image himage).1 fun fd _ => congrFun hfiles fd⟩

/-- Zeros are put where the disk has zeros. -/
theorem does_readZeros {b' : QcowImage β} {x l : ℕ} (hl : l = iovTotal seg)
    (hsame : ∀ mem, (qcowView z hdr v).Same b k b' { k with mem := mem })
    (hzero : diskBytes ((qcowView z hdr v).byte b k) x (iovTotal seg) =
      List.replicate (iovTotal seg) 0) :
    Does m (do
      Sys.memset seg l
      pure ((.inl true : Bool ⊕ ℤ), b')) (ReadTurned z hdr m v b k seg x) k := by
  refine Does.seq (does_memset (Q := fun _ k' => k' = { k with
    mem := scatter k.mem seg (List.replicate (iovTotal seg) 0) }) (by rw [hl, Nat.min_self])) ?_
  rintro - k' rfl
  exact does_pure ⟨rfl, hsame _, .of_scatter hzero⟩

/-- What is not in the image is read from the backing image. -/
theorem does_readBacking (hv : ReadsAs m back v) (hgood : (qcowView z hdr v).good b k)
    {image : β} (hb : b.backing = some image) {ls : List (CacheLine (List UInt8))}
    (hs' : Sound z hdr { b.state with l2Cache := ls } (k.files b.state.fd)) {x l : ℕ}
    (hl : l = iovTotal seg) (hx : 512 ∣ x) (htotal : 512 ∣ iovTotal seg) (hpos : 0 < iovTotal seg)
    (hin : x + iovTotal seg ≤ b.state.size) (hlt : iovTotal seg < 2 ^ 63)
    (hbytes : diskBytes ((qcowView z hdr v).byte b k) x (iovTotal seg) =
      diskBytes (v.byte image k) x (iovTotal seg)) :
    Does m (do
      let (read, image) ← back.preadv image seg x
      pure ((.inl (decide (read = (l : ℕ))) : Bool ⊕ ℤ),
        ⟨{ b.state with l2Cache := ls }, some image⟩)) (ReadTurned z hdr m v b k seg x) k := by
  obtain ⟨hgood', -, hsize⟩ := hgood.2 image hb
  subst hl
  refine Does.seq (hv.preadv hgood' hx htotal hpos (hin.trans hsize) hlt) ?_
  rintro ⟨ret, image'⟩ k' ⟨hfiles, hsame, ⟨d, hd, hfull, hret, hfill⟩⟩
  dsimp only at hret hsame
  have hview : (qcowView z hdr v).Same b k
      ⟨{ b.state with l2Cache := ls }, some image'⟩ k' := by
    refine qcowView_same hgood hs' ⟨ls, _, _, rfl⟩ (congrFun hfiles _) (fun hnone => ?_)
      fun image₀ himage₀ => ?_
    · cases hb.symm.trans hnone
    · obtain rfl := Option.some.inj (hb.symm.trans himage₀)
      exact ⟨image', rfl, hsame⟩
  refine does_pure ⟨hfiles, hview, ?_⟩
  by_cases hall : d = iovTotal seg
  · have hok : ret = (iovTotal seg : ℕ) := by omega
    rw [decide_eq_true hok]
    exact Or.inl ⟨rfl, by rw [hbytes, ← hall]; exact hfill⟩
  · have hshort : ret ≠ (iovTotal seg : ℕ) := by omega
    rw [decide_eq_false hshort]
    refine Or.inr ⟨rfl, ?_, hfill.start⟩
    cases hreads : m.reads with
    | false => rfl
    | true => exact absurd (hfull hreads) hall

/-- A part of a compressed cluster is copied out of the cache. -/
theorem does_readCompressed (hv : ReadsAs m back v) (hgood : (qcowView z hdr v).good b k)
    {ls : List (CacheLine (List UInt8))}
    (hs' : Sound z hdr { b.state with l2Cache := ls } (k.files b.state.fd)) {x e o l i : ℕ}
    (hi : b.state.l1Index x < b.state.l1Size)
    (hmapping : b.state.mapping (k.files b.state.fd) (b.state.l1Index x) (b.state.l2Index x) =
      .compressed o l)
    (ho : e &&& b.state.clusterOffsetMask = o)
    (hl : (e >>> (63 - b.state.clusterBits)) &&& (b.state.clusterSize - 1) = l)
    (hindex : i = x % b.state.clusterSize)
    (hcluster : x % b.state.clusterSize + iovTotal seg ≤ b.state.clusterSize) :
    Does m (do
      let (ok, s) ← decompressCluster z { b.state with l2Cache := ls } e
      if ok = false then pure ((.inr (-1) : Bool ⊕ ℤ), ⟨s, b.backing⟩)
      else
        Sys.memcpy seg (slice s.clusterCache i (iovTotal seg))
        pure (.inl true, ⟨s, b.backing⟩)) (ReadTurned z hdr m v b k seg x) k := by
  have hj := l2Index_lt b.state.toQcowTables x
  refine Does.seq (does_decompressCluster hs' hi hj hmapping ho hl) ?_
  rintro ⟨_, s''⟩ k' ⟨hk', hok, hs'', hcache, cc, co, hs''_eq⟩
  dsimp only at hok hs'' hcache hs''_eq
  subst hok
  rw [hk']
  dsimp only
  rw [if_neg Bool.noConfusion, hcache, hindex]
  refine Does.seq (does_memcpy (Q := fun _ k' => k' = ⟨k.files, scatter k.mem seg
    (slice (inflated z b.state.toQcowTables (k.files b.state.fd) o l)
      (x % b.state.clusterSize) (iovTotal seg))⟩) rfl) ?_
  rintro - k' rfl
  refine does_pure ⟨rfl, qcowView_looked hv hgood hs'' ⟨ls, cc, co, hs''_eq⟩ rfl,
    .of_scatter (diskBytes_of_cluster hcluster ?_ ?_)⟩
  · rw [clusterData, hmapping]
  · exact (hgood.1.inflates hi hj hmapping).2

/-- **A turn** reads the part of the disk that is in the cluster. -/
theorem does_readTurn (hv : ReadsAs m back v) (hgood : (qcowView z hdr v).good b k)
    (hseg : iovTotal seg = 512 * n) (hn : 0 < n)
    (hcluster : sector * 512 % b.state.clusterSize + 512 * n ≤ b.state.clusterSize)
    (hin : sector * 512 + 512 * n ≤ b.state.size) (hlt : 512 * n < 2 ^ 63) :
    Does m (readTurn z back b seg sector n) (ReadTurned z hdr m v b k seg (sector * 512)) k := by
  have hs := hgood.1
  have hx : sector * 512 < b.state.l1Size * 2 ^ (b.state.l2Bits + b.state.clusterBits) := by
    have := hs.tables.size_le
    omega
  have hmapping := b.state.mapping_eq (k.files b.state.fd) (b.state.l1Index (sector * 512))
    (b.state.l2Index (sector * 512))
  obtain ⟨-, hi⟩ := l1Index_eq hs.tables hx
  have hj := l2Index_lt b.state.toQcowTables (sector * 512)
  rw [readTurn, Nat.shiftLeft_eq _ 9]
  refine Does.seq (does_getClusterOffset hs hx) ?_
  rintro ⟨e, s'⟩ k' ⟨hk, hs', ⟨ls, hs'_eq⟩, he⟩
  dsimp only at he hs'_eq hs'
  subst hs'_eq
  rw [hk]
  have hstay : ∀ mem, (qcowView z hdr v).Same b k ⟨{ b.state with l2Cache := ls }, b.backing⟩
      { k with mem := mem } := fun mem => qcowView_looked hv hgood hs' ⟨ls, _, _, rfl⟩ rfl
  have hindex := sectorIndex_mul hs.tables sector
  rw [← he] at hmapping
  dsimp only
  rw [← hseg] at hcluster hin hlt ⊢
  have hmul : n * 512 = iovTotal seg := by rw [hseg, Nat.mul_comm]
  split
  · -- the cluster is not in the image
    rename_i h0
    rw [if_pos h0] at hmapping
    have hbytes : diskBytes ((qcowView z hdr v).byte b k) (sector * 512) (iovTotal seg) =
        diskBytes (v.backByte b.backing k) (sector * 512) (iovTotal seg) :=
      diskBytes_of_hole hcluster (clusterData_eq_none.mpr hmapping)
    cases hb : b.backing with
    | none =>
      rw [hb] at hbytes
      exact does_readZeros rfl (hb ▸ hstay) (hbytes.trans (diskBytes_zeros fun _ _ => rfl))
    | some image =>
      rw [hb] at hbytes
      exact does_readBacking hv hgood hb hs' hmul (Dvd.intro_left sector rfl)
        (Dvd.intro n hseg.symm) (hseg ▸ Nat.mul_pos (by decide) hn) hin hlt hbytes
  split
  · -- it is one of zeros
    rename_i h0 h1
    rw [if_neg h0, if_pos h1] at hmapping
    refine does_readZeros rfl hstay (diskBytes_zeros fun i hi => ?_)
    change diskByte z b.state.toQcowTables _ _ _ = 0
    rw [diskByte_add (by omega), clusterData, hmapping]
    dsimp only
    rw [List.getD_eq_getElem?_getD, List.getElem?_replicate_of_lt (by omega)]
    rfl
  split
  · -- it is compressed
    rename_i h0 h1 h2
    rw [if_neg h0, if_neg h1, if_pos h2] at hmapping
    exact does_readCompressed hv hgood hs' hi hmapping rfl rfl hindex hcluster
  · rename_i h0 h1 h2
    rw [if_neg h0, if_neg h1, if_neg h2] at hmapping
    have hplaced := hs.tables.placed_le (.plain hi hj hmapping)
    have hdata : clusterData z b.state.toQcowTables (k.files b.state.fd)
        (b.state.l1Index (sector * 512)) (b.state.l2Index (sector * 512)) =
          some (slice (k.files b.state.fd) e b.state.clusterSize) := by
      rw [clusterData, hmapping]
    have hbytes : diskBytes ((qcowView z hdr v).byte b k) (sector * 512) (iovTotal seg) =
        slice (k.files b.state.fd) (e + sector * 512 % b.state.clusterSize) (iovTotal seg) :=
      (diskBytes_of_cluster hcluster hdata (length_slice hplaced)).trans (slice_slice hcluster)
    rw [show QcowTables.clusterSectors _ = b.state.clusterSectors from rfl, hindex, hmul]
    refine Does.seq (does_readPlain (b := b) (by omega) hbytes) ?_
    rintro ret k' ⟨hfiles, hresult⟩
    exact does_pure ⟨hfiles, qcowView_looked hv hgood hs' ⟨ls, _, _, rfl⟩ hfiles, hresult⟩

end Turn

/-! ### The loop -/

section Loop

variable {β : Type} {z : Inflate} {hdr : ℕ} {m : Calls} {back : BdevOps β} {v : ImageView β}
  {b : QcowImage β} {k : Kernel} {iov : List Iovec} {sector count off fuel : ℕ}

/-- The sectors behind the first `n` ones of a request. -/
theorem sectors_left (sector : ℕ) {n : ℕ} (h : n ≤ count) :
    (sector + n) * 512 + 512 * (count - n) = sector * 512 + 512 * count := by
  omega

/-- **The loop** reads what is left of a request, or a part of it. -/
theorem does_readLoop (hv : ReadsAs m back v) (hgood : (qcowView z hdr v).good b k)
    (hfuel : count ≤ fuel) (htotal : off + 512 * count = iovTotal iov)
    (hin : sector * 512 + 512 * count ≤ b.state.size) (hlt : iovTotal iov < 2 ^ 63) :
    Does m (readLoop z back iov fuel b sector count off) (fun r k' => k'.files = k.files ∧
      (qcowView z hdr v).Same b k r.2 k' ∧ ∃ d, 512 ∣ d ∧ off + d ≤ iovTotal iov ∧
        (m.reads = true → off + d = iovTotal iov) ∧ r.1 = ioResult (off + d) ∧
        FilledUpTo k.mem k'.mem ((addresses iov).drop off)
          (diskBytes ((qcowView z hdr v).byte b k) (sector * 512) d)) k := by
  have hsame : (qcowView z hdr v).Same b k b k := .refl hgood
  induction fuel generalizing b k sector count off with
  | zero =>
    obtain rfl := Nat.le_zero.mp hfuel
    exact does_pure ⟨rfl, hsame, 0, Nat.dvd_zero _, by omega, fun _ => htotal, rfl,
      FilledUpTo.refl _ _⟩
  | succ fuel ih =>
    rw [readLoop]
    split
    · rename_i hzero
      rw [hzero] at htotal
      exact does_pure ⟨rfl, hsame, 0, Nat.dvd_zero _, by omega, fun _ => htotal, rfl,
        FilledUpTo.refl _ _⟩
    rename_i hne
    dsimp only
    have hs := hgood.1.tables
    have hindex := sectorIndex_mul hs sector
    have hmod := Nat.mod_lt (sector * 512) b.state.clusterSize_pos
    have hsize := QcowTables.clusterSize_eq hs
    generalize hn :
      min count (b.state.clusterSectors - (sector &&& (b.state.clusterSectors - 1))) = n
    have hcount : n ≤ count := hn ▸ Nat.min_le_left ..
    have hcluster : sector * 512 % b.state.clusterSize + 512 * n ≤ b.state.clusterSize := by omega
    have hpos : 0 < n := by omega
    have hinside : off + n * 512 ≤ iovTotal iov := by omega
    obtain ⟨seg, hseg⟩ := exists_iovecSegment hinside
    have haddr := addresses_iovecSegment hseg
    have hlen := iovTotal_iovecSegment hseg (by omega)
    rw [hseg]
    dsimp only
    have hle : 512 * n ≤ iovTotal iov := by omega
    refine Does.seq (does_readTurn hv hgood (by omega) hpos hcluster (by omega)
      (hle.trans_lt hlt)) ?_
    rintro ⟨res, b'⟩ k' ⟨hfiles, hsame', ⟨rfl, hfill⟩ | ⟨rfl, hreads, hfill⟩⟩
    · have hgood' := hsame'.good
      have hsize' : b'.state.size = b.state.size := hsame'.size
      have hbyte := hsame'.byte
      rw [haddr] at hfill
      have hfill' := hfill.of_take (by rw [length_diskBytes, hlen])
      have hrest : off + n * 512 + 512 * (count - n) = iovTotal iov := by omega
      have hin' := ((sectors_left sector hcount).trans_le hin).trans_eq hsize'.symm
      refine (ih hgood' (by omega) hrest hin' (.refl hgood')).mono fun r k'' h => ?_
      obtain ⟨hfiles', hsame'', d, hdvd, hd, hfull, hr, hrest⟩ := h
      refine ⟨hfiles'.trans hfiles, hsame'.trans hsame'', n * 512 + d, ?_, ?_, fun h => ?_,
        ?_, ?_⟩
      · exact Nat.dvd_add (Nat.dvd_mul_left ..) hdvd
      · rw [← Nat.add_assoc]
        exact hd
      · rw [← Nat.add_assoc]
        exact hfull h
      · rw [hr, Nat.add_assoc]
      · rw [hbyte, ← List.drop_drop] at hrest
        rw [diskBytes_add, ← hlen]
        refine hfill'.trans ?_
        rw [length_diskBytes, hlen, ← Nat.add_mul]
        exact hrest
    · refine does_pure ⟨hfiles, hsame', 0, Nat.dvd_zero _, by omega, fun h => ?_, rfl, ?_⟩
      · rw [hreads] at h
        cases h
      · rw [haddr] at hfill
        exact hfill.of_take (Nat.zero_le _)

/-- **A read of an image.** What is read are whole sectors, and some of them. -/
theorem does_qcowPreadv {x : ℕ} (hv : ReadsAs m back v) (hgood : (qcowView z hdr v).good b k)
    (hx : 512 ∣ x) (htotal : 512 ∣ iovTotal iov) (hin : x + iovTotal iov ≤ b.state.size)
    (hlt : iovTotal iov < 2 ^ 63) :
    Does m (qcowPreadv z back b iov x) (fun r k' => k'.files = k.files ∧
      (qcowView z hdr v).Same b k r.2 k' ∧ ∃ d, 512 ∣ d ∧ d ≤ iovTotal iov ∧
        (m.reads = true → d = iovTotal iov) ∧ r.1 = ioResult d ∧
        FilledUpTo k.mem k'.mem (addresses iov)
          (diskBytes ((qcowView z hdr v).byte b k) x d)) k := by
  obtain ⟨count, hcount⟩ := htotal
  obtain ⟨sector, rfl⟩ := hx
  have hlen : tcmuIovecLength iov = iovTotal iov := by
    rw [tcmuIovecLength_eq, Nat.mod_eq_of_lt (hlt.trans (by decide))]
  have hmask : iovTotal iov &&& 511 = 0 := by
    rw [show 511 = 2 ^ 9 - 1 from rfl, Nat.and_two_pow_sub_one_eq_mod, hcount]
    exact Nat.mul_mod_right 512 count
  have hdiv : iovTotal iov / 512 = count := by
    rw [hcount]
    exact Nat.mul_div_cancel_left count (by decide)
  have hsector : (512 * sector) >>> 9 = sector := by
    rw [Nat.shiftRight_eq_div_pow]
    exact Nat.mul_div_cancel_left sector (by decide)
  rw [qcowPreadv, hlen, hmask, if_neg (not_not.mpr rfl), hdiv, hsector]
  refine (does_readLoop hv hgood (Nat.le_refl _) (by omega) (by omega) hlt).mono fun r k' h => ?_
  obtain ⟨hfiles, hsame, d, hdvd, hd, hfull, hr, hfill⟩ := h
  rw [Nat.zero_add] at hd hfull hr
  rw [List.drop_zero, Nat.mul_comm] at hfill
  exact ⟨hfiles, hsame, d, hdvd, hd, hfull, hr, hfill⟩

theorem ioResult_eq (d : ℕ) : ioResult d = d ∨ (ioResult d < 0 ∧ d = 0) := by
  rw [ioResult]
  split
  · rename_i h
    exact Or.inr ⟨by decide, h⟩
  · exact Or.inl rfl

/-- **Images are read as the disks that they show.** -/
theorem qcow_readsAs (hv : ReadsAs m back v) : ReadsAs m (qcowOps z back) (qcowView z hdr v) where
  stable {b k k'} hgood hfiles :=
    qcowView_same hgood hgood.1 ⟨_, _, _, rfl⟩ (hfiles _ (Or.inl rfl)) id fun image himage =>
      ⟨image, himage, hv.stable (hgood.2 image himage).1 fun fd hfd =>
        hfiles fd (Or.inr ⟨image, himage, hfd⟩)⟩
  preadv {b k iov x} hgood hx htotal _ hin hlt := by
    refine (does_qcowPreadv hv hgood hx htotal hin hlt).mono fun r k' h => ?_
    obtain ⟨hfiles, hsame, d, -, hd, hfull, hr, hfill⟩ := h
    exact ⟨hfiles, hsame, ⟨d, hd, hfull, hr ▸ ioResult_eq d, hfill⟩⟩

end Loop

/-! ### Chains of images -/

section Sum

variable {β γ : Type} {m : Calls} {ops : BdevOps β} {ops' : BdevOps γ} {v : ImageView β}
  {v' : ImageView γ}

/-- Images of one of two kinds. -/
def ImageView.sum (v : ImageView β) (v' : ImageView γ) : ImageView (β ⊕ γ) where
  good := Sum.elim v.good v'.good
  size := Sum.elim v.size v'.size
  byte := Sum.elim v.byte v'.byte
  behind := Sum.elim v.behind v'.behind
  uses := Sum.elim v.uses v'.uses
  tables := Sum.elim v.tables v'.tables

theorem ImageView.Same.inl {b b' : β} {k k' : Kernel} (h : v.Same b k b' k') :
    (v.sum v').Same (.inl b) k (.inl b') k' :=
  ⟨h.good, h.size, h.byte, h.behind, h.uses, h.tables⟩

theorem ImageView.Same.inr {b b' : γ} {k k' : Kernel} (h : v'.Same b k b' k') :
    (v.sum v').Same (.inr b) k (.inr b') k' :=
  ⟨h.good, h.size, h.byte, h.behind, h.uses, h.tables⟩

theorem ReadsAs.sum (h : ReadsAs m ops v) (h' : ReadsAs m ops' v') :
    ReadsAs m (ops.sum ops') (v.sum v') where
  stable {b k k'} hgood hfiles := by
    cases b with
    | inl b => exact (h.stable hgood hfiles).inl
    | inr b => exact (h'.stable hgood hfiles).inr
  preadv {b k iov x} hgood hx htotal hpos hin hlt := by
    cases b with
    | inl b =>
      refine Does.seq (h.preadv hgood hx htotal hpos hin hlt) ?_
      rintro ⟨ret, b'⟩ k' ⟨hfiles, hsame, hread⟩
      exact does_pure ⟨hfiles, hsame.inl, hread⟩
    | inr b =>
      refine Does.seq (h'.preadv hgood hx htotal hpos hin hlt) ?_
      rintro ⟨ret, b'⟩ k' ⟨hfiles, hsame, hread⟩
      exact does_pure ⟨hfiles, hsame.inr, hread⟩

end Sum

/-- The disks that images with backing images show. The image with `n` images behind it at most has
`hdr n` bytes for itself. -/
def bdevView (z : Inflate) (hdr : ℕ → ℕ) : (n : ℕ) → ImageView (Bdev n)
  | 0 => rawView
  | n + 1 => rawView.sum (qcowView z (hdr n) (bdevView z hdr n))

/-- **Chains of any length** are read as the disks that they show. -/
theorem bdev_readsAs (z : Inflate) (hdr : ℕ → ℕ) (m : Calls) (n : ℕ) :
    ReadsAs m (bdevOps z n) (bdevView z hdr n) := by
  induction n with
  | zero => exact raw_readsAs
  | succ n ih => exact raw_readsAs.sum (qcow_readsAs ih)

/-! ### The handler -/

section Handler

variable {β : Type} {z : Inflate} {hdr : ℕ} {m : Calls} {back : BdevOps β} {v : ImageView β}
  {b : QcowImage β} {k : Kernel} {iov : List Iovec} {x length fuel : ℕ}

theorem does_qcowReadLoop (hv : ReadsAs m back v) (hgood : (qcowView z hdr v).good b k)
    (hx : 512 ∣ x) (htotal : 512 ∣ iovTotal iov) (hin : x + iovTotal iov ≤ b.state.size)
    (hlt : iovTotal iov < 2 ^ 63) (hfuel : iovTotal iov ≤ fuel) :
    Does m (qcowIoLoop (qcowPreadv z back) .rdErr fuel b iov (iovTotal iov) x)
      (fun r k' => k'.files = k.files ∧ (qcowView z hdr v).Same b k r.2 k' ∧
        ((r.1 = .ok ∧ FilledUpTo k.mem k'.mem (addresses iov)
            (diskBytes ((qcowView z hdr v).byte b k) x (iovTotal iov))) ∨
          (r.1 = .rdErr ∧ m.reads = false ∧ FilledUpTo k.mem k'.mem (addresses iov) []))) k := by
  have hsame : (qcowView z hdr v).Same b k b k := .refl hgood
  have hdone : iovTotal iov = 0 → FilledUpTo k.mem k.mem (addresses iov)
      (diskBytes ((qcowView z hdr v).byte b k) x (iovTotal iov)) := by
    intro hzero
    rw [hzero]
    exact FilledUpTo.refl _ _
  induction fuel generalizing b k iov x with
  | zero =>
    have hzero := Nat.le_zero.mp hfuel
    rw [qcowIoLoop, if_pos hzero]
    exact does_pure ⟨rfl, hsame, Or.inl ⟨rfl, hdone hzero⟩⟩
  | succ fuel ih =>
    rw [qcowIoLoop]
    split
    · rename_i hzero
      exact does_pure ⟨rfl, hsame, Or.inl ⟨rfl, hdone hzero⟩⟩
    rename_i hne
    refine Does.seq (does_qcowPreadv hv hgood hx htotal hin hlt) ?_
    rintro ⟨ret, b'⟩ k' ⟨hfiles, hsame', d, hdvd, hd, hfull, hr, hfill⟩
    dsimp only at hr hsame' ⊢
    split
    · rename_i hneg
      have hzero : d = 0 := by
        rcases ioResult_eq d with h | h <;> omega
      refine does_pure ⟨hfiles, hsame', Or.inr ⟨rfl, ?_, hfill.start⟩⟩
      cases hreads : m.reads with
      | false => rfl
      | true => exact absurd (hzero.symm.trans (hfull hreads)).symm hne
    · rename_i hpos
      have hret : ret = d := by
        rcases ioResult_eq d with h | h <;> omega
      have hd0 : d ≠ 0 := by
        rintro rfl
        rw [hr] at hpos
        exact hpos (by decide)
      rw [hret, Int.toNat_natCast]
      have hrest : iovTotal (tcmuSeekInIovec iov d).1 = iovTotal iov - d :=
        iovTotal_tcmuSeekInIovec ..
      have hgood' := hsame'.good
      have hsize' : b'.state.size = b.state.size := hsame'.size
      have hmod : (iovTotal iov + 2 ^ 64 - d) % 2 ^ 64 = iovTotal (tcmuSeekInIovec iov d).1 := by
        omega
      rw [hmod]
      have hfill' : FilledUpTo k'.mem k'.mem (addresses (tcmuSeekInIovec iov d).1) [] :=
        FilledUpTo.refl _ _
      refine (ih hgood' (Nat.dvd_add hx hdvd) (hrest ▸ Nat.dvd_sub htotal hdvd) (by omega)
        (by omega) (by omega) (.refl hgood') fun hzero => ?_).mono fun r k'' h => ?_
      · rw [hzero]
        exact hfill'
      · obtain ⟨hfiles', hsame'', hr'⟩ := h
        refine ⟨hfiles'.trans hfiles, hsame'.trans hsame'', ?_⟩
        rw [addresses_tcmuSeekInIovec] at hr'
        rcases hr' with ⟨hok, hrest'⟩ | ⟨herr, hreads, hrest'⟩
        · refine Or.inl ⟨hok, ?_⟩
          rw [hsame'.byte, hrest] at hrest'
          have hsum : iovTotal iov = d + (iovTotal iov - d) := by omega
          rw [hsum, diskBytes_add]
          exact hfill.trans (by rw [length_diskBytes]; exact hrest')
        · refine Or.inr ⟨herr, hreads, ?_⟩
          have hboth : FilledUpTo k.mem k''.mem (addresses iov)
              (diskBytes ((qcowView z hdr v).byte b k) x d ++ []) :=
            hfill.trans (by rw [length_diskBytes]; exact hrest')
          exact hboth.start

/-- **A read gives the bytes of the disk**, whatever the file system does, when it says that it has
succeeded. It only fails when the file system does not read what it should, and does not change the
memory elsewhere then. -/
theorem does_qcowRead (hv : ReadsAs m back v) (hgood : (qcowView z hdr v).good b k)
    (hx : 512 ∣ x) (htotal : 512 ∣ iovTotal iov) (hin : x + iovTotal iov ≤ b.state.size)
    (hlt : iovTotal iov < 2 ^ 63) :
    Does m (qcowRead (qcowOps z back) b iov (iovTotal iov) x)
      (fun r k' => k'.files = k.files ∧ (qcowView z hdr v).Same b k r.2 k' ∧
        ((r.1 = .ok ∧ k'.mem = scatter k.mem iov
            (diskBytes ((qcowView z hdr v).byte b k) x (iovTotal iov))) ∨
          (r.1 = .rdErr ∧ m.reads = false ∧ ∀ a ∉ addresses iov, k'.mem a = k.mem a))) k := by
  refine (does_qcowReadLoop hv hgood hx htotal hin hlt (Nat.le_refl _)).mono fun r k' h => ?_
  obtain ⟨hfiles, hsame, ⟨hok, hfill⟩ | ⟨herr, hreads, hfill⟩⟩ := h
  · refine ⟨hfiles, hsame, Or.inl ⟨hok, ?_⟩⟩
    rw [scatter_eq_fill]
    exact hfill.eq (by rw [length_diskBytes, length_addresses])
  · refine ⟨hfiles, hsame, Or.inr ⟨herr, hreads, fun a ha => ?_⟩⟩
    rw [hfill a ha, fill_nil_right]

/-- **Images with any chain of backing images are read** as the disks that they show. -/
theorem bdev_read (n : ℕ) (hdr : ℕ → ℕ) {b : QcowImage (Bdev n)}
    (hgood : (qcowView z (hdr n) (bdevView z hdr n)).good b k) (hx : 512 ∣ x)
    (htotal : 512 ∣ iovTotal iov) (hin : x + iovTotal iov ≤ b.state.size)
    (hlt : iovTotal iov < 2 ^ 63) :
    Does m (qcowRead (qcowOps z (bdevOps z n)) b iov (iovTotal iov) x)
      (fun r k' => k'.files = k.files ∧
        ((r.1 = .ok ∧ k'.mem = scatter k.mem iov
            (diskBytes ((qcowView z (hdr n) (bdevView z hdr n)).byte b k) x (iovTotal iov))) ∨
          (r.1 = .rdErr ∧ m.reads = false ∧ ∀ a ∉ addresses iov, k'.mem a = k.mem a))) k := by
  refine (does_qcowRead (bdev_readsAs z hdr m n) hgood hx htotal hin hlt).mono fun r k' h => ?_
  exact ⟨h.1, h.2.2⟩

/-- The smallest image, over a file as long as its disk. -/
def smallImage : QcowImage (Bdev 0) := ⟨smallState, some (show Bdev 0 from (4 : ℕ))⟩

/-- The files of the image. -/
def smallFiles : Kernel :=
  ⟨fun fd => if fd = 3 then smallFile else List.replicate 32768 7, fun _ => 0⟩

theorem smallFiles_smallState : smallFiles.files smallState.fd = smallFile := by
  rw [smallState_fd]
  change (if (3 : ℕ) = 3 then smallFile else List.replicate 32768 7) = smallFile
  exact if_pos rfl

theorem good_smallImage (z : Inflate) :
    (qcowView z 104 (bdevView z (fun _ => 104) 0)).good smallImage smallFiles := by
  have hs : Sound z 104 smallState (smallFiles.files smallState.fd) :=
    smallFiles_smallState ▸ sound_small z
  refine ⟨hs, fun image himage => ?_⟩
  obtain rfl := Option.some.inj himage
  refine ⟨trivial, ?_, ?_⟩
  · change ¬smallState.fd = 4
    rw [smallState_fd]
    decide
  · change smallState.size ≤ (List.replicate 32768 (7 : UInt8)).length
    rw [smallState_size, List.length_replicate]

/-- Two sectors of memory. -/
def smallIov : List Iovec := [⟨100, 512⟩, ⟨900, 512⟩]

theorem iovTotal_smallIov : iovTotal smallIov = 1024 := rfl

attribute [irreducible] smallIov

theorem bdev_read_small : Does ⟨true, true⟩
    (qcowRead (qcowOps (fun _ _ => (false, [])) (bdevOps (fun _ _ => (false, [])) 0)) smallImage
      smallIov (iovTotal smallIov) 512)
    (fun r k' => r.1 = .ok ∧ k'.mem = scatter smallFiles.mem smallIov
      (diskBytes ((qcowView (fun _ _ => (false, [])) 104 (bdevView (fun _ _ => (false, []))
        (fun _ => 104) 0)).byte smallImage smallFiles) 512 (iovTotal smallIov))) smallFiles := by
  have htotal : 512 ∣ iovTotal smallIov := by
    rw [iovTotal_smallIov]
    decide
  have hin : 512 + iovTotal smallIov ≤ smallImage.state.size := by
    change _ ≤ smallState.size
    rw [iovTotal_smallIov, smallState_size]
    decide
  have hlt : iovTotal smallIov < 2 ^ 63 := by
    rw [iovTotal_smallIov]
    decide
  refine Does.mono (bdev_read 0 (fun _ => 104) (good_smallImage _) (Nat.dvd_refl 512) htotal hin
    hlt) ?_
  rintro r k' ⟨-, h | ⟨-, hno, -⟩⟩
  · exact h
  · cases hno

end Handler

end Tcmu

end LioProject
