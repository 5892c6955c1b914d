import LioProject.Lib.BitField
import LioProject.Lib.Bytes
import LioProject.Lib.Cache
import LioProject.Lib.Disk
import LioProject.Lib.Prog
import LioProject.Tcmu.Scatter

/-!
# QCOW images

`qcow.c`: disk images in the formats QCOW and QCOW2. The bytes of the disk are in clusters, which
may be anywhere in the file. A table in memory, the L1 table, points to L2 tables in the file, and
these point to the clusters. What is not in the image is in its backing image, or zero.

The functions are programs over the system calls that they make. An environment may let any call
fail or transfer less than it should. The results of `fdatasync` are not looked at, and it is left
out, as are the messages.

A cluster is allocated at the end of the file (QCOW), or where the reference counts of the clusters
say that there is room (QCOW2). Reference counts are looked up through two levels of tables as well.
L2 tables and blocks of reference counts are read through caches of `L2_CACHE_SIZE` lines each.

zlib is a parameter: `Inflate` says what `inflate` puts out for some input.
-/

namespace LioProject

namespace Tcmu

/-! ### System calls -/

/-- What the functions ask for. A file is known by its descriptor. -/
inductive FileOp where
  | pread (fd n offset : ℕ)
  | pwrite (fd : ℕ) (bytes : List UInt8) (offset : ℕ)
  | preadv (fd : ℕ) (iov : List Iovec) (offset : ℕ)
  | pwritev (fd : ℕ) (iov : List Iovec) (offset : ℕ)
  /-- `lseek(fd, 0, SEEK_END)`. -/
  | seekEnd (fd : ℕ)
  | ftruncate (fd length : ℕ)
  /-- `fallocate` with `FALLOC_FL_ZERO_RANGE`. -/
  | zeroRange (fd offset length : ℕ)
  | malloc
  /-- `memset` of the first bytes of a scatter list to 0. -/
  | memset (iov : List Iovec) (n : ℕ)
  /-- `memcpy` into a scatter list. -/
  | memcpy (iov : List Iovec) (bytes : List UInt8)

/-- The answers. A call that fails answers `none`, `false` or a negative number. -/
abbrev FileAns : FileOp → Type
  | .pread .. => Option (List UInt8)
  | .pwrite .. | .preadv .. | .pwritev .. => ℤ
  | .seekEnd _ => Option ℕ
  | .ftruncate .. | .zeroRange .. | .malloc => Bool
  | .memset .. | .memcpy .. => Unit

/-- How a function goes wrong altogether. -/
inductive QcowFault where
  /-- An index outside of the L1 table or of a scatter list. -/
  | bounds
  /-- An index outside of the table of reference counts. -/
  | refcounts
  /-- The count of a line of a cache has reached `INT_MAX`. The loop that should halve the counts
  looks at the wrong variable, and leaves the array. -/
  | counter
  /-- An `assert` fails. -/
  | assert
  /-- A loop does not end. -/
  | loop
  deriving DecidableEq, Repr

/-- A program of `qcow.c`. -/
abbrev QcowProg := Prog FileOp FileAns QcowFault

/-- The files by their descriptors, and the memory that scatter lists describe. -/
structure Kernel where
  files : ℕ → List UInt8
  mem : Mem

/-- The content of a file is changed. -/
def Kernel.write (k : Kernel) (fd : ℕ) (file : List UInt8) : Kernel :=
  { k with files := Function.update k.files fd file }

/-- `ftruncate`. -/
def resize (file : List UInt8) (n : ℕ) : List UInt8 :=
  file.take n ++ List.replicate (n - file.length) 0

/-- What the calls do. The environment proposes if a call fails and how much it transfers. -/
def kernelInterp : Prog.Interp FileOp FileAns Kernel
  | k, .pread fd n offset, r =>
    some (r.map fun bs => slice (k.files fd) offset (min n bs.length), k)
  | k, .pwrite fd bytes offset, (r : ℤ) =>
    if r < 0 then some (r, k)
    else
      some ((min r.toNat bytes.length : ℕ),
        k.write fd (writeAt 0 (k.files fd) offset (bytes.take r.toNat)))
  | k, .preadv fd iov offset, (r : ℤ) =>
    if r < 0 then some (r, k)
    else
      let bs := slice (k.files fd) offset (min r.toNat (iovTotal iov))
      some (bs.length, { k with mem := scatter k.mem iov bs })
  | k, .pwritev fd iov offset, (r : ℤ) =>
    if r < 0 then some (r, k)
    else
      let bs := (gather iov k.mem).take r.toNat
      some (bs.length, k.write fd (writeAt 0 (k.files fd) offset bs))
  | k, .seekEnd fd, r => some (r.map fun _ => (k.files fd).length, k)
  | k, .ftruncate fd n, (r : Bool) =>
    -- a length is an `off_t`
    if r = true ∧ n < 2 ^ 63 then some (true, k.write fd (resize (k.files fd) n))
    else some (false, k)
  | k, .zeroRange fd offset n, r =>
    let file := writeAt 0 (k.files fd) offset (List.replicate n 0)
    some (r, if r = true then k.write fd file else k)
  | k, .malloc, r => some (r, k)
  | k, .memset iov n, r =>
    some (r, { k with mem := scatter k.mem iov (List.replicate (min n (iovTotal iov)) 0) })
  | k, .memcpy iov bytes, r => some (r, { k with mem := scatter k.mem iov bytes })

namespace Sys

def pread (fd n offset : ℕ) : QcowProg (Option (List UInt8)) := Prog.ask (FileOp.pread fd n offset)

def pwrite (fd : ℕ) (bytes : List UInt8) (offset : ℕ) : QcowProg ℤ :=
  Prog.ask (FileOp.pwrite fd bytes offset)

def preadv (fd : ℕ) (iov : List Iovec) (offset : ℕ) : QcowProg ℤ :=
  Prog.ask (FileOp.preadv fd iov offset)

def pwritev (fd : ℕ) (iov : List Iovec) (offset : ℕ) : QcowProg ℤ :=
  Prog.ask (FileOp.pwritev fd iov offset)

def seekEnd (fd : ℕ) : QcowProg (Option ℕ) := Prog.ask (FileOp.seekEnd fd)

def ftruncate (fd length : ℕ) : QcowProg Bool := Prog.ask (FileOp.ftruncate fd length)

def zeroRange (fd offset length : ℕ) : QcowProg Bool := Prog.ask (FileOp.zeroRange fd offset length)

def malloc : QcowProg Bool := Prog.ask FileOp.malloc

def memset (iov : List Iovec) (n : ℕ) : QcowProg Unit := Prog.ask (FileOp.memset iov n)

def memcpy (iov : List Iovec) (bytes : List UInt8) : QcowProg Unit :=
  Prog.ask (FileOp.memcpy iov bytes)

end Sys

/-! ### The state of an image -/

/-- What `inflate` does with some input and room for so many bytes: it ends with `Z_STREAM_END` or
`Z_BUF_ERROR`, or not, and has put out some bytes. -/
abbrev Inflate := List UInt8 → ℕ → Bool × List UInt8

/-- Which of the two formats. -/
inductive QcowVersion where
  | qcow
  | qcow2
  deriving DecidableEq, Repr

/-- `L2_CACHE_SIZE`, and `RC_CACHE_SIZE`. -/
def l2CacheSize : ℕ := 16

/-- `INT_MAX`. -/
def intMax : ℕ := 2 ^ 31 - 1

/-- The part of `struct qcow_state` that comes from the file: its geometry, the L1 table and the
table of reference counts. The tables are kept as they are in the file. -/
structure QcowTables where
  fd : ℕ
  size : ℕ
  clusterBits : ℕ
  l2Bits : ℕ
  l1Size : ℕ
  l1TableOffset : ℕ
  l1Table : List UInt8
  /-- `block_alloc`, `set_refcount` and the flags depend on it. -/
  version : QcowVersion
  refcountTableOffset : ℕ
  refcountTable : List UInt8
  refcountOrder : ℕ
  deriving DecidableEq, Repr

/-- `struct qcow_state`. `cluster_data` is left out, a buffer that is filled before it is used. -/
structure QcowState extends QcowTables where
  l2Cache : List (CacheLine (List UInt8))
  clusterCache : List UInt8
  clusterCacheOffset : ℕ
  rcCache : List (CacheLine (List UInt8))
  firstFreeCluster : ℕ
  deriving DecidableEq, Repr

namespace QcowTables

/-- `cluster_size`. -/
def clusterSize (s : QcowTables) : ℕ := 2 ^ s.clusterBits

/-- `cluster_sectors`. -/
def clusterSectors (s : QcowTables) : ℕ := 2 ^ (s.clusterBits - 9)

/-- `l2_size`. -/
def l2Size (s : QcowTables) : ℕ := 2 ^ s.l2Bits

/-- `cluster_offset_mask`. -/
def clusterOffsetMask (s : QcowTables) : ℕ := 2 ^ (63 - s.clusterBits) - 1

/-- `cluster_compressed`. -/
def clusterCompressed (s : QcowTables) : ℕ :=
  match s.version with
  | .qcow => 2 ^ 63
  | .qcow2 => 2 ^ 62

/-- `cluster_copied`. -/
def clusterCopied (s : QcowTables) : ℕ :=
  match s.version with
  | .qcow => 0
  | .qcow2 => 2 ^ 63

/-- `cluster_mask`: the complement of `QCOW_OFLAG_COMPRESSED`, and of the flags of QCOW2. The flag
for a compressed cluster of QCOW2 is not among them. -/
def clusterMask (s : QcowTables) : ℕ :=
  match s.version with
  | .qcow => 2 ^ 64 - 1 - 2 ^ 63
  | .qcow2 => 2 ^ 64 - 1 - (2 ^ 63 + 1)

/-- An entry without `cluster_copied`. -/
def uncopied (s : QcowTables) (entry : ℕ) : ℕ := entry &&& (2 ^ 64 - 1 - s.clusterCopied)

/-- The index into the L1 table, an `unsigned int`. -/
def l1Index (s : QcowTables) (offset : ℕ) : ℕ := (offset >>> (s.l2Bits + s.clusterBits)) % 2 ^ 32

/-- The index into an L2 table. -/
def l2Index (s : QcowTables) (offset : ℕ) : ℕ := (offset >>> s.clusterBits) &&& (s.l2Size - 1)

/-- The offset of the L2 table, 0 if there is none. -/
def l2Offset (s : QcowTables) (i : ℕ) : ℕ := beAt s.l1Table (8 * i) 8 &&& s.clusterMask

/-- `refcount_bits` in the functions for reference counts. -/
def refcountBits (s : QcowTables) : ℕ := s.clusterBits + 3 - s.refcountOrder

end QcowTables

/-! ### Caches -/

/-- The lookup of a line, which is filled with the `n` bytes from `offset` on if it is not there.
A read that does not give so many leaves what it gives in the line. -/
def cacheLookup (fd n : ℕ) (ls : List (CacheLine (List UInt8))) (offset : ℕ) :
    QcowProg (Option ℕ × List (CacheLine (List UInt8))) :=
  match CacheLine.hit ls offset with
  | some i =>
    let ls := CacheLine.touch ls i
    if (ls[i]?.map CacheLine.count) = some intMax then .fail .counter else pure (some i, ls)
  | none => do
    let i := CacheLine.leastUsed ls 0 0 intMax
    match ← Sys.pread fd n offset with
    | none => pure (none, ls)
    | some bs =>
      if bs.length = n then pure (some i, ls.set i ⟨offset, 1, bs⟩)
      else pure (none, CacheLine.rewrite ls i fun old => splice old 0 bs)

/-- `l2_cache_lookup`: the line with the L2 table. -/
def l2CacheLookup (s : QcowState) (l2Offset : ℕ) : QcowProg (Option ℕ × QcowState) := do
  let (line, ls) ← cacheLookup s.fd (8 * s.l2Size) s.l2Cache l2Offset
  pure (line, { s with l2Cache := ls })

/-- `rc_cache_lookup`: the line with the block of reference counts. -/
def rcCacheLookup (s : QcowState) (rcOffset : ℕ) : QcowProg (Option ℕ × QcowState) := do
  let (line, ls) ← cacheLookup s.fd s.clusterSize s.rcCache rcOffset
  pure (line, { s with rcCache := ls })

/-- The copy in a line. -/
def lineData (ls : List (CacheLine (List UInt8))) (i : ℕ) : List UInt8 :=
  (ls[i]?.map CacheLine.data).getD []

/-! ### Reference counts -/

/-- `get_refcount`: a count of `2 ^ order` bits. -/
def getRefcount (order : ℕ) (rcblock : List UInt8) (index : ℕ) : Option ℕ :=
  match order with
  | 0 => some (bitField 1 (index % 8) (byteAt rcblock (index / 8)))
  | 1 => some (bitField 2 (2 * (index % 4)) (byteAt rcblock (index / 4)))
  | 2 => some (bitField 4 (4 * (index % 2)) (byteAt rcblock (index / 2)))
  | 3 => some (byteAt rcblock index)
  | 4 => some (beAt rcblock (2 * index) 2)
  | 5 => some (beAt rcblock (4 * index) 4)
  | 6 => some (beAt rcblock (8 * index) 8)
  | _ => none

/-- A byte with `v` in the `w` bits from bit `k` on. -/
def setBits (rcblock : List UInt8) (i w k v : ℕ) : List UInt8 :=
  rcblock.set i (UInt8.ofNat (putBits 8 w k (byteAt rcblock i) v))

/-- `set_refcount`. A value that does not fit is refused by an `assert`. The processor shifts a
value of 64 bits by the lowest six bits of `1 << order`: by nothing for counts of 64 bits. -/
def setRefcount (order : ℕ) (rcblock : List UInt8) (index value : ℕ) : Option (List UInt8) :=
  if value >>> (2 ^ order % 64) ≠ 0 then none
  else
    match order with
    | 0 => some (setBits rcblock (index / 8) 1 (index % 8) value)
    | 1 => some (setBits rcblock (index / 4) 2 (2 * (index % 4)) value)
    | 2 => some (setBits rcblock (index / 2) 4 (4 * (index % 2)) value)
    | 3 => some (rcblock.set index (UInt8.ofNat value))
    | 4 => some (putBe rcblock (2 * index) value 2)
    | 5 => some (putBe rcblock (4 * index) value 4)
    | 6 => some (putBe rcblock (8 * index) value 8)
    | _ => none

/-- The index into the table of reference counts, the offset of the block, and the index into the
block, for a cluster. A shift by a negative number is undefined. -/
def refcountPlace (s : QcowState) (clusterOffset : ℕ) : QcowProg (ℕ × ℕ × ℕ) :=
  let rcIndex := clusterOffset >>> (s.clusterBits + s.refcountBits)
  if s.clusterBits + 3 < s.refcountOrder ∨ s.refcountTable.length < 8 * rcIndex + 8 then
    .fail .refcounts
  else
    pure (rcIndex, beAt s.refcountTable (8 * rcIndex) 8,
      (clusterOffset >>> s.clusterBits) &&& (2 ^ s.refcountBits - 1))

/-- `qcow2_get_refcount`. A block that cannot be read counts as one of zeros. -/
def qcow2GetRefcount (s : QcowState) (clusterOffset : ℕ) : QcowProg (ℕ × QcowState) := do
  let (_, refblockOffset, refblockIndex) ← refcountPlace s clusterOffset
  if refblockOffset = 0 then pure (0, s)
  else
    let (line, s) ← rcCacheLookup s refblockOffset
    match line with
    | none => pure (0, s)
    | some i =>
      match getRefcount s.refcountOrder (lineData s.rcCache i) refblockIndex with
      | none => .fail .assert
      | some rc => pure (rc, s)

/-- The loop of `qcow2_block_alloc` that looks for a free cluster. -/
def findFreeCluster : ℕ → QcowState → ℕ → QcowProg (ℕ × QcowState)
  | 0, _, _ => .fail .loop
  | fuel + 1, s, cluster => do
    let (rc, s) ← qcow2GetRefcount s cluster
    if rc ≠ 0 then findFreeCluster fuel s (cluster + s.clusterSize) else pure (cluster, s)

/-- `qcow_block_alloc`: the file grows. -/
def qcowBlockAlloc (s : QcowState) (size : ℕ) : QcowProg (ℕ × QcowState) := do
  match ← Sys.seekEnd s.fd with
  | none => pure (0, s)
  | some off =>
    let offset := (off + size - 1) / size * size
    if ← Sys.ftruncate s.fd (offset + size) then pure (offset, s) else pure (0, s)

/-- `qcow2_block_alloc`. The loop leaves the table of reference counts before its fuel is used
up. -/
def qcow2BlockAlloc (s : QcowState) (size : ℕ) : QcowProg (ℕ × QcowState) := do
  if size ≠ s.clusterSize then .fail .assert
  else
    let (cluster, s) ←
      findFreeCluster (s.refcountTable.length * 2 ^ s.refcountBits + 1) s s.firstFreeCluster
    if ← Sys.zeroRange s.fd cluster s.clusterSize then
      pure (cluster, { s with firstFreeCluster := cluster + s.clusterSize })
    else pure (0, s)

/-- `block_alloc`. -/
def blockAlloc (s : QcowState) (size : ℕ) : QcowProg (ℕ × QcowState) :=
  match s.version with
  | .qcow => qcowBlockAlloc s size
  | .qcow2 => qcow2BlockAlloc s size

/-- `qcow_cluster_alloc`. -/
def qcowClusterAlloc (s : QcowState) : QcowProg (ℕ × QcowState) := blockAlloc s s.clusterSize

/-- `l2_table_alloc`. -/
def l2TableAlloc (s : QcowState) : QcowProg (ℕ × QcowState) := blockAlloc s (s.l2Size * 8)

/-- Change an entry of a table in memory, and in the file if the write succeeds. -/
def tableUpdate (fd tableOffset : ℕ) (table : List UInt8) (index value : ℕ) :
    QcowProg (List UInt8) := do
  let table := putBe table (8 * index) value 8
  let _ ← Sys.pwrite fd (slice table (8 * index) 8) (tableOffset + index * 8)
  pure table

/-- `l1_table_update`. -/
def l1TableUpdate (s : QcowState) (l1Index l2Offset : ℕ) : QcowProg QcowState := do
  let table ← tableUpdate s.fd s.l1TableOffset s.l1Table l1Index l2Offset
  pure { s with l1Table := table }

/-- `rc_table_update`. -/
def rcTableUpdate (s : QcowState) (rcIndex refblockOffset : ℕ) : QcowProg QcowState := do
  let table ← tableUpdate s.fd s.refcountTableOffset s.refcountTable rcIndex refblockOffset
  pure { s with refcountTable := table }

/-- `l2_table_update`, of the table in a line of the cache. -/
def l2TableUpdate (s : QcowState) (line l2TableOffset l2Index clusterOffset : ℕ) :
    QcowProg QcowState := do
  let table ← tableUpdate s.fd l2TableOffset (lineData s.l2Cache line) l2Index clusterOffset
  pure { s with l2Cache := CacheLine.rewrite s.l2Cache line fun _ => table }

/-- The end of `qcow2_set_refcount`: a reference count is put into its block, in the cache and in
the file. -/
def putRefcount (s : QcowState) (refblockOffset refblockIndex value : ℕ) : QcowProg QcowState := do
  let (line, s) ← rcCacheLookup s refblockOffset
  match line with
  | none => pure s
  | some i =>
    match setRefcount s.refcountOrder (lineData s.rcCache i) refblockIndex value with
    | none => .fail .assert
    | some block =>
      let _ ← Sys.pwrite s.fd block refblockOffset
      pure { s with rcCache := CacheLine.rewrite s.rcCache i fun _ => block }

/-- `qcow2_set_refcount`, whose result nobody looks at. A call of itself has filled an entry of the
table of reference counts before, so that there are not more of them than entries. -/
def qcow2SetRefcountLoop : ℕ → QcowState → ℕ → ℕ → QcowProg QcowState
  | 0, _, _, _ => .fail .loop
  | fuel + 1, s, clusterOffset, value => do
    let (rcIndex, refblockOffset, refblockIndex) ← refcountPlace s clusterOffset
    if refblockOffset = 0 then
      let (refblockOffset, s) ← qcowClusterAlloc s
      if refblockOffset = 0 then pure s
      else
        let s ← rcTableUpdate s rcIndex refblockOffset
        let s ← qcow2SetRefcountLoop fuel s refblockOffset 1
        putRefcount s refblockOffset refblockIndex value
    else putRefcount s refblockOffset refblockIndex value

/-- `set_refcount` of the state: `qcow_no_refcount` or `qcow2_set_refcount`. -/
def stateSetRefcount (s : QcowState) (clusterOffset value : ℕ) : QcowProg QcowState :=
  match s.version with
  | .qcow => pure s
  | .qcow2 => qcow2SetRefcountLoop (s.refcountTable.length + 1) s clusterOffset value

/-! ### Clusters -/

section Clusters

variable (z : Inflate)

/-- `decompress_cluster`, with `decompress_buffer`: the cluster is in `cluster_cache` afterwards. A
cluster that cannot be decompressed leaves what has been put out there, under the old offset. -/
def decompressCluster (s : QcowState) (clusterOffset : ℕ) : QcowProg (Bool × QcowState) :=
  let coffset := clusterOffset &&& s.clusterOffsetMask
  if s.clusterCacheOffset = coffset then pure (true, s)
  else do
    let csize := (clusterOffset >>> (63 - s.clusterBits)) &&& (s.clusterSize - 1)
    match ← Sys.pread s.fd csize coffset with
    | none => pure (false, s)
    | some bs =>
      if bs.length ≠ csize then pure (false, s)
      else
        let out := (z bs s.clusterSize).2.take s.clusterSize
        let s := { s with clusterCache := splice s.clusterCache 0 out }
        if (z bs s.clusterSize).1 = true ∧ out.length = s.clusterSize then
          pure (true, { s with clusterCacheOffset := coffset })
        else pure (false, s)

/-- A new cluster goes into an L2 table, and gets a reference count. -/
def mapCluster (s : QcowState) (line l2Offset l2Index clusterOffset : ℕ) :
    QcowProg (ℕ × QcowState) := do
  let s ← l2TableUpdate s line l2Offset l2Index (clusterOffset ||| s.clusterCopied)
  let s ← stateSetRefcount s clusterOffset 1
  pure (s.uncopied clusterOffset, s)

/-- The part of `get_cluster_offset` that reallocates a compressed cluster. -/
def reallocCompressed (s : QcowState) (line l2Offset l2Index entry : ℕ) :
    QcowProg (ℕ × QcowState) := do
  let (ok, s) ← decompressCluster z s entry
  if ok = false then pure (0, s)
  else
    let (clusterOffset, s) ← qcowClusterAlloc s
    if clusterOffset = 0 then pure (0, s)
    else
      let written ← Sys.pwrite s.fd (s.clusterCache.take s.clusterSize) clusterOffset
      if written ≠ s.clusterSize then pure (0, s)
      else mapCluster s line l2Offset l2Index clusterOffset

/-- The part of `get_cluster_offset` that reallocates a shared cluster. -/
def reallocShared (s : QcowState) (line l2Offset l2Index entry : ℕ) :
    QcowProg (ℕ × QcowState) := do
  let oldOffset := entry &&& s.clusterMask
  if (← Sys.malloc) = false then pure (0, s)
  else
    let (clusterOffset, s) ← qcowClusterAlloc s
    if clusterOffset = 0 then pure (0, s)
    else
      match ← Sys.pread s.fd s.clusterSize oldOffset with
      | none => pure (0, s)
      | some cow =>
        if cow.length ≠ s.clusterSize then pure (0, s)
        else
          let written ← Sys.pwrite s.fd cow clusterOffset
          if written ≠ s.clusterSize then pure (0, s)
          else mapCluster s line l2Offset l2Index clusterOffset

/-- The part of `get_cluster_offset` behind the lookup of the L2 table. -/
def clusterOfTable (s : QcowState) (l2Offset l2Index : ℕ) (allocate : Bool) :
    QcowProg (ℕ × QcowState) := do
  let (line, s) ← l2CacheLookup s l2Offset
  match line with
  | none => pure (0, s)
  | some line =>
    let entry := beAt (lineData s.l2Cache line) (8 * l2Index) 8
    if entry = 0 then
      if allocate = false then pure (0, s)
      else
        let (clusterOffset, s) ← qcowClusterAlloc s
        if clusterOffset = 0 then pure (0, s) else mapCluster s line l2Offset l2Index clusterOffset
    else if entry &&& s.clusterCompressed ≠ 0 ∧ allocate = true then
      reallocCompressed z s line l2Offset l2Index entry
    else if entry &&& s.clusterCopied = 0 ∧ allocate = true then
      reallocShared s line l2Offset l2Index entry
    else pure (s.uncopied entry, s)

/-- `get_cluster_offset`: the offset in the file of the cluster of an offset, or 0. -/
def getClusterOffset (s : QcowState) (offset : ℕ) (allocate : Bool) : QcowProg (ℕ × QcowState) :=
  if s.l1Table.length < 8 * s.l1Index offset + 8 then .fail .bounds
  else
    let l2Offset := s.l2Offset (s.l1Index offset)
    if l2Offset ≠ 0 then clusterOfTable z s l2Offset (s.l2Index offset) allocate
    else if allocate = false then pure (0, s)
    else do
      let (l2Offset, s) ← l2TableAlloc s
      if l2Offset = 0 then pure (0, s)
      else
        let s ← l1TableUpdate s (s.l1Index offset) (l2Offset ||| s.clusterCopied)
        let s ← stateSetRefcount s l2Offset 1
        clusterOfTable z s l2Offset (s.l2Index offset) allocate

end Clusters

/-! ### Segments of scatter lists -/

/-- The second loop of `iovec_segment`: entries for the next `len` bytes. -/
def segmentFront : List Iovec → ℕ → Option (List Iovec)
  | _, 0 => some []
  | [], _ + 1 => none
  | v :: iov, len + 1 =>
    (segmentFront iov (len + 1 - min v.len (len + 1))).map (⟨v.base, min v.len (len + 1)⟩ :: ·)

/-- `iovec_segment`: the entries for `len` bytes from byte `off` on. It does not look at the number
of entries. -/
def iovecSegment : List Iovec → ℕ → ℕ → Option (List Iovec)
  | iov, 0, len => segmentFront iov len
  | [], _ + 1, _ => none
  | v :: iov, off + 1, len =>
    if v.len ≤ off + 1 then iovecSegment iov (off + 1 - v.len) len
    else
      (segmentFront iov (len - min (v.len - (off + 1)) len)).map
        (⟨v.base + (off + 1), min (v.len - (off + 1)) len⟩ :: ·)

/-! ### Reading and writing -/

/-- `struct bdev_ops`, as far as it is used while a device is open: an image of one kind, with its
state. -/
structure BdevOps (β : Type) where
  preadv : β → List Iovec → ℕ → QcowProg (ℤ × β)
  pwritev : β → List Iovec → ℕ → QcowProg (ℤ × β)

/-- `raw_ops`, for the descriptor of a file. -/
def rawOps : BdevOps ℕ where
  preadv fd iov offset := do
    let ret ← Sys.preadv fd iov offset
    pure (ret, fd)
  pwritev fd iov offset := do
    let ret ← Sys.pwritev fd iov offset
    pure (ret, fd)

/-- An open image, with its backing image if it has one. -/
structure QcowImage (β : Type) where
  state : QcowState
  backing : Option β

section Io

variable {β : Type} (z : Inflate) (back : BdevOps β)

/-- What `qcow_preadv` and `qcow_pwritev` return. -/
def ioResult (off : ℕ) : ℤ := if off = 0 then -1 else off

/-- A turn of the loop of `qcow_preadv`: some sectors of one cluster, into the entries `seg`. The
result says if the loop goes on, or which value is returned at once. -/
def readTurn (b : QcowImage β) (seg : List Iovec) (sectorNum n : ℕ) :
    QcowProg ((Bool ⊕ ℤ) × QcowImage β) := do
  let (clusterOffset, s) ← getClusterOffset z b.state (sectorNum <<< 9) false
  let b := { b with state := s }
  let sectorIndex := sectorNum &&& (s.clusterSectors - 1)
  if clusterOffset = 0 then
    match b.backing with
    | none =>
      Sys.memset seg (512 * n)
      pure (.inl true, b)
    | some image =>
      let (read, image) ← back.preadv image seg (sectorNum * 512)
      pure (.inl (decide (read = (n * 512 : ℕ))), { b with backing := some image })
  else if clusterOffset = 1 then
    Sys.memset seg (512 * n)
    pure (.inl true, b)
  else if clusterOffset &&& s.clusterCompressed ≠ 0 then
    let (ok, s) ← decompressCluster z s clusterOffset
    let b := { b with state := s }
    if ok = false then pure (.inr (-1), b)
    else
      Sys.memcpy seg (slice s.clusterCache (sectorIndex * 512) (512 * n))
      pure (.inl true, b)
  else
    let read ← Sys.preadv s.fd seg (clusterOffset + sectorIndex * 512)
    pure (.inl (decide (read = (n * 512 : ℕ))), b)

/-- The loop of `qcow_preadv`. A turn deals with one sector at least. -/
def readLoop (iov : List Iovec) :
    ℕ → QcowImage β → ℕ → ℕ → ℕ → QcowProg (ℤ × QcowImage β)
  | 0, b, _, _, off => pure (ioResult off, b)
  | fuel + 1, b, sectorNum, sectorCount, off =>
    if sectorCount = 0 then pure (ioResult off, b)
    else
      let sectorIndex := sectorNum &&& (b.state.clusterSectors - 1)
      let n := min sectorCount (b.state.clusterSectors - sectorIndex)
      match iovecSegment iov off (n * 512) with
      | none => .fail .bounds
      | some seg => do
        match ← readTurn z back b seg sectorNum n with
        | (.inr ret, b) => pure (ret, b)
        | (.inl false, b) => pure (ioResult off, b)
        | (.inl true, b) => readLoop iov fuel b (sectorNum + n) (sectorCount - n) (off + n * 512)

/-- `qcow_preadv`. -/
def qcowPreadv (b : QcowImage β) (iov : List Iovec) (offset : ℕ) : QcowProg (ℤ × QcowImage β) :=
  let count := tcmuIovecLength iov
  if count &&& 511 ≠ 0 then .fail .assert
  else readLoop z back iov (count / 512) b (offset >>> 9) (count / 512) 0

/-- The loop of `qcow_pwritev`. How much `pwritev` has written is not looked at. -/
def writeLoop (iov : List Iovec) :
    ℕ → QcowState → ℕ → ℕ → ℕ → QcowProg (ℤ × QcowState)
  | 0, s, _, _, off => pure (ioResult off, s)
  | fuel + 1, s, sectorNum, sectorCount, off =>
    if sectorCount = 0 then pure (ioResult off, s)
    else
      let sectorIndex := sectorNum &&& (s.clusterSectors - 1)
      let n := min sectorCount (s.clusterSectors - sectorIndex)
      match iovecSegment iov off (n * 512) with
      | none => .fail .bounds
      | some seg => do
        let (clusterOffset, s) ← getClusterOffset z s (sectorNum <<< 9) true
        if clusterOffset = 0 then pure (-1, s)
        else if clusterOffset &&& 2 ^ 63 ≠ 0 then pure (-1, s)
        else
          let written ← Sys.pwritev s.fd seg (clusterOffset + sectorIndex * 512)
          if written < 0 then pure (ioResult off, s)
          else writeLoop iov fuel s (sectorNum + n) (sectorCount - n) (off + n * 512)

/-- `qcow_pwritev`. -/
def qcowPwritev (b : QcowImage β) (iov : List Iovec) (offset : ℕ) : QcowProg (ℤ × QcowImage β) :=
  let count := tcmuIovecLength iov
  let sectorNum := offset >>> 9
  if count &&& 511 ≠ 0 then .fail .assert
  else if b.state.size / 512 ≤ sectorNum then pure (0, b)
  else do
    let sectorCount := min (count / 512) (b.state.size / 512 - sectorNum)
    let (ret, s) ← writeLoop z iov sectorCount b.state sectorNum sectorCount 0
    pure (ret, { b with state := s })

/-- `qcow_ops` and `qcow2_ops`. -/
def qcowOps : BdevOps (QcowImage β) where
  preadv := qcowPreadv z back
  pwritev := qcowPwritev z

end Io

/-- The functions of an image of one of two kinds. -/
def BdevOps.sum {β γ : Type} (ops : BdevOps β) (ops' : BdevOps γ) : BdevOps (β ⊕ γ) where
  preadv
    | .inl b, iov, offset => do
      let (ret, b) ← ops.preadv b iov offset
      pure (ret, .inl b)
    | .inr b, iov, offset => do
      let (ret, b) ← ops'.preadv b iov offset
      pure (ret, .inr b)
  pwritev
    | .inl b, iov, offset => do
      let (ret, b) ← ops.pwritev b iov offset
      pure (ret, .inl b)
    | .inr b, iov, offset => do
      let (ret, b) ← ops'.pwritev b iov offset
      pure (ret, .inr b)

/-- `struct bdev`, with `n` images behind it at most: a file, or an image in one of the formats. -/
def Bdev : ℕ → Type
  | 0 => ℕ
  | n + 1 => ℕ ⊕ QcowImage (Bdev n)

/-- `ops` of an image. -/
def bdevOps (z : Inflate) : (n : ℕ) → BdevOps (Bdev n)
  | 0 => rawOps
  | n + 1 => rawOps.sum (qcowOps z (bdevOps z n))

/-! ### The handler -/

/-- The loop of `qcow_read` and of `qcow_write`: `io` is the function of the image, and `err` the
status when it fails. -/
def qcowIoLoop {γ : Type} (io : γ → List Iovec → ℕ → QcowProg (ℤ × γ)) (err : TcmuSts) :
    ℕ → γ → List Iovec → ℕ → ℕ → QcowProg (TcmuSts × γ)
  | 0, b, _, remaining, _ => if remaining = 0 then pure (.ok, b) else .fail .loop
  | fuel + 1, b, iov, remaining, offset =>
    if remaining = 0 then pure (.ok, b)
    else do
      let (ret, b) ← io b iov offset
      if ret < 0 then pure (err, b)
      else
        qcowIoLoop io err fuel b (tcmuSeekInIovec iov ret.toNat).1
          ((remaining + 2 ^ 64 - ret.toNat) % 2 ^ 64) (offset + ret.toNat)

/-- `qcow_read`: what `cmd->done` gets. -/
def qcowRead {γ : Type} (ops : BdevOps γ) (b : γ) (iov : List Iovec) (length offset : ℕ) :
    QcowProg (TcmuSts × γ) :=
  qcowIoLoop ops.preadv .rdErr length b iov length offset

/-- `qcow_write`. -/
def qcowWrite {γ : Type} (ops : BdevOps γ) (b : γ) (iov : List Iovec) (length offset : ℕ) :
    QcowProg (TcmuSts × γ) :=
  qcowIoLoop ops.pwritev .wrErr length b iov length offset

end Tcmu

end LioProject
