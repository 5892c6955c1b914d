import LioProject.Lib.Disk
import LioProject.Tcmu.Device
import LioProject.Tcmu.Ring

/-!
# The alloc store

`alloc_example.c` keeps a device in one block of memory. Its read and its write callout each make
one `memcpy` between that block and the first entry of the scatter list they are given; `Copy` is
the description of that `memcpy`, with the length as the `int` into which the handler squeezes it.

## What goes wrong

The rest of a scatter list is ignored, so a transfer is complete only if the first entry is all of
it. `alloc_write` copies to the beginning of the block whatever the offset. And a command without
any entry has no first one: the handler then reads the length out of the memory behind the array.
`copy_inBounds_iff` is the exact condition under which the copy is what it should be, and
`alloc_refines_disk` says which histories a flat disk would have produced too.
-/

namespace LioProject

namespace Tcmu

/-! ### One callout -/

/-- Conversion of a `size_t` to `int`: the low 32 bits, in two's complement. -/
def toCInt (n : ℕ) : ℤ :=
  if n % 2 ^ 32 < 2 ^ 31 then (n % 2 ^ 32 : ℕ) else (n % 2 ^ 32 : ℕ) - 2 ^ 32

theorem toCInt_eq_iff {n : ℕ} : toCInt n = n ↔ n < 2 ^ 31 := by
  rw [toCInt]
  split <;> omega

/-- The direction of a transfer, as the initiator sees it. -/
inductive Dir where
  | read
  | write
  deriving DecidableEq, Repr

/-- A `memcpy` between the block of memory and an entry of the scatter list. -/
structure Copy where
  /-- Which entry. -/
  index : ℕ
  /-- How many bytes, as an `int`. -/
  amount : ℤ
  /-- From which byte of `state->buf` on. -/
  start : ℕ
  deriving DecidableEq, Repr

/-- The entry at index `i` of an array with something else behind it. -/
def entryAt (iov : List Iovec) (behind : Iovec) (i : ℕ) : Iovec := iov.getD i behind

/-- The `memcpy` in `alloc_read` (from `state->buf+offset`) and in `alloc_write` (to
`state->buf`). -/
def allocCopy (dir : Dir) (iov : List Iovec) (behind : Iovec) (offset : ℕ) : Copy where
  index := 0
  amount := toCInt (entryAt iov behind 0).len
  start := match dir with
    | .read => offset
    | .write => 0

/-- The copy touches only memory that it may touch. -/
structure Copy.Valid (c : Copy) (iov : List Iovec) (behind : Iovec) (size : ℕ) : Prop where
  /-- The entry exists. -/
  index_lt : c.index < iov.length
  /-- The length is one. -/
  amount_nonneg : 0 ≤ c.amount
  /-- The copy ends inside the entry. -/
  amount_le : c.amount ≤ (entryAt iov behind c.index).len
  /-- The copy ends inside the block of memory. -/
  range_le : c.start + c.amount ≤ size

/-- The copy is valid, and it is a copy of the whole entry. -/
structure Copy.InBounds (c : Copy) (iov : List Iovec) (behind : Iovec) (size : ℕ) : Prop
    extends c.Valid iov behind size where
  /-- The length of the entry is the length of the copy. -/
  amount_eq : c.amount = (entryAt iov behind c.index).len

instance (c : Copy) (iov : List Iovec) (behind : Iovec) (size : ℕ) :
    Decidable (c.Valid iov behind size) :=
  decidable_of_iff (c.index < iov.length ∧ 0 ≤ c.amount ∧
      c.amount ≤ (entryAt iov behind c.index).len ∧ c.start + c.amount ≤ size)
    ⟨fun h => ⟨h.1, h.2.1, h.2.2.1, h.2.2.2⟩, fun h => ⟨h.1, h.2, h.3, h.4⟩⟩

/-- `alloc_read` and `alloc_write`: the block of memory and the process memory afterwards, or
nothing where the behaviour is undefined: no CDB to print, or an invalid copy. -/
def allocIo (dir : Dir) (buf : List UInt8) (mem : Mem) (cmd : TcmulibCmd) (behind : Iovec)
    (offset : ℕ) : Option (List UInt8 × Mem) :=
  let c := allocCopy dir cmd.iov behind offset
  let v := entryAt cmd.iov behind c.index
  match cmd.cdb with
  | none => none
  | some _ =>
    if c.Valid cmd.iov behind buf.length then
      match dir with
      | .read => some (buf, mem.store v.base (slice buf c.start c.amount.toNat))
      | .write => some (splice buf c.start (mem.load v.base c.amount.toNat), mem)
    else none

/-- The offset that `read_work_fn` and `write_work_fn` compute, in 64 bits. -/
def workOffset (d : Device) (cdb : Cdb) : ℕ := d.blockSize * lbaOf cdb % 2 ^ 64

/-! ### Bounds -/

theorem entryAt_zero_le {iov : List Iovec} (behind : Iovec) (h : 0 < iov.length) :
    (entryAt iov behind 0).len ≤ iovTotal iov := by
  cases iov with
  | nil => exact absurd h (by simp)
  | cons v iov => simp [entryAt, iovTotal]

/-- An accepted offset is computed without wrap-around. -/
theorem workOffset_eq {d : Device} {size : ℕ} {cmd : TcmulibCmd} {cdb : Cdb} (hd : d.Added size)
    (h : checkLbaAndLength d cmd cdb (xferLengthOf cdb) = .ok) :
    workOffset d cdb = lbaOf cdb * d.blockSize := by
  have hle := transfer_le_size hd h
  have hsize := hd.size_lt
  have hmul : lbaOf cdb * d.blockSize ≤ (lbaOf cdb + xferLengthOf cdb) * d.blockSize :=
    Nat.mul_le_mul_right _ (Nat.le_add_right ..)
  rw [workOffset, Nat.mul_comm, Nat.mod_eq_of_lt (by omega)]

/-- Without wrap-around of the 64-bit sum, an accepted scatter list is not longer than the
transfer. -/
theorem iovTotal_le {d : Device} {cmd : TcmulibCmd} {cdb : Cdb}
    (h : checkLbaAndLength d cmd cdb (xferLengthOf cdb) = .ok) (hlt : iovTotal cmd.iov < 2 ^ 64) :
    iovTotal cmd.iov ≤ xferLengthOf cdb * d.blockSize := by
  have hlen := checkIovecLength_ok.mp (checkLbaAndLength_ok h).1
  rw [Nat.mod_eq_of_lt hlt] at hlen
  rw [hlen]
  exact Nat.mod_le ..

/-- Where the copy of an accepted command starts, the rest of the transfer still fits. -/
theorem allocCopy_start_le {d : Device} {size : ℕ} {cmd : TcmulibCmd} {cdb : Cdb}
    (hd : d.Added size) (h : checkLbaAndLength d cmd cdb (xferLengthOf cdb) = .ok) (dir : Dir)
    (behind : Iovec) :
    (allocCopy dir cmd.iov behind (workOffset d cdb)).start + xferLengthOf cdb * d.blockSize
      ≤ size := by
  have hle := transfer_le_size hd h
  rw [Nat.add_mul] at hle
  cases dir with
  | read =>
    change workOffset d cdb + _ ≤ _
    rw [workOffset_eq hd h]
    exact hle
  | write =>
    change 0 + _ ≤ _
    omega

/-- The commands that `tcmulib_get_next_command` returns count their scatter list right. -/
theorem iovCnt_of_fetch {malloc : Option Sense} {fuel : ℕ} {r r' : Ring} {cmd : TcmulibCmd}
    (h : getNextCommandLoop malloc fuel r = some (r', some cmd)) :
    cmd.iovCnt = cmd.iovec.length := by
  induction fuel generalizing r with
  | zero => exact absurd h (by simp [getNextCommandLoop])
  | succ fuel ih =>
    rw [getNextCommandLoop] at h
    split at h
    · exact absurd h (by simp)
    · simp only at h
      split at h
      · exact ih h
      · split at h
        · exact absurd h (by simp)
        · split at h
          · exact ih h
          · split at h
            · exact absurd h (by simp)
            · obtain ⟨-, rfl⟩ := Prod.mk.inj (Option.some.inj h) |>.imp id Option.some.inj
              simp [buildCmd]
      · exact ih h

/-- **The copy of an accepted command is in bounds exactly** when there is a first entry, its length
is an `int`, and, should the sum of the lengths have wrapped around in 64 bits, the first entry
nevertheless fits. -/
theorem copy_inBounds_iff {d : Device} {size : ℕ} {malloc : Option Sense} {r r' : Ring}
    {cmd : TcmulibCmd} {cdb : Cdb} (hd : d.Added size)
    (hfetch : tcmulibGetNextCommand malloc r = some (r', some cmd)) (_ : cmd.cdb = some cdb)
    (h : checkLbaAndLength d cmd cdb (xferLengthOf cdb) = .ok) (dir : Dir) (behind : Iovec) :
    (allocCopy dir cmd.iov behind (workOffset d cdb)).InBounds cmd.iov behind size ↔
      0 < cmd.iovCnt ∧ (entryAt cmd.iov behind 0).len < 2 ^ 31 ∧
        (iovTotal cmd.iov < 2 ^ 64 ∨
          (allocCopy dir cmd.iov behind (workOffset d cdb)).start + (entryAt cmd.iov behind 0).len
            ≤ size) := by
  have hstart := allocCopy_start_le hd h dir behind
  have hcnt : cmd.iov.length = cmd.iovCnt := by
    rw [TcmulibCmd.iov, List.length_take, iovCnt_of_fetch hfetch, Nat.min_self]
  generalize hc : allocCopy dir cmd.iov behind (workOffset d cdb) = c at hstart ⊢
  have hindex : c.index = 0 := by rw [← hc]; rfl
  have hamount : c.amount = toCInt (entryAt cmd.iov behind 0).len := by rw [← hc]; rfl
  constructor
  · rintro ⟨⟨hlt, -, -, hrange⟩, heq⟩
    rw [hindex] at hlt heq
    rw [heq] at hrange
    rw [hamount] at heq
    exact ⟨hcnt ▸ hlt, toCInt_eq_iff.mp heq, Or.inr (by exact_mod_cast hrange)⟩
  · rintro ⟨hpos, hint, hfit⟩
    have hwhole : c.amount = (entryAt cmd.iov behind c.index).len := by
      rw [hamount, hindex, toCInt_eq_iff.mpr hint]
    have hrange : c.start + (entryAt cmd.iov behind 0).len ≤ size := by
      rcases hfit with hlt | hfit
      · have hle := iovTotal_le h hlt
        have hfirst := entryAt_zero_le behind (hcnt ▸ hpos)
        omega
      · exact hfit
    refine ⟨⟨?_, ?_, le_of_eq hwhole, ?_⟩, hwhole⟩
    · rw [hindex, hcnt]
      exact hpos
    · rw [hwhole]
      exact Int.natCast_nonneg _
    · rw [hwhole, hindex]
      exact_mod_cast hrange

/-- A device of two blocks. -/
def twoBlocks : Device := ⟨512, 2, 128, 128, 0⟩

theorem added_twoBlocks : twoBlocks.Added 1024 := by
  constructor <;> decide

/-- A ring that contains one command, a READ(10) of `n` blocks from block 0 with the given scatter
list. -/
def readRing (n : UInt8) (iov : List Iovec) : Ring :=
  ⟨1024, 128, 0, 0, 0, fun _ => ⟨129, 1, 0, .req iov [0x28, 0, 0, 0, 0, 0, 0, 0, n, 0]⟩⟩

/-- The command in that ring. -/
def readCmd (n : UInt8) (iov : List Iovec) : TcmulibCmd :=
  buildCmd 0 1 iov [0x28, 0, 0, 0, 0, 0, 0, 0, n, 0] 10 []

/-- A read of no blocks comes without a scatter list, is accepted, and has the handler look at an
entry that does not exist. -/
theorem empty_read_not_inBounds :
    (tcmulibGetNextCommand (some []) (readRing 0 [])).map Prod.snd = some (some (readCmd 0 [])) ∧
      checkLbaAndLength twoBlocks (readCmd 0 []) [0x28, 0, 0, 0, 0, 0, 0, 0, 0, 0] 0 = .ok ∧
      ∀ behind, ¬ (allocCopy .read (readCmd 0 []).iov behind 0).InBounds (readCmd 0 []).iov behind
        1024 := by
  refine ⟨by decide, by decide, ?_⟩
  intro behind h
  exact absurd h.index_lt (Nat.lt_irrefl 0)

/-- A read of one block into one entry is in bounds. -/
theorem one_block_inBounds :
    (allocCopy .read (readCmd 1 [⟨4096, 512⟩]).iov ⟨0, 0⟩
        (workOffset twoBlocks [0x28, 0, 0, 0, 0, 0, 0, 0, 1, 0])).InBounds
      (readCmd 1 [⟨4096, 512⟩]).iov ⟨0, 0⟩ 1024 := by
  have hsnd : (tcmulibGetNextCommand (some []) (readRing 1 [⟨4096, 512⟩])).map Prod.snd
      = some (some (readCmd 1 [⟨4096, 512⟩])) := by decide
  obtain ⟨⟨r', _⟩, hfetch, rfl⟩ := Option.map_eq_some_iff.mp hsnd
  exact (copy_inBounds_iff added_twoBlocks hfetch rfl (by decide) .read ⟨0, 0⟩).mpr
    ⟨by decide, by decide, Or.inl (by decide)⟩

/-! ### Histories -/

/-- A READ or WRITE command, and the process memory it finds. -/
structure Io where
  /-- READ or WRITE. -/
  dir : Dir
  /-- The command. -/
  cmd : TcmulibCmd
  /-- Its CDB. -/
  cdb : Cdb
  /-- The process memory, with the data of a WRITE in it. -/
  mem : Mem
  /-- What lies behind the scatter list. -/
  behind : Iovec
  /-- The CDB is the command's. -/
  hasCdb : cmd.cdb = some cdb

/-- The first byte of the range that the CDB asks for. -/
def Io.first (io : Io) (d : Device) : ℕ := lbaOf io.cdb * d.blockSize

/-- The number of bytes in that range. -/
def Io.length (io : Io) (d : Device) : ℕ := xferLengthOf io.cdb * d.blockSize

/-- The command passes the checks of `handle_read` and `handle_write`. -/
def Io.Accepted (io : Io) (d : Device) : Prop :=
  checkLbaAndLength d io.cmd io.cdb (xferLengthOf io.cdb) = .ok

/-- The commands that the handler gets right: the first entry of the scatter list is all of it and
its length is an `int`, the number of bytes fits into 32 bits, and a WRITE that writes anything
writes at the beginning of the device. -/
structure Io.Direct (io : Io) (d : Device) : Prop where
  /-- There is a first entry. -/
  nonempty : 0 < io.cmd.iov.length
  /-- The other ones are empty. -/
  rest : ∀ v ∈ io.cmd.iov.tail, v.len = 0
  /-- The length of the first one is an `int`. -/
  int : (entryAt io.cmd.iov io.behind 0).len < 2 ^ 31
  /-- The byte count of the transfer does not wrap around in 32 bits. -/
  noWrap : io.length d < 2 ^ 32
  /-- A WRITE has block address 0, or no blocks. -/
  atStart : io.dir = .write → lbaOf io.cdb = 0 ∨ xferLengthOf io.cdb = 0

/-- The alloc device executes a command. -/
def ioStep (d : Device) (buf : List UInt8) (io : Io) : Option (List UInt8 × Mem) :=
  allocIo io.dir buf io.mem io.cmd io.behind (workOffset d io.cdb)

/-- The patches that a flat disk would have received. -/
def patches (d : Device) (ios : List Io) : List (Patch UInt8) :=
  ios.filterMap fun io =>
    match io.dir with
    | .read => none
    | .write => some ⟨io.first d, gather io.cmd.iov io.mem⟩

theorem patches_concat_read (d : Device) (ios : List Io) {io : Io} (h : io.dir = .read) :
    patches d (ios ++ [io]) = patches d ios := by
  simp [patches, h]

theorem patches_concat_write (d : Device) (ios : List Io) {io : Io} (h : io.dir = .write) :
    patches d (ios ++ [io]) = patches d ios ++ [⟨io.first d, gather io.cmd.iov io.mem⟩] := by
  simp [patches, h]

section Step

variable {d : Device} {io : Io}

/-- The bytes of a scatter list whose first entry is all of it. -/
theorem Io.Direct.gather_eq (h : io.Direct d) (mem : Mem) :
    gather io.cmd.iov mem = (entryAt io.cmd.iov io.behind 0).bytes mem := by
  have hpos := h.nonempty
  have hrest := h.rest
  cases hiov : io.cmd.iov with
  | nil => rw [hiov] at hpos; exact absurd hpos (by simp)
  | cons v rest =>
    rw [hiov, List.tail_cons] at hrest
    have hnil : rest.flatMap (fun v => v.bytes mem) = [] := by
      refine List.flatMap_eq_nil_iff.mpr fun w hw => ?_
      simp [Iovec.bytes, Mem.load, hrest w hw]
    simp [gather, hnil, entryAt]

/-- Its length is that of the transfer. -/
theorem Io.Direct.len_eq (h : io.Direct d) (hacc : io.Accepted d) :
    (entryAt io.cmd.iov io.behind 0).len = io.length d := by
  have hpos := h.nonempty
  have hrest := h.rest
  have hint := h.int
  have htotal : iovTotal io.cmd.iov = (entryAt io.cmd.iov io.behind 0).len := by
    cases hiov : io.cmd.iov with
    | nil => rw [hiov] at hpos; exact absurd hpos (by simp)
    | cons v rest =>
      rw [hiov, List.tail_cons] at hrest
      have hzero : (rest.map Iovec.len).sum = 0 := by
        refine List.sum_eq_zero fun n hn => ?_
        obtain ⟨w, hw, rfl⟩ := List.mem_map.mp hn
        exact hrest w hw
      simp [iovTotal, hzero, entryAt]
  have hlen := checkIovecLength_ok.mp (checkLbaAndLength_ok hacc).1
  rw [htotal, Nat.mod_eq_of_lt (by omega),
    show xferLengthOf io.cdb * d.blockSize = io.length d from rfl,
    Nat.mod_eq_of_lt h.noWrap] at hlen
  exact hlen

/-- What the handler does with such a command is what a flat disk does. -/
theorem Io.Direct.ioStep_eq {size : ℕ} {buf : List UInt8} (hd : d.Added size)
    (hbuf : buf.length = size) (hacc : io.Accepted d) (h : io.Direct d) :
    ioStep d buf io = some (match io.dir with
      | .read => (buf, io.mem.store (entryAt io.cmd.iov io.behind 0).base
          (slice buf (io.first d) (io.length d)))
      | .write => (splice buf (io.first d) (gather io.cmd.iov io.mem), io.mem)) := by
  have hlen := h.len_eq hacc
  have hstart := allocCopy_start_le hd hacc io.dir io.behind
  have hamount : toCInt (entryAt io.cmd.iov io.behind 0).len = (io.length d : ℕ) := by
    rw [toCInt_eq_iff.mpr h.int, hlen]
  have hvalid : (allocCopy io.dir io.cmd.iov io.behind (workOffset d io.cdb)).Valid io.cmd.iov
      io.behind buf.length := by
    refine ⟨h.nonempty, ?_, ?_, ?_⟩
    · change 0 ≤ toCInt _
      rw [hamount]
      exact Int.natCast_nonneg _
    · change toCInt _ ≤ ((entryAt io.cmd.iov io.behind 0).len : ℤ)
      rw [hamount, hlen]
    · change ((allocCopy io.dir io.cmd.iov io.behind (workOffset d io.cdb)).start : ℤ) +
        toCInt _ ≤ _
      rw [hamount, hbuf]
      exact_mod_cast hstart
  cases hdir : io.dir with
  | read =>
    rw [hdir] at hvalid
    simp only [ioStep, allocIo, io.hasCdb, hdir, hvalid, if_true]
    simp only [allocCopy, hamount, Int.toNat_natCast, workOffset_eq hd hacc]
    rfl
  | write =>
    rw [hdir] at hvalid
    simp only [ioStep, allocIo, io.hasCdb, hdir, hvalid, if_true]
    simp only [allocCopy, hamount, Int.toNat_natCast]
    rw [h.gather_eq, Iovec.bytes, hlen]
    -- the handler writes at 0, which is the right place, or writes nothing
    rcases h.atStart hdir with hlba | hzero
    · simp [Io.first, hlba]
    · have hnone : io.length d = 0 := by rw [Io.length, hzero, Nat.zero_mul]
      simp [hnone, Mem.load, splice_nil]

/-- An accepted patch stays inside the device. -/
theorem Io.Direct.fits {size : ℕ} (hd : d.Added size) (hacc : io.Accepted d) (h : io.Direct d) :
    (⟨io.first d, gather io.cmd.iov io.mem⟩ : Patch UInt8).Fits size := by
  have hle := transfer_le_size hd hacc
  rw [Nat.add_mul] at hle
  rw [Patch.Fits, h.gather_eq, Iovec.bytes, Mem.length_load, h.len_eq hacc]
  exact hle

end Step

/-- The patches of a history fit. -/
theorem patches_fit {d : Device} {size : ℕ} {ios : List Io} (hd : d.Added size)
    (h : ∀ io ∈ ios, io.Accepted d ∧ io.Direct d) : ∀ p ∈ patches d ios, p.Fits size := by
  intro p hp
  obtain ⟨io, hio, hsome⟩ := List.mem_filterMap.mp hp
  cases hdir : io.dir with
  | read => simp [hdir] at hsome
  | write =>
    simp only [hdir, Option.some.injEq] at hsome
    exact hsome ▸ (h io hio).2.fits hd (h io hio).1

/-- A history of such commands leaves behind what the patches leave behind. -/
theorem run_ioStep_eq {d : Device} {size : ℕ} {buf : List UInt8} {ios : List Io}
    (hd : d.Added size) (hbuf : buf.length = size)
    (h : ∀ io ∈ ios, io.Accepted d ∧ io.Direct d) :
    run (fun buf io => (ioStep d buf io).map Prod.fst) buf ios
      = some (patchAll buf (patches d ios)) := by
  induction ios using List.reverseRecOn with
  | nil => rfl
  | append_singleton ios io ih =>
    have hios : ∀ x ∈ ios, x.Accepted d ∧ x.Direct d :=
      fun x hx => h x (List.mem_append_left _ hx)
    obtain ⟨hacc, hdirect⟩ := h io (by simp)
    have hlen : (patchAll buf (patches d ios)).length = size := by
      rw [length_patchAll (by rw [hbuf]; exact patches_fit hd hios), hbuf]
    refine run_concat.mpr ⟨_, ih hios, ?_⟩
    rw [hdirect.ioStep_eq hd hlen hacc]
    cases hdir : io.dir with
    | read => rw [patches_concat_read d ios hdir]; rfl
    | write => rw [patches_concat_write d ios hdir, patchAll_concat]; rfl

/-- **The alloc device is a flat disk for direct commands.** After any history of them, a READ
fills its whole scatter list with what the last WRITE covering each byte put there, or the initial
content, and a WRITE changes the bytes of its range and no others. -/
theorem alloc_refines_disk {a : DevAttrs} {d : Device} {buf : List UInt8} {ios : List Io} {io : Io}
    (hd : devAdded a = some d) (hbuf : buf.length = a.devSize.toNat)
    (h : ∀ x ∈ ios ++ [io], x.Accepted d ∧ x.Direct d) :
    ∃ disk disk' mem',
      run (fun buf io => (ioStep d buf io).map Prod.fst) buf ios = some disk ∧
      ioStep d disk io = some (disk', mem') ∧
      (io.dir = .read → disk' = disk ∧ (gather io.cmd.iov mem').length = io.length d ∧
        ∀ j < io.length d,
          (gather io.cmd.iov mem')[j]? = lastCell buf (patches d ios) (io.first d + j)) ∧
      (io.dir = .write → (gather io.cmd.iov io.mem).length = io.length d ∧
        ∀ i, disk'[i]? = if io.first d ≤ i ∧ i < io.first d + io.length d
          then (gather io.cmd.iov io.mem)[i - io.first d]? else disk[i]?) := by
  have hadded := Device.added_of_devAdded hd
  have hios : ∀ x ∈ ios, x.Accepted d ∧ x.Direct d := fun x hx => h x (List.mem_append_left _ hx)
  obtain ⟨hacc, hdirect⟩ := h io (by simp)
  have hfit : ∀ p ∈ patches d ios, p.Fits buf.length := by
    rw [hbuf]
    exact patches_fit hadded hios
  have hlen : (patchAll buf (patches d ios)).length = a.devSize.toNat := by
    rw [length_patchAll hfit, hbuf]
  have hrange : io.first d + io.length d ≤ a.devSize.toNat := by
    have hle := transfer_le_size hadded hacc
    rwa [Nat.add_mul] at hle
  have hstep := hdirect.ioStep_eq hadded hlen hacc
  have hgather : (gather io.cmd.iov io.mem).length = io.length d := by
    rw [hdirect.gather_eq, Iovec.bytes, Mem.length_load, hdirect.len_eq hacc]
  refine ⟨_, _, _, run_ioStep_eq hadded hbuf hios, hstep, ?_, ?_⟩
  · intro hdir
    simp only [hdir]
    have hslice : (slice (patchAll buf (patches d ios)) (io.first d) (io.length d)).length
        = io.length d := length_slice (by rw [hlen]; exact hrange)
    rw [hdirect.gather_eq, Iovec.bytes, hdirect.len_eq hacc, Mem.load_store _ _ hslice]
    refine ⟨trivial, hslice, fun j hj => ?_⟩
    rw [getElem?_slice, if_pos hj, getElem?_patchAll hfit]
  · intro hdir
    simp only [hdir]
    refine ⟨hgather, fun i => ?_⟩
    rw [getElem?_splice (by rw [hgather, hlen]; exact hrange), hgather]

/-- A command of one block at block `lba`, with the given scatter list. -/
def blockIo (dir : Dir) (lba : UInt8) (iov : List Iovec) (mem : Mem) : Io where
  dir := dir
  cmd := ⟨0, some [match dir with | .read => 0x28 | .write => 0x2a, 0, 0, 0, 0, lba, 0, 0, 1, 0],
    iov, iov.length, []⟩
  cdb := [match dir with | .read => 0x28 | .write => 0x2a, 0, 0, 0, 0, lba, 0, 0, 1, 0]
  mem := mem
  behind := ⟨0, 0⟩
  hasCdb := rfl

/-- A device of two blocks of one byte each. -/
def twoBytes : DevAttrs := ⟨1, 2, 128, by decide, by decide, by decide⟩

/-- A WRITE of the byte 7 to block 1 of an empty device is accepted, and is found in block 0. -/
theorem write_lands_at_zero :
    (devAdded twoBytes).map (fun d => checkLbaAndLength d (blockIo .write 1 [⟨0, 1⟩] fun _ => 7).cmd
        (blockIo .write 1 [⟨0, 1⟩] fun _ => 7).cdb 1) = some .ok ∧
      ((devAdded twoBytes).bind fun d => (ioStep d [0, 0]
        (blockIo .write 1 [⟨0, 1⟩] fun _ => 7)).map Prod.fst) = some [7, 0] := by
  decide

/-- Block 0 of the same device is written and read back. -/
theorem alloc_reads_back :
    ∃ d disk disk' mem', devAdded twoBytes = some d ∧
      run (fun buf io => (ioStep d buf io).map Prod.fst) [0, 0]
        [blockIo .write 0 [⟨0, 1⟩] fun _ => 7] = some disk ∧
      ioStep d disk (blockIo .read 0 [⟨3, 1⟩] fun _ => 9) = some (disk', mem') ∧
      (gather [⟨3, 1⟩] mem')[0]? = some 7 := by
  have hd : devAdded twoBytes = some ⟨1, 2, 128, 128, 0⟩ := by decide
  have hbuf : ([0, 0] : List UInt8).length = twoBytes.devSize.toNat := by decide
  have hios : ∀ x ∈ [blockIo .write 0 [⟨0, 1⟩] fun _ => 7] ++ [blockIo .read 0 [⟨3, 1⟩] fun _ => 9],
      x.Accepted ⟨1, 2, 128, 128, 0⟩ ∧ x.Direct ⟨1, 2, 128, 128, 0⟩ := by
    intro x hx
    simp only [List.cons_append, List.nil_append, List.mem_cons, List.not_mem_nil, or_false] at hx
    rcases hx with rfl | rfl
    · exact ⟨by unfold Io.Accepted; decide, by constructor <;> decide⟩
    · exact ⟨by unfold Io.Accepted; decide, by constructor <;> decide⟩
  obtain ⟨disk, disk', mem', hrun, hstep, hread, -⟩ := alloc_refines_disk hd hbuf hios
  refine ⟨_, disk, disk', mem', hd, hrun, hstep, ?_⟩
  exact ((hread rfl).2.2 0 (by decide)).trans (by decide)

end Tcmu

end LioProject
