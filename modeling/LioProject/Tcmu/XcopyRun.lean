import LioProject.Tcmu.Transfer
import LioProject.Tcmu.XcopyAccept

/-!
# Copying

When `handle_xcopy` has accepted a segment, two callbacks take turns: a chunk is read from the
source into a buffer, and the buffer is written to the destination. The number of blocks of a chunk
is cut to what is left, and this is by how much the two addresses move. The number of bytes is fixed
when the buffer is allocated. So the last chunk may be read and written with too many bytes:
`xcopy_copies_iff`.
-/

namespace LioProject

namespace Tcmu

/-! ### Segments -/

/-- A segment of an `EXTENDED COPY` that has been accepted and has something to copy. -/
structure Segment (c : Request) where
  /-- The source. -/
  src : TcmuDev
  /-- The destination. -/
  dst : TcmuDev
  /-- The first block to be read. -/
  srcLba : ℕ
  /-- The first block to be written. -/
  dstLba : ℕ
  /-- The number of blocks. -/
  lbaCnt : ℕ
  /-- Blocks of the source are as large as those of the device that the command was sent to. -/
  src_blockSize : src.geo.blockSize = c.dev.geo.blockSize
  /-- So are those of the destination. -/
  dst_blockSize : dst.geo.blockSize = c.dev.geo.blockSize
  /-- Transfers from the source are not empty. -/
  src_xfer : 1 ≤ src.geo.maxXferLen
  /-- Nor are those to the destination. -/
  dst_xfer : 1 ≤ dst.geo.maxXferLen
  /-- There is something to read with. -/
  src_read : src.handler.read = true
  /-- There is something to write with. -/
  dst_write : dst.handler.write = true
  /-- There is something to copy. -/
  lbaCnt_pos : 0 < lbaCnt
  /-- `lba_cnt` is a `uint32_t`. -/
  lbaCnt_lt : lbaCnt < 2 ^ 32
  /-- `src_lba` is a `uint64_t`. -/
  srcLba_lt : srcLba < 2 ^ 64
  /-- `dst_lba` is a `uint64_t`. -/
  dstLba_lt : dstLba < 2 ^ 64

namespace Segment

variable {c : Request} (g : Segment c)

/-- The first `copy_lbas`: the number of blocks of all chunks but the last. -/
def step : ℕ := min (min (min g.src.geo.maxXferLen g.dst.geo.maxXferLen) 1024) g.lbaCnt

/-- `iov_len`. -/
def bytes : ℕ := g.step * c.dev.geo.blockSize % 2 ^ 32

/-- What is known about the copy when `i` chunks have been copied. -/
def chunk (buf i : ℕ) : Xcopy :=
  ⟨g.src, g.dst, (g.srcLba + i * g.step) % 2 ^ 64, (g.dstLba + i * g.step) % 2 ^ 64,
    g.lbaCnt - i * g.step, min (g.lbaCnt - i * g.step) g.step, buf, g.bytes⟩

/-- The ranges of `n` chunks, from block `lba` on. -/
def ranges (lba n : ℕ) : List (ℕ × ℕ) :=
  (List.range n).map fun i =>
    (c.dev.geo.blockSize * ((lba + i * g.step) % 2 ^ 64) % 2 ^ 64, g.bytes)

/-- `handle_xcopy`, when the segment has been accepted. -/
def start : Daemon TcmuSts := do
  match ← ask (.calloc g.bytes) with
  | none => pure .noResource
  | some buf => asyncHandleCmd c (.xcopyRead (g.chunk buf 0))

theorem step_pos : 0 < g.step := by
  have hsrc := g.src_xfer
  have hdst := g.dst_xfer
  have hpos := g.lbaCnt_pos
  rw [step]
  omega

theorem step_le : g.step ≤ g.lbaCnt := Nat.min_le_right _ _

theorem ranges_succ (lba n : ℕ) : g.ranges lba (n + 1) = g.ranges lba n ++
    [(c.dev.geo.blockSize * ((lba + n * g.step) % 2 ^ 64) % 2 ^ 64, g.bytes)] := by
  rw [ranges, List.range_succ, List.map_append]
  rfl

/-- What `handle_xcopy_write_cbk` does when a chunk has been written. -/
theorem handleXcopyWriteCbk_ok (buf : ℕ) {i : ℕ} (hi : i * g.step < g.lbaCnt) :
    handleXcopyWriteCbk c (g.chunk buf i) .ok =
      if g.lbaCnt ≤ (i + 1) * g.step then aioCommandFinish .ok
      else asyncHandleCmd c (.xcopyRead (g.chunk buf (i + 1))) >>= finishUnlessAsync := by
  have hsub : sub32 (g.chunk buf i).lbaCnt (g.chunk buf i).copyLbas =
      g.lbaCnt - (i + 1) * g.step := by
    change sub32 (g.lbaCnt - i * g.step) (min (g.lbaCnt - i * g.step) g.step) = _
    have hlt := g.lbaCnt_lt
    rw [sub32, Nat.succ_mul]
    omega
  rw [handleXcopyWriteCbk]
  rw [hsub, if_neg (by simp)]
  by_cases hlast : g.lbaCnt ≤ (i + 1) * g.step
  · rw [if_pos (by omega), if_pos hlast]
  · have hmin : (g.chunk buf i).copyLbas = g.step := by
      change min (g.lbaCnt - i * g.step) g.step = _
      rw [Nat.succ_mul] at hlast
      omega
    have hnext : ∀ lba, ((lba + i * g.step) % 2 ^ 64 + g.step) % 2 ^ 64 =
        (lba + (i + 1) * g.step) % 2 ^ 64 := by
      intro lba
      rw [Nat.mod_add_mod, Nat.succ_mul, Nat.add_assoc]
    rw [if_neg (by omega), if_neg hlast, hmin, chunk, chunk]
    dsimp only
    rw [hnext, hnext]

end Segment

/-! ### What a log says about copying -/

/-- The callout reads from the one device, or writes to the other. -/
def Callout.Copies (src dst : TcmuDev) : Callout → Prop
  | .read dev .. => dev = src
  | .write dev .. => dev = dst
  | _ => False

/-- All that is called for is reading from the one device and writing to the other. -/
def Happening.Copies (src dst : TcmuDev) : Happening → Prop
  | .call co _ _ => co.Copies src dst
  | .back co _ _ => co.Copies src dst
  | _ => True

namespace Segment

/-- The copy is under way: `n` reads and `m` writes have been called for, and nothing has failed. -/
structure Going {c : Request} (g : Segment c) (n m : ℕ) (l : List Happening) : Prop where
  /-- Nothing has failed. -/
  clear : Clear l
  /-- What was called for. -/
  calls : ∀ y ∈ l, y.Copies g.src g.dst
  /-- The command has not been completed. -/
  open_ : completions l = []
  /-- The ranges that were read. -/
  reads_eq : reads l = g.ranges g.srcLba n
  /-- The ranges that were written. -/
  writes_eq : writes l = g.ranges g.dstLba m

/-- What is known while the read or the write of a chunk is under way. All that has been read is
written again. What has been read last is in the buffer, until the write has been called for. -/
def Under {c : Request} (g : Segment c) : Under := fun b j m _ l =>
  ∃ buf i, i * g.step < g.lbaCnt ∧
    ((j = .xcopyRead (g.chunk buf i) ∧ g.Going (if b then i + 1 else i) i l ∧ backs l = 2 * i ∧
        written l = readBacks l) ∨
      (j = .xcopyWrite (g.chunk buf i) ∧ g.Going (i + 1) (if b then i + 1 else i) l ∧
        backs l = 2 * i + 1 ∧
        if b then written l = readBacks l
        else readBacks l = written l ++ [m.load buf g.bytes]))

/-- How the command ends, if nothing fails: all chunks have been read and written. -/
def Ended {c : Request} (g : Segment c) : Formatting → List Happening → Prop := fun _ l =>
  Clear l → ∃ l₀ n, l = l₀ ++ [.complete .ok] ∧ g.Going n n l₀ ∧ written l₀ = readBacks l₀ ∧
    g.lbaCnt ≤ n * g.step ∧ n * g.step < g.lbaCnt + g.step

section Steps

variable {c : Request} {g : Segment c} {n m i : ℕ} {l : List Happening}

theorem going_nil (g : Segment c) : g.Going 0 0 [] :=
  ⟨clear_nil, fun _ hy => absurd hy (by simp), rfl, rfl, rfl⟩

/-- The next thing has happened. -/
theorem Going.concat (h : g.Going n m l) {y : Happening} {n' m' : ℕ} (hclear : y.fails = false)
    (hcopies : y.Copies g.src g.dst) (hstatus : y.status? = none)
    (hread : reads (l ++ [y]) = g.ranges g.srcLba n')
    (hwrite : writes (l ++ [y]) = g.ranges g.dstLba m') : g.Going n' m' (l ++ [y]) := by
  refine ⟨h.clear.concat hclear, ?_, ?_, hread, hwrite⟩
  · exact List.forall_mem_append.mpr ⟨h.calls, List.forall_mem_singleton.mpr hcopies⟩
  · have hnil : completions [y] = [] := List.filterMap_cons_none hstatus
    rw [completions_append, h.open_, hnil]
    rfl

/-- A read is called for. -/
theorem Going.read (h : g.Going n m l) (buf : ℕ) (data : List UInt8) :
    g.Going (n + 1) m
      (l ++ [.call ((Job.xcopyRead (g.chunk buf n)).callout c) data true]) := by
  refine h.concat rfl rfl rfl ?_ ?_
  · rw [reads_append, h.reads_eq, ranges_succ, ← g.src_blockSize]
    rfl
  · rw [writes_append, h.writes_eq]
    exact List.append_nil _

/-- A write is called for. -/
theorem Going.write (h : g.Going n m l) (buf : ℕ) (data : List UInt8) :
    g.Going n (m + 1)
      (l ++ [.call ((Job.xcopyWrite (g.chunk buf m)).callout c) data true]) := by
  refine h.concat rfl rfl rfl ?_ ?_
  · rw [reads_append, h.reads_eq]
    exact List.append_nil _
  · rw [writes_append, h.writes_eq, ranges_succ, ← g.dst_blockSize]
    rfl

/-- The write takes what has been read last. -/
theorem written_call (buf : ℕ) {mem : Mem} (h : readBacks l = written l ++ [mem.load buf g.bytes]) :
    written (l ++ [.call ((Job.xcopyWrite (g.chunk buf i)).callout c)
        (gather ((Job.xcopyWrite (g.chunk buf i)).callout c).iov mem) true]) =
      readBacks (l ++ [.call ((Job.xcopyWrite (g.chunk buf i)).callout c)
        (gather ((Job.xcopyWrite (g.chunk buf i)).callout c).iov mem) true]) := by
  rw [written_append, readBacks_append, h]
  have hdata : gather [⟨buf, g.bytes⟩] mem = mem.load buf g.bytes := List.append_nil _
  change written l ++ [gather [⟨buf, g.bytes⟩] mem] = _
  rw [hdata]
  exact (List.append_nil _).symm

/-- A callback comes with success. -/
theorem Going.back (h : g.Going n m l) {co : Callout} (hco : co.Copies g.src g.dst)
    (data : List UInt8) : g.Going n m (l ++ [.back co data .ok]) := by
  refine h.concat rfl hco rfl ?_ ?_
  · rw [reads_append, h.reads_eq]
    exact List.append_nil _
  · rw [writes_append, h.writes_eq]
    exact List.append_nil _

/-- Where something has failed nothing is said about the end. -/
theorem ended_of_fails {y : Happening} (hy : y.fails = true) (f : Formatting) (sts : TcmuSts) :
    g.Ended f (l ++ [y] ++ [.complete sts]) := by
  intro hclear
  rw [hclear y (by simp)] at hy
  exact absurd hy (by simp)

end Steps

/-! ### Programs -/

section Programs

variable {c : Request} {g : Segment c} {s : Xfer} {buf i : ℕ} {l : List Happening}

/-- The command fails. -/
theorem wp_fails {ret : TcmuSts} {y : Happening} (hjobs : s.jobs = []) (hy : y.fails = true)
    (hlog : s.log = l ++ [y]) :
    Prog.wp (xferInterp c) (fun _ _ => True) (fun _ _ => False) (aioCommandFinish ret)
      (fun _ t => t.Stands g.Under g.Ended) s := by
  refine wp_aioCommandFinish (Or.inr ⟨hjobs, ?_⟩)
  dsimp only [Xfer.note]
  rw [hlog]
  exact ended_of_fails hy _ _

/-- The next chunk is read. -/
theorem wp_nextRead {R : TcmuSts → Xfer → Prop} (hjobs : s.jobs = [])
    (hi : i * g.step < g.lbaCnt) (hgoing : g.Going i i s.log) (hbacks : backs s.log = 2 * i)
    (heq : written s.log = readBacks s.log) (hok : ∀ t : Xfer, t.Stands g.Under g.Ended →
      R .asyncHandled t)
    (hfail : ∀ sts y (t : Xfer), sts ≠ .asyncHandled → t.jobs = [] → Happening.fails y = true →
      t.log = s.log ++ [y] → R sts t) :
    Prog.wp (xferInterp c) (fun _ _ => True) (fun _ _ => False)
      (asyncHandleCmd c (.xcopyRead (g.chunk buf i))) R s := by
  refine wp_next (Q := g.Under) (E := g.Ended) hjobs rfl g.src_read
    ⟨buf, i, hi, Or.inl ⟨rfl, hgoing, hbacks, heq⟩⟩
    ⟨buf, i, hi, Or.inl ⟨rfl, hgoing.read buf _, ?_, ?_⟩⟩ hok ?_
  · rw [backs_call, hbacks]
  · rw [written_append, readBacks_append, heq]
    rfl
  · intro sts y t _ hasync hy ht _ _ hlog
    rcases hy with rfl | rfl
    · exact hfail _ _ t hasync ht rfl hlog
    · exact hfail _ _ t hasync ht rfl hlog

/-- The chunk is written. -/
theorem wp_nextWrite {R : TcmuSts → Xfer → Prop} (hjobs : s.jobs = [])
    (hi : i * g.step < g.lbaCnt) (hgoing : g.Going (i + 1) i s.log)
    (hbacks : backs s.log = 2 * i + 1)
    (heq : readBacks s.log = written s.log ++ [s.mem.load buf g.bytes])
    (hok : ∀ t : Xfer, t.Stands g.Under g.Ended → R .asyncHandled t)
    (hfail : ∀ sts y (t : Xfer), sts ≠ .asyncHandled → t.jobs = [] → Happening.fails y = true →
      t.log = s.log ++ [y] → R sts t) :
    Prog.wp (xferInterp c) (fun _ _ => True) (fun _ _ => False)
      (asyncHandleCmd c (.xcopyWrite (g.chunk buf i))) R s := by
  refine wp_next (Q := g.Under) (E := g.Ended) hjobs rfl g.dst_write
    ⟨buf, i, hi, Or.inr ⟨rfl, hgoing, hbacks, heq⟩⟩
    ⟨buf, i, hi, Or.inr ⟨rfl, hgoing.write buf _, ?_, ?_⟩⟩ hok ?_
  · rw [backs_call, hbacks]
  · rw [if_pos rfl]
    exact written_call buf heq
  · intro sts y t _ hasync hy ht _ _ hlog
    rcases hy with rfl | rfl
    · exact hfail _ _ t hasync ht rfl hlog
    · exact hfail _ _ t hasync ht rfl hlog

/-- **The callback of a read** goes on to the write. -/
theorem wp_handleXcopyReadCbk {ret : TcmuSts} (hjobs : s.jobs = [])
    (hi : i * g.step < g.lbaCnt) (hgoing : g.Going (i + 1) i l) (hbacks : backs l = 2 * i)
    (heq : written l = readBacks l)
    (hlog : s.log = l ++ [.back ((Job.xcopyRead (g.chunk buf i)).callout c)
      (gather ((Job.xcopyRead (g.chunk buf i)).callout c).iov s.mem) ret]) :
    Prog.wp (xferInterp c) (fun _ _ => True) (fun _ _ => False)
      (handleXcopyReadCbk c (g.chunk buf i) ret) (fun _ t => t.Stands g.Under g.Ended) s := by
  rw [handleXcopyReadCbk]
  by_cases hret : ret = .ok
  · subst hret
    rw [if_neg (by simp)]
    refine Prog.wp_bind.mpr (wp_nextWrite hjobs hi ?_ ?_ ?_ (fun t ht => ht) ?_)
    · rw [hlog]
      have hcopies : Callout.Copies g.src g.dst ((Job.xcopyRead (g.chunk buf i)).callout c) := rfl
      exact hgoing.back hcopies _
    · rw [hlog, backs_back, hbacks]
    · have hdata : gather [⟨buf, g.bytes⟩] s.mem = s.mem.load buf g.bytes := List.append_nil _
      rw [hlog, readBacks_append, written_append, heq, ← hdata]
      exact congrArg (· ++ _) (List.append_nil _).symm
    · intro sts y t hasync ht hy hlog'
      rw [finishUnlessAsync, if_neg hasync]
      exact wp_fails ht hy hlog'
  · have hfails : Happening.fails (.back ((Job.xcopyRead (g.chunk buf i)).callout c)
        (gather ((Job.xcopyRead (g.chunk buf i)).callout c).iov s.mem) ret) = true :=
      decide_eq_true hret
    rw [if_pos hret]
    exact wp_fails hjobs hfails hlog

/-- **The callback of a write** goes on to the next chunk, or ends the command. -/
theorem wp_handleXcopyWriteCbk {ret : TcmuSts} {data : List UInt8} (hjobs : s.jobs = [])
    (hi : i * g.step < g.lbaCnt) (hgoing : g.Going (i + 1) (i + 1) l)
    (hbacks : backs l = 2 * i + 1) (heq : written l = readBacks l)
    (hlog : s.log = l ++ [.back ((Job.xcopyWrite (g.chunk buf i)).callout c) data ret]) :
    Prog.wp (xferInterp c) (fun _ _ => True) (fun _ _ => False)
      (handleXcopyWriteCbk c (g.chunk buf i) ret) (fun _ t => t.Stands g.Under g.Ended) s := by
  by_cases hret : ret = .ok
  · subst hret
    have hgoing' : g.Going (i + 1) (i + 1) s.log := by
      rw [hlog]
      have hcopies : Callout.Copies g.src g.dst ((Job.xcopyWrite (g.chunk buf i)).callout c) := rfl
      exact hgoing.back hcopies _
    have heq' : written s.log = readBacks s.log := by
      rw [hlog, readBacks_append, written_append, heq]
      rfl
    rw [handleXcopyWriteCbk_ok g buf hi]
    split
    · rename_i hlast
      refine wp_aioCommandFinish (Or.inr ⟨hjobs, fun _ => ?_⟩)
      refine ⟨s.log, i + 1, rfl, hgoing', heq', hlast, ?_⟩
      rw [Nat.succ_mul]
      omega
    · rename_i hmore
      refine Prog.wp_bind.mpr (wp_nextRead hjobs (by omega) hgoing' ?_ heq' (fun t ht => ht) ?_)
      · rw [hlog, backs_back, hbacks]
        omega
      · intro sts y t hasync ht hy hlog'
        rw [finishUnlessAsync, if_neg hasync]
        exact wp_fails ht hy hlog'
  · have hfails : Happening.fails
        (.back ((Job.xcopyWrite (g.chunk buf i)).callout c) data ret) = true := decide_eq_true hret
    rw [handleXcopyWriteCbk, if_pos hret]
    exact wp_fails hjobs hfails hlog

/-- **The beginning.** -/
theorem wp_start (g : Segment c) (mem : Mem) (f : Formatting) :
    Prog.wp (xferInterp c) (fun _ _ => True) (fun _ _ => False) (answer g.start)
      (fun _ t => t.Stands g.Under g.Ended) (Xfer.init mem f) := by
  refine wp_answer ?_
  rw [start]
  refine Prog.wp_bind.mpr (wp_calloc (fun buf _ => ?_) ?_)
  · refine wp_nextRead rfl ?_ (going_nil g) rfl rfl
      (fun t ht => ⟨fun _ => ht, fun h => absurd rfl h⟩) ?_
    · rw [Nat.zero_mul]
      exact g.lbaCnt_pos
    · intro sts y t hasync ht hy hlog
      refine ⟨fun h => absurd h hasync, fun _ => Or.inr ⟨ht, ?_⟩⟩
      dsimp only [Xfer.note]
      rw [hlog]
      exact ended_of_fails hy _ _
  · refine ⟨fun h => absurd h (by simp), fun _ => Or.inr ⟨rfl, ?_⟩⟩
    exact ended_of_fails (l := []) (y := .nomem) rfl _ _

/-- **Whole copies**: a read and a write, chunk by chunk. -/
theorem oneByOne_start (g : Segment c) (mem : Mem) (f : Formatting) :
    OneByOne c g.start mem f g.Under g.Ended := by
  refine ⟨wp_start g mem f, ?_, ?_, ?_, ?_⟩
  · rintro j m _ l ⟨buf, i, hi, ⟨rfl, hgoing, hbacks, heq⟩ | ⟨rfl, hgoing, hbacks, heq⟩⟩
    · refine ⟨rfl, g.src_read, buf, i, hi, Or.inl ⟨rfl, hgoing.read buf _, ?_, ?_⟩⟩
      · rw [backs_call, hbacks]
      · rw [written_append, readBacks_append, heq]
        rfl
    · refine ⟨rfl, g.dst_write, buf, i, hi, Or.inr ⟨rfl, hgoing.write buf _, ?_, ?_⟩⟩
      · rw [backs_call, hbacks]
      · rw [if_pos rfl]
        exact written_call buf heq
  · rintro j e s l hjobs ⟨buf, i, hi, ⟨rfl, -, -, -⟩ | ⟨rfl, -, -, -⟩⟩ hlog
    · rw [Job.done, handleXcopyReadCbk, if_pos e.ne_ok]
      exact wp_fails hjobs rfl hlog
    · rw [Job.done, handleXcopyWriteCbk, if_pos e.ne_ok]
      exact wp_fails hjobs rfl hlog
  · rintro j m _ l a bs ⟨buf, i, hi, hread | ⟨rfl, -, -, -⟩⟩ htakes
    · exact ⟨buf, i, hi, Or.inl hread⟩
    · exact absurd htakes (by simp [Job.callout, Callout.takes])
  · rintro j ret s l hjobs
      ⟨buf, i, hi, ⟨rfl, hgoing, hbacks, heq⟩ | ⟨rfl, hgoing, hbacks, heq⟩⟩ hlog
    · exact wp_handleXcopyReadCbk hjobs hi hgoing hbacks heq hlog
    · exact wp_handleXcopyWriteCbk hjobs hi hgoing hbacks heq hlog

end Programs

end Segment

end Tcmu

end LioProject
