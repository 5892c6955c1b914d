import LioProject.Tcmu.CawSeek
import LioProject.Tcmu.Transfer

/-!
# Write same

`handle_writesame` fills a buffer with copies of the block in the Data-Out buffer and writes it
again and again, with the last write cut to what is left. The buffer is a megabyte, rounded up to a
multiple of the transfer limit, and in any case a whole number of blocks.

`Request.SameUpTo` says how far the writes have come. They come block by block to the end of the
range, or something fails, and then there are no more of them (`writesame_covers`).
-/

namespace LioProject

namespace Tcmu

/-! ### Sizes -/

/-- The device can be addressed in 63 bits, as `dev_added` sees to, and a transfer in 32. -/
structure Device.Sized (d : Device) : Prop where
  /-- The size came out of an `int64_t`. -/
  size_lt : d.numLbas * d.blockSize < 2 ^ 63
  /-- A transfer has some bytes. -/
  xfer_pos : 0 < d.maxXferLen * d.blockSize
  /-- Their number fits in a `uint32_t`. -/
  xfer_lt : d.maxXferLen * d.blockSize < 2 ^ 32

namespace Device.Sized

variable {d : Device} {lba n : ℕ}

theorem blockSize_pos (h : d.Sized) : 0 < d.blockSize := Nat.pos_of_mul_pos_left h.xfer_pos

theorem xferBytes_eq (h : d.Sized) : d.xferBytes = d.maxXferLen * d.blockSize :=
  Nat.mod_eq_of_lt h.xfer_lt

theorem xferBytes_ne_zero (h : d.Sized) : d.xferBytes ≠ 0 := by
  rw [h.xferBytes_eq]
  exact h.xfer_pos.ne'

/-- A step is some whole blocks. -/
theorem stepBytes_eq (h : d.Sized) : ∃ k, 0 < k ∧ d.stepBytes = k * d.blockSize := by
  have hpos := h.xfer_pos
  have hlt := h.xfer_lt
  rw [Device.stepBytes, h.xferBytes_eq]
  generalize hm : d.maxXferLen * d.blockSize = m at hpos hlt ⊢
  have hle : (1024 * 1024 + (m - 1)) / m * m ≤ 1024 * 1024 + (m - 1) := Nat.div_mul_le_self _ _
  rw [Nat.mod_eq_of_lt (show 1024 * 1024 + (m - 1) < 2 ^ 64 by omega),
    Nat.mod_eq_of_lt (by omega)]
  refine ⟨(1024 * 1024 + (m - 1)) / m * d.maxXferLen, ?_, by rw [← hm, Nat.mul_assoc]⟩
  exact Nat.mul_pos (Nat.div_pos (by omega) hpos) (Nat.pos_of_mul_pos_right h.xfer_pos)

/-- Inside the device, byte offsets fit in 63 bits. -/
theorem bytes_lt (h : d.Sized) (hn : n ≤ d.numLbas) : n * d.blockSize < 2 ^ 63 :=
  (Nat.mul_le_mul_right _ hn).trans_lt h.size_lt

end Device.Sized

/-- `round_up`, for the limit of a device. -/
theorem roundUp_stepBytes {d : Device} (h : d.xferBytes ≠ 0) :
    roundUp (1024 * 1024) (d.maxXferLen * d.blockSize % 2 ^ 32) = pure d.stepBytes := by
  have h : ¬ d.maxXferLen * d.blockSize % 2 ^ 32 = 0 := h
  rw [roundUp, if_neg h]
  rfl

/-! ### Copies of a block -/

/-- A block, again and again. -/
def copies (n : ℕ) (block : List UInt8) : List UInt8 := (List.replicate n block).flatten

section Copies

variable {n k : ℕ} {block : List UInt8} {mem : Mem} {a : ℕ}

theorem length_copies : (copies n block).length = n * block.length := by simp [copies]

theorem take_copies (h : k ≤ n) : (copies n block).take (k * block.length) = copies k block := by
  obtain ⟨m, rfl⟩ := Nat.exists_eq_add_of_le h
  rw [copies, List.replicate_add, List.flatten_append]
  exact List.take_left' length_copies

/-- A part of a buffer that is full of copies. -/
theorem load_copies (hload : mem.load a (n * block.length) = copies n block) (h : k ≤ n) :
    mem.load a (k * block.length) = copies k block := by
  rw [← Mem.load_take mem a (Nat.mul_le_mul_right _ h), hload, take_copies h]

end Copies

/-! ### Accepted commands -/

/-- A `WRITE SAME` that passes its checks and is carried out by writing. -/
structure Request.SameAccepted (c : Request) : Prop where
  /-- `handle_writesame_check`. -/
  check : handleWritesameCheck c = .ok
  /-- It does not unmap. -/
  writes : c.writesByUnmap = false
  /-- There is something to write with. -/
  defined : c.dev.handler.write = true

section Accepted

variable {c : Request}

/-- The Data-Out buffer is one block. -/
theorem block_of_handleWritesameCheck (h : handleWritesameCheck c = .ok) :
    ∃ v, c.cmd.iov = [v] ∧ c.cmd.iovec.head? = some v ∧ v.len = c.dev.geo.blockSize := by
  rw [handleWritesameCheck] at h
  split at h
  · exact absurd h (by simp)
  · rename_i hiov
    rw [not_or, not_not, not_not] at hiov
    obtain ⟨v, hv, hlen⟩ := Option.map_eq_some_iff.mp hiov.2
    refine ⟨v, ?_, hv, hlen⟩
    obtain ⟨vs, hvs⟩ := List.head?_eq_some_iff.mp hv
    rw [TcmulibCmd.iov, hiov.1, hvs]
    rfl

/-- The range is inside the device. -/
theorem Request.SameAccepted.le (hc : c.SameAccepted) :
    lbaOf c.cdb + xferLengthOf c.cdb ≤ c.dev.geo.numLbas :=
  checkLbas_ok (lbaOf_lt _) ((xferLengthOf_lt _).trans (by norm_num))
    (handleWritesameCheck_ok hc.check).2

end Accepted

/-! ### How far the writes have come -/

/-- The callout writes copies of the block. -/
def Callout.Same (c : Request) (block : List UInt8) (co : Callout) (data : List UInt8) : Prop :=
  ∃ lba n iov, 0 < n ∧ data = copies n block ∧
    co = .write c.dev c.cmd.cdb iov (n * c.dev.geo.blockSize) (lba * c.dev.geo.blockSize)

/-- All that is called for is writing copies of the block, and they are there until the callback. -/
def Happening.Same (c : Request) (block : List UInt8) : Happening → Prop
  | .call co data _ => co.Same c block data
  | .back co data _ => co.Same c block data
  | _ => True

/-- The blocks from the first one up to `cur` have been written, in order. -/
structure Request.SameUpTo (c : Request) (block : List UInt8) (cur : ℕ) (l : List Happening) :
    Prop where
  /-- The ranges of the writes. -/
  tiles : Tiles (lbaOf c.cdb * c.dev.geo.blockSize) (cur * c.dev.geo.blockSize) (writes l)
  /-- What is written. -/
  same : ∀ x ∈ l, x.Same c block
  /-- The end of the range. -/
  le : cur ≤ lbaOf c.cdb + xferLengthOf c.cdb

/-- The same, and so far all has gone well. -/
structure Request.SameGoing (c : Request) (block : List UInt8) (cur : ℕ) (l : List Happening) :
    Prop where
  /-- What has been written. -/
  upTo : c.SameUpTo block cur l
  /-- Nothing has failed. -/
  clear : Clear l
  /-- The command has not been completed. -/
  open_ : completions l = []

/-- The command has come to its end: all is written, or something has failed. -/
def Request.SameEnded (c : Request) (block : List UInt8) (l : List Happening) : Prop :=
  (∃ l₀, c.SameGoing block (lbaOf c.cdb + xferLengthOf c.cdb) l₀ ∧ l = l₀ ++ [.complete .ok]) ∨
    ∃ l₀ cur cur' x sts, c.SameGoing block cur l₀ ∧ c.SameUpTo block cur' (l₀ ++ [x]) ∧
      x.fails = true ∧ x.status? = none ∧ sts ≠ .ok ∧ l = l₀ ++ [x, .complete sts]

/-- The sub-command writes some of the blocks that are left, from a buffer full of copies. -/
structure Request.SamePiece (c : Request) (block : List UInt8) (mem : Mem) (st : WriteSame)
    (n : ℕ) : Prop where
  /-- What is left. -/
  left : st.curLba + st.lbaCnt = lbaOf c.cdb + xferLengthOf c.cdb
  /-- It writes something. -/
  pos : 0 < n
  /-- It writes no more than is left. -/
  le : n ≤ st.lbaCnt
  /-- It writes whole blocks. -/
  len : st.iovLen = n * c.dev.geo.blockSize
  /-- The buffer. -/
  load : mem.load st.iovBase st.iovLen = copies n block

/-- While a sub-command is under way, the writes have come up to it, or over it when it has been
accepted. -/
def Request.SameUnder (c : Request) (block : List UInt8) : Under := fun b j mem _ l =>
  ∃ st n, j = .writesame st ∧ c.SamePiece block mem st n ∧
    c.SameGoing block (if b then st.curLba + n else st.curLba) l ∧
      lbaOf c.cdb + backs l ≤ st.curLba

section Steps

variable {c : Request} {block : List UInt8} {mem : Mem} {st : WriteSame} {n cur : ℕ}
  {l : List Happening}

/-- The call that a sub-command makes. -/
theorem Request.SamePiece.callout (h : c.SamePiece block mem st n) (hc : c.SameAccepted)
    (hd : c.dev.geo.Sized) :
    (Job.writesame st).callout c = .write c.dev c.cmd.cdb [⟨st.iovBase, st.iovLen⟩]
      (n * c.dev.geo.blockSize) (st.curLba * c.dev.geo.blockSize) ∧
      gather [⟨st.iovBase, st.iovLen⟩] mem = copies n block := by
  have hrange := hc.le
  have hleft := h.left
  have hoffset : c.dev.geo.blockSize * st.curLba % 2 ^ 64 = st.curLba * c.dev.geo.blockSize := by
    rw [Nat.mul_comm]
    exact Nat.mod_eq_of_lt ((hd.bytes_lt (by omega)).trans (by norm_num))
  refine ⟨?_, ?_⟩
  · rw [Job.callout, h.len, hoffset]
  · rw [gather_cons, h.load]
    exact List.append_nil _

/-- What a call and a callback say about it. -/
theorem Request.SamePiece.same (h : c.SamePiece block mem st n) (hc : c.SameAccepted)
    (hd : c.dev.geo.Sized) :
    ((Job.writesame st).callout c).Same c block
      (gather ((Job.writesame st).callout c).iov mem) := by
  obtain ⟨hcallout, hgather⟩ := h.callout hc hd
  rw [hcallout]
  exact ⟨st.curLba, n, _, h.pos, hgather, rfl⟩

/-- One more write has been called for. -/
theorem Request.SameUpTo.call (hl : c.SameUpTo block st.curLba l)
    (h : c.SamePiece block mem st n) (hc : c.SameAccepted) (hd : c.dev.geo.Sized)
    (accepted : Bool) :
    c.SameUpTo block (st.curLba + n) (l ++ [.call ((Job.writesame st).callout c)
      (gather ((Job.writesame st).callout c).iov mem) accepted]) := by
  obtain ⟨hcallout, -⟩ := h.callout hc hd
  have hleft := h.left
  have hle := h.le
  refine ⟨?_, ?_, by omega⟩
  · rw [writes_append, hcallout]
    refine tiles_concat.mpr ⟨hl.tiles, ?_⟩
    rw [Nat.add_mul]
  · exact List.forall_mem_append.mpr ⟨hl.same, List.forall_mem_singleton.mpr (h.same hc hd)⟩

/-- Something else has happened than a call. -/
theorem Request.SameUpTo.concat (hl : c.SameUpTo block cur l) {x : Happening}
    (hx : x.write? = none) (hsame : x.Same c block) : c.SameUpTo block cur (l ++ [x]) := by
  refine ⟨?_, ?_, hl.le⟩
  · have hnil : writes [x] = [] := List.filterMap_cons_none hx
    rw [writes_append, hnil, List.append_nil]
    exact hl.tiles
  · exact List.forall_mem_append.mpr ⟨hl.same, List.forall_mem_singleton.mpr hsame⟩

/-- Something has happened that is not a failure. -/
theorem Request.SameGoing.concat (hl : c.SameGoing block cur l) {cur' : ℕ} {x : Happening}
    (hupTo : c.SameUpTo block cur' (l ++ [x])) (hx : x.fails = false) (hopen : x.status? = none) :
    c.SameGoing block cur' (l ++ [x]) := by
  refine ⟨hupTo, hl.clear.concat hx, ?_⟩
  · have hnil : completions [x] = [] := List.filterMap_cons_none hopen
    rw [completions_append, hl.open_, hnil]
    rfl

end Steps

/-! ### Programs -/

section Programs

variable {c : Request} {block : List UInt8} {st : WriteSame} {n : ℕ} {s : Xfer}

/-- The command is completed. -/
theorem wp_sameFinish {ret : TcmuSts} (hjobs : s.jobs = [])
    (h : c.SameEnded block (s.log ++ [.complete ret])) :
    Prog.wp (xferInterp c) (fun _ _ => True) (fun _ _ => False) (aioCommandFinish ret)
      (fun _ t => t.Stands (c.SameUnder block) fun _ => c.SameEnded block) s :=
  wp_aioCommandFinish (Or.inr ⟨hjobs, h⟩)

/-- A failure ends the command. -/
theorem Request.SameGoing.ended {l : List Happening} {cur cur' : ℕ} {x : Happening} {sts : TcmuSts}
    (hl : c.SameGoing block cur l) (hupTo : c.SameUpTo block cur' (l ++ [x]))
    (hx : x.fails = true) (hopen : x.status? = none) (hsts : sts ≠ .ok) :
    c.SameEnded block (l ++ [x] ++ [.complete sts]) := by
  refine Or.inr ⟨l, cur, cur', x, sts, hl, hupTo, hx, hopen, hsts, ?_⟩
  rw [List.append_assoc]
  rfl

/-- The next write of the command. -/
theorem wp_sameNext {R : TcmuSts → Xfer → Prop} (hc : c.SameAccepted) (hd : c.dev.geo.Sized)
    (hjobs : s.jobs = []) (hpiece : c.SamePiece block s.mem st n)
    (hgoing : c.SameGoing block st.curLba s.log) (hbacks : lbaOf c.cdb + backs s.log ≤ st.curLba)
    (hok : ∀ t : Xfer, t.Stands (c.SameUnder block) (fun _ => c.SameEnded block) →
      R .asyncHandled t)
    (hfail : ∀ (sts : TcmuSts) (t : Xfer), sts ≠ .ok → sts ≠ .asyncHandled → t.jobs = [] →
      (∀ sts', sts' ≠ .ok → c.SameEnded block (t.log ++ [.complete sts'])) → R sts t) :
    Prog.wp (xferInterp c) (fun _ _ => True) (fun _ _ => False) (asyncHandleCmd c (.writesame st))
      R s := by
  have hcall := hgoing.upTo.call hpiece hc hd
  refine wp_next (Q := c.SameUnder block) (E := fun _ => c.SameEnded block) hjobs rfl hc.defined
    ⟨st, n, rfl, hpiece, hgoing, hbacks⟩
    ⟨st, n, rfl, hpiece, hgoing.concat (hcall true) rfl rfl, by rwa [backs_call]⟩ hok ?_
  intro sts x t hsts hasync hx ht _ _ hlog
  refine hfail sts t hsts hasync ht fun sts' hsts' => ?_
  rw [hlog]
  rcases hx with rfl | rfl
  · exact hgoing.ended (hgoing.upTo.concat rfl trivial) rfl rfl hsts'
  · exact hgoing.ended (hcall false) rfl rfl hsts'

/-- What is left after a write, and the piece that comes next. -/
theorem Request.SamePiece.next {mem : Mem} (h : c.SamePiece block mem st n)
    (hc : c.SameAccepted) (hd : c.dev.geo.Sized) (hblock : block.length = c.dev.geo.blockSize)
    (hleft : st.lbaCnt - n ≠ 0) :
    c.SamePiece block mem ⟨st.curLba + n, st.lbaCnt - n, st.iovBase,
      if st.lbaCnt - n ≤ n then (st.lbaCnt - n) * c.dev.geo.blockSize % 2 ^ 64 else st.iovLen⟩
      (min (st.lbaCnt - n) n) := by
  have hrange := hc.le
  have hsum := h.left
  have hle := h.le
  have hpos := h.pos
  have hlen : (if st.lbaCnt - n ≤ n then (st.lbaCnt - n) * c.dev.geo.blockSize % 2 ^ 64
      else st.iovLen) = min (st.lbaCnt - n) n * c.dev.geo.blockSize := by
    split
    · rename_i hlast
      rw [Nat.min_eq_left hlast,
        Nat.mod_eq_of_lt ((hd.bytes_lt (by omega)).trans (by norm_num))]
    · rename_i hnext
      rw [Nat.min_eq_right (by omega), h.len]
  refine ⟨?_, ?_, ?_, hlen, ?_⟩
  · change st.curLba + n + (st.lbaCnt - n) = _
    omega
  · omega
  · exact Nat.min_le_left _ _
  · have hload := h.load
    rw [h.len, ← hblock] at hload
    change mem.load st.iovBase _ = _
    rw [hlen, ← hblock]
    exact load_copies hload (Nat.min_le_right _ _)

/-- **The callback** of a write that succeeded goes on to the next one or completes the command. -/
theorem wp_handleWritesameCbk_ok (hc : c.SameAccepted) (hd : c.dev.geo.Sized)
    (hblock : block.length = c.dev.geo.blockSize) (hjobs : s.jobs = [])
    (hpiece : c.SamePiece block s.mem st n) (hgoing : c.SameGoing block (st.curLba + n) s.log)
    (hbacks : lbaOf c.cdb + backs s.log ≤ st.curLba + n) :
    Prog.wp (xferInterp c) (fun _ _ => True) (fun _ _ => False) (handleWritesameCbk c st .ok)
      (fun _ t => t.Stands (c.SameUnder block) fun _ => c.SameEnded block) s := by
  have hrange := hc.le
  have hsum := hpiece.left
  have hle := hpiece.le
  have hcnt := xferLengthOf_lt c.cdb
  have hnum : c.dev.geo.numLbas < 2 ^ 63 :=
    (Nat.le_mul_of_pos_right _ hd.blockSize_pos).trans_lt hd.size_lt
  have hlbas : st.iovLen / c.dev.geo.blockSize = n := by
    rw [hpiece.len, Nat.mul_div_cancel _ hd.blockSize_pos]
  have hcur : (st.curLba + n) % 2 ^ 64 = st.curLba + n := Nat.mod_eq_of_lt (by omega)
  rw [handleWritesameCbk]
  dsimp only
  rw [hlbas, hcur, sub64_eq hle (by omega), if_neg (by simp)]
  split
  · rename_i hleft
    have hend : st.curLba + n = lbaOf c.cdb + xferLengthOf c.cdb := by omega
    rw [hend] at hgoing
    exact wp_sameFinish hjobs (Or.inl ⟨s.log, hgoing, rfl⟩)
  · rename_i hleft
    refine Prog.wp_bind.mpr ?_
    refine wp_sameNext hc hd hjobs (hpiece.next hc hd hblock hleft) hgoing hbacks
      (fun t ht => ?_) (fun sts t _ hasync ht hended => ?_)
    · rw [if_neg (by simp)]
      exact ht
    · rw [if_pos hasync]
      exact wp_sameFinish ht (hended _ (by simp))

/-- The callback of a write that failed completes the command. -/
theorem wp_handleWritesameCbk_err {ret : TcmuSts} (hret : ret ≠ .ok) (hjobs : s.jobs = [])
    (hended : c.SameEnded block (s.log ++ [.complete ret])) :
    Prog.wp (xferInterp c) (fun _ _ => True) (fun _ _ => False) (handleWritesameCbk c st ret)
      (fun _ t => t.Stands (c.SameUnder block) fun _ => c.SameEnded block) s := by
  rw [handleWritesameCbk]
  dsimp only
  rw [if_pos hret]
  exact wp_sameFinish hjobs hended

/-- The command has not been handled yet. -/
theorem Request.sameGoing_nil (c : Request) (block : List UInt8) :
    c.SameGoing block (lbaOf c.cdb) [] :=
  ⟨⟨rfl, fun _ hx => absurd hx (by simp), Nat.le_add_right _ _⟩,
    clear_nil, rfl⟩

/-- The first write: as many blocks as fit, from a buffer that has been filled with copies of the
Data-Out buffer. -/
theorem Request.SameAccepted.first (hc : c.SameAccepted) (hd : c.dev.geo.Sized) (mem : Mem) {b : ℕ}
    (hfresh : c.Fresh b (min c.dev.geo.stepBytes
      (xferLengthOf c.cdb * c.dev.geo.blockSize % 2 ^ 64))) :
    let length := min c.dev.geo.stepBytes (xferLengthOf c.cdb * c.dev.geo.blockSize % 2 ^ 64)
    let mem' := mem.store b (List.replicate length 0)
    let block := mem'.load ((c.cmd.iovec.head?.map Iovec.base).getD 0) c.dev.geo.blockSize
    ∃ n, c.SamePiece (gather c.cmd.iov mem)
      (mem'.store b (List.replicate (length / c.dev.geo.blockSize) block).flatten)
      ⟨lbaOf c.cdb, xferLengthOf c.cdb, b, length⟩ n := by
  intro length mem' block
  obtain ⟨v, hiov, hhead, hvlen⟩ := block_of_handleWritesameCheck hc.check
  obtain ⟨k, hk, hstep⟩ := hd.stepBytes_eq
  have hcnt := (handleWritesameCheck_ok hc.check).1
  have hrange := hc.le
  have hbytes : xferLengthOf c.cdb * c.dev.geo.blockSize % 2 ^ 64 =
      xferLengthOf c.cdb * c.dev.geo.blockSize :=
    Nat.mod_eq_of_lt ((hd.bytes_lt (by omega)).trans (by norm_num))
  have hlength : length = min k (xferLengthOf c.cdb) * c.dev.geo.blockSize := by
    change min _ _ = _
    rw [hbytes, hstep, Nat.mul_min_mul_right]
  have hdiv : length / c.dev.geo.blockSize = min k (xferLengthOf c.cdb) := by
    rw [hlength, Nat.mul_div_cancel _ hd.blockSize_pos]
  -- clearing the buffer has not changed the Data-Out buffer
  have hblock : block = gather c.cmd.iov mem := by
    have hdisjoint := hfresh v (by rw [hiov]; exact List.mem_singleton_self v)
    change mem'.load _ _ = _
    rw [hhead, hiov, gather_cons, hvlen]
    change (mem.store b (List.replicate length 0)).load v.base c.dev.geo.blockSize = _ ++ []
    rw [List.append_nil]
    refine Mem.load_store_of_disjoint _ ?_
    rw [List.length_replicate]
    omega
  have hlen : (gather c.cmd.iov mem).length = c.dev.geo.blockSize := by
    rw [← hblock, Mem.length_load]
  refine ⟨min k (xferLengthOf c.cdb), rfl, by omega, Nat.min_le_right _ _, hlength, ?_⟩
  rw [hdiv, hblock]
  refine Mem.load_store _ _ ?_
  change (copies _ _).length = length
  rw [length_copies, hlen, hlength]

/-- **The handler.** -/
theorem wp_handleWritesame (hc : c.SameAccepted) (hd : c.dev.geo.Sized) (mem : Mem)
    (f : Formatting) :
    Prog.wp (xferInterp c) (fun _ _ => True) (fun _ _ => False) (answer (handleWritesame c))
      (fun _ t => t.Stands (c.SameUnder (gather c.cmd.iov mem))
        fun _ => c.SameEnded (gather c.cmd.iov mem)) (Xfer.init mem f) := by
  have hnil := c.sameGoing_nil (gather c.cmd.iov mem)
  have hnomem : c.SameEnded (gather c.cmd.iov mem) [.nomem, .complete .noResource] :=
    hnil.ended (hnil.upTo.concat (x := .nomem) rfl trivial) rfl rfl (by simp)
  refine wp_answer ?_
  rw [handleWritesame]
  dsimp only
  rw [if_neg (by simp [hc.check]), if_neg (by simp [hc.writes])]
  refine Prog.wp_bind.mpr (wp_alloc ?_ ?_)
  · rw [if_neg (by simp), roundUp_stepBytes hd.xferBytes_ne_zero]
    refine Prog.wp_bind.mpr (Prog.wp_bind.mpr (wp_calloc (fun b hfresh => ?_) ?_))
    · intro a _ r t ht
      obtain ⟨rfl, rfl⟩ := Prod.mk.inj (Option.some.inj ht)
      intro a _ r t ht
      obtain ⟨-, rfl⟩ := Prod.mk.inj (Option.some.inj ht)
      obtain ⟨n, hpiece⟩ := hc.first hd mem hfresh
      refine wp_sameNext hc hd rfl hpiece hnil le_rfl
        (fun t ht => ⟨fun _ => ht, fun h => absurd rfl h⟩) ?_
      intro sts t hsts hasync hjobs hended
      exact ⟨fun h => absurd h hasync, fun _ => Or.inr ⟨hjobs, hended sts hsts⟩⟩
    · exact ⟨fun h => absurd h (by simp), fun _ => Or.inr ⟨rfl, hnomem⟩⟩
  · exact ⟨fun h => absurd h (by simp), fun _ => Or.inr ⟨rfl, hnomem⟩⟩

/-- **Whole commands**: one write after the other. -/
theorem oneByOne_handleWritesame (hc : c.SameAccepted) (hd : c.dev.geo.Sized) (mem : Mem)
    (f : Formatting) : OneByOne c (handleWritesame c) mem f (c.SameUnder (gather c.cmd.iov mem))
      fun _ => c.SameEnded (gather c.cmd.iov mem) := by
  obtain ⟨v, hiov, -, hvlen⟩ := block_of_handleWritesameCheck hc.check
  have hblock : (gather c.cmd.iov mem).length = c.dev.geo.blockSize := by
    rw [length_gather, hiov, ← hvlen]
    exact Nat.add_zero _
  refine ⟨wp_handleWritesame hc hd mem f, ?_, ?_, ?_, ?_⟩
  · rintro _ m _ l ⟨st, n, rfl, hpiece, hgoing, hbacks⟩
    exact ⟨rfl, hc.defined, st, n, rfl, hpiece,
      hgoing.concat (hgoing.upTo.call hpiece hc hd true) rfl rfl, by rwa [backs_call]⟩
  · rintro _ e s l hjobs ⟨st, n, rfl, hpiece, hgoing, -⟩ hlog
    refine wp_handleWritesameCbk_err e.ne_ok hjobs ?_
    rw [hlog]
    exact hgoing.ended (hgoing.upTo.call hpiece hc hd false) rfl rfl e.ne_ok
  · rintro _ m _ l a bs ⟨st, n, rfl, -, -, -⟩ htakes
    exact absurd htakes (by simp [Job.callout, Callout.takes])
  · rintro _ ret s l hjobs ⟨st, n, rfl, hpiece, hgoing, hbacks⟩ hlog
    have hpos := hpiece.pos
    have hback := hgoing.upTo.concat (x := .back _ _ ret) rfl (hpiece.same hc hd)
    by_cases hret : ret = .ok
    · subst hret
      refine wp_handleWritesameCbk_ok hc hd hblock hjobs hpiece ?_ ?_
      · rw [hlog]
        exact hgoing.concat hback rfl rfl
      · rw [hlog, backs_back]
        omega
    · refine wp_handleWritesameCbk_err hret hjobs ?_
      rw [hlog]
      exact hgoing.ended hback (decide_eq_true hret) rfl hret

end Programs

/-! ### Main result -/

/-- The writes of a `WRITE SAME` cover its range. -/
structure Request.SameCovered (c : Request) (mem : Mem) (s : Xfer) : Prop where
  /-- The daemon is up. -/
  up : s.fault = none
  /-- Nothing is called but `write`, with copies of the Data-Out buffer. -/
  same : ∀ x ∈ s.log, x.Same c (gather c.cmd.iov mem)
  /-- The writes begin at the start of the range, follow each other, and stay inside. -/
  tiles : ∃ cur ≤ lbaOf c.cdb + xferLengthOf c.cdb,
    Tiles (lbaOf c.cdb * c.dev.geo.blockSize) (cur * c.dev.geo.blockSize) (writes s.log)
  /-- There are not more of them than blocks. -/
  count : (writes s.log).length ≤ xferLengthOf c.cdb
  /-- After a failure there are none. -/
  stops : StopsAtFailure s.log
  /-- While a sub-command is under way nothing has failed, and the command is not completed. -/
  under : s.jobs ≠ [] → s.jobs.length = 1 ∧ Clear s.log ∧ completions s.log = []
  /-- As long as nothing has failed the command can come to an end. -/
  ends : Clear s.log → ∃ es t, run (xferStep c (handleWritesame c)) s es = some t ∧
    t.begun = true ∧ t.jobs = [] ∧ Clear t.log
  /-- When it ends and nothing has failed, all blocks are written. -/
  ok : s.begun = true → s.jobs = [] → Clear s.log → completions s.log = [.ok] ∧
    Tiles (lbaOf c.cdb * c.dev.geo.blockSize)
      ((lbaOf c.cdb + xferLengthOf c.cdb) * c.dev.geo.blockSize) (writes s.log)
  /-- When it ends and something has failed, its status is an error. -/
  failed : s.begun = true → s.jobs = [] → ¬ Clear s.log →
    ∃ sts, sts ≠ .ok ∧ completions s.log = [sts]

section Main

variable {c : Request} {block : List UInt8} {cur : ℕ} {l : List Happening}

/-- Every write is a block at least. -/
theorem Request.SameUpTo.count (h : c.SameUpTo block cur l) (hd : c.dev.geo.Sized) :
    (writes l).length ≤ xferLengthOf c.cdb := by
  have hmin : ∀ p ∈ writes l, c.dev.geo.blockSize ≤ p.2 := by
    intro p hp
    obtain ⟨x, hx, hxp⟩ := List.mem_filterMap.mp hp
    cases x with
    | call co data accepted =>
      obtain ⟨lba, n, iov, hpos, -, rfl⟩ := h.same _ hx
      rw [← Option.some.inj hxp]
      exact Nat.le_mul_of_pos_left _ hpos
    | _ => exact absurd hxp (by simp [Happening.write?])
  have hle := h.tiles.length_mul_le hmin
  have hcur := Nat.mul_le_mul_right c.dev.geo.blockSize h.le
  rw [Nat.add_mul] at hcur
  exact Nat.le_of_mul_le_mul_right (by omega) hd.blockSize_pos

theorem Request.SameUpTo.complete (h : c.SameUpTo block cur l) (sts : TcmuSts) :
    c.SameUpTo block cur (l ++ [.complete sts]) := h.concat rfl trivial

/-- What is written when a command has ended, and how it is completed. -/
theorem Request.SameEnded.cases (h : c.SameEnded block l) :
    (∃ cur, c.SameUpTo block cur l) ∧ StopsAtFailure l ∧
      (Clear l → completions l = [.ok] ∧
        c.SameUpTo block (lbaOf c.cdb + xferLengthOf c.cdb) l) ∧
      (¬ Clear l → ∃ sts, sts ≠ .ok ∧ completions l = [sts]) := by
  rcases h with ⟨l₀, hl, rfl⟩ | ⟨l₀, cur, cur', x, sts, hl, hupTo, hx, hopen, hsts, rfl⟩
  · have hclear : Clear (l₀ ++ [.complete .ok]) := hl.clear.concat rfl
    refine ⟨⟨_, hl.upTo.complete _⟩, ?_, fun _ => ⟨?_, hl.upTo.complete _⟩,
      fun h => absurd hclear h⟩
    · exact hl.clear.stopsAtFailure_append (by decide)
    · rw [completions_append, hl.open_]
      rfl
  · have hnot : ¬ Clear (l₀ ++ [x, .complete sts]) := by
      intro hclear
      rw [hclear x (by simp)] at hx
      exact absurd hx (by simp)
    refine ⟨⟨cur', ?_⟩, ?_, fun h => absurd h hnot, fun _ => ⟨sts, hsts, ?_⟩⟩
    · have := hupTo.complete sts
      rw [List.append_assoc] at this
      exact this
    · refine hl.clear.stopsAtFailure_append (List.pairwise_pair.mpr fun _ => rfl)
    · have hnil : completions [x, .complete sts] = [sts] := by
        rw [completions, List.filterMap_cons_none hopen]
        rfl
      rw [completions_append, hl.open_, hnil]
      rfl

/-- **`WRITE SAME` covers its range exactly.** An accepted command, executed by writing, writes the
block in the Data-Out buffer to every block of its range, once, in order, and nowhere else, and
completes; if something fails, nothing more is written and the status is an error. -/
theorem writesame_covers {mem : Mem} {f : Formatting} {es : List XferEvent} {s : Xfer}
    (hc : c.SameAccepted) (hd : c.dev.geo.Sized)
    (hrun : run (xferStep c (handleWritesame c)) (Xfer.init mem f) es = some s) :
    c.SameCovered mem s := by
  have hone := oneByOne_handleWritesame hc hd mem f
  have hbound : ∀ {b j m g l}, c.SameUnder (gather c.cmd.iov mem) b j m g l →
      backs l < xferLengthOf c.cdb := by
    rintro b j m g l ⟨st, n, -, hpiece, -, hbacks⟩
    have hsum := hpiece.left
    have hle := hpiece.le
    have hpos := hpiece.pos
    omega
  have hends := fun hclear => hone.ends_clear hbound (hone.run hrun) hclear
  rcases hone.run hrun with rfl | hs
  · have hnil := (c.sameGoing_nil (gather c.cmd.iov mem)).upTo
    exact ⟨rfl, hnil.same, ⟨_, hnil.le, hnil.tiles⟩, Nat.zero_le _, List.Pairwise.nil,
      fun h => absurd rfl h, hends, fun h => absurd h (by simp [Xfer.init]),
      fun h => absurd h (by simp [Xfer.init])⟩
  · obtain ⟨hfault, hbegun, hstands⟩ := hs
    rcases hstands with ⟨b, j, hjobs, st, n, -, hpiece, hgoing, -⟩ | ⟨hjobs, hended⟩
    · refine ⟨hfault, hgoing.upTo.same, ⟨_, hgoing.upTo.le, hgoing.upTo.tiles⟩,
        hgoing.upTo.count hd, ?_, fun _ => ⟨?_, hgoing.clear, hgoing.open_⟩, hends, ?_, ?_⟩
      · have hstops := hgoing.clear.stopsAtFailure_append List.Pairwise.nil
        rwa [List.append_nil] at hstops
      · rw [hjobs]
        rfl
      · exact fun _ hnil => absurd (hjobs.symm.trans hnil) (by simp)
      · exact fun _ hnil => absurd (hjobs.symm.trans hnil) (by simp)
    · obtain ⟨⟨cur, hupTo⟩, hstops, hok, hfailed⟩ := hended.cases
      exact ⟨hfault, hupTo.same, ⟨cur, hupTo.le, hupTo.tiles⟩, hupTo.count hd, hstops,
        fun h => absurd hjobs h, hends, fun _ _ hclear => ⟨(hok hclear).1, (hok hclear).2.tiles⟩,
        fun _ _ => hfailed⟩

end Main

/-- `WRITE SAME(10)` of 5000 blocks from block 1 on. -/
def sameLong : Request :=
  { smallRequest allocHandler [0x41, 0, 0, 0, 0, 1, 0, 0x13, 0x88, 0] ⟨0x2000, 512⟩ with
    dev := ⟨0, ⟨512, 8192, 128, 128, 0⟩, allocHandler, none⟩ }

/-- It is queued, and accepted and called back three times. -/
def sameLongRun : List XferEvent :=
  [.start fun _ => sameLong.smooth, .work 0 fun _ => sameLong.smooth,
    .done 0 .ok fun _ => sameLong.smooth, .work 0 fun _ => sameLong.smooth,
    .done 0 .ok fun _ => sameLong.smooth, .work 0 fun _ => sameLong.smooth,
    .done 0 .ok fun _ => sameLong.smooth]

/-- Two writes of 2048 blocks and one of 904, and the command ends. -/
theorem writesame_covers_long : ∃ s,
    run (xferStep sameLong (handleWritesame sameLong)) (Xfer.init (fun _ => 7) ⟨false, 0⟩)
        sameLongRun = some s ∧
      s.begun = true ∧ s.jobs = [] ∧
      writes s.log = [(512, 1048576), (1049088, 1048576), (2097664, 462848)] ∧
      sameLong.SameCovered (fun _ => 7) s := by
  have hend : (run (xferStep sameLong (handleWritesame sameLong))
      (Xfer.init (fun _ => 7) ⟨false, 0⟩) sameLongRun).map
        (fun s => (s.begun, s.jobs, writes s.log)) =
      some (true, [], [(512, 1048576), (1049088, 1048576), (2097664, 462848)]) := by
    decide +kernel
  obtain ⟨s, hs, hproj⟩ := Option.map_eq_some_iff.mp hend
  obtain ⟨hbegun, hrest⟩ := Prod.mk.inj hproj
  obtain ⟨hjobs, hwrites⟩ := Prod.mk.inj hrest
  exact ⟨s, hs, hbegun, hjobs, hwrites, writesame_covers ⟨by decide, by decide, by decide⟩
    ⟨by decide, by decide, by decide⟩ hs⟩

end Tcmu

end LioProject
