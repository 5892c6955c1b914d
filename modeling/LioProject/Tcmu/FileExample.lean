import LioProject.Lib.Disk
import LioProject.Tcmu.Scatter

/-!
# The file handler

`file_read` and `file_write` of `file_example.c`. Both call the kernel (`preadv`, `pwritev`) until
everything has been transferred. A call may transfer less than it is asked to, and then
`tcmu_seek_in_iovec` takes what it did transfer off the scatter list. It leaves empty entries in
front, and the next call gets the same array and the same count, empty entries and all.

What a call returns is up to the kernel. A schedule says what the `k`-th call returns if `n` bytes
can be transferred; `Transfers` is what POSIX promises about it. Offsets are natural numbers: a
file ends before `off_t` does, and calls that would go past that fail.
-/

namespace LioProject

namespace Tcmu

/-! ### The handler -/

/-- The backing file and the memory of the process. -/
structure FileIo where
  /-- The bytes of the file. -/
  file : List UInt8
  /-- The memory. -/
  mem : Mem

/-- What a schedule says about the `k`-th call when `n` bytes can be transferred: a number of
bytes, or a negative number for a failure. -/
abbrev Schedule := ℕ → ℕ → ℤ

/-- A call transfers at least one byte if it can transfer any, and never more than it can. -/
def Transfers (schedule : Schedule) : Prop :=
  ∀ k n, 0 ≤ schedule k n ∧ schedule k n ≤ n ∧ (0 < n → 0 < schedule k n)

/-- `preadv`: the bytes of the file from `offset` on, as many as there are and as the entries
take. -/
def preadv (schedule : Schedule) (k : ℕ) (s : FileIo) (iov : List Iovec) (offset : ℕ) :
    ℤ × FileIo :=
  let ret := schedule k (min (iovTotal iov) (s.file.length - offset))
  (ret, { s with mem := scatter s.mem iov (slice s.file offset ret.toNat) })

/-- `pwritev`: the bytes of the entries, into the file from `offset` on. -/
def pwritev (schedule : Schedule) (k : ℕ) (s : FileIo) (iov : List Iovec) (offset : ℕ) :
    ℤ × FileIo :=
  let ret := schedule k (iovTotal iov)
  (ret, { s with file := writeAt 0 s.file offset ((gather iov s.mem).take ret.toNat) })

/-- The loop of `file_read`, from the `k`-th call on. The result is the `ret` that `cmd->done`
gets, and `none` when the loop has none. -/
def fileReadLoop (schedule : Schedule) (iovCnt : ℕ) :
    ℕ → ℕ → FileIo → List Iovec → ℕ → ℕ → Option (TcmuSts × FileIo)
  | 0, _, _, _, _, _ => none
  | fuel + 1, k, s, iov, remaining, offset =>
    if remaining = 0 then some (.ok, s)
    else
      let r := preadv schedule k s (iov.take iovCnt) offset
      if r.1 < 0 then some (.rdErr, s)
      -- "EOF, then zeros the iovecs left"
      else if r.1 = 0 then some (.ok, { r.2 with mem := tcmuZeroIovec r.2.mem (iov.take iovCnt) })
      else
        fileReadLoop schedule iovCnt fuel (k + 1) r.2 (tcmuSeekInIovec iov r.1.toNat).1
          ((remaining + 2 ^ 64 - r.1.toNat) % 2 ^ 64) (offset + r.1.toNat)

/-- `file_read`: the result that `cmd->done` gets, and what it returns itself. Every turn of the
loop transfers a byte, so `length` turns and one more are enough. -/
def fileRead (schedule : Schedule) (s : FileIo) (iov : List Iovec) (iovCnt length offset : ℕ) :
    Option (TcmuSts × TcmuSts × FileIo) :=
  (fileReadLoop schedule iovCnt (length + 1) 0 s iov length offset).map fun r => (r.1, .ok, r.2)

/-- The loop of `file_write`. -/
def fileWriteLoop (schedule : Schedule) (iovCnt : ℕ) :
    ℕ → ℕ → FileIo → List Iovec → ℕ → ℕ → Option (TcmuSts × FileIo)
  | 0, _, _, _, _, _ => none
  | fuel + 1, k, s, iov, remaining, offset =>
    if remaining = 0 then some (.ok, s)
    else
      let r := pwritev schedule k s (iov.take iovCnt) offset
      if r.1 < 0 then some (.wrErr, s)
      else
        fileWriteLoop schedule iovCnt fuel (k + 1) r.2 (tcmuSeekInIovec iov r.1.toNat).1
          ((remaining + 2 ^ 64 - r.1.toNat) % 2 ^ 64) (offset + r.1.toNat)

/-- `file_write`. -/
def fileWrite (schedule : Schedule) (s : FileIo) (iov : List Iovec) (iovCnt length offset : ℕ) :
    Option (TcmuSts × TcmuSts × FileIo) :=
  (fileWriteLoop schedule iovCnt (length + 1) 0 s iov length offset).map fun r => (r.1, .ok, r.2)

/-! ### The loops -/

section Loops

variable {schedule : Schedule} {iovCnt : ℕ} {iov : List Iovec} {s : FileIo}

/-- The result of a call that can transfer something, as a number of bytes. -/
theorem Transfers.exists_nat (h : Transfers schedule) (k n : ℕ) :
    ∃ m : ℕ, schedule k n = m ∧ m ≤ n ∧ (0 < n → 0 < m) := by
  obtain ⟨h0, hle, hpos⟩ := h k n
  obtain ⟨m, hm⟩ := Int.eq_ofNat_of_zero_le h0
  refine ⟨m, hm, ?_, fun hn => ?_⟩
  · omega
  · have := hpos hn
    omega

/-- What is left after a call is what the next call is asked for. -/
theorem iovTotal_take_seek {n : ℕ} (h : n ≤ iovTotal (iov.take iovCnt)) :
    iovTotal ((tcmuSeekInIovec iov n).1.take iovCnt) = iovTotal (iov.take iovCnt) - n := by
  rw [take_tcmuSeekInIovec h, iovTotal_tcmuSeekInIovec]

/-- **The read loop fills the entries**, wherever in the transfer it is: with the bytes of the file
that remain, and zeros behind its end. -/
theorem fileReadLoop_eq (h : Transfers schedule) {fuel k remaining offset : ℕ}
    (htotal : iovTotal (iov.take iovCnt) = remaining) (h64 : remaining < 2 ^ 64)
    (hfuel : remaining < fuel) :
    fileReadLoop schedule iovCnt fuel k s iov remaining offset =
      some (.ok, { s with
        mem := scatter s.mem (iov.take iovCnt) (padded 0 s.file offset remaining) }) := by
  induction fuel generalizing k s iov remaining offset with
  | zero => exact absurd hfuel (Nat.not_lt_zero _)
  | succ fuel ih =>
    rw [fileReadLoop]
    split
    · rename_i hzero
      rw [hzero, padded, List.range_zero, List.map_nil, scatter_nil]
    · obtain ⟨m, hm, hle, hpos⟩ :=
        h.exists_nat k (min (iovTotal (iov.take iovCnt)) (s.file.length - offset))
      simp only [preadv, hm, Int.toNat_natCast]
      rw [if_neg (by omega)]
      split
      · -- the end of the file: nothing but zeros from here on
        rename_i hzero
        have hend : s.file.length ≤ offset := by omega
        obtain rfl : m = 0 := by omega
        rw [slice, List.take_zero, scatter_nil, tcmuZeroIovec_eq_scatter, htotal,
          padded_of_length_le 0 hend]
      · rename_i hne
        have hslice : (slice s.file offset m).length = m := length_slice (by omega)
        have hleft : (remaining + 2 ^ 64 - m) % 2 ^ 64 = remaining - m := by omega
        have hseek : iovTotal ((tcmuSeekInIovec iov m).1.take iovCnt) = remaining - m := by
          rw [iovTotal_take_seek (by omega), htotal]
        have hsplit : padded 0 s.file offset remaining
            = slice s.file offset m ++ padded 0 s.file (offset + m) (remaining - m) := by
          rw [← padded_eq_slice 0 (by omega), ← padded_add, Nat.add_sub_cancel' (by omega)]
        have hfill := scatter_tcmuSeekInIovec s.mem
          (padded 0 s.file (offset + m) (remaining - m))
          (show (slice s.file offset m).length ≤ iovTotal (iov.take iovCnt) by omega)
        rw [hslice] at hfill
        rw [hleft, ih hseek (by omega) (by omega), take_tcmuSeekInIovec (by omega), hfill, hsplit]

/-- **The write loop writes the entries**, wherever in the transfer it is. -/
theorem fileWriteLoop_eq (h : Transfers schedule) {fuel k remaining offset : ℕ}
    (htotal : iovTotal (iov.take iovCnt) = remaining) (h64 : remaining < 2 ^ 64)
    (hfuel : remaining < fuel) :
    fileWriteLoop schedule iovCnt fuel k s iov remaining offset =
      some (.ok, { s with
        file := writeAt 0 s.file offset (gather (iov.take iovCnt) s.mem) }) := by
  induction fuel generalizing k s iov remaining offset with
  | zero => exact absurd hfuel (Nat.not_lt_zero _)
  | succ fuel ih =>
    have hgather := length_gather (iov.take iovCnt) s.mem
    rw [fileWriteLoop]
    split
    · rename_i hzero
      rw [List.length_eq_zero_iff.mp (hgather.trans (htotal.trans hzero)), writeAt_nil]
    · rename_i hne
      obtain ⟨m, hm, hle, hpos⟩ := h.exists_nat k (iovTotal (iov.take iovCnt))
      have hm0 : 0 < m := hpos (by omega)
      simp only [pwritev, hm, Int.toNat_natCast]
      rw [if_neg (by omega)]
      have hleft : (remaining + 2 ^ 64 - m) % 2 ^ 64 = remaining - m := by omega
      have hseek : iovTotal ((tcmuSeekInIovec iov m).1.take iovCnt) = remaining - m := by
        rw [iovTotal_take_seek hle, htotal]
      have htake : ((gather (iov.take iovCnt) s.mem).take m).length = m := by
        rw [List.length_take]
        omega
      have hwrite := writeAt_append 0 s.file offset ((gather (iov.take iovCnt) s.mem).take m)
        ((gather (iov.take iovCnt) s.mem).drop m)
      rw [List.take_append_drop, htake] at hwrite
      rw [hleft, ih hseek (by omega) (by omega), take_tcmuSeekInIovec hle, gather_tcmuSeekInIovec,
        hwrite]

end Loops

/-! ### Whole transfers -/

/-- **Reads and writes are exact under short transfers.** However the kernel splits a transfer,
`file_read` completes the command with success and leaves in the memory of the scatter list the
bytes of the file, with zeros for what is behind its end, and changes nothing else. `file_write`
completes with success, having written the bytes of the scatter list and nothing else.

If entries overlap, the last one that describes a byte decides about it, as in one transfer of
everything; if they do not, each contains what it has been filled with. -/
theorem file_io_exact {schedule : Schedule} (h : Transfers schedule) (s : FileIo)
    {iov : List Iovec} {iovCnt length : ℕ} (htotal : iovTotal (iov.take iovCnt) = length)
    (h64 : length < 2 ^ 64) (offset : ℕ) :
    (∃ mem, fileRead schedule s iov iovCnt length offset = some (.ok, .ok, ⟨s.file, mem⟩) ∧
        mem = scatter s.mem (iov.take iovCnt) (padded 0 s.file offset length) ∧
        ((iov.take iovCnt).Pairwise Iovec.Disjoint →
          gather (iov.take iovCnt) mem = padded 0 s.file offset length)) ∧
      ∃ file, fileWrite schedule s iov iovCnt length offset = some (.ok, .ok, ⟨file, s.mem⟩) ∧
        padded 0 file offset length = gather (iov.take iovCnt) s.mem ∧
        ∀ i, i < offset ∨ offset + length ≤ i → file.getD i 0 = s.file.getD i 0 := by
  have hgather := length_gather (iov.take iovCnt) s.mem
  refine ⟨⟨_, ?_, rfl, fun hdisjoint => ?_⟩,
    writeAt 0 s.file offset (gather (iov.take iovCnt) s.mem), ?_, ?_, fun i hi => ?_⟩
  · rw [fileRead, fileReadLoop_eq h htotal h64 (Nat.lt_succ_self _)]
    rfl
  · exact gather_scatter hdisjoint (by rw [length_padded, htotal])
  · rw [fileWrite, fileWriteLoop_eq h htotal h64 (Nat.lt_succ_self _)]
    rfl
  · refine List.ext_getElem (by rw [length_padded, hgather, htotal]) fun i hi hi' => ?_
    rw [length_padded] at hi
    simp only [padded, List.getElem_map, List.getElem_range]
    rw [getD_writeAt, if_pos (by omega), Nat.add_sub_cancel_left, List.getD_eq_getElem]
  · rw [getD_writeAt, if_neg (by omega)]

/-- One byte after the other. -/
def byteByByte : Schedule := fun _ n => min n 1

theorem transfers_byteByByte : Transfers byteByByte := by
  intro k n
  simp only [byteByByte]
  omega

/-- Four bytes in two entries, the last two of them behind the end of the file. -/
theorem file_io_exact_bytes :
    (∃ mem, fileRead byteByByte ⟨[1, 2, 3], fun _ => 7⟩ [⟨100, 3⟩, ⟨200, 1⟩] 2 4 1
        = some (.ok, .ok, ⟨[1, 2, 3], mem⟩) ∧
        gather [⟨100, 3⟩, ⟨200, 1⟩] mem = [2, 3, 0, 0]) ∧
      ∃ file, fileWrite byteByByte ⟨[1, 2, 3], fun _ => 7⟩ [⟨100, 3⟩, ⟨200, 1⟩] 2 4 1
          = some (.ok, .ok, ⟨file, fun _ => 7⟩) ∧
        padded 0 file 1 4 = [7, 7, 7, 7] := by
  obtain ⟨⟨mem, hread, -, hmem⟩, file, hwrite, hfile, -⟩ :=
    file_io_exact transfers_byteByByte ⟨[1, 2, 3], fun _ => 7⟩
      (show iovTotal ([⟨100, 3⟩, ⟨200, 1⟩].take 2) = 4 from rfl) (by decide) 1
  refine ⟨⟨mem, hread, hmem ?_⟩, file, hwrite, hfile⟩
  simp [Iovec.Disjoint]

end Tcmu

end LioProject
