import LioProject.Tcmu.Equipped
import Mathlib.Data.List.Perm.Basic

/-!
# Commands come to an end

The multi-step commands go on from callback to callback. Each callback looks at how much is left,
and hands on the next piece. The size of a piece comes from the geometry of the device: a product of
two `uint32_t`, rounded up, or a number of blocks from configfs. If it is zero, or less than a
block, a command makes no progress; and `FORMAT UNIT` counts blocks in a `uint32_t`, so that on a
large device it counts in circles.

A device is steady (`TcmuDev.Steady`) if none of this happens. Then every sub-command knows how many
more will follow it at most (`Job.left`), the number decreases from callback to callback, and there
is a bound on the events of every command (`commands_end_iff`).

## The measure

A sub-command that is queued weighs two for each sub-command that is to follow it, and two for its
own events (`jobWeight`): a work thread takes it, and the handler calls `done`. Operations weigh
what they add to the queue (`opWeight`). A program `Weighs` at most `n` if the weights of its
operations sum up to that, whatever the environment answers (`Prog.Spends`). So the bound is proved
program by program: a callback weighs less than the event that has led to it, and handling a command
weighs no more than `Life.left` says at first.

The other direction is about `FORMAT UNIT`. On a device that is not steady it divides by zero at
once, or it writes, and after the callback it is where it has been before: nothing has been counted,
or the count has gone round (`Device.Circles`). Such a command is led on for as long as one likes
(`formats_forever`).

## Main definitions

* `TcmuDev.Steady`: what has to be true of a device.
* `Job.left`: how many sub-commands are to follow.
* `Weighs`: a bound on what a program adds to the queue.
* `Request.Ends`: no division by zero, no endless loop, and a bound on the events.

## Main results

* `commands_end_iff`: all commands end if and only if all devices are steady.
* `format_divides_zeroDev`: a device that is not steady, and that `dev_added` accepts.
-/

namespace LioProject

namespace Tcmu

/-! ### Steady devices -/

/-- `max_xfer_length`, the number of bytes of a transfer in the types of the source. -/
def Device.xferBytes (d : Device) : ℕ := d.maxXferLen * d.blockSize % 2 ^ 32

/-- `round_up` of a megabyte to a multiple of `max_xfer_length`. -/
def Device.stepBytes (d : Device) : ℕ :=
  (1024 * 1024 + (d.xferBytes - 1)) % 2 ^ 64 / d.xferBytes * d.xferBytes % 2 ^ 64

/-- On the device, divisors are not zero, steps are not empty, and `FORMAT UNIT` can count the
blocks. -/
structure TcmuDev.Steady (d : TcmuDev) : Prop where
  /-- A transfer has some bytes. -/
  xfer : d.geo.xferBytes ≠ 0
  /-- A step is at least a block. -/
  step : d.handler.write = true → d.geo.numLbas ≠ 0 → d.geo.blockSize ≤ d.geo.stepBytes
  /-- The blocks can be counted in a `uint32_t`. -/
  count : d.handler.write = true → d.geo.numLbas < 2 ^ 32

/-! ### What is left of a command -/

/-- How many sub-commands can still follow. -/
def Job.left (c : Request) : Job → ℕ
  | .verifyWrite _ => 1
  | .cawRead _ => 1
  | .writesame s => s.lbaCnt
  | .xcopyRead s => 2 * s.lbaCnt + 1
  | .xcopyWrite s => 2 * s.lbaCnt
  | .format s => c.dev.geo.numLbas - s.doneBlocks
  | _ => 0

/-- The sub-command does a part of what is left, and not nothing. -/
def Job.Advances (c : Request) : Job → Prop
  | .writesame s => c.dev.handler.write = true →
      0 < s.iovLen / c.dev.geo.blockSize ∧ s.iovLen / c.dev.geo.blockSize ≤ s.lbaCnt ∧
        s.lbaCnt < 2 ^ 32
  | .xcopyRead s => 0 < s.copyLbas ∧ s.copyLbas ≤ s.lbaCnt ∧ s.lbaCnt < 2 ^ 32
  | .xcopyWrite s => 0 < s.copyLbas ∧ s.copyLbas ≤ s.lbaCnt ∧ s.lbaCnt < 2 ^ 32
  | .format s => c.dev.handler.write = true →
      s.doneBlocks + s.length / c.dev.geo.blockSize ≤ c.dev.geo.numLbas ∧
        (c.dev.geo.numLbas ≠ 0 → 0 < s.length / c.dev.geo.blockSize)
  | _ => True

/-- What a sub-command weighs, which is accepted or in the work queue: more than whatever becomes of
it. -/
def jobWeight (c : Request) (x : Bool × Job) : ℕ := 2 * x.2.left c + if x.1 then 1 else 2

theorem jobWeight_queued (c : Request) (j : Job) : jobWeight c (false, j) = 2 * j.left c + 2 := rfl

theorem jobWeight_accepted (c : Request) (j : Job) : jobWeight c (true, j) = 2 * j.left c + 1 := rfl

/-- What an operation adds to the sub-commands. -/
def opWeight (c : Request) : (o : Op) → Ans o → ℕ
  | .io j _, .queued _ => jobWeight c (true, j)
  | .io _ _, .failed _ => 0
  | .enqueue j, _ => jobWeight c (false, j)
  | _, _ => 0

/-- The operation hands on nothing but sub-commands that advance. -/
def OpAdvances (c : Request) : Op → Prop
  | .io j co => j.Advances c ∧ (j.callout c).defined = true ∧ co = j.callout c
  | .enqueue j => j.Advances c
  | _ => True

/-- A failure that is neither a division by zero nor an endless loop. -/
def Fault.Passing (f : Fault) : Prop := f ≠ .divByZero ∧ f ≠ .endless

/-- The program hands on nothing but sub-commands that advance, which weigh `n` at most, divides by
nothing that is zero, and its loops end. -/
def Weighs {α : Type} (c : Request) (p : Daemon α) (n : ℕ) (Q : α → Prop) : Prop :=
  p.Spends (OpAdvances c) (opWeight c) Fault.Passing n Q

section Weighs

variable {α β : Type} {c : Request} {n m : ℕ}

theorem weighs_pure {a : α} {Q : α → Prop} (h : Q a) : Weighs c (pure a : Daemon α) n Q :=
  Prog.spends_pure h

theorem weighs_fail {f : Fault} {Q : α → Prop} (h : f.Passing) :
    Weighs c (Prog.fail f : Daemon α) n Q := Prog.spends_fail h

/-- An operation that hands on no sub-command. -/
def Op.Light : Op → Prop
  | .io .. => False
  | .enqueue _ => False
  | _ => True

theorem Op.Light.advances {o : Op} (h : o.Light) : OpAdvances c o ∧ ∀ r, opWeight c o r = 0 := by
  cases o with
  | io => exact h.elim
  | enqueue => exact h.elim
  | _ => exact ⟨trivial, fun _ => rfl⟩

theorem weighs_light {o : Op} {f : Ans o → Daemon β} {Q : β → Prop} (h : o.Light)
    (hf : ∀ a, Weighs c (f a) n Q) : Weighs c (ask o >>= f) n Q := by
  have hask : Weighs c (ask o) 0 fun _ => True :=
    Prog.spends_ask h.advances.1 fun r => (h.advances.2 r).le
  have := Prog.spends_bind hask fun a _ => hf a
  rwa [Nat.zero_add] at this

theorem Weighs.mono {p : Daemon α} {Q R : α → Prop} (hp : Weighs c p n Q) (hnm : n ≤ m)
    (hQR : ∀ a, Q a → R a) : Weighs c p m R := Prog.spends_mono hp hnm hQR

theorem Weighs.bind {p : Daemon α} {f : α → Daemon β} {R : α → Prop} {Q : β → Prop}
    (hp : Weighs c p n R) (hf : ∀ a, R a → Weighs c (f a) m Q) : Weighs c (p >>= f) (n + m) Q :=
  Prog.spends_bind hp hf

/-- Quiet programs hand on nothing. -/
theorem Quiet.weighs {p : Daemon α} {Q : α → Prop} (h : Quiet c Fault.Passing p Q) :
    Weighs c p n Q := by
  refine Prog.spends_of_all h (fun o ho => Op.Light.advances ?_) n
  cases o with
  | io => exact ho.elim
  | enqueue => exact ho.elim
  | _ => trivial

/-- A quiet program in front of another. -/
theorem Quiet.weighs_bind {p : Daemon α} {f : α → Daemon β} {R : α → Prop} {Q : β → Prop}
    (h : Quiet c Fault.Passing p R) (hf : ∀ a, R a → Weighs c (f a) n Q) :
    Weighs c (p >>= f) n Q := by
  have := Weighs.bind (n := 0) h.weighs hf
  rwa [Nat.zero_add] at this

/-! ### Dispatching -/

theorem weighs_work {j : Job} (h : j.Advances c) :
    Weighs c (j.work c) (2 * j.left c + 1) fun _ => (j.callout c).defined = true := by
  rw [Job.work]
  split
  · rename_i hdefined
    refine ⟨⟨h, hdefined, rfl⟩, fun r => ⟨?_, hdefined⟩⟩
    cases r with
    | queued => exact le_rfl
    | failed => exact Nat.zero_le _
  · exact weighs_fail ⟨by simp, by simp⟩

theorem weighs_asyncHandleCmd {j : Job} (h : j.Advances c) :
    Weighs c (asyncHandleCmd c j) (2 * j.left c + 2) fun _ => True := by
  rw [asyncHandleCmd]
  split
  · refine (Weighs.bind (m := 0) (weighs_work h) fun r _ => ?_).mono (by omega) fun _ h => h
    cases r with
    | queued now =>
      simp only
      split
      · exact weighs_fail ⟨by simp, by simp⟩
      · exact weighs_pure trivial
    | failed e => exact weighs_pure trivial
  · refine weighs_light trivial fun a => ?_
    split
    · refine ⟨h, fun r => ⟨le_rfl, ?_⟩⟩
      exact weighs_pure trivial
    · exact weighs_pure trivial

/-- Dispatch the next sub-command, and then nothing more. -/
theorem weighs_dispatch {j : Job} {f : TcmuSts → Daemon β} {Q : β → Prop} (h : j.Advances c)
    (hn : 2 * j.left c + 2 ≤ n) (hf : ∀ r, Weighs c (f r) 0 Q) :
    Weighs c (asyncHandleCmd c j >>= f) n Q :=
  ((weighs_asyncHandleCmd h).bind fun r _ => hf r).mono hn fun _ h => h

theorem weighs_aioCommandFinish (ret : TcmuSts) :
    Weighs c (aioCommandFinish ret) n fun _ => True :=
  weighs_light trivial fun _ =>
    weighs_light (o := .trackFinish) trivial fun _ => weighs_pure trivial

theorem weighs_finishUnlessAsync (ret : TcmuSts) :
    Weighs c (finishUnlessAsync ret) n fun _ => True := by
  rw [finishUnlessAsync]
  split
  · exact weighs_pure trivial
  · exact weighs_aioCommandFinish _

/-! ### Callbacks -/

theorem weighs_handleUnmapCbk (ret : TcmuSts) :
    Weighs c (handleUnmapCbk ret) n fun _ => True := by
  refine weighs_light trivial fun s => ?_
  cases s with
  | none => exact weighs_fail ⟨by simp, by simp⟩
  | some s =>
    dsimp only
    generalize s.called ret = t
    split
    · exact weighs_light trivial fun _ => weighs_pure trivial
    · exact weighs_light trivial fun _ => weighs_aioCommandFinish _

/-- The next write of a `WRITE SAME` is as long as the last one, or all that is left. -/
theorem next_write {left w iovLen bs : ℕ} (hbs : 0 < bs) (hbs' : bs < 2 ^ 31) (hleft : 0 < left)
    (hlt : left < 2 ^ 32) (hw : iovLen / bs = w) (hpos : 0 < w) :
    0 < (if left ≤ w then left * bs % 2 ^ 64 else iovLen) / bs ∧
      (if left ≤ w then left * bs % 2 ^ 64 else iovLen) / bs ≤ left := by
  have hmul : left * bs < 2 ^ 64 :=
    (Nat.mul_lt_mul'' hlt hbs').trans (by norm_num)
  split
  · rw [Nat.mod_eq_of_lt hmul, Nat.mul_div_cancel _ hbs]
    exact ⟨hleft, le_rfl⟩
  · rw [hw]
    omega

theorem weighs_handleWritesameCbk {size : ℕ} (hd : c.dev.geo.Added size) {s : WriteSame}
    (h : (Job.writesame s).Advances c) (hwrite : c.dev.handler.write = true) (ret : TcmuSts) :
    Weighs c (handleWritesameCbk c s ret) (2 * s.lbaCnt) fun _ => True := by
  obtain ⟨hpos, hle, hlt⟩ := h hwrite
  rw [handleWritesameCbk]
  dsimp only
  rw [sub64_eq hle (by omega)]
  split
  · exact weighs_aioCommandFinish _
  · split
    · exact weighs_aioCommandFinish _
    · rename_i hleft
      refine weighs_dispatch (fun _ => ?_) ?_ fun rc => ?_
      · obtain ⟨hpos', hle'⟩ := next_write hd.blockSize_pos hd.blockSize_lt
          (Nat.pos_of_ne_zero hleft) (by omega) rfl hpos
        exact ⟨hpos', hle', (Nat.sub_le _ _).trans_lt hlt⟩
      · rw [Job.left]
        dsimp only
        omega
      · split
        · exact weighs_aioCommandFinish _
        · exact weighs_pure trivial

theorem weighs_handleWriteVerifyWriteCbk (s : WriteVerify) (ret : TcmuSts) :
    Weighs c (handleWriteVerifyWriteCbk c s ret) 2 fun _ => True := by
  rw [handleWriteVerifyWriteCbk]
  split
  · exact weighs_aioCommandFinish _
  · exact weighs_dispatch trivial le_rfl fun r => weighs_finishUnlessAsync r

theorem weighs_handleWriteVerifyReadCbk (s : WriteVerify) (ret : TcmuSts) :
    Weighs c (handleWriteVerifyReadCbk s ret) n fun _ => True := by
  rw [handleWriteVerifyReadCbk]
  split
  · exact weighs_aioCommandFinish _
  · refine weighs_light trivial fun mem => ?_
    split
    · exact weighs_aioCommandFinish _
    · exact weighs_light trivial fun _ => weighs_aioCommandFinish _

theorem weighs_cawFinish (ret : TcmuSts) : Weighs c (cawFinish ret) n fun _ => True :=
  weighs_light trivial fun _ => weighs_aioCommandFinish ret

theorem weighs_handleCawReadCbk (s : CawState) (ret : TcmuSts) :
    Weighs c (handleCawReadCbk c s ret) 2 fun _ => True := by
  rw [handleCawReadCbk]
  split
  · exact weighs_cawFinish _
  · refine weighs_light trivial fun mem => ?_
    split
    · exact weighs_light trivial fun _ => weighs_cawFinish _
    · refine weighs_dispatch trivial le_rfl fun r => ?_
      split
      · exact weighs_cawFinish _
      · exact weighs_pure trivial

theorem weighs_handleXcopyReadCbk {s : Xcopy} (h : (Job.xcopyRead s).Advances c) (ret : TcmuSts) :
    Weighs c (handleXcopyReadCbk c s ret) (2 * (Job.xcopyRead s).left c) fun _ => True := by
  rw [handleXcopyReadCbk]
  split
  · exact weighs_aioCommandFinish _
  · refine weighs_dispatch (j := .xcopyWrite s) h ?_ fun r => weighs_finishUnlessAsync r
    rw [Job.left, Job.left]
    omega

theorem weighs_handleXcopyWriteCbk {s : Xcopy} (h : (Job.xcopyWrite s).Advances c)
    (ret : TcmuSts) :
    Weighs c (handleXcopyWriteCbk c s ret) (2 * (Job.xcopyWrite s).left c) fun _ => True := by
  obtain ⟨hpos, hle, hlt⟩ := h
  rw [handleXcopyWriteCbk, sub32_eq hle hlt]
  split
  · exact weighs_aioCommandFinish _
  · split
    · exact weighs_aioCommandFinish _
    · rename_i hleft
      refine weighs_dispatch ⟨?_, ?_, ?_⟩ ?_ fun r => weighs_finishUnlessAsync r
      · dsimp only
        omega
      · exact min_le_left _ _
      · dsimp only
        omega
      · rw [Job.left, Job.left]
        dsimp only
        omega

theorem weighs_formatFinish (ret : TcmuSts) : Weighs c (formatFinish ret) n fun _ => True :=
  (quiet_modifyRdev _).weighs_bind fun _ _ => weighs_aioCommandFinish ret

/-- A piece of `len` bytes, or all that is left, has some blocks and not more than are left. -/
theorem piece_bounds {left len bs : ℕ} (hbs : 0 < bs) (hleft : 0 < left)
    (hlt : left * bs < 2 ^ 64) (hle : bs ≤ len) :
    0 < min (left * bs % 2 ^ 64) len / bs ∧ min (left * bs % 2 ^ 64) len / bs ≤ left := by
  rw [Nat.mod_eq_of_lt hlt]
  constructor
  · refine Nat.div_pos (le_min ?_ hle) hbs
    exact Nat.le_mul_of_pos_left bs hleft
  · calc min (left * bs) len / bs ≤ left * bs / bs := Nat.div_le_div_right (min_le_left _ _)
      _ = left := Nat.mul_div_cancel _ hbs

theorem weighs_handleFormatUnitCbk {size : ℕ} (hd : c.dev.geo.Added size) (hc : c.dev.Steady)
    {s : FormatUnit} (h : (Job.format s).Advances c) (hwrite : c.dev.handler.write = true)
    (ret : TcmuSts) :
    Weighs c (handleFormatUnitCbk c s ret) (2 * (Job.format s).left c) fun _ => True := by
  obtain ⟨hle, hpos⟩ := h hwrite
  have hcount := hc.count hwrite
  have hsize := hd.blocks_le
  have hsize_lt := hd.size_lt
  have hmod : (s.doneBlocks + s.length / c.dev.geo.blockSize) % 2 ^ 32 =
      s.doneBlocks + s.length / c.dev.geo.blockSize := Nat.mod_eq_of_lt (by omega)
  rw [handleFormatUnitCbk]
  dsimp only
  rw [hmod]
  split
  · exact weighs_formatFinish _
  · rename_i hdone
    split
    · rename_i hlt
      have hne : c.dev.geo.numLbas ≠ 0 := by omega
      have hleft : (c.dev.geo.numLbas - (s.doneBlocks + s.length / c.dev.geo.blockSize)) *
          c.dev.geo.blockSize < 2 ^ 64 := by
        have := Nat.mul_le_mul_right c.dev.geo.blockSize (Nat.sub_le c.dev.geo.numLbas
          (s.doneBlocks + s.length / c.dev.geo.blockSize))
        omega
      obtain ⟨hpos', hle'⟩ := piece_bounds hd.blockSize_pos (by omega) hleft
        (Nat.div_pos_iff.mp (hpos hne)).2
      rw [min_def_lt] at hpos' hle'
      refine (quiet_modifyRdev _).weighs_bind fun _ _ =>
        (quiet_allocIovec _).weighs_bind fun a _ => ?_
      cases a with
      | none => exact weighs_formatFinish _
      | some buf =>
        refine weighs_dispatch (fun _ => ⟨?_, fun _ => hpos'⟩) ?_ fun rc => ?_
        · dsimp only
          omega
        · rw [Job.left, Job.left]
          have := hpos hne
          dsimp only
          omega
        · split
          · exact weighs_formatFinish _
          · exact weighs_pure trivial
    · exact weighs_pure trivial

/-- **The callback of a sub-command** hands on less than what was left. -/
theorem weighs_done {size : ℕ} (hd : c.dev.geo.Added size) (hc : c.dev.Steady) {j : Job}
    (h : j.Advances c) (hdefined : (j.callout c).defined = true) (ret : TcmuSts) :
    Weighs c (j.done c ret) (2 * j.left c) fun _ => True := by
  cases j with
  | read => exact weighs_aioCommandFinish ret
  | write => exact weighs_aioCommandFinish ret
  | flush => exact weighs_aioCommandFinish ret
  | unmap => exact weighs_handleUnmapCbk ret
  | writesame => exact weighs_handleWritesameCbk hd h hdefined ret
  | verifyWrite => exact weighs_handleWriteVerifyWriteCbk _ ret
  | verifyRead => exact weighs_handleWriteVerifyReadCbk _ ret
  | cawRead => exact weighs_handleCawReadCbk _ ret
  | cawWrite => exact weighs_cawFinish ret
  | xcopyRead => exact weighs_handleXcopyReadCbk h ret
  | xcopyWrite => exact weighs_handleXcopyWriteCbk h ret
  | format => exact weighs_handleFormatUnitCbk hd hc h hdefined ret

/-- A work thread hands on less than what it took out of the queue. -/
theorem weighs_ioWork {size : ℕ} (hd : c.dev.geo.Added size) (hc : c.dev.Steady) {j : Job}
    (h : j.Advances c) : Weighs c (ioWork c j) (2 * j.left c + 1) fun _ => True := by
  rw [ioWork, Job.work]
  split
  · rename_i hdefined
    refine ⟨⟨h, hdefined, rfl⟩, fun r => ?_⟩
    cases r with
    | queued now => exact ⟨le_rfl, weighs_pure trivial⟩
    | failed e =>
      refine ⟨Nat.zero_le _, ?_⟩
      exact (weighs_done hd hc h hdefined _).mono (Nat.le_succ _) fun _ h => h
  · exact weighs_fail ⟨by simp, by simp⟩

/-! ### Handlers -/

theorem weighs_unmapPiece (offset length : ℕ) :
    Weighs c (asyncHandleCmd c (.unmap offset length)) 2 fun _ => True :=
  weighs_asyncHandleCmd (j := .unmap offset length) trivial

/-- The loop of `align_and_split_unmap` ends when pieces are not empty. Only the first piece can
be. -/
theorem weighs_splitUnmap (hgran : 0 < c.dev.geo.optUnmapGran) (fuel : ℕ) :
    ∀ lba nlbas lbas refcount ret, lbas ≤ nlbas →
      nlbas < fuel → (nlbas = 0 ∨ 0 < lbas ∨ nlbas + 1 < fuel) →
      Weighs c (splitUnmap c fuel lba nlbas lbas refcount ret) (2 * fuel) fun _ => True := by
  induction fuel with
  | zero => exact fun _ _ _ _ _ _ h => absurd h (by omega)
  | succ fuel ih =>
    intro lba nlbas lbas refcount ret hle hfuel hpiece
    rw [splitUnmap]
    split
    · exact weighs_pure trivial
    · rename_i hne
      refine weighs_light trivial fun a => ?_
      split
      · exact weighs_pure trivial
      · refine weighs_light trivial fun a => ?_
        split
        · exact weighs_pure trivial
        · refine (Weighs.bind (m := 2 * fuel) (weighs_unmapPiece _ _) fun r _ => ?_).mono
            (by omega) fun _ h => h
          split
          · exact weighs_pure trivial
          · exact ih _ _ _ _ _ (min_le_right _ _) (by omega) (by omega)

theorem weighs_alignAndSplitUnmap (hgran : 0 < c.dev.geo.optUnmapGran) (lba nlbas refcount : ℕ) :
    Weighs c (alignAndSplitUnmap c lba nlbas refcount) (2 * (nlbas + 2)) fun _ => True :=
  weighs_splitUnmap hgran _ _ _ _ _ _ (min_le_right _ _) (by omega) (by omega)

/-- What a block descriptor can lead to: it covers 2^25 blocks at most. -/
theorem weighs_unmapDescs (hgran : 0 < c.dev.geo.optUnmapGran) (mem : Mem) (k : ℕ) :
    ∀ a refcount ret, Weighs c (unmapDescs c mem k a refcount ret) (k * 2 ^ 27) fun _ => True := by
  induction k with
  | zero => exact fun _ _ _ => weighs_pure trivial
  | succ k ih =>
    intro a refcount ret
    rw [unmapDescs]
    dsimp only
    split
    · exact weighs_pure trivial
    · rename_i hmax
      split
      · exact weighs_pure trivial
      · split
        · exact (ih _ _ _).mono (by omega) fun _ h => h
        · refine (Weighs.bind (m := k * 2 ^ 27) (weighs_alignAndSplitUnmap hgran _ _ _)
            fun r _ => ?_).mono (by omega) fun _ h => h
          split
          · exact weighs_pure trivial
          · exact ih _ _ _

theorem weighs_handleUnmap (hgran : 0 < c.dev.geo.optUnmapGran) :
    Weighs c (handleUnmap c) (2 ^ 36) fun _ => True := by
  rw [handleUnmap]
  dsimp only
  split
  · exact weighs_pure trivial
  · split
    · exact weighs_pure trivial
    · split
      · exact weighs_pure trivial
      · refine weighs_light trivial fun par => ?_
        cases par with
        | none => exact weighs_pure trivial
        | some par =>
          dsimp only
          split
          · exact weighs_pure trivial
          · refine weighs_light trivial fun mem => ?_
            split
            · exact weighs_pure trivial
            · split
              · exact weighs_pure trivial
              · rename_i hfour
                refine quiet_unmapStateAlloc.weighs_bind fun a _ => ?_
                cases a with
                | some sts => exact weighs_pure trivial
                | none =>
                  refine (Weighs.bind (m := 0) (weighs_unmapDescs hgran _ _ _ _ _)
                    fun r _ => ?_).mono (by omega) fun _ h => h
                  dsimp only
                  split
                  · exact weighs_light trivial fun _ => weighs_pure trivial
                  · exact weighs_light trivial fun _ => weighs_pure trivial

theorem weighs_handleUnmapInWritesame (hgran : 0 < c.dev.geo.optUnmapGran) :
    Weighs c (handleUnmapInWritesame c) (2 ^ 36) fun _ => True := by
  have hlt := xferLengthOf_lt c.cdb
  refine quiet_unmapStateAlloc.weighs_bind fun a _ => ?_
  cases a with
  | some sts => exact weighs_pure trivial
  | none =>
    refine (Weighs.bind (m := 0) (weighs_alignAndSplitUnmap hgran _ _ _) fun r _ => ?_).mono
      (by omega) fun _ h => h
    dsimp only
    split
    · exact weighs_light trivial fun _ => weighs_pure trivial
    · exact weighs_light trivial fun _ => weighs_pure trivial

theorem quiet_roundUp_step (hc : c.dev.Steady) :
    Quiet c Fault.Passing
      (roundUp (1024 * 1024) (c.dev.geo.maxXferLen * c.dev.geo.blockSize % 2 ^ 32))
      fun length => length = c.dev.geo.stepBytes := by
  have hne : ¬ c.dev.geo.maxXferLen * c.dev.geo.blockSize % 2 ^ 32 = 0 := hc.xfer
  rw [roundUp, if_neg hne]
  exact quiet_pure rfl

theorem weighs_handleWritesame {size : ℕ} (hd : c.dev.geo.Added size) (hc : c.dev.Steady)
    (hgran : 0 < c.dev.geo.optUnmapGran) :
    Weighs c (handleWritesame c) (2 ^ 36) fun _ => True := by
  have hlt := xferLengthOf_lt c.cdb
  rw [handleWritesame]
  dsimp only
  split
  · exact weighs_pure trivial
  · rename_i hcheck
    split
    · exact weighs_handleUnmapInWritesame hgran
    · refine weighs_light trivial fun a => ?_
      split
      · exact weighs_pure trivial
      · refine (quiet_roundUp_step hc).weighs_bind fun length hlength =>
          weighs_light trivial fun buf => ?_
        cases buf with
        | none => exact weighs_pure trivial
        | some buf =>
          refine weighs_light trivial fun mem => weighs_light trivial fun _ => ?_
          refine Weighs.mono (weighs_asyncHandleCmd (j := .writesame _) fun hwrite => ?_) ?_
            fun _ h => h
          · obtain ⟨hcnt, hlbas⟩ := handleWritesameCheck_ok (not_not.mp hcheck)
            have hle := checkLbas_ok (lbaOf_lt c.cdb) (by omega) hlbas
            have hblocks := (Nat.mul_le_mul_right c.dev.geo.blockSize
              ((Nat.le_add_left _ _).trans hle)).trans hd.blocks_le
            have hsize := hd.size_lt
            have hbounds := piece_bounds hd.blockSize_pos (Nat.pos_of_ne_zero hcnt) (by omega)
              (hc.step hwrite (by omega))
            rw [min_comm] at hbounds
            exact ⟨hlength ▸ hbounds.1, hlength ▸ hbounds.2, hlt⟩
          · rw [Job.left]
            dsimp only
            omega

theorem weighs_handleFormatUnit {size : ℕ} (hd : c.dev.geo.Added size) (hc : c.dev.Steady) :
    Weighs c (handleFormatUnit c) (2 * c.dev.geo.numLbas + 2) fun _ => True := by
  refine weighs_light trivial fun r => ?_
  split
  · exact weighs_light trivial fun _ => weighs_pure trivial
  · refine weighs_light trivial fun _ => weighs_light trivial fun a => ?_
    split
    · exact (quiet_modifyRdev _).weighs_bind fun _ _ => weighs_pure trivial
    · refine weighs_light trivial fun a => ?_
      split
      · exact (quiet_modifyRdev _).weighs_bind fun _ _ => weighs_pure trivial
      · refine (quiet_roundUp_step hc).weighs_bind fun length hlength =>
          (quiet_allocIovec _).weighs_bind fun buf _ => ?_
        cases buf with
        | none => exact (quiet_modifyRdev _).weighs_bind fun _ _ => weighs_pure trivial
        | some buf =>
          refine weighs_dispatch (j := .format _) (fun hwrite => ?_) ?_ fun rc => ?_
          · have hblocks := hd.blocks_le
            have hsize := hd.size_lt
            rcases Nat.eq_zero_or_pos c.dev.geo.numLbas with hzero | hpos
            · refine ⟨?_, fun hne => absurd hzero hne⟩
              dsimp only
              rw [hzero, Nat.zero_mul, Nat.zero_mod, ← min_def_lt, Nat.zero_min, Nat.zero_div]
            · obtain ⟨hpos', hle⟩ := piece_bounds hd.blockSize_pos hpos (by omega)
                (hc.step hwrite hpos.ne')
              rw [min_def_lt, ← hlength] at hpos' hle
              exact ⟨by rwa [Nat.zero_add], fun _ => hpos'⟩
          · rw [Job.left]
            dsimp only
            omega
          · split
            · exact (quiet_modifyRdev _).weighs_bind fun _ _ => weighs_pure trivial
            · exact weighs_pure trivial

theorem weighs_handleWriteVerify : Weighs c (handleWriteVerify c) 4 fun _ => True := by
  rw [handleWriteVerify]
  split
  · exact weighs_pure trivial
  · refine (quiet_writeVerifyInit _).weighs_bind fun s _ => ?_
    cases s with
    | none => exact weighs_pure trivial
    | some s => exact weighs_asyncHandleCmd (j := .verifyWrite s) trivial

theorem weighs_handleCaw : Weighs c (handleCaw c) 4 fun _ => True := by
  rw [handleCaw]
  split
  · exact weighs_pure trivial
  · refine (quiet_cawInitReadcmd _).weighs_bind fun s _ => ?_
    cases s with
    | none => exact weighs_pure trivial
    | some s =>
      refine weighs_light trivial fun _ =>
        weighs_dispatch (j := .cawRead s) trivial le_rfl fun r => ?_
      dsimp only
      split
      · exact weighs_light trivial fun _ => weighs_pure trivial
      · exact weighs_pure trivial

/-- The devices that the parser finds are those of the context. -/
theorem quiet_xcopyParseParameterList :
    Quiet c Fault.Passing (xcopyParseParameterList c) fun r =>
      ∀ src dst x, r = .ok (src, dst, x) →
        src ∈ c.dev :: c.ctx ∧ dst ∈ c.dev :: c.ctx ∧ x.lbaCnt < 2 ^ 16 := by
  refine quiet_ask_bind trivial fun par => ?_
  cases par with
  | none => exact quiet_pure fun _ _ _ heq => absurd heq (by simp)
  | some par =>
    refine quiet_ask_bind trivial fun mem => ?_
    split
    · exact quiet_pure fun _ _ _ heq => absurd heq (by simp)
    · rename_i x hx
      obtain ⟨⟨hsrc, hdst⟩, -⟩ := known_parseList hx
      split
      · rename_i src dst hsrc' hdst'
        have hok : ∀ s d y, (Except.ok (src, dst, x) : Except TcmuSts _) = .ok (s, d, y) →
            s ∈ c.dev :: c.ctx ∧ d ∈ c.dev :: c.ctx ∧ y.lbaCnt < 2 ^ 16 := by
          rintro s d y heq
          obtain ⟨rfl, rfl, rfl⟩ : src = s ∧ dst = d ∧ x = y := by simpa using heq
          exact ⟨hsrc _ hsrc', hdst _ hdst', lbaCnt_lt_of_parseList hx⟩
        repeat' split
        · exact quiet_pure fun _ _ _ heq => absurd heq (by simp)
        · exact quiet_pure fun _ _ _ heq => absurd heq (by simp)
        · exact quiet_pure fun _ _ _ heq => absurd heq (by simp)
        · exact quiet_pure hok
      · exact Prog.all_fail ⟨by simp, by simp⟩

theorem weighs_handleXcopy (hmax : ∀ d ∈ c.dev :: c.ctx, 0 < d.geo.maxXferLen) :
    Weighs c (handleXcopy c) (2 ^ 36) fun _ => True := by
  rw [handleXcopy]
  dsimp only
  split
  · exact weighs_pure trivial
  · split
    · exact weighs_pure trivial
    · refine weighs_light trivial fun a => ?_
      split
      · exact weighs_pure trivial
      · refine quiet_xcopyParseParameterList.weighs_bind fun r hr => ?_
        rcases r with sts | ⟨src, dst, x⟩
        · exact weighs_pure trivial
        · obtain ⟨hsrc, hdst, hlt⟩ := hr src dst x rfl
          have hsrc := hmax src hsrc
          have hdst := hmax dst hdst
          dsimp only
          split
          · exact weighs_pure trivial
          · refine weighs_light trivial fun buf => ?_
            cases buf with
            | none => exact weighs_pure trivial
            | some buf =>
              refine Weighs.mono (weighs_asyncHandleCmd (j := .xcopyRead _) ⟨?_, ?_, ?_⟩) ?_
                fun _ h => h
              · dsimp only
                omega
              · exact min_le_right _ _
              · dsimp only
                omega
              · rw [Job.left]
                dsimp only
                omega

/-! ### Commands -/

theorem weighs_untrack (ret : TcmuSts) : Weighs c (untrack ret) n fun _ => True := by
  rw [untrack]
  dsimp only
  split
  · exact weighs_light trivial fun _ => weighs_pure trivial
  · exact weighs_pure trivial

theorem weighs_handleTryPassthrough : Weighs c (handleTryPassthrough c) n fun _ => True := by
  rw [handleTryPassthrough]
  split
  · exact weighs_pure trivial
  · rename_i hcmd
    have hcmd : c.dev.handler.handleCmd = true := by simpa using hcmd
    refine weighs_light trivial fun _ => weighs_light trivial fun r => ?_
    split
    · exact weighs_untrack _
    · exact (quiet_control (k := .handleCmd) (Or.inl hcmd)).weighs_bind fun r _ => weighs_untrack _

/-- A device of the daemon, and those around it, as `dev_added` left them, all steady. -/
structure Request.Steady (c : Request) : Prop where
  /-- The device was accepted. -/
  added : ∃ size, c.dev.geo.Added size
  /-- It is steady. -/
  dev : c.dev.Steady
  /-- The devices it can copy from and to are steady. -/
  ctx : ∀ d ∈ c.ctx, d.Steady

theorem TcmuDev.Steady.maxXferLen_pos {d : TcmuDev} (h : d.Steady) : 0 < d.geo.maxXferLen := by
  refine Nat.pos_of_ne_zero fun hzero => h.xfer ?_
  rw [Device.xferBytes, hzero, Nat.zero_mul, Nat.zero_mod]

/-- What a command can lead to in all. -/
def Request.budget (c : Request) : ℕ := 2 ^ 36 + 2 * c.dev.geo.numLbas

/-- A command with a single sub-command. -/
theorem weighs_single {j : Job} (h : j.Advances c) (hleft : j.left c = 0) :
    Weighs c (asyncHandleCmd c j) c.budget fun _ => True := by
  refine (weighs_asyncHandleCmd h).mono ?_ fun _ h => h
  rw [hleft, Request.budget]
  omega

theorem weighs_handle (hc : c.Steady) (d : DataCmd) :
    Weighs c (d.handle c) c.budget fun _ => True := by
  obtain ⟨size, hd⟩ := hc.added
  have hmax : ∀ d ∈ c.dev :: c.ctx, 0 < d.geo.maxXferLen := by
    intro d hmem
    rcases List.mem_cons.mp hmem with rfl | hmem
    · exact hc.dev.maxXferLen_pos
    · exact (hc.ctx d hmem).maxXferLen_pos
  have hgran : 0 < c.dev.geo.optUnmapGran := hd.optUnmapGran_eq ▸ hc.dev.maxXferLen_pos
  have hbudget : 2 ^ 36 + 2 * c.dev.geo.numLbas = c.budget := rfl
  cases d with
  | read =>
    rw [DataCmd.handle, handleRead]
    split
    · exact weighs_pure trivial
    · exact weighs_single trivial rfl
  | write =>
    rw [DataCmd.handle, handleWrite]
    split
    · exact weighs_pure trivial
    · exact weighs_single trivial rfl
  | unmap => exact (weighs_handleUnmap hgran).mono (by omega) fun _ h => h
  | flush =>
    rw [DataCmd.handle]
    split
    · exact weighs_single trivial rfl
    · exact weighs_pure trivial
  | xcopy => exact (weighs_handleXcopy hmax).mono (by omega) fun _ h => h
  | caw => exact weighs_handleCaw.mono (by omega) fun _ h => h
  | writeVerify => exact weighs_handleWriteVerify.mono (by omega) fun _ h => h
  | writesame => exact (weighs_handleWritesame hd hc.dev hgran).mono (by omega) fun _ h => h
  | format => exact (weighs_handleFormatUnit hd hc.dev).mono (by omega) fun _ h => h

theorem weighs_tcmurCmdHandler (hc : c.Steady) :
    Weighs c (tcmurCmdHandler c) c.budget fun _ => True := by
  refine weighs_light trivial fun _ => weighs_light trivial fun r => ?_
  split
  · exact weighs_untrack _
  · split
    · exact weighs_untrack _
    · refine quiet_aluaCheckState.weighs_bind fun ret _ => ?_
      split
      · exact weighs_untrack _
      · exact Weighs.bind (m := 0) (weighs_handle hc _) fun ret _ => weighs_untrack ret

/-- **Processing a command** keeps to the budget. -/
theorem weighs_processCmd (hc : c.Steady) : Weighs c (processCmd c) c.budget fun _ => True := by
  have hgeneric : Weighs c (tcmurGenericHandleCmd c) c.budget fun _ => True := by
    refine quiet_handlePendingUa.weighs_bind fun ret _ => ?_
    split
    · exact weighs_pure trivial
    · refine weighs_light trivial fun r => ?_
      split
      · exact weighs_light trivial fun _ => weighs_pure trivial
      · refine Weighs.mono (Weighs.bind (n := 0) (m := c.budget) weighs_handleTryPassthrough
          fun ret _ => ?_) (Nat.zero_add _).le fun _ h => h
        split
        · exact weighs_pure trivial
        · refine (quiet_handleSyncCmd (Or.inr ⟨by simp, by simp⟩)).weighs_bind fun ret _ => ?_
          split
          · exact weighs_pure trivial
          · exact weighs_tcmurCmdHandler hc
  refine Weighs.bind (m := 0) hgeneric fun ret _ => ?_
  split
  · exact weighs_light (o := .complete _) trivial fun _ => weighs_pure trivial
  · exact weighs_pure trivial

end Weighs

/-! ### Runs -/

section Runs

variable {c : Request} {s s' : Life}

/-- What the sub-commands of a command weigh. -/
def Life.load (c : Request) (s : Life) : ℕ := (s.jobs.map (jobWeight c)).sum

/-- What is left of a command: the budget as long as it has not been processed, and its
sub-commands. -/
def Life.left (c : Request) (s : Life) : ℕ := (if s.begun then 0 else c.budget + 1) + s.load c

/-- The sub-commands advance, and those that are accepted have a callout. -/
structure Life.Advances (c : Request) (s : Life) : Prop where
  /-- The sub-commands. -/
  jobs : ∀ x ∈ s.jobs, x.2.Advances c ∧ (x.1 = true → (x.2.callout c).defined = true)
  /-- The daemon has not divided by zero, and is in no endless loop. -/
  fault : ∀ f, s.fault = some f → f.Passing

theorem Life.advances_init : Life.init.Advances c :=
  ⟨fun _ hx => absurd hx (by simp [Life.init]), fun _ hf => absurd hf (by simp [Life.init])⟩

theorem Life.Advances.add (h : s.Advances c) {b : Bool} {j : Job} (hj : j.Advances c)
    (hb : b = true → (j.callout c).defined = true) :
    { s with jobs := s.jobs ++ [(b, j)] : Life }.Advances c := by
  refine ⟨?_, h.fault⟩
  exact List.forall_mem_append.mpr ⟨h.jobs, List.forall_mem_singleton.mpr ⟨hj, hb⟩⟩

theorem Life.load_add (b : Bool) (j : Job) :
    { s with jobs := s.jobs ++ [(b, j)] : Life }.load c = s.load c + jobWeight c (b, j) := by
  rw [Life.load, Life.load, List.map_append, List.sum_append]
  rfl

theorem Life.load_eraseIdx {i : ℕ} {x : Bool × Job} (hx : s.jobs[i]? = some x) :
    { s with jobs := s.jobs.eraseIdx i : Life }.load c + jobWeight c x = s.load c := by
  obtain ⟨hi, rfl⟩ := List.getElem?_eq_some_iff.mp hx
  have hperm := ((List.getElem_cons_eraseIdx_perm hi).map (jobWeight c)).sum_nat
  rw [List.map_cons, List.sum_cons] at hperm
  rw [Life.load, Life.load, ← hperm, Nat.add_comm]

/-- An operation adds to what is left what it weighs. -/
theorem Life.Advances.op {o : Op} {a r : Ans o} (h : s.Advances c) (ho : OpAdvances c o)
    (hop : lifeInterp s o a = some (r, s')) :
    s'.Advances c ∧ s'.load c ≤ s.load c + opWeight c o r := by
  cases o with
  | io j co =>
    obtain ⟨rfl, rfl⟩ := Prod.mk.inj (Option.some.inj hop)
    cases a with
    | queued now =>
      have hcalled : { s with calls := s.calls ++ [co] : Life }.Advances c := ⟨h.jobs, h.fault⟩
      exact ⟨hcalled.add ho.1 fun _ => ho.2.1, (Life.load_add true j).le⟩
    | failed e => exact ⟨⟨h.jobs, h.fault⟩, le_rfl⟩
  | enqueue j =>
    obtain ⟨rfl, rfl⟩ := Prod.mk.inj (Option.some.inj hop)
    exact ⟨h.add ho fun hf => absurd hf (by simp), (Life.load_add false j).le⟩
  | alloc =>
    obtain ⟨rfl, rfl⟩ := Prod.mk.inj (Option.some.inj hop)
    split
    · exact ⟨h, le_rfl⟩
    · exact ⟨⟨h.jobs, h.fault⟩, le_rfl⟩
  | calloc =>
    obtain ⟨rfl, rfl⟩ := Prod.mk.inj (Option.some.inj hop)
    split
    · exact ⟨h, le_rfl⟩
    · exact ⟨⟨h.jobs, h.fault⟩, le_rfl⟩
  | mutexInit =>
    obtain ⟨rfl, rfl⟩ := Prod.mk.inj (Option.some.inj hop)
    split
    · exact ⟨h, le_rfl⟩
    · exact ⟨⟨h.jobs, h.fault⟩, le_rfl⟩
  | spawnLock =>
    obtain ⟨rfl, rfl⟩ := Prod.mk.inj (Option.some.inj hop)
    split
    · exact ⟨⟨h.jobs, h.fault⟩, le_rfl⟩
    · exact ⟨h, le_rfl⟩
  | _ =>
    obtain ⟨-, rfl⟩ := Prod.mk.inj (Option.some.inj hop)
    exact ⟨⟨h.jobs, h.fault⟩, Nat.le_add_right _ _⟩

/-- The event belongs to the command itself: it is not that of a thread that acquires the lock. -/
def LifeEvent.ofCmd : LifeEvent → Bool
  | .lockThread _ => false
  | _ => true

/-- Execute a program that keeps to its budget. -/
theorem Life.Advances.exec {u v : Life} {p : Daemon Unit} {env : Prog.Env Op Ans}
    {x : Except Fault Unit} {n : ℕ} (hp : Weighs c p n fun _ => True) (hu : u.Advances c)
    (hexec : p.exec lifeInterp env u = some (x, v)) :
    (settle (x, v)).Advances c ∧ (settle (x, v)).left c ≤ u.load c + n := by
  obtain ⟨hv, hle, hx⟩ := Prog.exec_of_spends hp (fun o ho s a r s' hs hop => hs.op ho hop) hexec hu
  cases x with
  | ok a => exact ⟨⟨hv.jobs, hv.fault⟩, (Nat.zero_add _).le.trans hle⟩
  | error f =>
    refine ⟨⟨hv.jobs, fun f' hf => ?_⟩, (Nat.zero_add _).le.trans hle⟩
    rw [← Option.some.inj hf]
    exact hx f rfl

/-- **One event** of the command leaves less of it than there was. -/
theorem Life.Advances.step (hc : c.Steady) {e : LifeEvent} (h : s.Advances c)
    (hfits : s.Fits False c) (hstep : lifeStep c s e = some s') :
    s'.Advances c ∧ s'.left c + (if e.ofCmd then 1 else 0) ≤ s.left c := by
  obtain ⟨size, hd⟩ := hc.added
  obtain ⟨-, p, u, x, v, hprog, hexec, rfl⟩ := lifeStep_cases hstep
  have herase : ∀ i, { s with jobs := s.jobs.eraseIdx i : Life }.Advances c := fun i =>
    ⟨fun x hx => h.jobs x (List.mem_of_mem_eraseIdx hx), h.fault⟩
  have hload : s.load c ≤ s.left c := Nat.le_add_left _ _
  cases e with
  | fetch env =>
    rw [LifeEvent.prog] at hprog
    split at hprog
    · exact absurd hprog (by simp)
    · rename_i hbegun
      obtain ⟨rfl, rfl⟩ := Prod.mk.inj (Option.some.inj hprog)
      obtain ⟨hadv, hle⟩ := h.exec (weighs_processCmd hc) hexec
      have hleft : s.left c = c.budget + 1 + s.load c := by rw [Life.left, if_neg hbegun]
      exact ⟨hadv, by simp only [LifeEvent.ofCmd, if_true]; omega⟩
  | work i env =>
    rw [LifeEvent.prog] at hprog
    split at hprog
    · rename_i j hj
      obtain ⟨rfl, rfl⟩ := Prod.mk.inj (Option.some.inj hprog)
      have hjob : j.Advances c := (h.jobs _ (List.mem_of_getElem? hj)).1
      obtain ⟨hadv, hle⟩ := (herase i).exec (weighs_ioWork hd hc.dev hjob) hexec
      have hweight := Life.load_eraseIdx (c := c) hj
      rw [jobWeight_queued] at hweight
      exact ⟨hadv, by simp only [LifeEvent.ofCmd, if_true]; omega⟩
    · exact absurd hprog (by simp)
  | done i ret env =>
    rw [LifeEvent.prog] at hprog
    split at hprog
    · rename_i j hj
      obtain ⟨rfl, rfl⟩ := Prod.mk.inj (Option.some.inj hprog)
      obtain ⟨hjob, hdefined⟩ : j.Advances c ∧ (true = true → (j.callout c).defined = true) :=
        h.jobs _ (List.mem_of_getElem? hj)
      obtain ⟨hadv, hle⟩ := (herase i).exec (weighs_done hd hc.dev hjob (hdefined rfl) ret) hexec
      have hweight := Life.load_eraseIdx (c := c) hj
      rw [jobWeight_accepted] at hweight
      exact ⟨hadv, by simp only [LifeEvent.ofCmd, if_true]; omega⟩
    · exact absurd hprog (by simp)
  | lockThread env =>
    rw [LifeEvent.prog] at hprog
    split at hprog
    · exact absurd hprog (by simp)
    · rename_i hpos
      obtain ⟨rfl, rfl⟩ := Prod.mk.inj (Option.some.inj hprog)
      have hlock := hfits.lockThreads (Nat.pos_of_ne_zero hpos)
      have hu : { s with lockThreads := s.lockThreads - 1 : Life }.Advances c := ⟨h.jobs, h.fault⟩
      obtain ⟨hadv, hle⟩ := hu.exec (n := 0) (quiet_aluaLockThreadFn hlock).weighs hexec
      exact ⟨hadv, hle.trans hload⟩

/-- **Every run** of a command on a steady device is bounded. -/
theorem Life.Advances.run (hc : c.Steady) {es : List LifeEvent} :
    ∀ {s t : Life}, s.Advances c → s.Fits False c → run (lifeStep c) s es = some t →
      t.Advances c ∧ t.left c + es.countP LifeEvent.ofCmd ≤ s.left c := by
  induction es with
  | nil =>
    intro s t h _ hrun
    rw [run_nil, Option.some.injEq] at hrun
    exact ⟨hrun ▸ h, hrun ▸ le_rfl⟩
  | cons e es ih =>
    intro s t h hfits hrun
    rw [run_cons, Option.bind_eq_some_iff] at hrun
    obtain ⟨u, hu, hrun⟩ := hrun
    obtain ⟨hadv, hle⟩ := h.step hc hfits hu
    obtain ⟨ht, hle'⟩ := ih hadv (hfits.step False.elim hu) hrun
    refine ⟨ht, ?_⟩
    rw [List.countP_cons]
    split at hle
    · rename_i he
      rw [if_pos he]
      omega
    · rename_i he
      rw [if_neg he]
      omega

end Runs

/-! ### Calm surroundings

Where allocations succeed, callouts accept what they are given and nobody interferes, programs can
be executed step by step. -/

section Calm

variable {s : Life} (mem : Mem) {α β : Type}

/-- The rule for sequences, in calm surroundings. -/
theorem exec_calm_bind {p : Daemon α} (f : α → Daemon β) {a : α} {s' : Life}
    (h : p.exec lifeInterp (calm mem) s = some (.ok a, s')) :
    (p >>= f).exec lifeInterp (calm mem) s = (f a).exec lifeInterp (calm mem) s' := by
  have hbind := Prog.exec_bind_const lifeInterp (calm mem 0) p f s
  have hp : p.exec lifeInterp (fun _ => calm mem 0) s = some (.ok a, s') := h
  rw [hp] at hbind
  exact hbind

theorem exec_calm_bind_error {p : Daemon α} (f : α → Daemon β) {e : Fault} {s' : Life}
    (h : p.exec lifeInterp (calm mem) s = some (.error e, s')) :
    (p >>= f).exec lifeInterp (calm mem) s = some (.error e, s') := by
  have hbind := Prog.exec_bind_const lifeInterp (calm mem 0) p f s
  have hp : p.exec lifeInterp (fun _ => calm mem 0) s = some (.error e, s') := h
  rw [hp] at hbind
  exact hbind

/-- Programs that do the same do so in front of another. -/
theorem exec_calm_congr {p q : Daemon α} (f : α → Daemon β) {s' : Life}
    (h : p.exec lifeInterp (calm mem) s = q.exec lifeInterp (calm mem) s') :
    (p >>= f).exec lifeInterp (calm mem) s = (q >>= f).exec lifeInterp (calm mem) s' := by
  have hp := Prog.exec_bind_const lifeInterp (calm mem 0) p f s
  have hq := Prog.exec_bind_const lifeInterp (calm mem 0) q f s'
  have h : p.exec lifeInterp (fun _ => calm mem 0) s = q.exec lifeInterp (fun _ => calm mem 0) s' :=
    h
  rw [h] at hp
  exact hp.trans hq.symm

theorem exec_aluaCheckState (h : TcmurHandler) (s : Life) :
    (aluaCheckState h).exec lifeInterp (calm mem) s = some (.ok .ok, s) := by
  rw [aluaCheckState]
  split
  · rfl
  · rfl

theorem exec_handlePendingUa (c : Request) (s : Life) :
    (handlePendingUa c).exec lifeInterp (calm mem) s = some (.ok .notHandled, s) := by
  rw [handlePendingUa]
  split
  · rfl
  · rfl

theorem exec_handleTryPassthrough (c : Request) : ∃ s : Life, s.jobs = [] ∧ s.calls = [] ∧
    s.fault = none ∧ (handleTryPassthrough c).exec lifeInterp (calm mem) Life.init =
      some (.ok .notHandled, s) := by
  rw [handleTryPassthrough]
  split
  · exact ⟨Life.init, rfl, rfl, rfl, rfl⟩
  · rename_i hcmd
    rw [Bool.not_eq_true, Bool.not_eq_false'] at hcmd
    have hcmd : Control.handleCmd.defined c.dev.handler = true := hcmd
    rw [control, if_pos hcmd]
    exact ⟨{ Life.init with starts := 1, finishes := 1 }, rfl, rfl, rfl, rfl⟩

theorem exec_tcmurCmdHandler {c : Request} {d : DataCmd} (hd : dataCmd c.cdb = some d) (s : Life) :
    (tcmurCmdHandler c).exec lifeInterp (calm mem) s =
      (d.handle c >>= untrack).exec lifeInterp (calm mem) { s with starts := s.starts + 1 } := by
  rw [tcmurCmdHandler, hd]
  exact exec_calm_bind mem _ (exec_aluaCheckState mem _ _)

/-- In calm surroundings a data command gets to its handler. -/
theorem exec_processCmd {c : Request} {d : DataCmd} (hd : dataCmd c.cdb = some d) :
    ∃ s : Life, s.jobs = [] ∧ s.calls = [] ∧ s.fault = none ∧
      (processCmd c).exec lifeInterp (calm mem) Life.init =
        ((d.handle c >>= untrack) >>= fun ret => do
          if ret ≠ .asyncHandled then ask (.complete ret)).exec lifeInterp (calm mem) s := by
  obtain ⟨s, hjobs, hcalls, hfault, hpass⟩ := exec_handleTryPassthrough mem c
  refine ⟨{ s with starts := s.starts + 1 }, hjobs, hcalls, hfault, exec_calm_congr mem _ ?_⟩
  rw [tcmurGenericHandleCmd, exec_calm_bind mem _ (exec_handlePendingUa mem c _), if_neg (by simp)]
  refine (exec_calm_bind mem _ hpass).trans ?_
  rw [if_neg (by simp), handleSyncCmd_of_dataCmd hd]
  exact exec_tcmurCmdHandler mem hd s

/-- An event whose program is executed like this. -/
theorem lifeStep_eq {c : Request} {e : LifeEvent} {p : Daemon Unit} {u v : Life}
    {x : Except Fault Unit} (hfault : s.fault = none) (hprog : e.prog c s = some (p, u))
    (hexec : p.exec lifeInterp e.env u = some (x, v)) : lifeStep c s e = some (settle (x, v)) := by
  rw [lifeStep, hfault, if_neg (by simp), hprog, Option.bind_some]
  dsimp only
  rw [hexec, Option.map_some]

/-- The state after a sub-command has been dispatched. It is accepted, or in the work queue. -/
def Life.dispatched (c : Request) (j : Job) (b : Bool) (s : Life) : Life :=
  { s with
    jobs := s.jobs ++ [(b, j)]
    calls := if b then s.calls ++ [j.callout c] else s.calls }

theorem exec_asyncHandleCmd {c : Request} {j : Job} (hdefined : (j.callout c).defined = true)
    (s : Life) : ∃ b, (asyncHandleCmd c j).exec lifeInterp (calm mem) s =
      some (.ok .asyncHandled, s.dispatched c j b) := by
  rw [asyncHandleCmd]
  split
  · rw [Job.work, if_pos hdefined]
    exact ⟨true, rfl⟩
  · exact ⟨false, rfl⟩

/-- The command has one sub-command, which has been handed to the handler if it is accepted. -/
structure Life.On (c : Request) (j : Job) (b : Bool) (s : Life) : Prop where
  /-- The sub-command. -/
  jobs : s.jobs = [(b, j)]
  /-- The call of the handler. -/
  called : b = true → j.callout c ∈ s.calls
  /-- The daemon is up. -/
  fault : s.fault = none

theorem Life.on_dispatched {c : Request} {j : Job} (b : Bool) (hjobs : s.jobs = [])
    (hfault : s.fault = none) : (s.dispatched c j b).On c j b := by
  refine ⟨?_, ?_, hfault⟩
  · rw [Life.dispatched, hjobs, List.nil_append]
  · rintro rfl
    exact List.mem_append_right _ (List.mem_singleton_self _)

/-- In calm surroundings a command is fetched and dispatches its first sub-command. -/
theorem on_of_fetch {c : Request} {d : DataCmd} {j : Job} (hd : dataCmd c.cdb = some d)
    (h : ∀ s, ∃ b, (d.handle c).exec lifeInterp (calm mem) s =
      some (.ok .asyncHandled, s.dispatched c j b)) :
    ∃ s b, lifeStep c Life.init (.fetch (calm mem)) = some s ∧ s.On c j b := by
  obtain ⟨s, hjobs, -, hfault, hs⟩ := exec_processCmd mem hd
  obtain ⟨b, hexec⟩ := h s
  rw [exec_calm_bind mem _ (exec_calm_bind mem untrack hexec)] at hs
  have hon := Life.on_dispatched (c := c) (j := j) b hjobs hfault
  exact ⟨_, b, lifeStep_eq rfl rfl hs, hon.jobs, hon.called, hon.fault⟩

/-- A work thread hands the sub-command to the handler. -/
theorem Life.On.accepted {c : Request} {j : Job} {b : Bool} (h : s.On c j b)
    (hdefined : (j.callout c).defined = true) :
    ∃ es t, run (lifeStep c) s es = some t ∧ t.On c j true := by
  cases b with
  | true => exact ⟨[], s, rfl, h⟩
  | false =>
    have hprog : (LifeEvent.work 0 (calm fun _ => 0)).prog c s =
        some (ioWork c j, { s with jobs := [] }) := by
      rw [LifeEvent.prog, h.jobs]
      rfl
    have hexec : (ioWork c j).exec lifeInterp (calm fun _ => 0) { s with jobs := [] } =
        some (.ok (), { s with jobs := [] : Life }.dispatched c j true) := by
      rw [ioWork, Job.work, if_pos hdefined]
      rfl
    have hon := Life.on_dispatched (s := { s with jobs := [] }) (c := c) (j := j) true rfl h.fault
    have hstep := lifeStep_eq h.fault hprog hexec
    exact ⟨[.work 0 (calm fun _ => 0)], _, (run_singleton _ _ _).trans hstep, hon.jobs, hon.called,
      hon.fault⟩

end Calm

/-! ### Commands that do not end

On a device that is not steady, `FORMAT UNIT` divides by zero, or it goes on for ever. -/

/-- `FORMAT UNIT`, sent to a device. -/
def formatOf (d : TcmuDev) (devs : List TcmuDev) : Request :=
  { dev := d
    ctx := devs
    cmd := ⟨0, some [0x04, 0, 0, 0, 0, 0], [], 0, List.replicate 96 0⟩
    cdb := [0x04, 0, 0, 0, 0, 0]
    hcdb := rfl }

section Endless

variable {d : TcmuDev} (devs : List TcmuDev) {s : Life} (mem : Mem)

theorem exec_handleFormatUnit_zero (hzero : d.geo.xferBytes = 0) (s : Life) :
    (handleFormatUnit (formatOf d devs)).exec lifeInterp (calm mem) s =
      some (.error .divByZero, s) := by
  have hb : (formatOf d devs).dev.geo.maxXferLen *
      (formatOf d devs).dev.geo.blockSize % 2 ^ 32 = 0 := hzero
  rw [handleFormatUnit, roundUp, if_pos hb]
  rfl

/-- If a transfer has no bytes, `round_up` divides by zero. -/
theorem format_divides_by_zero (hzero : d.geo.xferBytes = 0) :
    ∃ s, lifeStep (formatOf d devs) Life.init (.fetch (calm fun _ => 0)) = some s ∧
      s.fault = some .divByZero := by
  have hd : dataCmd (formatOf d devs).cdb = some .format := rfl
  obtain ⟨s, -, -, -, hs⟩ := exec_processCmd (fun _ => 0) hd
  rw [DataCmd.handle, exec_calm_bind_error _ _ (exec_calm_bind_error _ _
    (exec_handleFormatUnit_zero devs _ hzero s))] at hs
  exact ⟨settle (.error .divByZero, s), lifeStep_eq rfl rfl hs, rfl⟩

/-- The first write of a `FORMAT UNIT`. -/
def Device.firstWrite (d : Device) : FormatUnit where
  length := if d.numLbas * d.blockSize % 2 ^ 64 < d.stepBytes
    then d.numLbas * d.blockSize % 2 ^ 64 else d.stepBytes
  offset := 0
  doneBlocks := 0
  writeBuf := 0x1000

theorem exec_handleFormatUnit (hne : d.geo.xferBytes ≠ 0) (hwrite : d.handler.write = true)
    (s : Life) : ∃ b, (handleFormatUnit (formatOf d devs)).exec lifeInterp (calm mem) s =
      some (.ok .asyncHandled, s.dispatched (formatOf d devs) (.format d.geo.firstWrite) b) := by
  have hb : ¬ (formatOf d devs).dev.geo.maxXferLen *
      (formatOf d devs).dev.geo.blockSize % 2 ^ 32 = 0 := hne
  obtain ⟨b, hexec⟩ := exec_asyncHandleCmd mem (c := formatOf d devs)
    (j := .format d.geo.firstWrite) hwrite s
  refine ⟨b, ?_⟩
  rw [handleFormatUnit, roundUp, if_neg hb]
  exact exec_calm_bind mem _ hexec

/-- Formatting goes on for ever: the blocks cannot be counted, or the writes are too short. -/
def Device.Circles (d : Device) (x : FormatUnit) : Prop :=
  2 ^ 32 ≤ d.numLbas ∨ d.numLbas ≠ 0 ∧ x.doneBlocks = 0 ∧ x.length < d.blockSize

/-- The write after `x`. -/
def Device.nextWrite (d : Device) (x : FormatUnit) : FormatUnit :=
  let doneBlocks := (x.doneBlocks + x.length / d.blockSize) % 2 ^ 32
  let left := (d.numLbas - doneBlocks) * d.blockSize % 2 ^ 64
  { length := if left < x.length then left else x.length
    offset := (x.offset + x.length) % 2 ^ 64
    doneBlocks := doneBlocks
    writeBuf := 0x1000 }

theorem Device.Circles.lt {x : FormatUnit} (h : d.geo.Circles x) :
    (x.doneBlocks + x.length / d.geo.blockSize) % 2 ^ 32 < d.geo.numLbas := by
  rcases h with hcount | ⟨hne, hdone, hlen⟩
  · exact (Nat.mod_lt _ (by norm_num)).trans_le hcount
  · rw [hdone, Nat.div_eq_of_lt hlen]
    exact Nat.pos_of_ne_zero hne

theorem Device.Circles.next {x : FormatUnit} (h : d.geo.Circles x) :
    d.geo.Circles (d.geo.nextWrite x) := by
  rcases h with hcount | ⟨hne, hdone, hlen⟩
  · exact Or.inl hcount
  · refine Or.inr ⟨hne, ?_, ?_⟩
    · rw [Device.nextWrite, hdone, Nat.div_eq_of_lt hlen]
      rfl
    · rw [Device.nextWrite]
      dsimp only
      split
      · omega
      · exact hlen

/-- One more write, when the last one is called back. -/
theorem formats_next (hwrite : d.handler.write = true) {x : FormatUnit} (hx : d.geo.Circles x)
    (h : s.On (formatOf d devs) (.format x) true) :
    ∃ t b, lifeStep (formatOf d devs) s (.done 0 .ok (calm mem)) = some t ∧
      t.On (formatOf d devs) (.format (d.geo.nextWrite x)) b := by
  have hprog : (LifeEvent.done 0 .ok (calm mem)).prog (formatOf d devs) s =
      some (handleFormatUnitCbk (formatOf d devs) x .ok, { s with jobs := [] }) := by
    rw [LifeEvent.prog, h.jobs]
    rfl
  obtain ⟨b, hexec⟩ := exec_asyncHandleCmd mem (c := formatOf d devs)
    (j := .format (d.geo.nextWrite x)) hwrite { s with jobs := [] }
  have hcbk : (handleFormatUnitCbk (formatOf d devs) x .ok).exec lifeInterp (calm mem)
      { s with jobs := [] } = some (.ok (), { s with jobs := [] : Life }.dispatched
        (formatOf d devs) (.format (d.geo.nextWrite x)) b) := by
    have hlt : (x.doneBlocks + x.length / (formatOf d devs).dev.geo.blockSize) % 2 ^ 32 <
      (formatOf d devs).dev.geo.numLbas := hx.lt
    rw [handleFormatUnitCbk]
    dsimp only
    rw [if_neg hlt.ne, if_pos hlt]
    exact exec_calm_bind mem _ hexec
  have hon := Life.on_dispatched (s := { s with jobs := [] }) (c := formatOf d devs)
    (j := .format (d.geo.nextWrite x)) b rfl h.fault
  exact ⟨_, b, lifeStep_eq h.fault hprog hcbk, hon.jobs, hon.called, hon.fault⟩

/-- **There is no end** to such a command. -/
theorem formats_forever (hne : d.geo.xferBytes ≠ 0) (hwrite : d.handler.write = true)
    (hx : d.geo.Circles d.geo.firstWrite) (n : ℕ) :
    ∃ es t x b, run (lifeStep (formatOf d devs)) Life.init es = some t ∧
      t.On (formatOf d devs) (.format x) b ∧ d.geo.Circles x ∧
        n < es.countP LifeEvent.ofCmd := by
  induction n with
  | zero =>
    obtain ⟨t, b, hstep, ht⟩ := on_of_fetch (fun _ => 0) (d := .format) rfl
      (exec_handleFormatUnit devs (fun _ => 0) hne hwrite)
    exact ⟨_, t, _, b, (run_singleton _ _ _).trans hstep, ht, hx, by decide⟩
  | succ n ih =>
    obtain ⟨es, t, x, b, hrun, ht, hx, hn⟩ := ih
    obtain ⟨fs, u, hrun', hu⟩ := ht.accepted hwrite
    obtain ⟨v, b', hstep, hv⟩ := formats_next devs (fun _ => 0) hwrite hx hu
    refine ⟨es ++ fs ++ [.done 0 .ok (calm fun _ => 0)], v, _, b', ?_, hv, hx.next, ?_⟩
    · refine run_concat.mpr ⟨u, ?_, hstep⟩
      rw [run_append, hrun, Option.bind_some, hrun']
    · rw [List.countP_append, List.countP_append]
      have : List.countP LifeEvent.ofCmd [.done 0 .ok (calm fun _ => 0)] = 1 := rfl
      omega

end Endless

/-! ### Main result -/

/-- Whatever happens, the command neither divides by zero nor gets into an endless loop, and there
is a bound on its events. -/
def Request.Ends (c : Request) : Prop :=
  ∃ n, ∀ es s, run (lifeStep c) Life.init es = some s →
    s.fault ≠ some .divByZero ∧ s.fault ≠ some .endless ∧ es.countP LifeEvent.ofCmd ≤ n

theorem Request.Steady.ends {c : Request} (hc : c.Steady) : c.Ends := by
  refine ⟨Life.init.left c, fun es s hrun => ?_⟩
  obtain ⟨hs, hle⟩ := Life.advances_init.run hc Life.fits_init hrun
  exact ⟨fun hf => (hs.fault _ hf).1 rfl, fun hf => (hs.fault _ hf).2 rfl, by omega⟩

/-- A device whose `FORMAT UNIT` ends is steady. -/
theorem steady_of_ends {d : TcmuDev} {devs : List TcmuDev} (h : (formatOf d devs).Ends) :
    d.Steady := by
  obtain ⟨n, h⟩ := h
  have hxfer : d.geo.xferBytes ≠ 0 := by
    intro hzero
    obtain ⟨s, hstep, hs⟩ := format_divides_by_zero devs hzero
    exact (h [.fetch (calm fun _ => 0)] s ((run_singleton _ _ _).trans hstep)).1 hs
  have hcircles : d.handler.write = true → ¬ d.geo.Circles d.geo.firstWrite := by
    intro hwrite hx
    obtain ⟨es, t, x, b, hrun, -, -, hlt⟩ := formats_forever devs hxfer hwrite hx n
    exact absurd (h es t hrun).2.2 (by omega)
  refine ⟨hxfer, fun hwrite hne => ?_, fun hwrite => ?_⟩
  · by_contra hlt
    refine hcircles hwrite (Or.inr ⟨hne, rfl, ?_⟩)
    rw [Device.firstWrite]
    dsimp only
    split
    · omega
    · omega
  · by_contra hge
    exact hcircles hwrite (Or.inl (not_lt.mp hge))

/-- **No division by zero and no endless command.** Every command to every device comes to an end,
without a division by zero, if and only if all devices are steady. -/
theorem commands_end_iff {devs : List TcmuDev}
    (hadded : ∀ d ∈ devs, ∃ a, devAdded a = some d.geo) :
    (∀ c : Request, c.ctx = devs → c.dev ∈ devs → c.Ends) ↔ ∀ d ∈ devs, d.Steady := by
  constructor
  · intro h d hd
    exact steady_of_ends (h (formatOf d devs) rfl hd)
  · rintro h c rfl hdev
    obtain ⟨a, ha⟩ := hadded _ hdev
    exact Request.Steady.ends ⟨⟨_, Device.added_of_devAdded ha⟩, h _ hdev, h⟩

/-- The attributes of a device of eight blocks. -/
def smallAttrs (hwMaxSectors : Fin 1024) : DevAttrs where
  hwBlockSize := 512
  devSize := 4096
  hwMaxSectors := hwMaxSectors
  hwBlockSize_lt := by decide
  devSize_lt := by decide
  hwMaxSectors_lt := by omega

/-- On a device with transfers of 128 blocks all commands end. -/
theorem commands_end_small :
    devAdded (smallAttrs 128) = some (smallDev allocHandler).geo ∧
      ∀ c : Request, c.ctx = [smallDev allocHandler] → c.dev ∈ [smallDev allocHandler] →
        c.Ends := by
  refine ⟨by decide, (commands_end_iff fun d hd => ?_).mpr fun d hd => ?_⟩
  · rw [List.mem_singleton.mp hd]
    exact ⟨smallAttrs 128, by decide⟩
  · rw [List.mem_singleton.mp hd]
    exact ⟨by decide, fun _ _ => by decide, fun _ => by decide⟩

/-- The same device, with `hw_max_sectors` zero. -/
def zeroDev : TcmuDev := ⟨0, ⟨512, 8, 0, 0, 0⟩, allocHandler, none⟩

/-- `dev_added` accepts it, and formatting it divides by zero. -/
theorem format_divides_zeroDev :
    devAdded (smallAttrs 0) = some zeroDev.geo ∧
      (run (lifeStep (formatOf zeroDev [zeroDev])) Life.init [.fetch (calm fun _ => 0)]).map
        Life.fault = some (some .divByZero) ∧ ¬ (formatOf zeroDev [zeroDev]).Ends := by
  refine ⟨by decide, by decide +kernel, ?_⟩
  rintro ⟨n, h⟩
  obtain ⟨s, hstep, hs⟩ := format_divides_by_zero (d := zeroDev) [zeroDev] rfl
  exact (h _ s ((run_singleton _ _ _).trans hstep)).1 hs

end Tcmu

end LioProject
