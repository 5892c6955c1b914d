import LioProject.Tcmu.WriteSame
import Mathlib.Data.Nat.ModEq

/-!
# Format unit

`handle_format_unit` writes zeros from one end of the device to the other. How far it has come is
counted twice: a byte offset of 64 bits says where the next write goes, and a block count of 32 bits
says when to stop and how much progress to report.

The writes do not depend on what the handler of the device does with them: after `i` callbacks the
next one is `Device.formatAt d i`. `Request.FormatUnder` and `Request.FormatEnded` say this about
whole runs, and the results follow from what the sequence does: where it ends, when failures of
writes are noticed, and whether the progress that is reported is right.
-/

namespace LioProject

namespace Tcmu

/-! ### The sequence of writes -/

/-- The write after `i` callbacks, but for the address of its buffer. -/
def Device.formatAt (d : Device) : ℕ → FormatUnit
  | 0 => d.firstWrite
  | i + 1 => d.nextWrite (d.formatAt i)

/-- The write after `i` callbacks, from a buffer at address `buf`. -/
@[reducible] def Device.formatJob (d : Device) (i buf : ℕ) : Job :=
  .format ⟨(d.formatAt i).length, (d.formatAt i).offset, (d.formatAt i).doneBlocks, buf⟩

/-- `format_progress` after `i` callbacks. -/
def Device.progressAt (d : Device) (i : ℕ) : ℕ :=
  0x10000 * (d.formatAt i).doneBlocks % 2 ^ 32 / d.numLbas % 2 ^ 32

/-- The number of blocks of a write that is not the last. -/
def Device.formatStep (d : Device) : ℕ := d.firstWrite.length / d.blockSize

/-! ### Logs -/

/-- A sub-command has come to its end: it has been called back, or it was refused. -/
def Happening.settles : Happening → Bool
  | .call _ _ accepted => !accepted
  | .back .. => true
  | _ => false

/-- How many sub-commands have come to their end. -/
def settled (l : List Happening) : ℕ := l.countP Happening.settles

@[simp] theorem settled_append {l l' : List Happening} :
    settled (l ++ l') = settled l + settled l' := List.countP_append

/-- What has been called back has come to its end. -/
theorem backs_le_settled (l : List Happening) : backs l ≤ settled l := by
  refine List.countP_mono_left fun x _ hx => ?_
  cases x with
  | back co data ret => rfl
  | _ => exact absurd hx (by simp)

/-- The callout writes zeros. -/
def Callout.Zeros (c : Request) (co : Callout) (data : List UInt8) : Prop :=
  ∃ iov length offset, co = .write c.dev none iov length offset ∧ data = List.replicate length 0

/-- All that is called for is writing zeros, and they are there until the callback. -/
def Happening.Zeros (c : Request) : Happening → Prop
  | .call co data _ => co.Zeros c data
  | .back co data _ => co.Zeros c data
  | _ => True

/-- The ranges of the first `n` writes. -/
def Device.formatWrites (d : Device) (n : ℕ) : List (ℕ × ℕ) :=
  (List.range n).map fun i => ((d.formatAt i).offset, (d.formatAt i).length)

theorem Device.formatWrites_succ (d : Device) (n : ℕ) : d.formatWrites (n + 1) =
    d.formatWrites n ++ [((d.formatAt n).offset, (d.formatAt n).length)] := by
  rw [Device.formatWrites, List.range_succ, List.map_append]
  rfl

/-- The format is under way. `b` says whether the write that comes next has been called for. -/
structure Request.FormatGoing (c : Request) (b : Bool) (g : Formatting) (l : List Happening) :
    Prop where
  /-- The device says that it is being formatted, and how far. -/
  flag : g = ⟨true, c.dev.geo.progressAt (settled l)⟩
  /-- The writes so far. -/
  writes_eq : writes l = c.dev.geo.formatWrites (settled l + if b then 1 else 0)
  /-- Zeros are written. -/
  zeros : ∀ x ∈ l, x.Zeros c
  /-- The command has not been completed. -/
  open_ : completions l = []
  /-- No write so far was the last. -/
  more : ∀ i < settled l, (c.dev.geo.formatAt (i + 1)).doneBlocks < c.dev.geo.numLbas
  /-- There was memory. -/
  enough : Happening.nomem ∉ l

/-- What is known while a write is under way. -/
def Request.FormatUnder (c : Request) : Under := fun b j m g l =>
  ∃ buf, j = c.dev.geo.formatJob (settled l) buf ∧
    m.load buf (c.dev.geo.formatAt (settled l)).length =
      List.replicate (c.dev.geo.formatAt (settled l)).length 0 ∧ c.FormatGoing b g l

/-- How a format ends: the device was being formatted already, something has failed, or the last
write has succeeded. -/
def Request.FormatEnded (c : Request) (f g : Formatting) (l : List Happening) : Prop :=
  (f.on = true ∧ g = f ∧ l = [.complete .frmtInProgress]) ∨
    (∃ l₀ x sts, l = l₀ ++ [x, .complete sts] ∧ x.fails = true ∧ sts ≠ .ok ∧ g.on = false ∧
      x.status? = none ∧ completions l₀ = [] ∧ (backs [x] = 1 →
        (c.dev.geo.formatAt (settled l₀ + 1)).doneBlocks = c.dev.geo.numLbas)) ∨
    ∃ l₀ x g₀, l = l₀ ++ [x, .complete .ok] ∧ x.fails = false ∧ x.settles = true ∧ x.Zeros c ∧
      x.write? = none ∧ x.status? = none ∧ g.on = false ∧ c.FormatGoing true g₀ l₀ ∧
        (c.dev.geo.formatAt (settled l₀ + 1)).doneBlocks = c.dev.geo.numLbas

section Steps

variable {c : Request} {b : Bool} {g : Formatting} {l : List Happening} {m : Mem} {buf : ℕ}

theorem settled_call (co : Callout) (data : List UInt8) :
    settled (l ++ [.call co data true]) = settled l := settled_append

/-- The call for the next write. -/
theorem zeros_format {i : ℕ} (h : m.load buf (c.dev.geo.formatAt i).length =
    List.replicate (c.dev.geo.formatAt i).length 0) :
    ((c.dev.geo.formatJob i buf).callout c).Zeros c
      (gather ((c.dev.geo.formatJob i buf).callout c).iov m) := by
  refine ⟨_, _, _, rfl, ?_⟩
  rw [Job.callout, Callout.iov, gather_cons, h]
  exact List.append_nil _

/-- The next write has been called for. -/
theorem Request.FormatGoing.call (h : c.FormatGoing false g l)
    (hload : m.load buf (c.dev.geo.formatAt (settled l)).length =
      List.replicate (c.dev.geo.formatAt (settled l)).length 0) :
    c.FormatGoing true g (l ++
      [.call ((c.dev.geo.formatJob (settled l) buf).callout c)
        (gather ((c.dev.geo.formatJob (settled l) buf).callout c).iov
          m) true]) := by
  refine ⟨?_, ?_, ?_, ?_, ?_, ?_⟩
  · rw [settled_call, h.flag]
  · rw [settled_call, writes_append, h.writes_eq]
    exact (c.dev.geo.formatWrites_succ _).symm
  · exact List.forall_mem_append.mpr ⟨h.zeros, List.forall_mem_singleton.mpr (zeros_format hload)⟩
  · rw [completions_append, h.open_]
    rfl
  · rw [settled_call]
    exact h.more
  · simp [h.enough]

/-- A write has come to its end, and it was not the last. -/
theorem Request.FormatGoing.settle (h : c.FormatGoing b g l) {x : Happening}
    (hx : x.settles = true) (hzeros : x.Zeros c) (hopen : x.status? = none)
    (hwrites : writes (l ++ [x]) = c.dev.geo.formatWrites (settled l + 1))
    (hmore : (c.dev.geo.formatAt (settled l + 1)).doneBlocks < c.dev.geo.numLbas) :
    c.FormatGoing false ⟨true, c.dev.geo.progressAt (settled l + 1)⟩ (l ++ [x]) := by
  have hsettled : settled (l ++ [x]) = settled l + 1 := by
    rw [settled_append, settled, settled, List.countP_cons_of_pos hx, List.countP_nil]
  refine ⟨by rw [hsettled], by rw [hwrites, hsettled]; rfl, ?_, ?_, ?_, ?_⟩
  · exact List.forall_mem_append.mpr ⟨h.zeros, List.forall_mem_singleton.mpr hzeros⟩
  · have hnil : completions [x] = [] := List.filterMap_cons_none hopen
    rw [completions_append, h.open_, hnil]
    rfl
  · intro i hi
    rw [hsettled] at hi
    rcases Nat.lt_succ_iff_lt_or_eq.mp hi with hi | rfl
    · exact h.more i hi
    · exact hmore
  · rw [List.mem_append, not_or]
    refine ⟨h.enough, fun hmem => ?_⟩
    rw [← List.mem_singleton.mp hmem] at hx
    exact absurd hx (by simp [Happening.settles])

end Steps

/-! ### The arithmetic of the sequence -/

section Sequence

variable {d : Device} {i : ℕ}

theorem Device.formatAt_doneBlocks_lt (d : Device) : ∀ i, (d.formatAt i).doneBlocks < 2 ^ 32
  | 0 => by
    change 0 < 2 ^ 32
    norm_num
  | i + 1 => Nat.mod_lt _ (by norm_num)

theorem Device.firstWrite_length (hsize : d.numLbas * d.blockSize < 2 ^ 64) :
    d.firstWrite.length = min (d.numLbas * d.blockSize) d.stepBytes := by
  change (if d.numLbas * d.blockSize % 2 ^ 64 < d.stepBytes
    then d.numLbas * d.blockSize % 2 ^ 64 else d.stepBytes) = _
  rw [Nat.mod_eq_of_lt hsize]
  exact (min_def_lt _ _).symm

theorem Device.formatAt_succ_length (hsize : d.numLbas * d.blockSize < 2 ^ 64) (i : ℕ) :
    (d.formatAt (i + 1)).length = min ((d.numLbas - (d.formatAt (i + 1)).doneBlocks) * d.blockSize)
      (d.formatAt i).length := by
  have hleft : (d.numLbas - (d.formatAt (i + 1)).doneBlocks) * d.blockSize < 2 ^ 64 :=
    (Nat.mul_le_mul_right _ (Nat.sub_le _ _)).trans_lt hsize
  have hlength : (d.formatAt (i + 1)).length =
      if (d.numLbas - (d.formatAt (i + 1)).doneBlocks) * d.blockSize % 2 ^ 64 <
        (d.formatAt i).length
      then (d.numLbas - (d.formatAt (i + 1)).doneBlocks) * d.blockSize % 2 ^ 64
      else (d.formatAt i).length := rfl
  rw [hlength, Nat.mod_eq_of_lt hleft]
  exact (min_def_lt _ _).symm

/-- A write does not reach behind the end of the device, as far as the block count is right. -/
theorem Device.formatAt_length_le (hsize : d.numLbas * d.blockSize < 2 ^ 64) (i : ℕ) :
    (d.formatAt i).length ≤ (d.numLbas - (d.formatAt i).doneBlocks) * d.blockSize := by
  cases i with
  | zero => exact (d.firstWrite_length hsize).trans_le (min_le_left _ _)
  | succ i => exact (d.formatAt_succ_length hsize i).trans_le (min_le_left _ _)

/-- The block count does not get past the end of the device. -/
theorem Device.formatAt_doneBlocks_le (hbs : 0 < d.blockSize)
    (hsize : d.numLbas * d.blockSize < 2 ^ 64)
    (hmore : ∀ k < i, (d.formatAt (k + 1)).doneBlocks < d.numLbas) :
    (d.formatAt (i + 1)).doneBlocks ≤ d.numLbas := by
  have hdone : (d.formatAt i).doneBlocks ≤ d.numLbas := by
    cases i with
    | zero => exact Nat.zero_le _
    | succ k => exact (hmore k (Nat.lt_succ_self k)).le
  have hlen : (d.formatAt i).length / d.blockSize ≤ d.numLbas - (d.formatAt i).doneBlocks :=
    (Nat.div_le_div_right (d.formatAt_length_le hsize i)).trans_eq (Nat.mul_div_cancel _ hbs)
  calc (d.formatAt (i + 1)).doneBlocks
      ≤ (d.formatAt i).doneBlocks + (d.formatAt i).length / d.blockSize := Nat.mod_le _ _
    _ ≤ d.numLbas := by omega

theorem Device.stepBytes_lt (d : Device) : d.stepBytes < 2 ^ 32 := by
  have hlt : d.xferBytes < 2 ^ 32 := Nat.mod_lt _ (by norm_num)
  rw [Device.stepBytes]
  generalize d.xferBytes = m at hlt ⊢
  rcases Nat.eq_zero_or_pos m with rfl | hpos
  · simp
  · rw [Nat.mod_eq_of_lt (show 1024 * 1024 + (m - 1) < 2 ^ 64 by omega)]
    refine (Nat.mod_le _ _).trans_lt ?_
    have hle : (1024 * 1024 + (m - 1)) / m * m ≤ 1024 * 1024 + (m - 1) := Nat.div_mul_le_self _ _
    rcases Nat.lt_or_ge m (2 ^ 20) with hsmall | hlarge
    · omega
    · have hone : (1024 * 1024 + (m - 1)) / m = 1 := Nat.div_eq_of_lt_le (by omega) (by omega)
      rw [hone, Nat.one_mul]
      exact hlt

theorem Device.formatStep_lt (d : Device) : d.formatStep < 2 ^ 32 := by
  have hlt := d.stepBytes_lt
  refine (Nat.div_le_self _ _).trans_lt ?_
  change (if d.numLbas * d.blockSize % 2 ^ 64 < d.stepBytes
    then d.numLbas * d.blockSize % 2 ^ 64 else d.stepBytes) < 2 ^ 32
  split
  · omega
  · exact hlt

/-- A whole step, or what is left. -/
theorem Device.div_step (hbs : 0 < d.blockSize) (n : ℕ) :
    min (n * d.blockSize) d.firstWrite.length / d.blockSize = min n d.formatStep := by
  rw [Device.formatStep]
  rcases Nat.le_total (n * d.blockSize) d.firstWrite.length with hle | hle
  · rw [Nat.min_eq_left hle, Nat.mul_div_cancel _ hbs, Nat.min_eq_left]
    exact (Nat.le_div_iff_mul_le hbs).mpr hle
  · rw [Nat.min_eq_right hle, Nat.min_eq_right]
    exact (Nat.div_le_div_right hle).trans_eq (Nat.mul_div_cancel _ hbs)

/-- **As long as the counter does not wrap**, the `i`-th write begins after `i` steps. -/
theorem Device.formatAt_eq (hbs : 0 < d.blockSize) (hsize : d.numLbas * d.blockSize < 2 ^ 64) :
    ∀ {i : ℕ}, i * d.formatStep ≤ d.numLbas → i * d.formatStep < 2 ^ 32 →
      (d.formatAt i).doneBlocks = i * d.formatStep ∧ (d.formatAt i).length =
        min ((d.numLbas - i * d.formatStep) * d.blockSize) d.firstWrite.length
  | 0, _, _ => by
    refine ⟨(Nat.zero_mul _).symm, ?_⟩
    rw [Nat.zero_mul, Nat.sub_zero, d.firstWrite_length hsize, ← min_assoc, min_self]
    exact d.firstWrite_length hsize
  | i + 1, hnum, h32 => by
    rw [Nat.succ_mul] at hnum h32
    obtain ⟨hdone, hlength⟩ := Device.formatAt_eq hbs hsize (i := i) (by omega) (by omega)
    have hdone' : (d.formatAt (i + 1)).doneBlocks = (i + 1) * d.formatStep := by
      change ((d.formatAt i).doneBlocks + (d.formatAt i).length / d.blockSize) % 2 ^ 32 = _
      rw [hdone, hlength, Device.div_step hbs, Nat.min_eq_right (by omega), Nat.succ_mul,
        Nat.mod_eq_of_lt h32]
    refine ⟨hdone', ?_⟩
    have hle : (d.numLbas - (i + 1) * d.formatStep) * d.blockSize ≤
        (d.numLbas - i * d.formatStep) * d.blockSize := by
      refine Nat.mul_le_mul_right _ ?_
      rw [Nat.succ_mul]
      omega
    rw [d.formatAt_succ_length hsize, hdone', hlength, ← min_assoc, Nat.min_eq_left hle]

/-- The block count after the next callback, on a device whose blocks can be counted. -/
theorem Device.formatAt_succ_doneBlocks (hbs : 0 < d.blockSize)
    (hsize : d.numLbas * d.blockSize < 2 ^ 64) (hcount : d.numLbas < 2 ^ 32)
    (hi : i * d.formatStep ≤ d.numLbas) :
    (d.formatAt (i + 1)).doneBlocks = min ((i + 1) * d.formatStep) d.numLbas := by
  obtain ⟨hdone, hlength⟩ := Device.formatAt_eq hbs hsize hi (by omega)
  change ((d.formatAt i).doneBlocks + (d.formatAt i).length / d.blockSize) % 2 ^ 32 = _
  rw [hdone, hlength, Device.div_step hbs, Nat.succ_mul, Nat.mod_eq_of_lt (by omega)]
  omega

/-- Up to its end, the format takes whole steps. -/
theorem Device.formatAt_le (hbs : 0 < d.blockSize) (hsize : d.numLbas * d.blockSize < 2 ^ 64)
    (hcount : d.numLbas < 2 ^ 32) : ∀ {i : ℕ},
      (∀ k < i, (d.formatAt (k + 1)).doneBlocks < d.numLbas) → i * d.formatStep ≤ d.numLbas
  | 0, _ => by
    rw [Nat.zero_mul]
    exact Nat.zero_le _
  | i + 1, hmore => by
    have hi := Device.formatAt_le hbs hsize hcount fun k hk =>
      hmore k (hk.trans (Nat.lt_succ_self i))
    have hlt := hmore i (Nat.lt_succ_self i)
    rw [Device.formatAt_succ_doneBlocks hbs hsize hcount hi] at hlt
    omega

end Sequence

/-! ### Programs -/

section Programs

variable {c : Request} {b : Bool} {l : List Happening} {s : Xfer} {f : Formatting} {buf : ℕ}

theorem wp_clearFormat {A : (o : Op) → Ans o → Prop} {F : Fault → Xfer → Prop}
    {R : Unit → Xfer → Prop} (h : R () { s with formatting := ⟨false, s.formatting.progress⟩ }) :
    Prog.wp (xferInterp c) A F clearFormat R s := by
  intro a _ r t ht
  obtain ⟨rfl, rfl⟩ := Prod.mk.inj (Option.some.inj ht)
  intro a _ r t ht
  obtain ⟨-, rfl⟩ := Prod.mk.inj (Option.some.inj ht)
  exact h

/-- The end of the format. -/
theorem wp_formatFinish {ret : TcmuSts} (hjobs : s.jobs = [])
    (h : c.FormatEnded f ⟨false, s.formatting.progress⟩ (s.log ++ [.complete ret])) :
    Prog.wp (xferInterp c) (fun _ _ => True) (fun _ _ => False) (formatFinish ret)
      (fun _ t => t.Stands c.FormatUnder (c.FormatEnded f)) s :=
  Prog.wp_bind.mpr (wp_clearFormat (wp_aioCommandFinish (Or.inr ⟨hjobs, h⟩)))

/-- A failure ends the format. -/
theorem Request.FormatGoing.fails {g : Formatting} (h : c.FormatGoing b g l) {x : Happening}
    {sts : TcmuSts} {p : ℕ} (hx : x.fails = true) (hopen : x.status? = none)
    (hlast : backs [x] = 1 →
      (c.dev.geo.formatAt (settled l + 1)).doneBlocks = c.dev.geo.numLbas) (hsts : sts ≠ .ok) :
    c.FormatEnded f ⟨false, p⟩ (l ++ [x] ++ [.complete sts]) := by
  refine Or.inr (Or.inl ⟨l, x, sts, ?_, hx, hsts, rfl, hopen, h.open_, hlast⟩)
  rw [List.append_assoc]
  rfl

/-- The next write. -/
theorem wp_formatDispatch {i : ℕ} {R : TcmuSts → Xfer → Prop} (hwrite : c.dev.handler.write = true)
    (hjobs : s.jobs = []) (hi : settled s.log = i)
    (hload : s.mem.load buf (c.dev.geo.formatAt i).length =
      List.replicate (c.dev.geo.formatAt i).length 0)
    (hgoing : c.FormatGoing false s.formatting s.log)
    (hok : ∀ t : Xfer, t.Stands c.FormatUnder (c.FormatEnded f) → R .asyncHandled t)
    (hfail : ∀ (sts : TcmuSts) (t : Xfer), sts ≠ .asyncHandled → t.jobs = [] →
      (∀ sts' p, sts' ≠ .ok → c.FormatEnded f ⟨false, p⟩ (t.log ++ [.complete sts'])) → R sts t) :
    Prog.wp (xferInterp c) (fun _ _ => True) (fun _ _ => False)
      (asyncHandleCmd c (c.dev.geo.formatJob i buf)) R s := by
  subst hi
  refine wp_next (Q := c.FormatUnder) (E := c.FormatEnded f) hjobs rfl hwrite
    ⟨buf, rfl, hload, hgoing⟩ ⟨buf, ?_, ?_, hgoing.call hload⟩ hok ?_
  · rw [settled_call]
  · rw [settled_call]
    exact hload
  · intro sts x t _ hasync hx ht _ _ hlog
    refine hfail sts t hasync ht fun sts' p hsts' => ?_
    rw [hlog]
    rcases hx with rfl | rfl
    · exact hgoing.fails rfl rfl (fun h => absurd h (by simp [backs])) hsts'
    · exact hgoing.fails rfl rfl (fun h => absurd h (by simp [backs])) hsts'

/-- **The callback.** It ends the format with the status of the last write, or goes on. -/
theorem wp_handleFormatUnitCbk (hbs : 0 < c.dev.geo.blockSize)
    (hsize : c.dev.geo.numLbas * c.dev.geo.blockSize < 2 ^ 64)
    (hwrite : c.dev.handler.write = true) {x : Happening} {ret : TcmuSts} (hjobs : s.jobs = [])
    (hgoing : c.FormatGoing b s.formatting l) (hlog : s.log = l ++ [x])
    (hx : x.settles = true) (hzeros : x.Zeros c) (hopen : x.status? = none)
    (hwrites : writes (l ++ [x]) = c.dev.geo.formatWrites (settled l + 1))
    (hok : ret = .ok → x.fails = false ∧ x.write? = none ∧ b = true)
    (herr : ret ≠ .ok → x.fails = true) :
    Prog.wp (xferInterp c) (fun _ _ => True) (fun _ _ => False)
      ((c.dev.geo.formatJob (settled l) buf).done c ret)
      (fun _ t => t.Stands c.FormatUnder (c.FormatEnded f)) s := by
  have hle := c.dev.geo.formatAt_doneBlocks_le hbs hsize hgoing.more
  have hsettled : settled (l ++ [x]) = settled l + 1 := by
    rw [settled_append, settled, settled, List.countP_cons_of_pos hx, List.countP_nil]
  change Prog.wp _ _ _ (if (c.dev.geo.formatAt (settled l + 1)).doneBlocks = c.dev.geo.numLbas then
    formatFinish ret
    else if (c.dev.geo.formatAt (settled l + 1)).doneBlocks < c.dev.geo.numLbas then do
      modifyRdev fun r => { r with formatProgress := c.dev.geo.progressAt (settled l + 1) }
      formatNext c (c.dev.geo.formatAt (settled l + 1)).length
        (c.dev.geo.formatAt (settled l + 1)).offset (c.dev.geo.formatAt (settled l + 1)).doneBlocks
    else pure ()) _ _
  split
  · rename_i hlast
    refine wp_formatFinish hjobs ?_
    rw [hlog]
    by_cases hret : ret = .ok
    · obtain ⟨hfails, hnowrite, rfl⟩ := hok hret
      rw [hret]
      refine Or.inr (Or.inr ⟨l, x, s.formatting, ?_, hfails, hx, hzeros, hnowrite, hopen, rfl,
        hgoing, hlast⟩)
      rw [List.append_assoc]
      rfl
    · exact hgoing.fails (herr hret) hopen (fun _ => hlast) hret
  · rename_i hne
    have hmore : (c.dev.geo.formatAt (settled l + 1)).doneBlocks < c.dev.geo.numLbas := by omega
    rw [if_pos hmore]
    have hgoing' := hgoing.settle hx hzeros hopen hwrites hmore
    rw [← hsettled] at hgoing' ⊢
    rw [← hlog] at hgoing' ⊢
    intro a _ r t ht
    obtain ⟨rfl, rfl⟩ := Prod.mk.inj (Option.some.inj ht)
    intro a _ r t ht
    obtain ⟨-, rfl⟩ := Prod.mk.inj (Option.some.inj ht)
    change Prog.wp _ _ _ (formatNext c (c.dev.geo.formatAt (settled s.log)).length
      (c.dev.geo.formatAt (settled s.log)).offset (c.dev.geo.formatAt (settled s.log)).doneBlocks) _
      { s with formatting := ⟨s.formatting.on, c.dev.geo.progressAt (settled s.log)⟩ }
    have hflag : s.formatting.on = true := by rw [hgoing.flag]
    rw [hflag, formatNext]
    refine Prog.wp_bind.mpr (wp_allocIovec (fun buf _ => ?_) ?_)
    · refine Prog.wp_bind.mpr (wp_formatDispatch (f := f) hwrite hjobs rfl ?_ ?_ (fun t ht => ?_)
        (fun sts t hasync ht hended => ?_))
      · exact Mem.load_store _ _ List.length_replicate
      · exact hgoing'
      · rw [if_neg (by simp)]
        exact ht
      · rw [if_pos hasync]
        exact wp_formatFinish ht (hended _ _ (by simp))
    · exact wp_formatFinish hjobs
        (hgoing'.fails rfl rfl (fun h => absurd h (by simp [backs])) (by simp))

/-- **The handler.** -/
theorem wp_handleFormatUnit (hxfer : c.dev.geo.xferBytes ≠ 0)
    (hwrite : c.dev.handler.write = true) (mem : Mem) (f : Formatting) :
    Prog.wp (xferInterp c) (fun _ _ => True) (fun _ _ => False) (answer (handleFormatUnit c))
      (fun _ t => t.Stands c.FormatUnder (c.FormatEnded f)) (Xfer.init mem f) := by
  have hnil : c.FormatGoing false ⟨true, 0⟩ [] := by
    refine ⟨?_, rfl, fun _ hx => absurd hx (by simp), rfl,
      fun i hi => absurd hi (by simp [settled]), by simp⟩
    change _ = (⟨true, 0x10000 * 0 % 2 ^ 32 / c.dev.geo.numLbas % 2 ^ 32⟩ : Formatting)
    rw [Nat.mul_zero, Nat.zero_mod, Nat.zero_div, Nat.zero_mod]
  have hnomem : ∀ p, c.FormatEnded f ⟨false, p⟩ [.nomem, .complete .noResource] := fun p =>
    hnil.fails (x := .nomem) rfl rfl (fun h => absurd h (by simp [backs])) (by simp)
  refine wp_answer ?_
  rw [handleFormatUnit]
  intro a _ r t ht
  obtain ⟨rfl, rfl⟩ := Prod.mk.inj (Option.some.inj ht)
  change Prog.wp _ _ _ (if f.on = true then _ else _) _ _
  split
  · rename_i hon
    intro a _ r t ht
    obtain ⟨-, rfl⟩ := Prod.mk.inj (Option.some.inj ht)
    exact ⟨fun h => absurd h (by simp), fun _ => Or.inr ⟨rfl, Or.inl ⟨hon, rfl, rfl⟩⟩⟩
  · intro a _ r t ht
    obtain ⟨-, rfl⟩ := Prod.mk.inj (Option.some.inj ht)
    have hclear : ∀ t : Xfer, t.jobs = [] → t.log = [.nomem] → Prog.wp (xferInterp c)
        (fun _ _ => True) (fun _ _ => False) (do clearFormat; pure .noResource)
        (fun ret u => (ret = .asyncHandled → u.Stands c.FormatUnder (c.FormatEnded f)) ∧
          (ret ≠ .asyncHandled → (u.note (.complete ret)).Stands c.FormatUnder (c.FormatEnded f)))
        t := by
      intro t hjobs hlog
      refine Prog.wp_bind.mpr (wp_clearFormat ⟨fun h => absurd h (by simp), fun _ => ?_⟩)
      refine Or.inr ⟨hjobs, ?_⟩
      dsimp only [Xfer.note]
      rw [hlog]
      exact hnomem _
    refine Prog.wp_bind.mpr (Prog.wp_bind.mpr (wp_alloc ?_ (hclear _ rfl rfl)))
    rw [if_neg (by simp)]
    refine Prog.wp_bind.mpr (wp_alloc ?_ (hclear _ rfl rfl))
    rw [if_neg (by simp), roundUp_stepBytes hxfer]
    refine Prog.wp_bind.mpr (Prog.wp_bind.mpr (wp_allocIovec (fun buf _ => ?_) (hclear _ rfl rfl)))
    refine Prog.wp_bind.mpr (wp_formatDispatch (i := 0) (f := f) hwrite rfl rfl ?_ hnil
      (fun t ht => ?_) (fun sts t hasync ht hended => ?_))
    · exact Mem.load_store _ _ List.length_replicate
    · rw [if_neg (by simp)]
      exact ⟨fun _ => ht, fun h => absurd rfl h⟩
    · rw [if_pos hasync]
      refine Prog.wp_bind.mpr (wp_clearFormat ⟨fun h => absurd h (by simp), fun _ => ?_⟩)
      exact Or.inr ⟨ht, hended _ _ (by simp)⟩

/-- **Whole formats**: one write after the other. -/
theorem oneByOne_handleFormatUnit (hbs : 0 < c.dev.geo.blockSize)
    (hsize : c.dev.geo.numLbas * c.dev.geo.blockSize < 2 ^ 64) (hxfer : c.dev.geo.xferBytes ≠ 0)
    (hwrite : c.dev.handler.write = true) (mem : Mem) (f : Formatting) :
    OneByOne c (handleFormatUnit c) mem f c.FormatUnder (c.FormatEnded f) := by
  refine ⟨wp_handleFormatUnit hxfer hwrite mem f, ?_, ?_, ?_, ?_⟩
  · rintro _ m g l ⟨buf, rfl, hload, hgoing⟩
    refine ⟨rfl, hwrite, buf, ?_, ?_, hgoing.call hload⟩
    · rw [settled_call]
    · rw [settled_call]
      exact hload
  · rintro _ e s l hjobs ⟨buf, rfl, hload, hgoing⟩ hlog
    refine wp_handleFormatUnitCbk hbs hsize hwrite hjobs hgoing hlog rfl (zeros_format hload) rfl ?_
      (fun h => absurd h e.ne_ok) fun _ => rfl
    rw [writes_append, hgoing.writes_eq]
    exact (c.dev.geo.formatWrites_succ _).symm
  · rintro _ m g l a bs ⟨buf, rfl, -, -⟩ htakes
    exact absurd htakes (by simp [Job.callout, Callout.takes])
  · rintro _ ret s l hjobs ⟨buf, rfl, hload, hgoing⟩ hlog
    refine wp_handleFormatUnitCbk hbs hsize hwrite hjobs hgoing hlog rfl (zeros_format hload) rfl ?_
      (fun h => ⟨?_, rfl, rfl⟩) fun h => decide_eq_true h
    · rw [writes_append, hgoing.writes_eq]
      exact List.append_nil _
    · rw [h]
      rfl

end Programs

/-! ### Runs in which nothing fails -/

section Runs

variable {c : Request} {l m l₀ : List Happening} {x y : Happening}

/-- The last two elements of a list that is put together from two. -/
theorem append_eq_concat_two (h : l ++ m = l₀ ++ [x, y]) :
    m = [] ∨ m = [y] ∧ l = l₀ ++ [x] ∨ ∃ m', m = m' ++ [x, y] := by
  rcases List.eq_nil_or_concat' m with rfl | ⟨m₁, b, rfl⟩
  · exact Or.inl rfl
  · have hsplit : (l ++ m₁) ++ [b] = (l₀ ++ [x]) ++ [y] := by
      rw [List.append_assoc, List.append_assoc]
      exact h
    obtain ⟨hrest, hb⟩ := List.append_inj' hsplit rfl
    obtain rfl := List.singleton_inj.mp hb
    rcases List.eq_nil_or_concat' m₁ with rfl | ⟨m₂, a, rfl⟩
    · rw [List.append_nil] at hrest
      exact Or.inr (Or.inl ⟨rfl, hrest⟩)
    · rw [← List.append_assoc] at hrest
      obtain ⟨-, ha⟩ := List.append_inj' hrest rfl
      obtain rfl := List.singleton_inj.mp ha
      exact Or.inr (Or.inr ⟨m₂, List.append_assoc _ _ _⟩)

/-- Where nothing has failed, what has come to its end has been called back. -/
theorem Clear.settled_eq (h : Clear l) : settled l = backs l := by
  refine List.countP_congr fun x hx => ?_
  have hfails := h x hx
  cases x with
  | call co data accepted =>
    cases accepted with
    | true => exact Iff.rfl
    | false => exact absurd hfails (by simp [Happening.fails])
  | _ => exact Iff.rfl

/-- A format that has ended without a failure has come to its last write. -/
theorem Request.FormatEnded.of_clear {f g : Formatting} (h : c.FormatEnded f g l)
    (hoff : f.on = false) (hclear : Clear l) :
    ∃ l₀ x g₀, l = l₀ ++ [x, .complete .ok] ∧ settled l₀ + 1 = backs l ∧ x.Zeros c ∧
      x.write? = none ∧ x.status? = none ∧ g.on = false ∧ c.FormatGoing true g₀ l₀ ∧
        (c.dev.geo.formatAt (settled l₀ + 1)).doneBlocks = c.dev.geo.numLbas := by
  rcases h with ⟨hon, -, -⟩ | ⟨l₀, x, sts, rfl, hx, -⟩ |
    ⟨l₀, x, g₀, rfl, hx, hsettles, hzeros, hnowrite, hopen, hg, hgoing, hlast⟩
  · exact absurd (hoff.symm.trans hon) (by simp)
  · rw [hclear x (by simp)] at hx
    exact absurd hx (by simp)
  · refine ⟨l₀, x, g₀, rfl, ?_, hzeros, hnowrite, hopen, hg, hgoing, hlast⟩
    rw [← hclear.settled_eq, settled_append, settled, settled, List.countP_cons_of_pos hsettles]
    rfl

variable {mem : Mem} {f : Formatting}

/-- **Every write that is not behind the last one is reached.** -/
theorem format_reaches
    (hone : OneByOne c (handleFormatUnit c) mem f c.FormatUnder (c.FormatEnded f))
    (hoff : f.on = false) : ∀ {i : ℕ},
      (∀ k < i, (c.dev.geo.formatAt (k + 1)).doneBlocks < c.dev.geo.numLbas) →
        ∃ es s, run (xferStep c (handleFormatUnit c)) (Xfer.init mem f) es = some s ∧
          s.Orderly c.FormatUnder (c.FormatEnded f) ∧ s.jobs ≠ [] ∧ Clear s.log ∧ backs s.log = i
  | 0, _ => by
    obtain ⟨t, hstep, ht, hgoes⟩ := hone.begins
    have hclear := hgoes.clear clear_nil
    refine ⟨_, t, (run_singleton _ _ _).trans hstep, ht, fun hjobs => ?_, hclear, hgoes.backs_eq⟩
    rcases ht.2.2 with ⟨b, j, hj, -⟩ | ⟨-, hended⟩
    · exact absurd (hj.symm.trans hjobs) (by simp)
    · obtain ⟨l₀, x, g₀, -, hsettled, -⟩ := hended.of_clear hoff hclear
      rw [hgoes.backs_eq] at hsettled
      exact absurd hsettled (by simp [backs])
  | i + 1, hmore => by
    obtain ⟨es, s, hrun, hs, hjobs, hclear, hbacks⟩ :=
      format_reaches hone hoff fun k hk => hmore k (hk.trans (Nat.lt_succ_self i))
    obtain ⟨fs, t, hrun', ht, hgoes⟩ := hone.advances hs hjobs
    have hclear' := hgoes.clear hclear
    refine ⟨es ++ fs, t, ?_, ht, fun hjobs' => ?_, hclear', ?_⟩
    · rw [run_append, hrun]
      exact hrun'
    · rcases ht.2.2 with ⟨b, j, hj, -⟩ | ⟨-, hended⟩
      · exact absurd (hj.symm.trans hjobs') (by simp)
      · obtain ⟨l₀, x, g₀, -, hsettled, -, -, -, -, -, hlast⟩ := hended.of_clear hoff hclear'
        rw [hsettled, hgoes.backs_eq, hbacks] at hlast
        exact absurd hlast (hmore i (Nat.lt_succ_self i)).ne
    · rw [hgoes.backs_eq, hbacks]

end Runs

/-! ### The whole device -/

section Whole

variable {c : Request} {d : Device} {mem : Mem}

theorem Device.Sized.exists_step (hd : d.Sized) :
    ∃ k, 0 < k ∧ d.firstWrite.length = min d.numLbas k * d.blockSize ∧
      d.formatStep = min d.numLbas k := by
  obtain ⟨k, hk, hstep⟩ := hd.stepBytes_eq
  have hlength : d.firstWrite.length = min d.numLbas k * d.blockSize := by
    rw [d.firstWrite_length (hd.size_lt.trans (by norm_num)), hstep, Nat.mul_min_mul_right]
  refine ⟨k, hk, hlength, ?_⟩
  rw [Device.formatStep, hlength, Nat.mul_div_cancel _ hd.blockSize_pos]

/-- On a device whose size and transfers are in order, a step is whole blocks. -/
theorem Device.Sized.firstWrite_length (hd : d.Sized) :
    d.firstWrite.length = d.formatStep * d.blockSize := by
  obtain ⟨k, -, hlength, hstep⟩ := hd.exists_step
  rw [hlength, hstep]

theorem Device.Sized.formatStep_pos (hd : d.Sized) (hnum : 0 < d.numLbas) : 0 < d.formatStep := by
  obtain ⟨k, hk, -, hstep⟩ := hd.exists_step
  omega

/-- The byte offset keeps up with the block count. -/
theorem Device.Sized.formatAt_offset (hd : d.Sized) (hcount : d.numLbas < 2 ^ 32) :
    ∀ {i : ℕ}, i * d.formatStep ≤ d.numLbas →
      (d.formatAt i).offset = i * d.formatStep * d.blockSize
  | 0, _ => by
    rw [Nat.zero_mul, Nat.zero_mul]
    rfl
  | i + 1, hi => by
    have hi' : i * d.formatStep ≤ d.numLbas := by
      rw [Nat.succ_mul] at hi
      omega
    have hsize := hd.size_lt.trans (show 2 ^ 63 < 2 ^ 64 by norm_num)
    obtain ⟨-, hlength⟩ := Device.formatAt_eq hd.blockSize_pos hsize hi' (by omega)
    have hstep : (d.formatAt i).length = d.formatStep * d.blockSize := by
      rw [hlength, hd.firstWrite_length]
      refine Nat.min_eq_right (Nat.mul_le_mul_right _ ?_)
      rw [Nat.succ_mul] at hi
      omega
    change ((d.formatAt i).offset + (d.formatAt i).length) % 2 ^ 64 = _
    rw [hd.formatAt_offset hcount hi', hstep, ← Nat.add_mul, ← Nat.succ_mul]
    exact Nat.mod_eq_of_lt ((hd.bytes_lt hi).trans (by norm_num))

/-- The writes follow each other. -/
theorem Device.Sized.tiles_formatWrites (hd : d.Sized) (hcount : d.numLbas < 2 ^ 32) :
    ∀ {n : ℕ}, (∀ i < n, i * d.formatStep ≤ d.numLbas) →
      Tiles 0 (min (n * d.formatStep) d.numLbas * d.blockSize) (d.formatWrites n)
  | 0, _ => by
    rw [Nat.zero_mul, Nat.zero_min, Nat.zero_mul]
    rfl
  | n + 1, hn => by
    have hlast := hn n (Nat.lt_succ_self n)
    have hsize := hd.size_lt.trans (show 2 ^ 63 < 2 ^ 64 by norm_num)
    have htiles := hd.tiles_formatWrites hcount fun i hi => hn i (hi.trans (Nat.lt_succ_self n))
    obtain ⟨-, hlength⟩ := Device.formatAt_eq hd.blockSize_pos hsize hlast (by omega)
    rw [Nat.min_eq_left hlast] at htiles
    rw [d.formatWrites_succ, hd.formatAt_offset hcount hlast, hlength, hd.firstWrite_length]
    refine tiles_concat.mpr ⟨htiles, ?_⟩
    rw [Nat.mul_min_mul_right, ← Nat.add_mul, Nat.succ_mul]
    congr 1
    omega

/-- A format in which nothing has failed: it has come up to some block, it ends after `N` callbacks
at most, and when it has ended the whole device has been formatted. -/
structure Request.FormatsUpTo (c : Request) (N : ℕ) (s : Xfer) : Prop where
  /-- The daemon is up. -/
  up : s.fault = none
  /-- Nothing is called but `write`, with zeros. -/
  zeros : ∀ x ∈ s.log, x.Zeros c
  /-- The writes begin at block 0, follow each other, and stay inside the device. -/
  tiles : ∃ cur ≤ c.dev.geo.numLbas, Tiles 0 (cur * c.dev.geo.blockSize) (writes s.log)
  /-- The callbacks are bounded. -/
  finite : backs s.log ≤ N
  /-- There is an end. -/
  ends : ∃ es t, run (xferStep c (handleFormatUnit c)) s es = some t ∧ t.begun = true ∧
    t.jobs = [] ∧ Clear t.log
  /-- At the end all is written, the flag is cleared and the command is completed. -/
  ended : s.begun = true → s.jobs = [] →
    Tiles 0 (c.dev.geo.numLbas * c.dev.geo.blockSize) (writes s.log) ∧
      s.formatting.on = false ∧ completions s.log = [.ok]

/-- If nothing fails, the whole device is formatted, and this comes to an end. -/
def Request.FormatsWhole (c : Request) : Prop :=
  ∃ N, ∀ mem p es s, run (xferStep c (handleFormatUnit c)) (Xfer.init mem ⟨false, p⟩) es = some s →
    Clear s.log → c.FormatsUpTo N s

/-- Blocks that cannot be counted in 32 bits are formatted for ever. -/
theorem not_formatsWhole (hd : c.dev.geo.Sized) (hwrite : c.dev.handler.write = true)
    (hcount : 2 ^ 32 ≤ c.dev.geo.numLbas) : ¬ c.FormatsWhole := by
  rintro ⟨N, h⟩
  have hone := oneByOne_handleFormatUnit hd.blockSize_pos (hd.size_lt.trans (by norm_num))
    hd.xferBytes_ne_zero hwrite (fun _ => 0) ⟨false, 0⟩
  obtain ⟨es, s, hrun, -, -, hclear, hbacks⟩ := format_reaches hone rfl (i := N + 1)
    fun k _ => (c.dev.geo.formatAt_doneBlocks_lt (k + 1)).trans_le hcount
  have hfinite := (h _ _ es s hrun hclear).finite
  omega

/-- What is known about a format under way, on a device whose blocks can be counted. -/
theorem Request.FormatGoing.bounds {b : Bool} {g : Formatting} {l : List Happening}
    (h : c.FormatGoing b g l) (hd : c.dev.geo.Sized) (hcount : c.dev.geo.numLbas < 2 ^ 32) :
    settled l * c.dev.geo.formatStep ≤ c.dev.geo.numLbas ∧ settled l ≤ c.dev.geo.numLbas := by
  have hsize := hd.size_lt.trans (show 2 ^ 63 < 2 ^ 64 by norm_num)
  have hle := Device.formatAt_le hd.blockSize_pos hsize hcount h.more
  refine ⟨hle, ?_⟩
  rcases Nat.eq_zero_or_pos c.dev.geo.numLbas with hzero | hpos
  · by_contra hne
    have hmore := h.more 0 (by omega)
    rw [hzero] at hmore
    exact absurd hmore (by simp)
  · exact (Nat.le_mul_of_pos_right _ (hd.formatStep_pos hpos)).trans hle

/-- The writes of a format under way. -/
theorem Request.FormatGoing.tiles {b : Bool} {g : Formatting} {l : List Happening}
    (h : c.FormatGoing b g l) (hd : c.dev.geo.Sized) (hcount : c.dev.geo.numLbas < 2 ^ 32) :
    Tiles 0 (min ((settled l + if b then 1 else 0) * c.dev.geo.formatStep) c.dev.geo.numLbas *
      c.dev.geo.blockSize) (writes l) := by
  have hle := (h.bounds hd hcount).1
  rw [h.writes_eq]
  refine hd.tiles_formatWrites hcount fun i hi => ?_
  have hi : i ≤ settled l := by
    split at hi
    · omega
    · omega
  exact (Nat.mul_le_mul_right _ hi).trans hle

/-- A format that has ended without a failure has covered the device. -/
theorem Request.FormatEnded.covers {f g : Formatting} {l : List Happening}
    (h : c.FormatEnded f g l) (hoff : f.on = false) (hclear : Clear l) (hd : c.dev.geo.Sized)
    (hcount : c.dev.geo.numLbas < 2 ^ 32) :
    Tiles 0 (c.dev.geo.numLbas * c.dev.geo.blockSize) (writes l) ∧ (∀ x ∈ l, x.Zeros c) ∧
      backs l ≤ c.dev.geo.numLbas + 1 ∧ g.on = false ∧ completions l = [.ok] := by
  obtain ⟨l₀, x, g₀, rfl, hsettled, hzeros, hnowrite, hopen, hg, hgoing, hlast⟩ :=
    h.of_clear hoff hclear
  have hsize := hd.size_lt.trans (show 2 ^ 63 < 2 ^ 64 by norm_num)
  obtain ⟨hle, hbound⟩ := hgoing.bounds hd hcount
  have htiles := hgoing.tiles hd hcount
  rw [Device.formatAt_succ_doneBlocks hd.blockSize_pos hsize hcount hle] at hlast
  rw [if_pos rfl, hlast] at htiles
  have hwrites : writes [x, .complete .ok] = [] := List.filterMap_cons_none hnowrite
  have hstatus : completions [x, .complete .ok] = [.ok] := List.filterMap_cons_none hopen
  refine ⟨?_, ?_, by omega, hg, ?_⟩
  · rw [writes_append, hwrites, List.append_nil]
    exact htiles
  · refine List.forall_mem_append.mpr ⟨hgoing.zeros, ?_⟩
    exact List.forall_mem_cons.mpr ⟨hzeros, List.forall_mem_singleton.mpr trivial⟩
  · rw [completions_append, hgoing.open_, hstatus]
    rfl

theorem formatsWhole_of_lt (hd : c.dev.geo.Sized) (hwrite : c.dev.handler.write = true)
    (hcount : c.dev.geo.numLbas < 2 ^ 32) : c.FormatsWhole := by
  refine ⟨c.dev.geo.numLbas + 1, fun mem p es s hrun hclear => ?_⟩
  have hone := oneByOne_handleFormatUnit hd.blockSize_pos (hd.size_lt.trans (by norm_num))
    hd.xferBytes_ne_zero hwrite mem ⟨false, p⟩
  have hbound : ∀ {b j m g l}, c.FormatUnder b j m g l → backs l < c.dev.geo.numLbas + 1 := by
    rintro b j m g l ⟨buf, -, -, hgoing⟩
    exact Nat.lt_succ_of_le ((backs_le_settled l).trans (hgoing.bounds hd hcount).2)
  have hends := hone.ends_clear hbound (hone.run hrun) hclear
  rcases hone.run hrun with rfl | ⟨hfault, hbegun, hstands⟩
  · exact ⟨rfl, fun x hx => absurd hx (by simp [Xfer.init]), ⟨0, Nat.zero_le _, by
      rw [Nat.zero_mul]; rfl⟩, Nat.zero_le _, hends, fun h => absurd h (by simp [Xfer.init])⟩
  · rcases hstands with ⟨b, j, hjobs, buf, -, -, hgoing⟩ | ⟨hjobs, hended⟩
    · refine ⟨hfault, hgoing.zeros, ⟨_, Nat.min_le_right _ _, hgoing.tiles hd hcount⟩, ?_, hends,
        fun _ hnil => absurd (hjobs.symm.trans hnil) (by simp)⟩
      exact (backs_le_settled _).trans ((hgoing.bounds hd hcount).2.trans (Nat.le_succ _))
    · obtain ⟨htiles, hzeros, hfinite, hg, hcompletions⟩ := hended.covers rfl hclear hd hcount
      exact ⟨hfault, hzeros, ⟨_, le_rfl, htiles⟩, hfinite, hends,
        fun _ _ => ⟨htiles, hg, hcompletions⟩⟩

/-- **`FORMAT UNIT` formats the whole device and ends** if and only if the blocks can be counted in
32 bits. -/
theorem format_whole_iff (hd : c.dev.geo.Sized) (hwrite : c.dev.handler.write = true) :
    c.FormatsWhole ↔ c.dev.geo.numLbas < 2 ^ 32 := by
  refine ⟨fun h => ?_, formatsWhole_of_lt hd hwrite⟩
  by_contra hcount
  exact not_formatsWhole hd hwrite (not_lt.mp hcount) h

end Whole

/-- The device of eight blocks is formatted. -/
theorem format_whole_small : (formatOf (smallDev allocHandler) []).FormatsWhole :=
  (format_whole_iff ⟨by decide, by decide, by decide⟩ rfl).mpr (by decide)

/-- A device of 2 TiB. -/
def hugeDev : TcmuDev := ⟨0, ⟨512, 2 ^ 32, 128, 128, 0⟩, allocHandler, none⟩

/-- It is not: the count of blocks gets back to zero before it gets to the end. -/
theorem format_huge_endless : hugeDev.geo.Sized ∧ ¬ (formatOf hugeDev []).FormatsWhole :=
  ⟨⟨by decide, by decide, by decide⟩,
    not_formatsWhole ⟨by decide, by decide, by decide⟩ rfl (by decide)⟩

end Tcmu

end LioProject
