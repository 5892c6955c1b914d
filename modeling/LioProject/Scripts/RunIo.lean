import LioProject.Lib.Regex
import LioProject.Scripts.CreateDevices
import Mathlib.Data.List.TakeWhile
import Mathlib.Data.Nat.Find

/-!
# `run_io.py`

`run_io.py` reads the output of `lsscsi`, finds the devices of LIO in it, and writes random data to
them. One regular expression finds them: a number in front of a bracket with `LIO` somewhere behind
it on the same line, and what follows the last `/dev/` of the line.

The expression does not look at the column of the vendor. So a line of another vendor is found too
if there is a `LIO` anywhere on it, and the disk is overwritten (`foreign_disk_written`). And a name
that has another `/dev/` in it is cut off. Apart from these, the devices of LIO are found, in the
order of the lines, and nothing else is written to (`lio_only_iff`).
-/

namespace LioProject

namespace RunIo

open CreateDevices (zeros)

/-! ### The script -/

/-- `\d`. -/
def isDigit (c : Char) : Bool := zeros.any fun z => z ≤ c.toNat && c.toNat ≤ z + 9

/-- `\s`. -/
def isSpace (c : Char) : Bool :=
  c.toNat ∈ [0x9, 0xa, 0xb, 0xc, 0xd, 0x1c, 0x1d, 0x1e, 0x1f, 0x20, 0x85, 0xa0, 0x1680, 0x2000,
    0x2001, 0x2002, 0x2003, 0x2004, 0x2005, 0x2006, 0x2007, 0x2008, 0x2009, 0x200a, 0x2028, 0x2029,
    0x202f, 0x205f, 0x3000]

/-- `.`. -/
def isDot (c : Char) : Bool := c ≠ '\n'

/-- `LIO`. -/
def lio : List Char := ['L', 'I', 'O']

/-- `].*LIO`. -/
def reLio : Re Char := .seq (.text [']']) (.seq (.star isDot) (.text lio))

/-- `(\d+(?=].*LIO))`. -/
def reLun : Re Char := .group (.seq (.plus isDigit) (.ahead reLio))

/-- `.*`. -/
def reAny : Re Char := .star isDot

/-- `/dev/`. -/
def devDir : List Char := ['/', 'd', 'e', 'v', '/']

/-- `((?<=/dev/)\S+)`. -/
def reDev : Re Char := .group (.seq (.behind devDir) (.plus fun c => !isSpace c))

/-- The expression for a device of LIO. -/
def pattern : Re Char := .seq reLun (.seq reAny reDev)

/-- What reading a text file does to its ends of lines. -/
def universalNewlines : List Char → List Char
  | [] => []
  | '\r' :: '\n' :: l => '\n' :: universalNewlines l
  | '\r' :: l => '\n' :: universalNewlines l
  | c :: l => c :: universalNewlines l

/-- A device that was found. -/
structure Device where
  /-- `item['lun']`. -/
  lun : String
  /-- `item['dev']`. -/
  dev : String
  deriving DecidableEq, Repr

/-- `parse_lio_dev`, for a file of the given text. -/
def parseLioDev (file : List Char) : List Device :=
  (pattern.findall (universalNewlines file)).map fun dev =>
    ⟨"lun_" ++ String.ofList (dev.getD 0 []), String.ofList (dev.getD 1 [])⟩

/-- A device in the configuration of an initiator. -/
structure ConfigDevice where
  /-- `dev['lun']`. -/
  lun : String
  /-- `dev['size']`. -/
  size : String

/-- A call of `write_random`. -/
structure WriteRandom where
  /-- The path that is written to. -/
  devPath : String
  /-- How many bytes. -/
  size : ℤ
  /-- How many at a time. -/
  blockSize : ℤ
  deriving DecidableEq, Repr

/-- The loop of `main`: the calls of `write_random`, one for each configured device that was found.
`int` may raise a `ValueError`, which ends the script. -/
def writes (devices : List Device) (blockSize : ℤ) : List ConfigDevice → List WriteRandom
  | [] => []
  | dev :: rest =>
    match (devices.filter fun item => item.lun = dev.lun).map Device.dev with
    | [] => writes devices blockSize rest
    | name :: _ =>
      match CreateDevices.pyInt dev.size with
      | none => []
      | some size => ⟨"/dev/" ++ name, size, blockSize⟩ :: writes devices blockSize rest

/-! ### Lines of `lsscsi` -/

/-- A column and the blanks in front of it. -/
def column (gap : ℕ) (text : List Char) : List Char := List.replicate (gap + 1) ' ' ++ text

/-- A line `[h:c:t:l] type vendor model rev /dev/name`. The columns are padded with blanks. -/
structure Line where
  /-- The host. -/
  host : List Char
  /-- The channel. -/
  channel : List Char
  /-- The target. -/
  target : List Char
  /-- The number of the LUN. -/
  lun : List Char
  /-- The type of the device. -/
  type : List Char
  /-- The vendor. -/
  vendor : List Char
  /-- The model. -/
  model : List Char
  /-- The revision. -/
  rev : List Char
  /-- The name of the device, in `/dev/`. -/
  name : List Char
  /-- The blanks between columns, besides one each. -/
  gap : Fin 5 → ℕ
  /-- The blanks behind the last column. -/
  trail : ℕ
  /-- The numbers are numbers. -/
  numbers : ∀ n ∈ [host, channel, target, lun], n ≠ [] ∧ ∀ c ∈ n, c.isDigit = true
  /-- There is no end of a line in the columns. -/
  texts : ∀ f ∈ [type, vendor, model, rev], '\n' ∉ f ∧ '\r' ∉ f
  /-- The name is not empty, and there is no space in it. -/
  named : name ≠ [] ∧ ∀ c ∈ name, isSpace c = false

namespace Line

/-- The vendor is LIO. -/
def isLio (l : Line) : Bool := l.vendor = ['L', 'I', 'O', '-', 'O', 'R', 'G']

/-- The columns between the bracket and the device. -/
def columns (l : Line) : List Char :=
  column (l.gap 0) l.type ++ column (l.gap 1) l.vendor ++ column (l.gap 2) l.model ++
    column (l.gap 3) l.rev ++ column (l.gap 4) []

/-- What stands behind the bracket. -/
def rest (l : Line) : List Char := l.columns ++ devDir ++ l.name ++ List.replicate l.trail ' '

/-- The line. -/
def text (l : Line) : List Char :=
  '[' :: l.host ++ ':' :: l.channel ++ ':' :: l.target ++ ':' :: l.lun ++ ']' :: l.rest

/-- The device on the line. -/
def device (l : Line) : Device := ⟨"lun_" ++ String.ofList l.lun, String.ofList l.name⟩

end Line

/-- A text of lines. The last may be without an end. -/
def text (ended : Bool) : List Line → List Char
  | [] => []
  | [l] => l.text ++ if ended then ['\n'] else []
  | l :: l' :: lines => l.text ++ '\n' :: text ended (l' :: lines)

/-! ### Where no match begins -/

/-- There is no `LIO` on the rest of the line. -/
def NoLio (l : List Char) : Prop := ¬ lio <:+: l.takeWhile isDot

theorem isDot_of_isDigit {c : Char} (h : isDigit c = true) : isDot c = true := by
  rw [isDot, decide_eq_true_eq]
  rintro rfl
  exact absurd h (by decide)

theorem takeWhile_eq_take_append {l : List Char} {k : ℕ} (h : ∀ c ∈ l.take k, isDot c) :
    l.takeWhile isDot = l.take k ++ (l.drop k).takeWhile isDot := by
  conv_lhs => rw [← List.take_append_drop k l]
  exact List.takeWhile_append_of_pos h

theorem NoLio.drop {l : List Char} {k : ℕ} (hl : NoLio l) (h : ∀ c ∈ l.take k, isDot c) :
    NoLio (l.drop k) := by
  intro hlio
  rw [NoLio, takeWhile_eq_take_append h] at hl
  exact hl (hlio.trans (List.suffix_append ..).isInfix)

theorem NoLio.not_begins {l : List Char} (hl : NoLio l) : ¬ lio <+: l := by
  rintro ⟨l, rfl⟩
  refine hl ?_
  rw [List.takeWhile_append_of_pos (by simp [lio, isDot])]
  exact (List.prefix_append ..).isInfix

theorem reLio_eq_nil {s : Place Char} (h : NoLio s.after) : reLio.run s = [] := by
  refine Re.seq_eq_nil.mpr fun q hq => Re.seq_eq_nil.mpr fun r hr => Re.text_eq_nil.mpr ?_
  obtain ⟨⟨l, hl⟩, rfl⟩ := Re.mem_text.mp hq
  obtain ⟨k, -, hall, rfl⟩ := Re.mem_star.mp hr
  have hbracket : NoLio (s.after.drop 1) := by
    refine h.drop fun c hc => ?_
    rw [← hl] at hc
    obtain rfl : c = ']' := by simpa using hc
    rfl
  exact (hbracket.drop hall).not_begins

theorem pattern_eq_nil {s : Place Char} (h : ∀ q ∈ (Re.plus isDigit).run s, reLio.run q = []) :
    pattern.run s = [] := by
  have hlun : reLun.run s = [] :=
    Re.group_eq_nil.mpr (Re.seq_eq_nil.mpr fun q hq => Re.ahead_eq_nil.mpr (h q hq))
  refine Re.seq_eq_nil.mpr fun q hq => ?_
  rw [hlun] at hq
  exact absurd hq (by simp)

/-- Nothing is found where there is no `LIO` on the rest of the line. -/
theorem pattern_eq_nil_of_noLio {s : Place Char} (h : NoLio s.after) : pattern.run s = [] := by
  refine pattern_eq_nil fun q hq => reLio_eq_nil ?_
  obtain ⟨k, -, -, hall, rfl⟩ := Re.mem_plus.mp hq
  exact h.drop fun c hc => isDot_of_isDigit (hall c hc)

/-- Nothing is found in a number that no bracket follows. -/
theorem pattern_eq_nil_of_digits {ds : List Char} {c : Char} (hds : ∀ d ∈ ds, isDigit d)
    (hc : isDigit c = false) (hbracket : c ≠ ']') (before l : List Char) (g : List (List Char)) :
    pattern.run ⟨before, ds ++ c :: l, g⟩ = [] := by
  refine pattern_eq_nil fun q hq => Re.seq_eq_nil.mpr fun r hr => ?_
  obtain ⟨k, -, -, hall, rfl⟩ := Re.mem_plus.mp hq
  obtain ⟨⟨l', hl⟩, -⟩ := Re.mem_text.mp hr
  simp only [Place.advance] at hl hall
  by_cases hk : k ≤ ds.length
  · rw [List.drop_append_of_le_length hk] at hl
    cases hdrop : ds.drop k with
    | nil =>
      rw [hdrop] at hl
      exact absurd (List.cons.inj hl).1.symm hbracket
    | cons d ds' =>
      rw [hdrop] at hl
      have hd := hds d (List.mem_of_mem_drop (hdrop ▸ List.mem_cons_self ..))
      rw [← (List.cons.inj hl).1] at hd
      exact absurd hd (by decide)
  · have hmem : c ∈ (ds ++ c :: l).take k := by
      rw [List.take_append, List.mem_append]
      right
      obtain ⟨j, hj⟩ : ∃ j, k - ds.length = j + 1 := ⟨k - ds.length - 1, by omega⟩
      simp [hj]
    exact absurd (hall c hmem) (by simp [hc])

/-- A number that no bracket follows is passed. -/
theorem scan_digits {ds : List Char} {c : Char} (hds : ∀ d ∈ ds, isDigit d)
    (hc : isDigit c = false) (hbracket : c ≠ ']') (before l : List Char) :
    pattern.scan before 0 (ds ++ c :: l) = pattern.scan (c :: (ds.reverse ++ before)) 0 l := by
  induction ds generalizing before with
  | nil => exact Re.scan_none (pattern_eq_nil_of_digits hds hc hbracket before l [])
  | cons d ds ih =>
    have hnil := pattern_eq_nil_of_digits hds hc hbracket before l []
    rw [List.cons_append] at hnil ⊢
    rw [Re.scan_none hnil, ih fun e he => hds e (List.mem_cons_of_mem _ he)]
    simp

/-! ### Where a match begins -/

theorem reLio_groups {s q : Place Char} (h : q ∈ reLio.run s) : q.groups = s.groups := by
  obtain ⟨r, hr, h⟩ := Re.mem_seq.mp h
  obtain ⟨r', hr', h⟩ := Re.mem_seq.mp h
  obtain ⟨-, rfl⟩ := Re.mem_text.mp hr
  obtain ⟨k, -, -, rfl⟩ := Re.mem_star.mp hr'
  obtain ⟨-, rfl⟩ := Re.mem_text.mp h
  rfl

/-- A `LIO` on the rest of the line is seen from the bracket. -/
theorem reLio_ne_nil {l : List Char} (h : ¬ NoLio l) (before : List Char) (g : List (List Char)) :
    reLio.run ⟨before, ']' :: l, g⟩ ≠ [] := by
  obtain ⟨u, w, huw⟩ := not_not.mp h
  have hl : l = u ++ (lio ++ (w ++ l.dropWhile isDot)) := by
    conv_lhs => rw [← List.takeWhile_append_dropWhile (p := isDot) (l := l), ← huw]
    simp only [List.append_assoc]
  have hdots : ∀ c ∈ u, isDot c := by
    intro c hc
    refine List.mem_takeWhile_imp (l := l) ?_
    rw [← huw]
    simp [hc]
  have hfront : lio <+: l.drop u.length := by
    rw [hl, List.drop_left]
    exact List.prefix_append ..
  intro hnil
  have hstar := Re.seq_eq_nil.mp hnil ⟨']' :: before, l, g⟩ (Re.mem_text.mpr ⟨⟨l, rfl⟩, rfl⟩)
  have htext := Re.seq_eq_nil.mp hstar (Place.advance ⟨']' :: before, l, g⟩ u.length)
    (Re.mem_star.mpr ⟨u.length, by rw [hl]; simp, ?_, rfl⟩)
  · exact Re.text_eq_nil.mp htext hfront
  · simp only
    rw [hl, List.take_left]
    exact hdots

/-- The number in front of the bracket. -/
theorem reLun_first {lun l : List Char} (hne : lun ≠ []) (hlun : ∀ c ∈ lun, isDigit c)
    (hl : ¬ NoLio l) (before : List Char) :
    reLun.first ⟨before, lun ++ ']' :: l, []⟩ = some ⟨lun.reverse ++ before, ']' :: l, [lun]⟩ := by
  have hplus : (Re.plus isDigit).first ⟨before, lun ++ ']' :: l, []⟩
      = some ⟨lun.reverse ++ before, ']' :: l, []⟩ :=
    Re.first_plus hne hlun (by simp; decide)
  have hahead : (Re.ahead reLio).first ⟨lun.reverse ++ before, ']' :: l, []⟩
      = some ⟨lun.reverse ++ before, ']' :: l, []⟩ :=
    Re.first_ahead (reLio_ne_nil hl _ _) fun r hr => reLio_groups hr
  rw [reLun, Re.first_group (Re.first_seq_of_first hplus hahead)]
  simp

/-- A name that ends where a space or an end is, with `/dev/` in front of it. -/
theorem reDev_first {w l before : List Char} (hne : w ≠ []) (hw : ∀ c ∈ w, isSpace c = false)
    (hl : ∀ c ∈ l.head?, isSpace c = true) (hbefore : devDir.reverse <+: before)
    (g : List (List Char)) :
    reDev.first ⟨before, w ++ l, g⟩ = some ⟨w.reverse ++ before, l, g ++ [w]⟩ := by
  have hbehind : (Re.behind devDir).first ⟨before, w ++ l, g⟩ = some ⟨before, w ++ l, g⟩ := by
    simp [Re.first_eq, Re.run_behind, hbefore]
  have hplus : (Re.plus fun c => !isSpace c).first ⟨before, w ++ l, g⟩
      = some ⟨w.reverse ++ before, l, g⟩ :=
    Re.first_plus hne (by simpa using hw) (by simpa using hl)
  rw [reDev, Re.first_group (Re.first_seq_of_first hbehind hplus)]
  simp

/-- Without `/dev/` in front there is none. -/
theorem reDev_eq_nil_of_before {s : Place Char} (h : ¬ devDir.reverse <+: s.before) :
    reDev.run s = [] := by
  refine Re.group_eq_nil.mpr (Re.seq_eq_nil.mpr fun q hq => ?_)
  rw [Re.behind_eq_nil.mpr h] at hq
  exact absurd hq (by simp)

/-- In front of a space there is none. -/
theorem reDev_eq_nil_of_after {s : Place Char} (h : ∀ c ∈ s.after.head?, isSpace c = true) :
    reDev.run s = [] := by
  refine Re.group_eq_nil.mpr (Re.seq_eq_nil.mpr fun q hq => ?_)
  obtain rfl : q = s := by
    rw [Re.run_behind] at hq
    split at hq
    · simpa using hq
    · exact absurd hq (by simp)
  refine List.eq_nil_iff_forall_not_mem.mpr fun r hr => ?_
  obtain ⟨k, hk, hle, hall, -⟩ := Re.mem_plus.mp hr
  cases hafter : q.after with
  | nil =>
    rw [hafter] at hle
    exact absurd hle (by simp; omega)
  | cons c l =>
    rw [hafter] at h hall
    obtain ⟨k, rfl⟩ : ∃ j, k = j + 1 := ⟨k - 1, by omega⟩
    have hspace := h c rfl
    have hnot := hall c (by simp)
    rw [hspace] at hnot
    exact absurd hnot (by simp)

/-- There are only spaces on the rest of the line. -/
def Blank (l : List Char) : Prop := ∀ c ∈ l.takeWhile isDot, isSpace c = true

theorem Blank.head {l : List Char} {k : ℕ} (hl : Blank l) (h : ∀ c ∈ l.take k, isDot c) :
    ∀ c ∈ (l.drop k).head?, isSpace c = true := by
  intro c hc
  by_cases hdot : isDot c = true
  · refine hl c ?_
    obtain ⟨rest, hrest⟩ := List.head?_eq_some_iff.mp hc
    rw [takeWhile_eq_take_append h, hrest, List.takeWhile_cons_of_pos hdot]
    simp
  · obtain rfl : c = '\n' := by simpa [isDot] using hdot
    rfl

/-- A `/dev/` in front of a place behind the last column is one in the last column. -/
theorem devDir_suffix {v u w before : List Char} (h : devDir.reverse <+:
    w.reverse ++ ((v ++ devDir ++ u).reverse ++ before)) : devDir <:+ devDir ++ u ++ w := by
  rw [← List.reverse_prefix]
  have hlong : w.reverse ++ ((v ++ devDir ++ u).reverse ++ before)
      = (devDir ++ u ++ w).reverse ++ (v.reverse ++ before) := by simp
  rw [hlong] at h
  refine List.prefix_of_prefix_length_le h (List.prefix_append ..) ?_
  simp only [List.length_reverse, List.length_append]
  omega

/-- The last `/dev/` with something behind it is taken. -/
theorem reAny_reDev_first {v u w l : List Char} (hv : ∀ c ∈ v ++ devDir ++ u, isDot c)
    (hu : devDir <:+ devDir ++ u) (hne : w ≠ []) (hw : ∀ c ∈ w, isSpace c = false)
    (hlast : ∀ k, 0 < k → k < w.length → ¬ devDir <:+ devDir ++ u ++ w.take k) (hl : Blank l)
    (before : List Char) (g : List (List Char)) :
    (Re.seq reAny reDev).first ⟨before, v ++ devDir ++ u ++ (w ++ l), g⟩
      = some ⟨(v ++ devDir ++ u ++ w).reverse ++ before, l, g ++ [w]⟩ := by
  refine Re.first_star_append hv (Re.first_star_here ?_ fun k hk hle hall => ?_)
  · have hbefore : devDir.reverse <+: (v ++ devDir ++ u).reverse ++ before := by
      rw [List.append_assoc v, List.reverse_append, List.append_assoc]
      exact (List.reverse_prefix.mpr hu).trans (List.prefix_append ..)
    have hhead : ∀ c ∈ l.head?, isSpace c = true := hl.head (k := 0) (by simp)
    rw [reDev_first hne hw hhead hbefore]
    simp
  · simp only [Place.advance] at hall ⊢
    by_cases hin : k < w.length
    -- inside the name there is no `/dev/` in front
    · refine reDev_eq_nil_of_before fun hfront => hlast k hk hin ?_
      simp only [List.take_append_of_le_length hin.le] at hfront
      exact devDir_suffix hfront
    -- behind it there are spaces
    · refine reDev_eq_nil_of_after ?_
      rw [List.take_append, List.take_of_length_le (by omega)] at hall
      simp only [List.drop_append, List.drop_of_length_le (show w.length ≤ k by omega),
        List.nil_append]
      exact hl.head fun c hc => hall c (List.mem_append_right _ hc)

/-- **The match on a line.** -/
theorem pattern_first {lun v u w l : List Char} (hlun : lun ≠ []) (hdigits : ∀ c ∈ lun, isDigit c)
    (hv : ∀ c ∈ v ++ devDir ++ u, isDot c) (hlio : ¬ NoLio (v ++ devDir ++ u ++ (w ++ l)))
    (hu : devDir <:+ devDir ++ u) (hne : w ≠ []) (hw : ∀ c ∈ w, isSpace c = false)
    (hlast : ∀ k, 0 < k → k < w.length → ¬ devDir <:+ devDir ++ u ++ w.take k) (hl : Blank l)
    (before : List Char) :
    pattern.first ⟨before, lun ++ ']' :: (v ++ devDir ++ u ++ (w ++ l)), []⟩
      = some ⟨(lun ++ ']' :: (v ++ devDir ++ u ++ w)).reverse ++ before, l, [lun, w]⟩ := by
  refine Re.first_seq_of_first (reLun_first hlun hdigits hlio before) ?_
  have hv' : ∀ c ∈ (']' :: v) ++ devDir ++ u, isDot c := by
    intro c hc
    rcases List.mem_cons.mp hc with rfl | hc
    · rfl
    · exact hv c hc
  have hfirst := reAny_reDev_first hv' hu hne hw hlast hl (lun.reverse ++ before) [lun]
  simpa using hfirst

/-! ### What is found on a line -/

/-- Where the last `/dev/` in front of a part of the name ends. -/
def cut (name : List Char) : ℕ :=
  Nat.findGreatest (fun k => devDir <:+ devDir ++ name.take k) (name.length - 1)

/-- What is taken for the name. -/
def shown (name : List Char) : List Char := name.drop (cut name)

/-- There is no further `/dev/` in the name. -/
def PlainName (name : List Char) : Prop :=
  ∀ k, 0 < k → k < name.length → ¬ devDir <:+ devDir ++ name.take k

theorem cut_lt {name : List Char} (h : name ≠ []) : cut name < name.length := by
  have hle : cut name ≤ name.length - 1 := Nat.findGreatest_le _
  have hpos := List.length_pos_of_ne_nil h
  omega

theorem cut_spec (name : List Char) : devDir <:+ devDir ++ name.take (cut name) := by
  have hzero : devDir <:+ devDir ++ name.take 0 := by simp
  exact Nat.findGreatest_spec (P := fun k => devDir <:+ devDir ++ name.take k) (Nat.zero_le _) hzero

theorem not_devDir_of_cut_lt {name : List Char} {k : ℕ} (hcut : cut name < k)
    (hk : k < name.length) : ¬ devDir <:+ devDir ++ name.take k :=
  Nat.findGreatest_is_greatest hcut (by omega)

/-- The name is taken as a whole exactly if it is plain. -/
theorem shown_eq_iff {name : List Char} (h : name ≠ []) : shown name = name ↔ PlainName name := by
  have hpos := List.length_pos_of_ne_nil h
  constructor
  · intro heq k hk hlt
    have hlen := congrArg List.length heq
    rw [shown, List.length_drop] at hlen
    exact not_devDir_of_cut_lt (by omega) hlt
  · intro hplain
    have hzero : cut name = 0 := by
      by_contra hne
      exact hplain (cut name) (by omega) (cut_lt h) (cut_spec name)
    rw [shown, hzero, List.drop_zero]

theorem isDigit_of_ascii {c : Char} (h : c.isDigit = true) : isDigit c = true := by
  simp only [Char.isDigit, Bool.and_eq_true, decide_eq_true_eq] at h
  refine List.any_eq_true.mpr ⟨0x30, by simp [zeros], ?_⟩
  have hlow : 48 ≤ c.toNat := by simpa using UInt32.le_iff_toNat_le.mp h.1
  have hhigh : c.toNat ≤ 57 := by simpa using UInt32.le_iff_toNat_le.mp h.2
  simp only [Bool.and_eq_true, decide_eq_true_eq]
  omega

theorem isDot_devDir : ∀ c ∈ devDir, isDot c = true := by simp [devDir, isDot]

namespace Line

variable (l : Line)

/-- The groups that are found on the line. -/
def found : List (List (List Char)) := if lio <:+: l.rest then [[l.lun, shown l.name]] else []

theorem isDigit_number {n : List Char} (h : n ∈ [l.host, l.channel, l.target, l.lun]) :
    ∀ c ∈ n, isDigit c = true :=
  fun c hc => isDigit_of_ascii ((l.numbers n h).2 c hc)

/-- The characters of the columns. -/
theorem mem_columns {c : Char} (h : c ∈ l.columns) :
    c = ' ' ∨ ∃ f ∈ [l.type, l.vendor, l.model, l.rev], c ∈ f := by
  simp only [columns, column, List.mem_append, List.mem_replicate, List.not_mem_nil] at h
  simp only [List.mem_cons, List.not_mem_nil, or_false, exists_eq_or_imp, exists_eq_left]
  tauto

theorem isDot_columns : ∀ c ∈ l.columns, isDot c = true := by
  intro c hc
  rcases l.mem_columns hc with rfl | ⟨f, hf, hcf⟩
  · rfl
  · rw [isDot, decide_eq_true_eq]
    rintro rfl
    exact (l.texts f hf).1 hcf

theorem isDot_name : ∀ c ∈ l.name, isDot c = true := by
  intro c hc
  rw [isDot, decide_eq_true_eq]
  rintro rfl
  exact absurd (l.named.2 _ hc) (by decide)

theorem isDot_rest : ∀ c ∈ l.rest, isDot c = true := by
  intro c hc
  simp only [rest, List.mem_append, List.mem_replicate] at hc
  rcases hc with ((hc | hc) | hc) | hc
  · exact l.isDot_columns c hc
  · exact isDot_devDir c hc
  · exact l.isDot_name c hc
  · rw [hc.2]
    rfl

end Line

/-- A text that does not go on, or goes on with the next line. -/
def AtEnd (l : List Char) : Prop := l = [] ∨ ∃ l', l = '\n' :: l'

theorem AtEnd.takeWhile {l : List Char} (h : AtEnd l) : l.takeWhile isDot = [] := by
  rcases h with rfl | ⟨l', rfl⟩
  · rfl
  · rfl

theorem noLio_rest_iff (l : Line) {tl : List Char} (h : AtEnd tl) :
    NoLio (l.rest ++ tl) ↔ ¬ lio <:+: l.rest := by
  rw [NoLio, List.takeWhile_append_of_pos l.isDot_rest, h.takeWhile, List.append_nil]

/-- Blanks and the end of the line are passed. -/
theorem scan_blanks (n : ℕ) (before tl : List Char) :
    pattern.scan before 0 (List.replicate n ' ' ++ tl)
      = pattern.scan ((List.replicate n ' ').reverse ++ before) 0 tl := by
  refine Re.scan_none_append fun u a w heq => ?_
  have ha : a = ' ' := List.eq_of_mem_replicate (n := n) (by rw [heq]; simp)
  rw [ha]
  exact pattern_eq_nil_of_digits (List.forall_mem_nil _) (by decide) (by decide) _ _ _

theorem blank_trail (n : ℕ) {tl : List Char} (h : AtEnd tl) :
    Blank (List.replicate n ' ' ++ tl) := by
  intro c hc
  have hdots : ∀ c ∈ List.replicate n ' ', isDot c = true := by
    intro c hc
    rw [List.eq_of_mem_replicate hc]
    rfl
  rw [List.takeWhile_append_of_pos hdots, h.takeWhile, List.append_nil] at hc
  rw [List.eq_of_mem_replicate hc]
  rfl

/-- The match on a line with a `LIO`. -/
theorem first_lun (l : Line) {tl : List Char} (htl : AtEnd tl) (hlio : lio <:+: l.rest)
    (before : List Char) :
    pattern.first ⟨before, l.lun ++ ']' :: (l.rest ++ tl), []⟩
      = some ⟨(l.lun ++ ']' :: (l.columns ++ devDir ++ l.name)).reverse ++ before,
          List.replicate l.trail ' ' ++ tl, [l.lun, shown l.name]⟩ := by
  have hlun := l.numbers l.lun (by simp)
  have hdigits := l.isDigit_number (n := l.lun) (by simp)
  have hcut := cut_lt l.named.1
  have hname : l.name.take (cut l.name) ++ shown l.name = l.name := List.take_append_drop ..
  have hlen : (shown l.name).length = l.name.length - cut l.name := List.length_drop ..
  have hrest : l.rest ++ tl = l.columns ++ devDir ++ l.name.take (cut l.name) ++
      (shown l.name ++ (List.replicate l.trail ' ' ++ tl)) := by
    rw [← List.append_assoc _ (shown l.name), List.append_assoc (l.columns ++ devDir), hname,
      Line.rest]
    simp only [List.append_assoc]
  have hdots : ∀ c ∈ l.columns ++ devDir ++ l.name.take (cut l.name), isDot c = true := by
    intro c hc
    refine l.isDot_rest c ?_
    rw [Line.rest, ← hname]
    simp only [List.mem_append] at hc ⊢
    tauto
  have hlast : ∀ k, 0 < k → k < (shown l.name).length →
      ¬ devDir <:+ devDir ++ l.name.take (cut l.name) ++ (shown l.name).take k := by
    intro k hk hlt
    have htake : l.name.take (cut l.name) ++ (shown l.name).take k
        = l.name.take (cut l.name + k) := (List.take_add ..).symm
    rw [List.append_assoc, htake]
    exact not_devDir_of_cut_lt (by omega) (by omega)
  have hne : shown l.name ≠ [] := List.ne_nil_of_length_pos (by omega)
  have hspaces : ∀ c ∈ shown l.name, isSpace c = false :=
    fun c hc => l.named.2 c (List.mem_of_mem_drop hc)
  have hseen : ¬ NoLio (l.rest ++ tl) := by
    rw [noLio_rest_iff l htl]
    exact not_not.mpr hlio
  have hfirst := pattern_first hlun.1 hdigits hdots (hrest ▸ hseen) (cut_spec l.name) hne hspaces
    hlast (blank_trail l.trail htl) before
  rw [hrest, hfirst, List.append_assoc (l.columns ++ devDir), hname]

/-- `LIO` begins with its first letter. -/
theorem lio_infix_of_append {v l : List Char} (hv : 'L' ∉ v) (h : lio <:+: v ++ l) :
    lio <:+: l := by
  induction v with
  | nil => exact h
  | cons c v ih =>
    rw [List.cons_append, List.infix_cons_iff] at h
    rcases h with ⟨l', hl'⟩ | h
    · exact absurd (List.cons.inj hl').1 (by rintro rfl; simp at hv)
    · exact ih (fun hmem => hv (List.mem_cons_of_mem _ hmem)) h

/-- What is found from the number of the LUN on. -/
theorem scan_lun (l : Line) {tl : List Char} (htl : AtEnd tl) (before : List Char) :
    pattern.scan before 0 (l.lun ++ ']' :: (l.rest ++ tl))
      = l.found ++ pattern.scan ((l.lun ++ ']' :: l.rest).reverse ++ before) 0 tl := by
  rw [Line.found]
  split
  · rename_i hlio
    have htext : l.lun ++ ']' :: (l.rest ++ tl) =
        (l.lun ++ ']' :: (l.columns ++ devDir ++ l.name)) ++
          (List.replicate l.trail ' ' ++ tl) := by
      simp [Line.rest]
    have hfirst := first_lun l htl hlio before
    rw [htext] at hfirst ⊢
    rw [Re.scan_first (by simp) hfirst, scan_blanks, Line.rest]
    simp
  · rename_i hlio
    have htext : l.lun ++ ']' :: (l.rest ++ tl) = (l.lun ++ ']' :: l.rest) ++ tl := by simp
    rw [htext, List.nil_append]
    have hdots : ∀ c ∈ l.lun ++ ']' :: l.rest, isDot c = true := by
      intro c hc
      rcases List.mem_append.mp hc with hc | hc
      · exact isDot_of_isDigit (l.isDigit_number (by simp) c hc)
      · rcases List.mem_cons.mp hc with rfl | hc
        · rfl
        · exact l.isDot_rest c hc
    have hnone : NoLio ((l.lun ++ ']' :: l.rest) ++ tl) := by
      rw [NoLio, List.takeWhile_append_of_pos hdots, htl.takeWhile, List.append_nil]
      intro h
      have hbracket : l.lun ++ ']' :: l.rest = (l.lun ++ [']']) ++ l.rest := by simp
      rw [hbracket] at h
      refine hlio (lio_infix_of_append ?_ h)
      intro hmem
      rcases List.mem_append.mp hmem with hmem | hmem
      · exact absurd (l.isDigit_number (by simp) _ hmem) (by decide)
      · exact absurd hmem (by decide)
    refine Re.scan_none_append fun u a w heq => pattern_eq_nil_of_noLio ?_
    rw [heq] at hnone hdots
    have hdrop := hnone.drop (k := u.length) (by
      intro c hc
      rw [List.append_assoc, List.take_left] at hc
      exact hdots c (List.mem_append_left _ hc))
    rwa [List.append_assoc, List.drop_left] at hdrop

/-- What is found on a line. -/
theorem scan_line (l : Line) {tl : List Char} (htl : AtEnd tl) (before : List Char) :
    pattern.scan before 0 (l.text ++ tl)
      = l.found ++ pattern.scan (l.text.reverse ++ before) 0 tl := by
  have htext : l.text ++ tl = [] ++ '[' :: (l.host ++ ':' :: (l.channel ++ ':' :: (l.target ++
      ':' :: (l.lun ++ ']' :: (l.rest ++ tl))))) := by
    simp [Line.text]
  have hcolon : isDigit ':' = false := by decide
  rw [htext, scan_digits (by simp) (by decide) (by decide),
    scan_digits (l.isDigit_number (by simp)) hcolon (by decide),
    scan_digits (l.isDigit_number (by simp)) hcolon (by decide),
    scan_digits (l.isDigit_number (by simp)) hcolon (by decide), scan_lun l htl, Line.text]
  simp

theorem scan_nil (before : List Char) : pattern.scan before 0 [] = [] := by
  have hnil : pattern.run ⟨before, [], []⟩ = [] := pattern_eq_nil_of_noLio (by simp [NoLio, lio])
  rw [Re.scan_nil, Re.found, hnil]

/-- What is found in a text: what is found on its lines. -/
theorem scan_text (ended : Bool) (lines : List Line) (before : List Char) :
    pattern.scan before 0 (text ended lines) = lines.flatMap Line.found := by
  have hend : ∀ before l, pattern.scan before 0 ('\n' :: l) = pattern.scan ('\n' :: before) 0 l :=
    fun before l => scan_digits (List.forall_mem_nil _) (by decide) (by decide) before l
  induction lines generalizing before with
  | nil => exact scan_nil before
  | cons l lines ih =>
    cases lines with
    | nil =>
      cases ended with
      | true =>
        rw [text, if_pos rfl, scan_line l (Or.inr ⟨[], rfl⟩), hend, scan_nil]
        simp
      | false =>
        rw [text, if_neg (by simp), scan_line l (Or.inl rfl), scan_nil]
        simp
    | cons l' lines =>
      rw [text, scan_line l (Or.inr ⟨_, rfl⟩), hend, ih]
      simp

/-! ### What is found and written to -/

theorem universalNewlines_eq {l : List Char} (h : '\r' ∉ l) : universalNewlines l = l := by
  induction l with
  | nil => rfl
  | cons c l ih =>
    have hc : c ≠ '\r' := fun heq => h (heq ▸ List.mem_cons_self ..)
    rw [universalNewlines, ih fun hmem => h (List.mem_cons_of_mem _ hmem)]
    · rintro _ rfl
      exact absurd rfl hc
    · rintro rfl
      exact absurd rfl hc

theorem Line.not_mem_text (l : Line) : '\r' ∉ l.text := by
  have hnumber : ∀ n ∈ [l.host, l.channel, l.target, l.lun], '\r' ∉ n := fun n hn hmem =>
    absurd ((l.numbers n hn).2 _ hmem) (by decide)
  have hcolumns : '\r' ∉ l.columns := by
    intro hmem
    rcases l.mem_columns hmem with heq | ⟨f, hf, hmem⟩
    · exact absurd heq (by decide)
    · exact (l.texts f hf).2 hmem
  have hname : '\r' ∉ l.name := fun hmem => absurd (l.named.2 _ hmem) (by decide)
  simp only [List.mem_cons, List.not_mem_nil, or_false, forall_eq_or_imp, forall_eq] at hnumber
  obtain ⟨hhost, hchannel, htarget, hlun⟩ := hnumber
  simp [Line.text, Line.rest, devDir, List.mem_replicate, hhost, hchannel, htarget, hlun, hcolumns,
    hname]

theorem not_mem_text (ended : Bool) (lines : List Line) : '\r' ∉ text ended lines := by
  induction lines with
  | nil => simp [text]
  | cons l lines ih =>
    cases lines with
    | nil => cases ended <;> simp [text, l.not_mem_text]
    | cons l' lines => simp [text, l.not_mem_text, ih]

/-- The devices that are found on a line. -/
def Line.devices (l : Line) : List Device :=
  if lio <:+: l.rest then [⟨"lun_" ++ String.ofList l.lun, String.ofList (shown l.name)⟩] else []

/-- What `parse_lio_dev` returns, line by line. -/
theorem parseLioDev_text (ended : Bool) (lines : List Line) :
    parseLioDev (text ended lines) = lines.flatMap Line.devices := by
  rw [parseLioDev, universalNewlines_eq (not_mem_text ended lines), Re.findall, scan_text,
    List.map_flatMap]
  congr 1
  funext l
  rw [Line.found, Line.devices]
  split
  · rfl
  · rfl

/-- A LIO line whose name is plain, or another line without a `LIO` on it. -/
def Line.Safe (l : Line) : Prop :=
  if l.isLio then PlainName l.name else ¬ lio <:+: l.rest

/-- There is a `LIO` on the lines of LIO. -/
theorem Line.lio_of_isLio {l : Line} (h : l.isLio = true) : lio <:+: l.rest := by
  have hvendor : l.vendor = lio ++ ['-', 'O', 'R', 'G'] := by simpa [isLio, lio] using h
  refine ⟨column (l.gap 0) l.type ++ List.replicate (l.gap 1 + 1) ' ', ['-', 'O', 'R', 'G'] ++
    (column (l.gap 2) l.model ++ column (l.gap 3) l.rev ++ column (l.gap 4) []) ++ devDir ++
      l.name ++ List.replicate l.trail ' ', ?_⟩
  rw [rest, columns, hvendor]
  simp [column]

/-- A line gives what it should exactly if it is safe. -/
theorem Line.devices_eq_iff (l : Line) :
    l.devices = (if l.isLio then [l.device] else []) ↔ l.Safe := by
  rw [devices, Safe]
  by_cases hlio : l.isLio = true
  · rw [if_pos (lio_of_isLio hlio), if_pos hlio, if_pos hlio, ← shown_eq_iff l.named.1, device]
    simp [String.ofList_inj]
  · rw [if_neg hlio, if_neg hlio]
    simp

theorem length_flatMap_le {α β : Type*} {f g : α → List β} {l : List α}
    (h : ∀ a ∈ l, (g a).length ≤ (f a).length) : (l.flatMap g).length ≤ (l.flatMap f).length := by
  induction l with
  | nil => simp
  | cons a l ih =>
    have hhead := h a (List.mem_cons_self ..)
    have htail := ih fun b hb => h b (List.mem_cons_of_mem _ hb)
    simp only [List.flatMap_cons, List.length_append]
    omega

/-- If each part of a list is at least as long as it should be, the whole is as it should be
exactly if the parts are. -/
theorem flatMap_eq_iff {α β : Type*} {f g : α → List β} {l : List α}
    (h : ∀ a ∈ l, (g a).length ≤ (f a).length) :
    l.flatMap f = l.flatMap g ↔ ∀ a ∈ l, f a = g a := by
  refine ⟨fun heq => ?_, fun hall => List.flatMap_congr hall⟩
  induction l with
  | nil => simp
  | cons a l ih =>
    have htail : ∀ b ∈ l, (g b).length ≤ (f b).length := fun b hb => h b (List.mem_cons_of_mem _ hb)
    have hlen := congrArg List.length heq
    have hhead := h a (List.mem_cons_self ..)
    have hle := length_flatMap_le htail
    simp only [List.flatMap_cons, List.length_append] at heq hlen
    obtain ⟨hfa, hl⟩ := List.append_inj heq (by omega)
    exact List.forall_mem_cons.mpr ⟨hfa, ih htail hl⟩

/-- Only what was found is written to. -/
theorem writes_of_found {devices : List Device} {blockSize : ℤ} {config : List ConfigDevice}
    {call : WriteRandom} (h : call ∈ writes devices blockSize config) :
    ∃ item ∈ devices, call.devPath = "/dev/" ++ item.dev := by
  induction config with
  | nil => exact absurd h (by simp [writes])
  | cons dev config ih =>
    rw [writes] at h
    split at h
    · exact ih h
    · rename_i name rest hnames
      split at h
      · exact absurd h (by simp)
      · rcases List.mem_cons.mp h with rfl | h
        · obtain ⟨item, hitem, rfl⟩ := List.mem_map.mp (hnames ▸ List.mem_cons_self ..)
          exact ⟨item, List.mem_of_mem_filter hitem, rfl⟩
        · exact ih h

/-- The devices on the lines of LIO, line by line. -/
theorem map_filter_eq_flatMap (lines : List Line) : (lines.filter Line.isLio).map Line.device
    = lines.flatMap fun l => if l.isLio then [l.device] else [] := by
  induction lines with
  | nil => rfl
  | cons l lines ih =>
    rw [List.flatMap_cons, ← ih, List.filter_cons]
    split
    · rfl
    · rfl

/-- **Only devices of LIO are found and written to exactly when** the lines of LIO have plain names
and there is no `LIO` behind the bracket of any other line. -/
theorem lio_only_iff (ended : Bool) (lines : List Line) :
    (parseLioDev (text ended lines) = (lines.filter Line.isLio).map Line.device ∧
      ∀ blockSize config, ∀ call ∈ writes (parseLioDev (text ended lines)) blockSize config,
        ∃ l ∈ lines, l.isLio = true ∧ call.devPath = "/dev/" ++ String.ofList l.name) ↔
      ∀ l ∈ lines, l.Safe := by
  have hlengths : ∀ l ∈ lines, (if l.isLio then [l.device] else []).length ≤ l.devices.length := by
    intro l _
    rw [Line.devices]
    by_cases hlio : l.isLio = true
    · rw [if_pos hlio, if_pos (Line.lio_of_isLio hlio)]
      simp
    · simp [hlio]
  have hfound : parseLioDev (text ended lines) = (lines.filter Line.isLio).map Line.device ↔
      ∀ l ∈ lines, l.Safe := by
    rw [parseLioDev_text, map_filter_eq_flatMap, flatMap_eq_iff hlengths]
    simp only [Line.devices_eq_iff]
  rw [← hfound, and_iff_left_iff_imp]
  intro heq blockSize config call hcall
  rw [heq] at hcall
  obtain ⟨item, hitem, hpath⟩ := writes_of_found hcall
  obtain ⟨l, hl, rfl⟩ := List.mem_map.mp hitem
  obtain ⟨hl, hlio⟩ := List.mem_filter.mp hl
  exact ⟨l, hl, hlio, hpath⟩

/-- A disk of another vendor, whose model is called `HELIOS`. -/
def foreignLine : Line where
  host := ['2']
  channel := ['0']
  target := ['0']
  lun := ['0']
  type := "disk".toList
  vendor := "ATA".toList
  model := "HELIOS".toList
  rev := "1.0".toList
  name := "sda".toList
  gap := fun _ => 0
  trail := 0
  numbers := by simp [Char.isDigit]
  texts := by decide
  named := by simp [isSpace]

/-- **A disk of another vendor is overwritten** if its model is called `HELIOS`. -/
theorem foreign_disk_written :
    String.ofList (text true [foreignLine]) = "[2:0:0:0] disk ATA HELIOS 1.0 /dev/sda\n" ∧
      ([foreignLine].filter Line.isLio).map Line.device = [] ∧
      parseLioDev (text true [foreignLine]) = [⟨"lun_0", "sda"⟩] ∧
      writes (parseLioDev (text true [foreignLine])) 4096 [⟨"lun_0", "1048576"⟩]
        = [⟨"/dev/sda", 1048576, 4096⟩] := by
  decide +kernel

end RunIo

end LioProject
