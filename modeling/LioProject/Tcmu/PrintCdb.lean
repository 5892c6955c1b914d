import LioProject.Lib.Disk
import LioProject.Tcmu.Inquiry

/-!
# Printing a command

`tcmu_print_cdb_info` (`api.c`) prints the bytes of a CDB into a buffer: an array of 193 characters,
enough for 64 bytes, or, if the CDB is longer than that, a buffer from `malloc`. The length that is
compared is that of the CDB in bytes, the one that it is compared with is that of the array in
characters. And neither buffer has room for the text behind the bytes, or for the newline.

The buffer is then passed to `tcmu_dev_warn` or `tcmu_dev_dbg_scsi_cmd` as the format, with no
arguments, so what is followed here ends with the format string: a `%` of the text is still to be
interpreted by `log_internal`, which also cuts the message at `LOG_MSG_LEN`.

## Main definitions

* `Printed`: the format string, and what is passed to `free`.
* `PrintsInside`: nothing is written outside the buffer.
* `PrintFits`: there is room for the bytes, the text, the newline and the NUL.

## Main results

* `print_cdb_inside_iff`: the two are the same.
* `print_cdb_text`: the format string has the bytes, the text and the newline, and nothing else.
-/

namespace LioProject

namespace Tcmu

/-! ### The function -/

/-- `CDB_TO_BUF_SIZE`. -/
def cdbToBufSize (bytes : ℕ) : ℕ := bytes * 3 + 1

/-- `CDB_FIX_BYTES`. -/
def cdbFixBytes : ℕ := 64

/-- `CDB_FIX_SIZE`. -/
def cdbFixSize : ℕ := cdbToBufSize cdbFixBytes

/-- `sprintf(buf + n, ...)`, which ends the text with a NUL: the buffer, and `n` behind the text.
There is no result if something is written outside the buffer. -/
def sprintf (text : List UInt8) (s : List UInt8 × ℕ) : Option (List UInt8 × ℕ) :=
  (place s.1 s.2 (text ++ [0])).map fun buf => (buf, s.2 + text.length)

/-- One `sprintf` after the other. -/
def sprintfs : List (List UInt8) → List UInt8 × ℕ → Option (List UInt8 × ℕ)
  | [], s => some s
  | text :: texts, s => (sprintf text s).bind (sprintfs texts)

/-- `"%x "` of a byte. -/
def hexText (b : ℕ) : List UInt8 := (Nat.toDigits 16 b ++ [' ']).map fun c => UInt8.ofNat c.toNat

/-- The bytes of the CDB that are printed. -/
def printedBytes (cdb : Cdb) (bytes : ℕ) : List ℕ := (List.range bytes).map (byteAt cdb)

/-- What is printed into `buf`. -/
def printCdb (cdb : Cdb) (bytes : ℕ) (info : Option String) (buf : List UInt8) :
    Option (List UInt8 × ℕ) :=
  (sprintfs ((printedBytes cdb bytes).map hexText) (buf, 0)).bind fun s =>
  (match info with
    | some info => sprintf (cString info) s
    | none => some s).bind fun s =>
  sprintf (cString "\n") s

/-- What `buf` points to. -/
inductive PrintBuf where
  | fix
  | malloced
  deriving DecidableEq, Repr

/-- How `tcmu_print_cdb_info` ends. -/
structure Printed where
  /-- The format string that the log function is given, if it is called. -/
  fmt : Option (List UInt8)
  /-- What is passed to `free`. -/
  freed : Option PrintBuf
  deriving DecidableEq, Repr

/-- `tcmu_print_cdb_info`. `malloc` says whether the buffer is allocated, and `junk` is what is in a
buffer before it is written. There is no result if something is written outside the buffer. -/
def tcmuPrintCdbInfo (cdb : Cdb) (info : Option String) (malloc : Bool) (junk : ℕ → UInt8) :
    Option Printed :=
  match tcmuGetCdbLength cdb with
  | none => some ⟨none, none⟩
  | some bytes =>
    if bytes > cdbFixSize ∧ malloc = false then some ⟨none, none⟩
    else
      let buf := if bytes > cdbFixSize then PrintBuf.malloced else PrintBuf.fix
      let size := match buf with
        | .fix => cdbFixSize
        | .malloced => cdbToBufSize bytes
      (printCdb cdb bytes info ((List.range size).map junk)).map fun (text, _) =>
        ⟨some (text.takeWhile (· ≠ 0)), if bytes > cdbFixSize then some buf else none⟩

/-! ### Lengths -/

/-- The number of characters of some texts. -/
def textLength (texts : List (List UInt8)) : ℕ := (texts.map List.length).sum

section Sprintf

variable {text : List UInt8} {texts texts' : List (List UInt8)} {s t : List UInt8 × ℕ}

/-- A text fits if there is room for it and for a NUL. -/
theorem sprintf_isSome : (sprintf text s).isSome ↔ s.2 + text.length + 1 ≤ s.1.length := by
  rw [sprintf, Option.isSome_map, place]
  split
  · rename_i h
    rw [List.length_append, List.length_singleton] at h
    simpa using (by omega : s.2 + text.length + 1 ≤ s.1.length)
  · rename_i h
    rw [List.length_append, List.length_singleton] at h
    simpa using (by omega : ¬ s.2 + text.length + 1 ≤ s.1.length)

/-- The size of the buffer does not change, and the text is behind what was there before. -/
theorem sprintf_eq (h : sprintf text s = some t) :
    t.1.length = s.1.length ∧ t.2 = s.2 + text.length ∧
      t.1.take t.2 = s.1.take s.2 ++ text ∧ t.1[t.2]? = some 0 := by
  obtain ⟨buf, hplace, rfl⟩ := Option.map_eq_some_iff.mp h
  rw [place] at hplace
  split at hplace
  · rename_i hroom
    obtain rfl := Option.some.inj hplace
    rw [List.length_append, List.length_singleton] at hroom
    have hfront : (s.1.take s.2 ++ text).length = s.2 + text.length := by
      rw [List.length_append, List.length_take]
      omega
    have hsplice : splice s.1 s.2 (text ++ [0]) =
        (s.1.take s.2 ++ text) ++ 0 :: s.1.drop (s.2 + (text ++ [0]).length) := by
      simp [splice]
    refine ⟨?_, rfl, ?_, ?_⟩
    · rw [hsplice, List.length_append, hfront, List.length_cons, List.length_drop,
        List.length_append, List.length_singleton]
      omega
    · rw [hsplice, List.take_left' hfront]
    · rw [hsplice, List.getElem?_append_right hfront.le, hfront, Nat.sub_self]
      rfl
  · exact absurd hplace (by simp)

theorem sprintfs_append :
    sprintfs (texts ++ texts') s = (sprintfs texts s).bind (sprintfs texts') := by
  induction texts generalizing s with
  | nil => rfl
  | cons text texts ih =>
    rw [List.cons_append, sprintfs, sprintfs, Option.bind_assoc]
    exact Option.bind_congr fun t _ => ih

/-- Texts fit one behind the other if there is room for all of them and for a NUL. -/
theorem sprintfs_isSome (hne : texts ≠ []) :
    (sprintfs texts s).isSome ↔ s.2 + textLength texts + 1 ≤ s.1.length := by
  induction texts generalizing s with
  | nil => exact absurd rfl hne
  | cons text texts ih =>
    have hlen : textLength (text :: texts) = text.length + textLength texts := rfl
    rw [sprintfs, hlen]
    cases hfirst : sprintf text s with
    | none =>
      have hroom : ¬ s.2 + text.length + 1 ≤ s.1.length := by
        rw [← sprintf_isSome, hfirst]
        decide
      simpa using (by omega : ¬ s.2 + (text.length + textLength texts) + 1 ≤ s.1.length)
    | some t =>
      obtain ⟨hsize, hn, -, -⟩ := sprintf_eq hfirst
      have hroom : s.2 + text.length + 1 ≤ s.1.length := by
        rw [← sprintf_isSome, hfirst]
        rfl
      rw [Option.bind_some]
      by_cases hlast : texts = []
      · subst hlast
        simpa [sprintfs, textLength] using hroom
      · rw [ih hlast, hsize, hn, Nat.add_assoc s.2]

/-- What they leave. -/
theorem sprintfs_eq (h : sprintfs texts s = some t) :
    t.2 = s.2 + textLength texts ∧ t.1.take t.2 = s.1.take s.2 ++ texts.flatten ∧
      (texts ≠ [] → t.1[t.2]? = some 0) := by
  induction texts generalizing s with
  | nil =>
    obtain rfl := Option.some.inj h
    exact ⟨rfl, (List.append_nil _).symm, fun hne => absurd rfl hne⟩
  | cons text texts ih =>
    obtain ⟨u, hfirst, hrest⟩ := Option.bind_eq_some_iff.mp h
    obtain ⟨-, hn, htake, hnul⟩ := sprintf_eq hfirst
    obtain ⟨hn', htake', hnul'⟩ := ih hrest
    refine ⟨?_, ?_, fun _ => ?_⟩
    · rw [hn', hn, Nat.add_assoc]
      rfl
    · rw [htake', htake, List.append_assoc, List.flatten_cons]
    · by_cases hlast : texts = []
      · subst hlast
        obtain rfl := Option.some.inj hrest
        exact hnul
      · exact hnul' hlast

end Sprintf

/-- A byte is printed as one or two digits and a space. -/
theorem length_hexText {b : ℕ} (hb : b < 256) :
    (hexText b).length = 2 + if 0x10 ≤ b then 1 else 0 := by
  rw [hexText, List.length_map, List.length_append, List.length_singleton]
  split
  · have hsplit := Nat.toDigits_append_toDigits (show 1 < 16 by decide)
      (show 0 < b / 16 by omega) (Nat.mod_lt b (by decide))
    rw [Nat.div_add_mod, Nat.toDigits_of_lt_base (show b / 16 < 16 by omega),
      Nat.toDigits_of_lt_base (Nat.mod_lt b (by decide))] at hsplit
    rw [← hsplit]
    rfl
  · rename_i hsmall
    rw [Nat.toDigits_of_lt_base (by omega)]
    rfl

/-- All texts that are printed. -/
def printedTexts (cdb : Cdb) (bytes : ℕ) (info : Option String) : List (List UInt8) :=
  (printedBytes cdb bytes).map hexText ++ (info.toList.map cString ++ [cString "\n"])

/-- The number of characters, without the NUL. -/
def printedLength (cdb : Cdb) (bytes : ℕ) (info : Option String) : ℕ :=
  2 * bytes + (printedBytes cdb bytes).countP (0x10 ≤ ·) + (info.map String.length).getD 0 + 1

section Print

variable {cdb : Cdb} {bytes : ℕ} {info : Option String} {buf : List UInt8}

/-- The function prints one text after the other. -/
theorem printCdb_eq :
    printCdb cdb bytes info buf = sprintfs (printedTexts cdb bytes info) (buf, 0) := by
  rw [printCdb, printedTexts, sprintfs_append]
  refine Option.bind_congr fun s _ => ?_
  have hlast : ∀ t, sprintf (cString "\n") t = sprintfs [cString "\n"] t :=
    fun t => (Option.bind_fun_some (sprintf (cString "\n") t)).symm
  cases info with
  | none => exact hlast s
  | some info => exact Option.bind_congr fun t _ => hlast t

theorem textLength_printedTexts :
    textLength (printedTexts cdb bytes info) = printedLength cdb bytes info := by
  have hbytes : ∀ bs : List ℕ, (∀ b ∈ bs, b < 256) →
      textLength (bs.map hexText) = 2 * bs.length + bs.countP (0x10 ≤ ·) := by
    intro bs hbs
    induction bs with
    | nil => rfl
    | cons b bs ih =>
      obtain ⟨hb, hrest⟩ := List.forall_mem_cons.mp hbs
      have hlen : textLength ((b :: bs).map hexText)
          = (hexText b).length + textLength (bs.map hexText) := rfl
      rw [hlen, length_hexText hb, ih hrest, List.length_cons, List.countP_cons]
      simp only [decide_eq_true_eq]
      omega
  have hlt : ∀ b ∈ printedBytes cdb bytes, b < 256 := by
    intro b hb
    obtain ⟨i, -, rfl⟩ := List.mem_map.mp hb
    exact byteAt_lt cdb i
  have hlength : (printedBytes cdb bytes).length = bytes := by
    rw [printedBytes, List.length_map, List.length_range]
  have hinfo : textLength (info.toList.map cString ++ [cString "\n"])
      = (info.map String.length).getD 0 + 1 := by
    cases info with
    | none => rfl
    | some info => exact congrArg (· + 1) (length_cString info)
  rw [printedTexts, textLength, List.map_append, List.sum_append, ← textLength, ← textLength,
    hbytes _ hlt, hlength, hinfo, printedLength, Nat.add_assoc (_ + _)]

theorem printCdb_isSome (size : ℕ) (junk : ℕ → UInt8) :
    (printCdb cdb bytes info ((List.range size).map junk)).isSome ↔
      printedLength cdb bytes info + 1 ≤ size := by
  rw [printCdb_eq, sprintfs_isSome (by simp [printedTexts]), textLength_printedTexts,
    List.length_map, List.length_range, Nat.zero_add]

/-- A command that is printed into the array. -/
theorem tcmuPrintCdbInfo_short (hlen : tcmuGetCdbLength cdb = some bytes)
    (hshort : bytes ≤ cdbFixSize) (malloc : Bool) (junk : ℕ → UInt8) :
    tcmuPrintCdbInfo cdb info malloc junk =
      (printCdb cdb bytes info ((List.range cdbFixSize).map junk)).map fun p =>
        ⟨some (p.1.takeWhile (· ≠ 0)), none⟩ := by
  rw [tcmuPrintCdbInfo, hlen]
  dsimp only
  rw [if_neg (by omega), if_neg (by omega)]
  simp only [if_neg (show ¬ bytes > cdbFixSize by omega)]

/-- A command that is printed into a buffer of its own. -/
theorem tcmuPrintCdbInfo_long (hlen : tcmuGetCdbLength cdb = some bytes)
    (hlong : cdbFixSize < bytes) (junk : ℕ → UInt8) :
    tcmuPrintCdbInfo cdb info true junk =
      (printCdb cdb bytes info ((List.range (cdbToBufSize bytes)).map junk)).map fun p =>
        ⟨some (p.1.takeWhile (· ≠ 0)), some .malloced⟩ := by
  rw [tcmuPrintCdbInfo, hlen]
  dsimp only
  rw [if_neg (by simp), if_pos hlong]
  simp only [if_pos (show bytes > cdbFixSize from hlong)]

/-! ### The main result -/

/-- **The command is printed inside the buffer**, whether there is memory or not and whatever is in
the buffer before, and the array on the stack is not passed to `free`. -/
def PrintsInside (cdb : Cdb) (info : Option String) : Prop :=
  ∀ malloc junk, ∃ r, tcmuPrintCdbInfo cdb info malloc junk = some r ∧ r.freed ≠ some .fix

/-- The text, the newline and the NUL fit into the buffer that is chosen. -/
def PrintFits (cdb : Cdb) (info : Option String) : Prop :=
  ∀ bytes, tcmuGetCdbLength cdb = some bytes → printedLength cdb bytes info + 1 ≤
    if bytes ≤ cdbFixSize then cdbFixSize else cdbToBufSize bytes

/-- **Where a command is printed inside the buffer.** -/
theorem print_cdb_inside_iff (cdb : Cdb) (info : Option String) :
    PrintsInside cdb info ↔ PrintFits cdb info := by
  rw [PrintsInside, PrintFits]
  cases hlen : tcmuGetCdbLength cdb with
  | none =>
    refine ⟨fun _ bytes h => absurd h (by simp), fun _ malloc junk => ⟨⟨none, none⟩, ?_, by simp⟩⟩
    rw [tcmuPrintCdbInfo, hlen]
  | some bytes =>
    rcases Nat.lt_or_ge cdbFixSize bytes with hlong | hshort
    · constructor
      · rintro hinside _ ⟨⟩
        obtain ⟨r, hr, -⟩ := hinside true fun _ => 0
        rw [tcmuPrintCdbInfo_long hlen hlong] at hr
        obtain ⟨p, hp, -⟩ := Option.map_eq_some_iff.mp hr
        rw [if_neg (by omega), ← printCdb_isSome _ fun _ => 0, hp]
        rfl
      · intro hfits malloc junk
        have hroom := hfits bytes rfl
        rw [if_neg (by omega), ← printCdb_isSome _ junk] at hroom
        obtain ⟨p, hp⟩ := Option.isSome_iff_exists.mp hroom
        cases malloc with
        | false =>
          refine ⟨⟨none, none⟩, ?_, by simp⟩
          rw [tcmuPrintCdbInfo, hlen]
          exact if_pos ⟨hlong, rfl⟩
        | true =>
          refine ⟨⟨some (p.1.takeWhile (· ≠ 0)), some .malloced⟩, ?_, by simp⟩
          rw [tcmuPrintCdbInfo_long hlen hlong, hp]
          rfl
    · constructor
      · rintro hinside _ ⟨⟩
        obtain ⟨r, hr, -⟩ := hinside true fun _ => 0
        rw [tcmuPrintCdbInfo_short hlen hshort] at hr
        obtain ⟨p, hp, -⟩ := Option.map_eq_some_iff.mp hr
        rw [if_pos hshort, ← printCdb_isSome _ fun _ => 0, hp]
        rfl
      · intro hfits malloc junk
        have hroom := hfits bytes rfl
        rw [if_pos hshort, ← printCdb_isSome _ junk] at hroom
        obtain ⟨p, hp⟩ := Option.isSome_iff_exists.mp hroom
        refine ⟨⟨some (p.1.takeWhile (· ≠ 0)), none⟩, ?_, by simp⟩
        rw [tcmuPrintCdbInfo_short hlen hshort, hp]
        rfl

/-- The format string that the log function is given has the bytes, the text and the newline, if it
is all inside. -/
theorem print_cdb_text {malloc : Bool} {junk : ℕ → UInt8} {r : Printed} {text : List UInt8}
    (hlen : tcmuGetCdbLength cdb = some bytes)
    (h : tcmuPrintCdbInfo cdb info malloc junk = some r) (hfmt : r.fmt = some text) :
    text = (printedTexts cdb bytes info).flatten.takeWhile (· ≠ 0) := by
  obtain ⟨size, p, hp, rfl⟩ : ∃ size p,
      printCdb cdb bytes info ((List.range size).map junk) = some p ∧
        text = p.1.takeWhile (· ≠ 0) := by
    rw [tcmuPrintCdbInfo, hlen] at h
    dsimp only at h
    split at h
    · obtain rfl := Option.some.inj h
      exact absurd hfmt (by simp)
    · obtain ⟨p, hp, rfl⟩ := Option.map_eq_some_iff.mp h
      exact ⟨_, p, hp, (Option.some.inj hfmt).symm⟩
  rw [printCdb_eq] at hp
  obtain ⟨-, htake, hnul⟩ := sprintfs_eq hp
  rw [List.take_zero, List.nil_append] at htake
  obtain ⟨hlt, hzero⟩ := List.getElem?_eq_some_iff.mp (hnul (by simp [printedTexts]))
  have hsplit : p.1 = (printedTexts cdb bytes info).flatten ++ 0 :: p.1.drop (p.2 + 1) := by
    rw [← htake, ← hzero, ← List.drop_eq_getElem_cons hlt, List.take_append_drop]
  rw [hsplit, List.takeWhile_append]
  split
  · rename_i hall
    rw [List.takeWhile_cons_of_neg (by simp), List.append_nil]
    exact ((List.takeWhile_prefix _).eq_of_length hall).symm
  · rfl

/-- Six bytes that are zero, and a text. -/
theorem print_cdb_text_six : ∃ r text,
    tcmuPrintCdbInfo (List.replicate 6 0) (some "a") true (fun _ => 0) = some r ∧
      r.fmt = some text ∧ text = (printedTexts (List.replicate 6 0) 6
        (some "a")).flatten.takeWhile (· ≠ 0) := by
  have hsome : ((tcmuPrintCdbInfo (List.replicate 6 0) (some "a") true (fun _ => 0)).bind
      Printed.fmt).isSome = true := by
    decide +kernel
  obtain ⟨text, htext⟩ := Option.isSome_iff_exists.mp hsome
  obtain ⟨r, h, hfmt⟩ := Option.bind_eq_some_iff.mp htext
  exact ⟨r, text, h, hfmt, print_cdb_text (by decide) h hfmt⟩

end Print

/-- A command of 64 bytes, all of which have two digits. -/
def wideCdb : Cdb := 0x7f :: List.replicate 6 0x10 ++ [56] ++ List.replicate 56 0x10

/-- The NUL of this one is put behind the array. -/
theorem print_cdb_overflows :
    tcmuPrintCdbInfo wideCdb none true (fun _ => 0) = none ∧ ¬ PrintsInside wideCdb none := by
  have hrun : tcmuPrintCdbInfo wideCdb none true (fun _ => 0) = none := by decide +kernel
  refine ⟨hrun, fun hinside => ?_⟩
  obtain ⟨r, hr, -⟩ := hinside true fun _ => 0
  rw [hrun] at hr
  exact absurd hr (by simp)

end Tcmu

end LioProject
