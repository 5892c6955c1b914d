import LioProject.Tcmu.ConfigLine
import Mathlib.Data.List.TakeWhile

/-!
# Strings of the configuration file

A string option is written `key = "content"`, with either quotation mark, and the contents should
come back as they are. `tcmu_parse_option` finds the value from both ends. At the end of the line it
goes back over blanks to the closing mark. Behind the `=` it skips one character, then blanks, then
one quotation mark of either kind.

With a blank behind the `=` that is the blank, and the opening mark is found. Without one the
character that is skipped is the opening mark itself. Then blanks at the beginning of the contents
are lost, and after them a quotation mark of the other kind, or the closing mark
(`string_loses_blank`). `string_read_back_iff` says for which lines the contents come back.
-/

namespace LioProject

namespace Tcmu

/-! ### Lines -/

/-- A line with a string. -/
structure StringLine where
  /-- The key. -/
  key : List UInt8
  /-- The blanks between the key and the `=`. -/
  before : List UInt8
  /-- The blanks behind it. -/
  behind : List UInt8
  /-- The quotation mark. -/
  quote : UInt8
  /-- What is between the marks. -/
  content : List UInt8
  /-- The blanks at the end of the line. -/
  rest : List UInt8
  /-- There is a key. -/
  key_ne : key ≠ []
  /-- It consists of letters and underscores. -/
  key_chars : ∀ c ∈ key, isAlpha c = true ∨ c = 95
  /-- Blanks. -/
  before_blank : ∀ c ∈ before, isBlank c = true
  /-- Blanks. -/
  behind_blank : ∀ c ∈ behind, isBlank c = true
  /-- Blanks. -/
  rest_blank : ∀ c ∈ rest, isBlank c = true
  /-- A quotation mark. -/
  quote_mark : isQuote quote = true
  /-- It is not in the contents, which are in one line. -/
  content_chars : ∀ c ∈ content, isEol c = false ∧ c ≠ quote

/-- The characters of the line. -/
def StringLine.chars (sl : StringLine) : List UInt8 :=
  sl.key ++ sl.before ++ [61] ++ sl.behind ++ [sl.quote] ++ sl.content ++ [sl.quote] ++ sl.rest

/-- The line is at `cur` in the buffer, and ends there, at the end of the file or not. -/
structure StringLine.At (sl : StringLine) (buf : ConfBuf) (stop cur : ℕ) : Prop where
  /-- There is room for the `NUL` behind the file. -/
  stop_lt : stop < buf.length
  /-- It has been written. -/
  char_stop : buf.char stop = 0
  /-- The characters. -/
  chars_at : ∃ pre post, buf = pre ++ sl.chars ++ post ∧ pre.length = cur
  /-- The end of the line. -/
  ends : stop = cur + sl.chars.length ∨
    cur + sl.chars.length < stop ∧ isEol (buf.char (cur + sl.chars.length)) = true

/-- What `tcmu_parse_option` stores for a string. -/
def storedStr (addr stop : ℕ) (buf : ConfBuf) (t : ConfTable) (cur : ℕ) (key : List UInt8) :
    Option (List UInt8) := do
  let (_, t, _) ← tcmuParseOption addr stop buf t cur
  let o ← t.get key
  if o.type = .str then o.text else none

/-- There is a blank behind the `=`, or the contents begin with a character that is neither a blank
nor a quotation mark, or they are the same blanks as those at the end of the line; and they contain
no `NUL`. -/
def StringLine.ReadBack (sl : StringLine) : Prop :=
  0 ∉ sl.content ∧
    (sl.behind ≠ [] ∨
      (∃ c cs, sl.content = c :: cs ∧ isBlank c = false ∧ isQuote c = false) ∨
      (∀ c ∈ sl.content, isBlank c = true) ∧ sl.rest = sl.content)

/-! ### Characters at a place -/

section Chars

variable {buf : ConfBuf} {xs ys : List UInt8} {i : ℕ}

/-- The characters `xs` are in the buffer at `i`. -/
def ConfBuf.Has (buf : ConfBuf) (i : ℕ) (xs : List UInt8) : Prop :=
  ∀ j (hj : j < xs.length), i + j < buf.length ∧ buf.char (i + j) = xs[j]

theorem has_append :
    buf.Has i (xs ++ ys) ↔ buf.Has i xs ∧ buf.Has (i + xs.length) ys := by
  constructor
  · intro h
    refine ⟨fun j hj => ?_, fun j hj => ?_⟩
    · have hat := h j (by rw [List.length_append]; omega)
      rwa [List.getElem_append_left hj] at hat
    · have hat := h (xs.length + j) (by rw [List.length_append]; omega)
      rw [List.getElem_append_right (by omega), ← Nat.add_assoc] at hat
      simpa using hat
  · rintro ⟨hxs, hys⟩ j hj
    rcases Nat.lt_or_ge j xs.length with hlt | hge
    · rw [List.getElem_append_left hlt]
      exact hxs j hlt
    · rw [List.length_append] at hj
      rw [List.getElem_append_right hge]
      have hat := hys (j - xs.length) (by omega)
      rwa [show i + xs.length + (j - xs.length) = i + j by omega] at hat

theorem has_self (pre post : List UInt8) : ConfBuf.Has (pre ++ xs ++ post) pre.length xs := by
  intro j hj
  have hlt : pre.length + j < (pre ++ xs ++ post).length := by
    rw [List.length_append, List.length_append]
    omega
  refine ⟨hlt, ?_⟩
  rw [char_eq_getElem hlt, List.getElem_append_left (by rw [List.length_append]; omega),
    List.getElem_append_right (by omega)]
  simp

/-- Every character there is one of them. -/
theorem ConfBuf.Has.mem (h : buf.Has i xs) {k : ℕ} (hik : i ≤ k) (hk : k < i + xs.length) :
    buf.char k ∈ xs := by
  obtain ⟨-, hat⟩ := h (k - i) (by omega)
  rw [show i + (k - i) = k by omega] at hat
  rw [hat]
  exact List.getElem_mem _

/-- The C string at a place. -/
theorem ConfBuf.Has.str (h : buf.Has i xs) (hlt : i + xs.length < buf.length)
    (hnul : buf.char (i + xs.length) = 0) : buf.str i = xs.takeWhile (· ≠ 0) := by
  have hstr : ∀ i, i < buf.length →
      buf.str i = if buf.char i ≠ 0 then buf.char i :: buf.str (i + 1) else [] := by
    intro i hi
    rw [ConfBuf.str, List.drop_eq_getElem_cons hi, List.takeWhile_cons, char_eq_getElem hi]
    simp only [decide_eq_true_eq]
    rfl
  induction xs generalizing i with
  | nil =>
    rw [hstr i hlt, if_neg (not_not.mpr (show buf.char i = 0 from hnul))]
    rfl
  | cons x xs ih =>
    rw [List.length_cons] at hlt hnul
    have hhead := (h 0 (Nat.succ_pos _)).2
    have htail : buf.Has (i + 1) xs := by
      intro j hj
      have hat := h (j + 1) (Nat.succ_lt_succ hj)
      rwa [show i + (j + 1) = i + 1 + j by omega] at hat
    rw [hstr i (by omega), List.takeWhile_cons,
      ih htail (by omega) (by rwa [show i + 1 + xs.length = i + (xs.length + 1) by omega]),
      show buf.char i = x from hhead]
    simp only [decide_eq_true_eq]

/-- The characters stay where nothing is written. -/
theorem ConfBuf.Has.congr {buf' : ConfBuf} (h : buf.Has i xs) (hlen : buf'.length = buf.length)
    (hchar : ∀ k, i ≤ k → k < i + xs.length → buf'.char k = buf.char k) : buf'.Has i xs := by
  intro j hj
  obtain ⟨hlt, hat⟩ := h j hj
  exact ⟨hlen.symm ▸ hlt, by rw [hchar _ (by omega) (by omega), hat]⟩

theorem has_singleton {c : UInt8} (h : buf.Has i [c]) : i < buf.length ∧ buf.char i = c :=
  h 0 Nat.one_pos

end Chars

/-! ### Taking the line apart -/

/-- Where the `=` is. -/
def StringLine.equalsPos (sl : StringLine) (cur : ℕ) : ℕ := cur + sl.key.length + sl.before.length

/-- Where the opening mark is. -/
def StringLine.openPos (sl : StringLine) (cur : ℕ) : ℕ := sl.equalsPos cur + 1 + sl.behind.length

/-- Where the closing mark is. -/
def StringLine.closePos (sl : StringLine) (cur : ℕ) : ℕ := sl.openPos cur + 1 + sl.content.length

/-- Where the line ends. -/
def StringLine.endPos (sl : StringLine) (cur : ℕ) : ℕ := sl.closePos cur + 1 + sl.rest.length

section Apart

variable {sl : StringLine} {buf : ConfBuf} {c : UInt8} {stop cur i : ℕ}

theorem endPos_eq (sl : StringLine) (cur : ℕ) : sl.endPos cur = cur + sl.chars.length := by
  simp only [StringLine.endPos, StringLine.closePos, StringLine.openPos, StringLine.equalsPos,
    StringLine.chars, List.length_append, List.length_singleton]
  omega

theorem length_key_pos (sl : StringLine) : 0 < sl.key.length := List.length_pos_iff.mpr sl.key_ne

theorem isBlank_chars (h : isBlank c = true) :
    c ≠ 0 ∧ c ≠ 61 ∧ isEol c = false ∧ isQuote c = false ∧ isDigit c = false := by
  simp only [isBlank, decide_eq_true_eq] at h
  rcases h with rfl | rfl
  · decide
  · decide

theorem isQuote_chars (h : isQuote c = true) :
    c ≠ 0 ∧ isBlank c = false ∧ isBlankOrEq c = false ∧ isEol c = false := by
  simp only [isQuote, decide_eq_true_eq] at h
  rcases h with rfl | rfl
  · decide
  · decide

theorem key_plain (hc : c ∈ sl.key) : isPlain c = true ∧ c ≠ 0 ∧ c ≠ 61 := by
  rcases sl.key_chars c hc with h | rfl
  · refine ⟨isPlain_of_isAlpha h, ?_, ?_⟩
    · rintro rfl
      exact absurd h (by decide)
    · rintro rfl
      exact absurd h (by decide)
  · decide

theorem not_isEol_chars (hc : c ∈ sl.chars) : isEol c = false := by
  simp only [StringLine.chars, List.mem_append, List.mem_singleton] at hc
  rcases hc with ((((((hc | hc) | rfl) | hc) | rfl) | hc) | rfl) | hc
  · exact not_isEol_of_isPlain (key_plain hc).1
  · exact (isBlank_chars (sl.before_blank c hc)).2.2.1
  · decide
  · exact (isBlank_chars (sl.behind_blank c hc)).2.2.1
  · exact (isQuote_chars sl.quote_mark).2.2.2
  · exact (sl.content_chars c hc).1
  · exact (isQuote_chars sl.quote_mark).2.2.2
  · exact (isBlank_chars (sl.rest_blank c hc)).2.2.1

theorem StringLine.At.has (h : sl.At buf stop cur) : buf.Has cur sl.chars := by
  obtain ⟨pre, post, rfl, rfl⟩ := h.chars_at
  exact has_self pre post

/-- The parts of the line up to its `=`, and the value. -/
theorem StringLine.At.parts (h : sl.At buf stop cur) :
    buf.Has cur sl.key ∧ buf.Has (cur + sl.key.length) sl.before ∧
      buf.Has (sl.equalsPos cur) [61] ∧
      buf.Has (sl.equalsPos cur + 1)
        (sl.behind ++ [sl.quote] ++ sl.content ++ [sl.quote] ++ sl.rest) := by
  have hall := h.has
  rw [StringLine.chars, List.append_assoc _ sl.behind, List.append_assoc _ (_ ++ _),
    List.append_assoc _ (_ ++ _), List.append_assoc _ (_ ++ _), has_append, has_append,
    has_append] at hall
  obtain ⟨⟨⟨hkey, hbefore⟩, hequals⟩, hvalue⟩ := hall
  refine ⟨hkey, hbefore, ?_, ?_⟩
  · rwa [List.length_append, ← Nat.add_assoc] at hequals
  · rwa [List.length_append, List.length_append, List.length_singleton, ← Nat.add_assoc,
      ← Nat.add_assoc] at hvalue

theorem StringLine.At.atLine (h : sl.At buf stop cur) : AtLine buf stop cur := by
  obtain ⟨hkey, -⟩ := h.parts
  have hpos := length_key_pos sl
  have hend := endPos_eq sl cur
  have hlen : sl.key.length ≤ sl.chars.length := by
    simp only [StringLine.chars, List.length_append]
    omega
  refine ⟨h.stop_lt, h.char_stop, ?_, (key_plain (hkey.mem (Nat.le_refl _) (by omega))).1⟩
  rcases h.ends with heq | ⟨hlt, -⟩
  · omega
  · omega

theorem StringLine.At.toLineEnd (h : sl.At buf stop cur) :
    buf.toLineEnd stop cur = sl.endPos cur := by
  rw [endPos_eq]
  refine scanTo_eq (Nat.le_add_right ..) ?_ (Nat.le_of_lt h.stop_lt) (fun hlt => ?_)
    fun k hk hkq => ?_
  · rcases h.ends with heq | ⟨hlt, -⟩
    · exact Nat.le_of_eq heq.symm
    · exact Nat.le_of_lt hlt
  · rcases h.ends with heq | ⟨-, heol⟩
    · omega
    · simp [heol]
  · simp [not_isEol_chars (h.has.mem hk hkq)]

theorem StringLine.At.equalsAt (h : sl.At buf stop cur) :
    buf.equalsAt stop cur = sl.equalsPos cur := by
  obtain ⟨hkey, hbefore, hequals, -⟩ := h.parts
  obtain ⟨hlt, hchar⟩ := has_singleton hequals
  have hend := h.toLineEnd
  have hq : sl.equalsPos cur < buf.toLineEnd stop cur := by
    rw [hend, StringLine.endPos, StringLine.closePos, StringLine.openPos]
    omega
  have hended := h.atLine.char_ended.2
  refine scan_eq (by rw [StringLine.equalsPos]; omega) (by rw [h.atLine.length_ended.1]; exact hlt)
    ?_ fun k hk hke => ?_
  · rw [hended _ (Nat.ne_of_lt hq), hchar]
    decide
  · rw [hended k (by omega)]
    rw [StringLine.equalsPos] at hke
    rcases Nat.lt_or_ge k (cur + sl.key.length) with hlt | hge
    · obtain ⟨-, h0, h61⟩ := key_plain (hkey.mem hk hlt)
      simp [h0, h61]
    · obtain ⟨h0, h61, -⟩ := isBlank_chars (sl.before_blank _ (hbefore.mem hge hke))
      simp [h0, h61]

theorem StringLine.At.keyEnd (h : sl.At buf stop cur) :
    buf.keyEnd stop cur = cur + sl.key.length := by
  obtain ⟨hkey, hbefore, hequals, -⟩ := h.parts
  have hpos := length_key_pos sl
  have hq : sl.equalsPos cur < buf.toLineEnd stop cur := by
    rw [h.toLineEnd, StringLine.endPos, StringLine.closePos, StringLine.openPos]
    omega
  have hended := h.atLine.char_ended.2
  have hback : (buf.ended stop cur).back isBlankOrEq (sl.equalsPos cur) =
      cur + sl.key.length - 1 := by
    refine back_eq (by rw [StringLine.equalsPos]; omega) ?_ fun k hk hke => ?_
    · rw [hended _ (by rw [StringLine.equalsPos] at hq; omega)]
      exact not_isBlankOrEq_of_isPlain (key_plain (hkey.mem (by omega) (by omega))).1
    · rw [hended k (by omega)]
      rcases Nat.lt_or_eq_of_le hke with hlt | rfl
      · rw [StringLine.equalsPos] at hlt
        have hblank := sl.before_blank _ (hbefore.mem (by omega) hlt)
        simp [isBlankOrEq, hblank]
      · rw [(has_singleton hequals).2]
        decide
  rw [ConfBuf.keyEnd, h.equalsAt, hback]
  omega

/-- What the first part of `tcmu_parse_option` makes of the line. -/
theorem StringLine.At.parse (h : sl.At buf stop cur) :
    (parseLine buf stop cur).key = sl.key ∧
      (parseLine buf stop cur).value = some (sl.equalsPos cur + 1) ∧
      (parseLine buf stop cur).q = sl.endPos cur ∧
      (parseLine buf stop cur).buf.Has (sl.equalsPos cur + 1)
        (sl.behind ++ [sl.quote] ++ sl.content ++ [sl.quote] ++ sl.rest) := by
  obtain ⟨hkey, -, hequals, hvalue⟩ := h.parts
  have hat := h.atLine
  have hq : sl.equalsPos cur < buf.toLineEnd stop cur := by
    rw [h.toLineEnd, StringLine.endPos, StringLine.closePos, StringLine.openPos]
    omega
  have heq : (buf.ended stop cur).char (buf.equalsAt stop cur) = 61 := by
    rw [h.equalsAt, hat.char_ended.2 _ (Nat.ne_of_lt hq), (has_singleton hequals).2]
  have hline := parseLineIn_eq_some (hat.parseLineIn_some heq)
  have hof := hat.parse.2
  have hlen := hat.length_ended.1
  have hqlen := hat.length_ended.2
  rw [hline] at hof ⊢
  refine ⟨?_, congrArg (fun i => some (i + 1)) h.equalsAt, h.toLineEnd, ?_⟩
  · have hkeyEnd : cur + sl.key.length < (buf.ended stop cur).length := by
      rw [hlen]
      rw [StringLine.equalsPos] at hq
      omega
    have hkey' : ConfBuf.Has ((buf.ended stop cur).set (cur + sl.key.length) 0) cur sl.key := by
      refine hkey.congr (by rw [length_set, hlen]) fun k hk hke => ?_
      rw [StringLine.equalsPos] at hq
      rw [char_set_of_ne (Nat.ne_of_lt hke), hat.char_ended.2 k (by omega)]
    show ConfBuf.str ((buf.ended stop cur).set (buf.keyEnd stop cur) 0) cur = sl.key
    rw [h.keyEnd, hkey'.str (by rwa [length_set]) (char_set_self hkeyEnd),
      List.takeWhile_eq_self_iff]
    intro c hc
    simpa using (key_plain hc).2.1
  · have hframe := (hof.value _ rfl).2.2
    refine hvalue.congr (by rw [length_set, hlen]) fun k hk hke => ?_
    refine hframe k (by rw [h.equalsAt]; exact hk) ?_
    show k < buf.toLineEnd stop cur
    rw [h.toLineEnd, StringLine.endPos, StringLine.closePos, StringLine.openPos]
    simp only [List.length_append, List.length_singleton] at hke
    omega

end Apart

/-! ### The value -/

section Value

variable {sl : StringLine} {buf : ConfBuf} {l : ConfLine} {t : ConfTable} {c : UInt8}
  {addr stop cur i k : ℕ}

/-- What `tcmu_parse_option` sees of the value. -/
structure StringLine.Seen (sl : StringLine) (cur : ℕ) (l : ConfLine) : Prop where
  /-- `q`. -/
  q_eq : l.q = sl.endPos cur
  /-- The line is a C string. -/
  char_q : l.q < l.buf.length ∧ l.buf.char l.q = 0
  /-- The blanks behind the `=`. -/
  behind : l.buf.Has (sl.equalsPos cur + 1) sl.behind
  /-- The opening mark. -/
  opening : l.buf.char (sl.openPos cur) = sl.quote
  /-- The contents. -/
  content : l.buf.Has (sl.openPos cur + 1) sl.content
  /-- The closing mark. -/
  closing : l.buf.char (sl.closePos cur) = sl.quote
  /-- The blanks at the end. -/
  rest : l.buf.Has (sl.closePos cur + 1) sl.rest

theorem StringLine.At.seen (h : sl.At buf stop cur) : sl.Seen cur (parseLine buf stop cur) := by
  obtain ⟨-, -, hq, hvalue⟩ := h.parse
  have hof := h.atLine.parse.2
  rw [has_append, has_append, has_append, has_append] at hvalue
  obtain ⟨⟨⟨⟨hbehind, hopening⟩, hcontent⟩, hclosing⟩, hrest⟩ := hvalue
  refine ⟨hq, ⟨(hof.lt_q h.atLine).2.2, hof.char_q⟩, hbehind, (has_singleton hopening).2, ?_, ?_,
    ?_⟩
  · rwa [List.length_append, List.length_singleton, ← Nat.add_assoc] at hcontent
  · have hchar := (has_singleton hclosing).2
    rwa [List.length_append, List.length_append, List.length_singleton, ← Nat.add_assoc,
      ← Nat.add_assoc] at hchar
  · rwa [List.length_append, List.length_append, List.length_append, List.length_singleton,
      ← Nat.add_assoc, ← Nat.add_assoc, ← Nat.add_assoc] at hrest

variable (h : sl.Seen cur l)

include h

/-- Where the closing mark is, the string ends. -/
theorem unquoted_seen : l.unquoted = l.buf.set (sl.closePos cur) 0 := by
  have hq := h.q_eq
  have hblank := (isQuote_chars sl.quote_mark).2.1
  have hback : l.buf.back isBlank (l.q - 1) = sl.closePos cur := by
    rw [StringLine.endPos] at hq
    refine back_eq (by omega) (by rw [h.closing]; exact hblank) fun k hk hke => ?_
    exact sl.rest_blank _ (h.rest.mem hk (by omega))
  rw [ConfLine.unquoted, hback, h.closing, if_pos sl.quote_mark]

/-- The string, when it begins at the `k`th character of the contents. -/
theorem text_of_textAt {s : ℕ} (hk : k ≤ sl.content.length)
    (hs : l.textAt s = sl.openPos cur + 1 + k) :
    l.text s = (sl.content.drop k).takeWhile (· ≠ 0) := by
  have hq := h.q_eq
  have hlen := h.char_q.1
  rw [StringLine.endPos] at hq
  have hclose : sl.closePos cur < l.buf.length := by omega
  have hhas : l.unquoted.Has (sl.openPos cur + 1 + k) (sl.content.drop k) := by
    have hcontent := h.content
    rw [← List.take_append_drop k sl.content, has_append, List.length_take,
      Nat.min_eq_left hk] at hcontent
    refine hcontent.2.congr (by rw [length_unquoted]) fun j hj hje => ?_
    rw [List.length_drop] at hje
    rw [unquoted_seen h, char_set_of_ne (by rw [StringLine.closePos]; omega)]
  have hat : sl.openPos cur + 1 + k + (sl.content.drop k).length = sl.closePos cur := by
    rw [List.length_drop, StringLine.closePos]
    omega
  rw [ConfLine.text, hs]
  refine hhas.str (by rw [length_unquoted, hat]; exact hclose) ?_
  rw [hat, unquoted_seen h, char_set_self hclose]

/-- With a blank behind the `=`, the string begins with the contents. -/
theorem textAt_of_behind (hne : sl.behind ≠ []) :
    l.textAt (sl.equalsPos cur + 1) = sl.openPos cur + 1 := by
  have hpos : 0 < sl.behind.length := List.length_pos_iff.mpr hne
  have hq := h.q_eq
  have hlen := h.char_q.1
  have hscan : l.buf.scan isBlank (sl.equalsPos cur + 1 + 1) = sl.openPos cur := by
    refine scan_eq (by rw [StringLine.openPos]; omega)
      (by rw [StringLine.endPos, StringLine.closePos] at hq; omega)
      (by rw [h.opening]; exact (isQuote_chars sl.quote_mark).2.1) fun k hk hke => ?_
    exact sl.behind_blank _ (h.behind.mem (by omega) (by rw [StringLine.openPos] at hke; omega))
  rw [ConfLine.textAt, hscan, h.opening, if_pos sl.quote_mark]

/-- Without one, the opening mark is the character that is skipped, and blanks are skipped in the
contents. -/
theorem scan_of_not_behind (hnil : sl.behind = []) (hk : k < sl.content.length)
    (hpass : ∀ j (hj : j < sl.content.length), j < k → isBlank sl.content[j] = true)
    (hstop : isBlank sl.content[k] = false) :
    l.buf.scan isBlank (sl.equalsPos cur + 1 + 1) = sl.openPos cur + 1 + k := by
  have hopen : sl.openPos cur = sl.equalsPos cur + 1 := by
    rw [StringLine.openPos, hnil, List.length_nil, Nat.add_zero]
  obtain ⟨hlt, hat⟩ := h.content k hk
  rw [← hopen]
  refine scan_eq (Nat.le_add_right ..) hlt (by rw [hat]; exact hstop) fun j hj hjk => ?_
  obtain ⟨-, hat⟩ := h.content (j - (sl.openPos cur + 1)) (by omega)
  rw [show sl.openPos cur + 1 + (j - (sl.openPos cur + 1)) = j by omega] at hat
  rw [hat]
  exact hpass _ (by omega) (by omega)

/-- With blank contents, the closing mark is taken for the opening one. -/
theorem text_of_blank (hnil : sl.behind = []) (hblank : ∀ c ∈ sl.content, isBlank c = true) :
    l.text (sl.equalsPos cur + 1) = sl.rest := by
  have hq := h.q_eq
  obtain ⟨hlen, hnul⟩ := h.char_q
  rw [StringLine.endPos] at hq
  have hopen : sl.openPos cur = sl.equalsPos cur + 1 := by
    rw [StringLine.openPos, hnil, List.length_nil, Nat.add_zero]
  have hscan : l.buf.scan isBlank (sl.equalsPos cur + 1 + 1) = sl.closePos cur := by
    rw [← hopen]
    refine scan_eq (Nat.le_add_right ..) (by omega)
      (by rw [h.closing]; exact (isQuote_chars sl.quote_mark).2.1) fun k hk hke => ?_
    exact hblank _ (h.content.mem hk hke)
  have htextAt : l.textAt (sl.equalsPos cur + 1) = sl.closePos cur + 1 := by
    rw [ConfLine.textAt, hscan, h.closing, if_pos sl.quote_mark]
  have hhas : l.unquoted.Has (sl.closePos cur + 1) sl.rest := by
    refine h.rest.congr (by rw [length_unquoted]) fun j hj hje => ?_
    rw [unquoted_seen h, char_set_of_ne (by omega)]
  have hstr := hhas.str (by rw [length_unquoted]; omega)
    (char_unquoted_of_nul (by rwa [← hq]))
  rw [ConfLine.text, htextAt, hstr, List.takeWhile_eq_self_iff]
  intro c hc
  simpa using (isBlank_chars (sl.rest_blank c hc)).1

omit h in
/-- A part of the contents that is all of them. -/
theorem drop_takeWhile_eq_iff {xs : List UInt8} (hne : xs ≠ []) :
    (xs.drop k).takeWhile (· ≠ 0) = xs ↔ k = 0 ∧ 0 ∉ xs := by
  constructor
  · intro heq
    have hlen := congrArg List.length heq
    have hle : ((xs.drop k).takeWhile (· ≠ 0)).length ≤ xs.length - k := by
      rw [← List.length_drop]
      exact (List.takeWhile_prefix _).length_le
    have hpos : 0 < xs.length := List.length_pos_iff.mpr hne
    obtain rfl : k = 0 := by omega
    rw [List.drop_zero, List.takeWhile_eq_self_iff] at heq
    exact ⟨rfl, fun h0 => absurd (heq 0 h0) (by decide)⟩
  · rintro ⟨rfl, h0⟩
    rw [List.drop_zero, List.takeWhile_eq_self_iff]
    intro c hc
    simpa using fun hz : c = 0 => h0 (hz ▸ hc)

/-- **The string.** -/
theorem text_eq_iff : l.text (sl.equalsPos cur + 1) = sl.content ↔ sl.ReadBack := by
  by_cases hnil : sl.behind = []
  · by_cases hblank : ∀ c ∈ sl.content, isBlank c = true
    · rw [text_of_blank h hnil hblank]
      refine ⟨fun heq => ⟨fun h0 => absurd (hblank 0 h0) (by decide), ?_⟩, fun hread => ?_⟩
      · exact Or.inr (Or.inr ⟨hblank, heq⟩)
      rcases hread.2 with hne | ⟨c, cs, hc, hnot, -⟩ | ⟨-, heq⟩
      · exact absurd hnil hne
      · rw [hblank c (hc ▸ List.mem_cons_self ..)] at hnot
        exact absurd hnot (by simp)
      · exact heq
    · -- the first character of the contents that is not a blank
      have hex : ∃ c ∈ sl.content, (!isBlank c) = true := by
        simpa using hblank
      have hk := List.findIdx_lt_length.mpr hex
      have hstop := List.findIdx_getElem (w := hk)
      have hpass : ∀ j (hj : j < sl.content.length),
          j < sl.content.findIdx (fun c => !isBlank c) → isBlank sl.content[j] = true := by
        intro j hj hlt
        simpa using List.not_of_lt_findIdx hlt
      have hne : sl.content ≠ [] := by
        rintro heq
        rw [heq] at hk
        exact absurd hk (by simp)
      generalize hidx : sl.content.findIdx (fun c => !isBlank c) = k at hk hstop hpass
      have hstop : isBlank sl.content[k] = false := by simpa [hidx] using hstop
      have hscan := scan_of_not_behind h hnil hk hpass hstop
      have hchar : l.buf.char (sl.openPos cur + 1 + k) = sl.content[k] := (h.content k hk).2
      have hzero : k = 0 ∧ isQuote sl.content[k] = false ↔
          ∃ c cs, sl.content = c :: cs ∧ isBlank c = false ∧ isQuote c = false := by
        constructor
        · rintro ⟨rfl, hquote⟩
          obtain ⟨c, cs, hc⟩ := List.exists_cons_of_ne_nil hne
          have hhead : sl.content[0] = c := by simp [hc]
          exact ⟨c, cs, hc, hhead ▸ hstop, hhead ▸ hquote⟩
        · rintro ⟨c, cs, hc, hnot, hquote⟩
          have hlength : 0 < sl.content.length := List.length_pos_iff.mpr hne
          have hhead : sl.content[0] = c := by simp [hc]
          have hk0 : k = 0 := by
            by_contra hpos
            have hb := hpass 0 hlength (Nat.pos_of_ne_zero hpos)
            rw [hhead, hnot] at hb
            exact absurd hb (by simp)
          subst hk0
          exact ⟨rfl, hhead.symm ▸ hquote⟩
      have hread : sl.ReadBack ↔ 0 ∉ sl.content ∧ k = 0 ∧ isQuote sl.content[k] = false := by
        rw [StringLine.ReadBack, hzero]
        refine and_congr_right fun _ => ⟨fun hcases => ?_, fun hcases => Or.inr (Or.inl hcases)⟩
        rcases hcases with hb | hcases | ⟨hall, -⟩
        · exact absurd hnil hb
        · exact hcases
        · exact absurd hall hblank
      rw [hread]
      cases hquote : isQuote sl.content[k] with
      | true =>
        have htextAt : l.textAt (sl.equalsPos cur + 1) = sl.openPos cur + 1 + (k + 1) := by
          rw [ConfLine.textAt, hscan, hchar, if_pos hquote]
          rfl
        rw [text_of_textAt h hk htextAt, drop_takeWhile_eq_iff hne]
        simp
      | false =>
        have htextAt : l.textAt (sl.equalsPos cur + 1) = sl.openPos cur + 1 + k := by
          rw [ConfLine.textAt, hscan, hchar, if_neg (by simp [hquote])]
        rw [text_of_textAt h (Nat.le_of_lt hk) htextAt, drop_takeWhile_eq_iff hne]
        simp [and_comm]
  · have htext := text_of_textAt h (Nat.zero_le _) (textAt_of_behind h hnil)
    rw [htext, List.drop_zero, List.takeWhile_eq_self_iff]
    constructor
    · intro hall
      exact ⟨fun h0 => absurd (hall 0 h0) (by decide), Or.inl hnil⟩
    · rintro ⟨h0, -⟩ c hc
      simpa using fun hz : c = 0 => h0 (hz ▸ hc)

end Value

/-! ### Main result -/

section Main

variable {sl : StringLine} {buf : ConfBuf} {t : ConfTable} {addr stop cur : ℕ}

/-- The line gives its option the type of a string. -/
theorem StringLine.Seen.type {l : ConfLine} (h : sl.Seen cur l)
    (hvalue : l.value = some (sl.equalsPos cur + 1)) : l.type = some .str := by
  have hq := h.q_eq
  have hlen := h.char_q.1
  have hscan : l.buf.scan isBlankOrEq (sl.equalsPos cur + 1) = sl.openPos cur := by
    refine scan_eq (by rw [StringLine.openPos]; omega)
      (by rw [StringLine.endPos, StringLine.closePos] at hq; omega)
      (by rw [h.opening]; exact (isQuote_chars sl.quote_mark).2.2.1) fun k hk hke => ?_
    have hblank := sl.behind_blank _ (h.behind.mem hk hke)
    simp [isBlankOrEq, hblank]
  rw [ConfLine.type, hvalue]
  dsimp only
  rw [hscan, h.opening, if_pos sl.quote_mark]

/-- What is stored is the string of the line. -/
theorem storedStr_eq (h : sl.At buf stop cur) (hnew : t.get sl.key = none) (haddr : addr ≠ 0) :
    storedStr addr stop buf t cur sl.key =
      some ((parseLine buf stop cur).text (sl.equalsPos cur + 1)) := by
  obtain ⟨hkey, hvalue, hq, -⟩ := h.parse
  have hat := h.atLine
  have hof := hat.parse.2
  have hseen := h.seen
  have hsq : sl.equalsPos cur + 1 < (parseLine buf stop cur).q := by
    rw [hq, StringLine.endPos, StringLine.closePos, StringLine.openPos]
    omega
  have hget : t.get (parseLine buf stop cur).key = none := hkey ▸ hnew
  have henter : (parseLine buf stop cur).enterIn addr t = some ((parseLine buf stop cur).unquoted,
      (t.register sl.key .str).modify sl.key
        (ConfOption.setStr addr ((parseLine buf stop cur).text (sl.equalsPos cur + 1)))) := by
    have hassign := @assignIn_str _ _ (t.register sl.key .str) _ _ addr _ _ hof hat hsq
      (hof.lt_q hat).2.2 hof.char_q
    rw [hkey, ← hkey, dangling_register hget, if_neg (by simp), hkey] at hassign
    rw [ConfLine.enterIn, hvalue, hget]
    dsimp only
    rw [scanIn_of_le (Nat.le_of_lt hsq) (hof.lt_q hat).2.2
      (by rw [hof.char_q]; exact isBlankOrEq_zero), hseen.type hvalue, hkey]
    exact hassign
  rw [storedStr, hat.parseOption_eq, henter]
  change (ConfTable.get (ConfTable.modify _ sl.key (ConfOption.setStr addr _)) sl.key).bind _ = _
  rw [get_modify_self (f := ConfOption.setStr addr _) (fun _ => rfl), get_register hnew, if_pos rfl]
  simp [ConfOption.setStr, haddr]

/-- **Strings.** The contents of the first line for a key come back unchanged if and only if the
line is one that is read back. -/
theorem string_read_back_iff (h : sl.At buf stop cur) (hnew : t.get sl.key = none)
    (haddr : addr ≠ 0) :
    storedStr addr stop buf t cur sl.key = some sl.content ↔ sl.ReadBack := by
  rw [storedStr_eq h hnew haddr, Option.some.injEq]
  exact text_eq_iff h.seen

end Main

/-- `tcmu_str = "Tom"`. -/
def tomLine : StringLine :=
  { key := [116, 99, 109, 117, 95, 115, 116, 114]
    before := [32]
    behind := [32]
    quote := 34
    content := [84, 111, 109]
    rest := []
    key_ne := by decide
    key_chars := by decide +kernel
    before_blank := by decide +kernel
    behind_blank := by decide +kernel
    rest_blank := by decide +kernel
    quote_mark := by decide
    content_chars := by decide +kernel }

/-- `Tom`. -/
theorem string_read_back_tom :
    storedStr 4096 16 (tomLine.chars ++ [0]) [] 0 tomLine.key = some [84, 111, 109] := by
  have hat : tomLine.At (tomLine.chars ++ [0]) 16 0 :=
    ⟨by decide, by decide, ⟨[], [0], rfl, rfl⟩, Or.inl (by decide)⟩
  exact (string_read_back_iff hat rfl (by decide)).mpr ⟨by decide, Or.inl (by decide)⟩

/-- `a=" b"`. -/
def tightLine : StringLine :=
  { key := [97]
    before := []
    behind := []
    quote := 34
    content := [32, 98]
    rest := []
    key_ne := by decide
    key_chars := by decide +kernel
    before_blank := by decide +kernel
    behind_blank := by decide +kernel
    rest_blank := by decide +kernel
    quote_mark := by decide
    content_chars := by decide +kernel }

/-- The blank is lost. -/
theorem string_loses_blank :
    tightLine.At (tightLine.chars ++ [0]) 6 0 ∧
      storedStr 4096 6 (tightLine.chars ++ [0]) [] 0 tightLine.key = some [98] ∧
      tightLine.content = [32, 98] :=
  ⟨⟨by decide, by decide, ⟨[], [0], rfl, rfl⟩, Or.inl (by decide)⟩, by decide +kernel, rfl⟩

end Tcmu

end LioProject
