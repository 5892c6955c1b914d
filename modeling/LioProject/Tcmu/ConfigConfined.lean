import LioProject.Tcmu.ConfigEnds

/-!
# What a line of the configuration file depends on

An option should get its value from its own line. The parser looks for the first digit behind the
`=` of a number that the table knows, and it copies a string that the table knows from the second
character behind the `=`, and both go on in the next line if there is nothing in this one
(`value_from_next_line`). A new option does not: its line has shown the digit or the quotation mark
that gives it its type.

When the loop is done `tcmu_conf_set_options` takes the options that it knows from the table. At
the first load it copies the string of `log_dir_path`, whatever type the option has: a number, or a
flag, is taken for a pointer.

`lineConfined_iff` is about one line, `setOptions_isSome_iff` about what follows the loop, and
`load_confined_iff` about a file, all the lines that the loop comes to, and what follows.
-/

namespace LioProject

namespace Tcmu

/-! ### The same line elsewhere -/

/-- Another buffer has the same line at the same place. What comes before it and behind it may
differ. -/
structure SameLine (buf : ConfBuf) (stop cur : ℕ) (buf' : ConfBuf) (stop' : ℕ) : Prop where
  /-- Both have the same size. -/
  length_eq : buf'.length = buf.length
  /-- There is room for the `NUL` behind the file. -/
  stop_lt : stop' < buf'.length
  /-- It has been written. -/
  char_stop : buf'.char stop' = 0
  /-- The line ends at the same place. -/
  end_eq : buf'.toLineEnd stop' cur = buf.toLineEnd stop cur
  /-- Its characters. -/
  char_eq : ∀ i, cur ≤ i → i < buf.toLineEnd stop cur → buf'.char i = buf.char i

section Same

variable {buf buf' : ConfBuf} {l l' : ConfLine} {t : ConfTable} {stop stop' cur addr s i : ℕ}

theorem SameLine.atLine (hs : SameLine buf stop cur buf' stop') (h : AtLine buf stop cur) :
    AtLine buf' stop' cur := by
  have hlt := h.lt_toLineEnd
  refine ⟨hs.stop_lt, hs.char_stop, ?_, by rw [hs.char_eq cur (Nat.le_refl _) hlt]; exact h.plain⟩
  by_contra hge
  have hend : buf'.toLineEnd stop' cur = cur := by
    rw [ConfBuf.toLineEnd, ConfBuf.scanTo, Nat.sub_eq_zero_of_le (Nat.le_of_not_lt hge)]
    rfl
  rw [hs.end_eq] at hend
  omega

/-- Two lines that have been taken apart, of which nothing differs that is in the line. -/
structure ConfLine.Like (cur : ℕ) (l l' : ConfLine) : Prop where
  /-- `key`. -/
  key_eq : l'.key = l.key
  /-- `q`. -/
  q_eq : l'.q = l.q
  /-- `value`. -/
  value_eq : l'.value = l.value
  /-- `buf`. -/
  agree : l.buf.Agree cur l.q l'.buf

theorem SameLine.like (hs : SameLine buf stop cur buf' stop') (h : AtLine buf stop cur) :
    (parseLine buf stop cur).Like cur (parseLine buf' stop' cur) := by
  have h' := hs.atLine h
  obtain ⟨hlen, hlt⟩ := h.length_ended
  have hcurq := h.lt_toLineEnd
  have hended : (buf.ended stop cur).Agree cur (buf.toLineEnd stop cur) (buf'.ended stop' cur) := by
    refine ⟨by rw [h'.length_ended.1, hlen, hs.length_eq], fun i hlo hhi => ?_⟩
    rcases Nat.lt_or_eq_of_le hhi with hlt | rfl
    · rw [h.char_ended.2 i (Nat.ne_of_lt hlt), h'.char_ended.2 i (by rw [hs.end_eq]; omega),
        hs.char_eq i hlo hlt]
    · rw [h.char_ended.1, ← hs.end_eq, h'.char_ended.1]
  have hqlen : buf.toLineEnd stop cur < (buf.ended stop cur).length := hlen.symm ▸ hlt
  have hequals : buf'.equalsAt stop' cur = buf.equalsAt stop cur :=
    hended.scan_eq hqlen (Nat.le_refl _) (Nat.le_of_lt hcurq) (Nat.le_refl _)
      (by simp [h.char_ended.1])
  obtain ⟨hcure, heq⟩ := h.equalsAt_le
  have hchar : (buf'.ended stop' cur).char (buf'.equalsAt stop' cur) =
      (buf.ended stop cur).char (buf.equalsAt stop cur) := by
    rw [hequals]
    exact hended.char_eq _ hcure heq
  by_cases hvalue : (buf.ended stop cur).char (buf.equalsAt stop cur) = 61
  · obtain ⟨hcurk, hke, heqq⟩ := h.keyEnd_bounds hvalue
    have hkey : buf'.keyEnd stop' cur = buf.keyEnd stop cur := by
      rw [ConfBuf.keyEnd, hequals]
      exact congrArg (· + 1) (hended.back_eq (Nat.le_refl _) hcure heq
        (not_isBlankOrEq_of_isPlain h.plain_ended))
    have hset := hended.set (buf.keyEnd stop cur) 0
    rw [parseLineIn_eq_some (h.parseLineIn_some hvalue),
      parseLineIn_eq_some (h'.parseLineIn_some (hchar.trans hvalue)), hkey, hs.end_eq, hequals]
    refine ⟨?_, rfl, rfl, hset⟩
    exact hset.str_eq (by rwa [length_set]) (Nat.le_refl _) (Nat.le_of_lt hcurk)
      (show buf.keyEnd stop cur ≤ buf.toLineEnd stop cur by omega) (char_set_self (by omega))
  · obtain ⟨hcurn, hnq⟩ := h.nameEnd_bounds
    have hname : buf'.nameEnd stop' cur = buf.nameEnd stop cur := by
      rw [ConfBuf.nameEnd, hs.end_eq]
      exact hended.scanTo_eq hqlen (Nat.le_refl _) (Nat.le_of_lt hcurq) (Nat.le_refl _)
    have hset := hended.set (buf.nameEnd stop cur) 0
    rw [parseLineIn_eq_some (h.parseLineIn_none hvalue),
      parseLineIn_eq_some (h'.parseLineIn_none fun heq => hvalue (hchar.symm.trans heq)), hname,
      hs.end_eq]
    refine ⟨?_, rfl, rfl, hset⟩
    exact hset.str_eq (by rwa [length_set]) (Nat.le_refl _) (Nat.le_of_lt hcurn) hnq
      (char_set_self (by omega))

/-- A number with its first digit in the line. -/
theorem ConfLine.Like.digits_eq (hlike : l.Like cur l') (hq : l.q < l.buf.length)
    (hnul : l.buf.char l.q = 0) (hcur : cur ≤ s) (hsi : s ≤ i) (hiq : i < l.q)
    (hdigit : isDigit (l.buf.char i) = true) : l'.digits s = l.digits s := by
  have hfirst : l.buf.scan (fun c => !isDigit c) s ≤ i := scan_le hsi (by simp [hdigit])
  have hge := le_scan l.buf (fun c => !isDigit c) s
  have hlast : l.buf.scan isDigit (l.buf.scan (fun c => !isDigit c) s) ≤ l.q :=
    scan_le (by omega) (by rw [hnul]; exact isDigit_zero)
  have hi : l'.buf.scan (fun c => !isDigit c) s = l.buf.scan (fun c => !isDigit c) s :=
    hlike.agree.scan_eq hq hcur hsi (Nat.le_of_lt hiq) (by simp [hdigit])
  have hj : l'.buf.scan isDigit (l.buf.scan (fun c => !isDigit c) s) =
      l.buf.scan isDigit (l.buf.scan (fun c => !isDigit c) s) :=
    hlike.agree.scan_eq hq (by omega) (show _ ≤ l.q by omega) (Nat.le_refl _)
      (by rw [hnul]; exact isDigit_zero)
  rw [ConfLine.digits, ConfLine.digits, hi, hj]
  exact (hlike.agree.set _ 0).str_eq (by rwa [length_set]) (by omega) (le_scan ..) hlast
    (char_set_self (by omega))

/-- A string that begins in the line. -/
theorem ConfLine.Like.text_eq (hlike : l.Like cur l') (hl : l.Of buf stop cur)
    (h : AtLine buf stop cur) (hcur : cur ≤ s) (hsq : s < l.q) : l'.text s = l.text s := by
  obtain ⟨-, -, hq⟩ := hl.lt_q h
  obtain ⟨hback, hblank⟩ := hl.back h
  have hscan : l'.buf.scan isBlank (s + 1) = l.buf.scan isBlank (s + 1) :=
    hlike.agree.scan_eq hq (by omega) hsq (Nat.le_refl _)
      (by rw [hl.char_q]; exact isBlank_zero)
  have hle : l.buf.scan isBlank (s + 1) ≤ l.q := scan_le hsq (by rw [hl.char_q]; exact isBlank_zero)
  have hge := le_scan l.buf isBlank (s + 1)
  have htextAt : l'.textAt s = l.textAt s := by
    rw [ConfLine.textAt, ConfLine.textAt, hscan, hlike.agree.char_eq _ (by omega) hle]
  have hbackeq : l'.buf.back isBlank (l'.q - 1) = l.buf.back isBlank (l.q - 1) := by
    rw [hlike.q_eq]
    exact hlike.agree.back_eq (Nat.le_refl _) hback (Nat.sub_le ..) hblank
  have hunquoted : l.unquoted.Agree cur l.q l'.unquoted := by
    have hspec := (back_spec hback hblank).1
    have hb := back_le l.buf isBlank (l.q - 1)
    rw [ConfLine.unquoted, ConfLine.unquoted, hbackeq,
      hlike.agree.char_eq _ hspec (Nat.le_trans hb (Nat.sub_le ..))]
    split
    · exact hlike.agree.set _ 0
    · exact hlike.agree
  obtain ⟨hgt, hle⟩ := textAt_le hsq hl.char_q
  rw [ConfLine.text, ConfLine.text, htextAt]
  exact hunquoted.str_eq (by rwa [length_unquoted]) (by omega) hle (Nat.le_refl _)
    (char_unquoted_of_nul hl.char_q)

/-- A line that is held in its own bytes gives the table the same options, whatever is around it. -/
theorem ConfLine.Like.enterIn_eq (hlike : l.Like cur l') (hl : l.Of buf stop cur)
    (h : AtLine buf stop cur) (hl' : l'.Of buf' stop' cur) (h' : AtLine buf' stop' cur)
    (hheld : l.Held t) :
    (l'.enterIn addr t).map Prod.snd = (l.enterIn addr t).map Prod.snd := by
  obtain ⟨hcur, -, hq⟩ := hl.lt_q h
  obtain ⟨-, -, hq'⟩ := hl'.lt_q h'
  rw [ConfLine.enterIn, ConfLine.enterIn, hlike.value_eq, hlike.key_eq]
  cases hvalue : l.value with
  | none => rfl
  | some s =>
    obtain ⟨hcurs, hsq, -⟩ := hl.value s hvalue
    -- the two types of which the value is read
    have hint : ∀ (t : ConfTable) i, s ≤ i → i < l.q → isDigit (l.buf.char i) = true →
        (l'.assignIn addr s t .int).map Prod.snd = (l.assignIn addr s t .int).map Prod.snd := by
      intro t i hsi hiq hdigit
      have hdigit' : isDigit (l'.buf.char i) = true := by
        rw [hlike.agree.char_eq i (by omega) (Nat.le_of_lt hiq)]
        exact hdigit
      rw [assignIn_int hsi hiq hq hdigit (by rw [hl.char_q]; exact isDigit_zero),
        assignIn_int hsi (hlike.q_eq.symm ▸ hiq) hq' hdigit'
          (by rw [hl'.char_q]; exact isDigit_zero),
        hlike.digits_eq hq hl.char_q (by omega) hsi hiq hdigit, hlike.key_eq]
      rfl
    have hstr : ∀ t : ConfTable, s < l.q →
        (l'.assignIn addr s t .str).map Prod.snd = (l.assignIn addr s t .str).map Prod.snd := by
      intro t hsq
      rw [assignIn_str hl h hsq hq hl.char_q,
        assignIn_str hl' h' (hlike.q_eq.symm ▸ hsq) hq' hl'.char_q,
        hlike.text_eq hl h (Nat.le_of_lt hcurs) hsq, hlike.key_eq]
      split
      · rfl
      · rfl
    cases hget : t.get l.key with
    | some o =>
      have hheld := hheld s o hvalue hget
      dsimp only
      cases htype : o.type with
      | int =>
        rw [htype] at hheld
        obtain ⟨i, hsi, hiq, hdigit⟩ := hheld
        exact hint t i hsi hiq hdigit
      | str =>
        rw [htype] at hheld
        exact hstr t hheld.2
      | bool => rfl
    | none =>
      have hzero : isBlankOrEq (l.buf.char l.q) = false := by
        rw [hl.char_q]
        exact isBlankOrEq_zero
      have htype : l'.type = l.type := by
        rw [ConfLine.type, ConfLine.type, hlike.value_eq, hvalue]
        dsimp only
        rw [hlike.agree.scan_eq hq (Nat.le_of_lt hcurs) hsq (Nat.le_refl _) hzero,
          hlike.agree.char_eq _ (Nat.le_trans (Nat.le_of_lt hcurs) (le_scan ..))
            (scan_le hsq hzero)]
      dsimp only
      rw [scanIn_of_le hsq hq hzero, htype,
        scanIn_of_le (hlike.q_eq.symm ▸ hsq) hq' (by rw [hl'.char_q]; exact isBlankOrEq_zero)]
      cases hty : l.type with
      | none => rfl
      | some type =>
        obtain ⟨i, hsi, hiq, ⟨rfl, -⟩ | ⟨rfl, hdigit⟩⟩ := hl.of_type hvalue hty
        · exact hstr _ (Nat.lt_of_le_of_lt hsi hiq)
        · exact hint _ i hsi hiq hdigit

/-- What is held in the line is in the buffer. -/
theorem ConfLine.Held.inside (hheld : l.Held t) (hl : l.Of buf stop cur) (h : AtLine buf stop cur) :
    l.Inside t := by
  obtain ⟨-, -, hq⟩ := hl.lt_q h
  intro s o hvalue hget
  have hheld := hheld s o hvalue hget
  cases htype : o.type with
  | int =>
    rw [htype] at hheld
    obtain ⟨i, hsi, hiq, hdigit⟩ := hheld
    exact ⟨i, l.q, hsi, hiq, hq, hdigit, by rw [hl.char_q]; exact isDigit_zero⟩
  | str =>
    rw [htype] at hheld
    exact ⟨hheld.1, l.q, hheld.2, hq, hl.char_q⟩
  | bool => trivial

/-- The line at `cur` is parsed inside the buffer, and what it gives the table depends on nothing
but the line. -/
def LineConfined (buf : ConfBuf) (stop cur : ℕ) (t : ConfTable) : Prop :=
  ∀ addr, (tcmuParseOption addr stop buf t cur).isSome = true ∧
    ∀ buf' stop', SameLine buf stop cur buf' stop' →
      (tcmuParseOption addr stop' buf' t cur).map (fun x => x.2.1) =
        (tcmuParseOption addr stop buf t cur).map fun x => x.2.1

theorem AtLine.map_parseOption (h : AtLine buf stop cur) :
    (tcmuParseOption addr stop buf t cur).map (fun x => x.2.1) =
      ((parseLine buf stop cur).enterIn addr t).map Prod.snd := by
  rw [h.parseOption_eq, Option.map_map]
  rfl

theorem lineConfined_of_held (h : AtLine buf stop cur) (hheld : (parseLine buf stop cur).Held t) :
    LineConfined buf stop cur t := by
  obtain ⟨-, hof⟩ := h.parse
  refine fun addr => ⟨(tcmuParseOption_isSome_iff h).mpr (hheld.inside hof h),
    fun buf' stop' hs => ?_⟩
  have h' := hs.atLine h
  rw [h.map_parseOption, h'.map_parseOption]
  exact (hs.like h).enterIn_eq hof h h'.parse.2 h' hheld

/-- The same line, followed by other bytes. -/
theorem sameLine_of (h : AtLine buf stop cur) (hlen : buf'.length = buf.length)
    (hstop : stop' < buf'.length) (hnul : buf'.char stop' = 0)
    (hend : stop' = buf.toLineEnd stop cur ∨
      buf.toLineEnd stop cur < stop' ∧ isEol (buf'.char (buf.toLineEnd stop cur)) = true)
    (hchar : ∀ i, i < buf.toLineEnd stop cur → buf'.char i = buf.char i) :
    SameLine buf stop cur buf' stop' := by
  refine ⟨hlen, hstop, hnul, ?_, fun i _ hi => hchar i hi⟩
  refine scanTo_eq (Nat.le_of_lt h.lt_toLineEnd) (by omega) (Nat.le_of_lt hstop) (fun hlt => ?_)
    fun k hk hkq => ?_
  · rcases hend with heq | ⟨-, heol⟩
    · omega
    · simp [heol]
  · rw [hchar k hkq]
    exact of_lt_scanTo hk hkq

/-- The buffer with a line end, a character and the end of the file at `q`. -/
def ConfBuf.followed (buf : ConfBuf) (q : ℕ) (c : UInt8) : ConfBuf :=
  ((buf.set q 10).set (q + 1) c).set (q + 2) 0

section Followed

variable {q : ℕ} {c d : UInt8} {o : ConfOption}

theorem length_followed (buf : ConfBuf) (q : ℕ) (c : UInt8) :
    (buf.followed q c).length = buf.length := by
  rw [ConfBuf.followed, length_set, length_set, length_set]

theorem char_followed (hlt : q + 2 < buf.length) (c : UInt8) :
    (buf.followed q c).char q = 10 ∧ (buf.followed q c).char (q + 1) = c ∧
      (buf.followed q c).char (q + 2) = 0 ∧
        ∀ i, i < q → (buf.followed q c).char i = buf.char i := by
  refine ⟨?_, ?_, ?_, fun i hi => ?_⟩
  · rw [ConfBuf.followed, char_set_of_ne (by omega), char_set_of_ne (by omega),
      char_set_self (by omega)]
  · rw [ConfBuf.followed, char_set_of_ne (by omega), char_set_self (by rw [length_set]; omega)]
  · rw [ConfBuf.followed, char_set_self (by rw [length_set, length_set]; omega)]
  · rw [ConfBuf.followed, char_set_of_ne (by omega), char_set_of_ne (by omega),
      char_set_of_ne (by omega)]

theorem sameLine_followed (h : AtLine buf stop cur)
    (hlt : buf.toLineEnd stop cur + 2 < buf.length) (c : UInt8) :
    SameLine buf stop cur (buf.followed (buf.toLineEnd stop cur) c)
      (buf.toLineEnd stop cur + 2) := by
  obtain ⟨heol, -, hnul, hchar⟩ := char_followed hlt c
  have hlen := length_followed buf (buf.toLineEnd stop cur) c
  exact sameLine_of h hlen (hlen.symm ▸ hlt) hnul (Or.inr ⟨by omega, by rw [heol]; decide⟩) hchar

/-- A known number without a digit is read from the next line. -/
theorem parseOption_followed_int (h : AtLine buf stop cur)
    (hlt : buf.toLineEnd stop cur + 2 < buf.length)
    (hvalue : (parseLine buf stop cur).value = some s)
    (hget : t.get (parseLine buf stop cur).key = some o) (htype : o.type = .int)
    (hnone : ∀ i, s ≤ i → i < buf.toLineEnd stop cur →
      isDigit ((parseLine buf stop cur).buf.char i) = false) (hc : isDigit c = true) :
    (tcmuParseOption addr (buf.toLineEnd stop cur + 2)
        (buf.followed (buf.toLineEnd stop cur) c) t cur).map (fun x => x.2.1) =
      some (t.modify (parseLine buf stop cur).key (ConfOption.setInt (atoi [c]))) := by
  have hs := sameLine_followed h hlt c
  have h' := hs.atLine h
  have hlike := hs.like h
  have hof := h'.parse.2
  have hq := h.parse.2.q_eq
  obtain ⟨hcurs, hsq, -⟩ := h.parse.2.value s hvalue
  set l := parseLine buf stop cur with hl
  set l' := parseLine (buf.followed (buf.toLineEnd stop cur) c) (buf.toLineEnd stop cur + 2) cur
  have hq' : l'.q = buf.toLineEnd stop cur := hlike.q_eq.trans hq
  obtain ⟨-, hchar, hnul, -⟩ := char_followed hlt c
  have hat : l'.buf.char (buf.toLineEnd stop cur + 1) = c := by
    rw [hof.char_after _ (by omega), hchar]
  have hbehind : l'.buf.char (buf.toLineEnd stop cur + 2) = 0 := by
    rw [hof.char_after _ (by omega), hnul]
  have hlen : l'.buf.length = buf.length := by rw [hof.length_eq, length_followed]
  have hfirst : l'.buf.scan (fun c => !isDigit c) s = buf.toLineEnd stop cur + 1 := by
    refine scan_eq (by omega) (by omega) (by rw [hat]; simp [hc]) fun k hsk hk => ?_
    rcases Nat.lt_or_ge k (buf.toLineEnd stop cur) with hkq | hkq
    · rw [hlike.agree.char_eq k (by omega) (by omega), hnone k hsk hkq]
      rfl
    · rw [show k = l'.q by omega, hof.char_q]
      rfl
  have hlast : l'.buf.scan isDigit (buf.toLineEnd stop cur + 1) = buf.toLineEnd stop cur + 2 := by
    refine scan_eq (by omega) (by omega) (by rw [hbehind]; rfl) fun k hqk hk => ?_
    rw [show k = buf.toLineEnd stop cur + 1 by omega, hat]
    exact hc
  have hdigits : l'.digits s = [c] := by
    have hset : ConfBuf.char (l'.buf.set (buf.toLineEnd stop cur + 2) 0)
        (buf.toLineEnd stop cur + 1) = c := by rw [char_set_of_ne (by omega), hat]
    have hstr : ConfBuf.str (l'.buf.set (buf.toLineEnd stop cur + 2) 0)
        (buf.toLineEnd stop cur + 1) = [c] := by
      have hne : c ≠ 0 := by
        rintro rfl
        exact absurd hc (by decide)
      rw [str_singleton (by rw [length_set, hlen]; omega) (hset.symm ▸ hne)
        (char_set_self (by rw [hlen]; omega)), hset]
    rw [ConfLine.digits, hfirst, hlast]
    exact hstr
  have hassign : (l'.assignIn addr s t .int).map Prod.snd =
      some (t.modify l'.key (ConfOption.setInt (atoi (l'.digits s)))) := by
    rw [assignIn_int (show s ≤ buf.toLineEnd stop cur + 1 by omega) (Nat.lt_succ_self _)
      (show buf.toLineEnd stop cur + 2 < l'.buf.length by omega) (by rw [hat]; exact hc)
      (by rw [hbehind]; rfl)]
    rfl
  rw [h'.map_parseOption, ConfLine.enterIn, hlike.value_eq, hlike.key_eq, hvalue, hget]
  dsimp only
  rw [htype, hassign, hdigits, hlike.key_eq]

/-- A known string with nothing behind its `=` is read from the next line. -/
theorem parseOption_followed_str (h : AtLine buf stop cur)
    (hlt : buf.toLineEnd stop cur + 2 < buf.length)
    (hvalue : (parseLine buf stop cur).value = some (buf.toLineEnd stop cur))
    (hget : t.get (parseLine buf stop cur).key = some o) (htype : o.type = .str)
    (hdangling : o.dangling = false) (hc : isAlpha c = true) :
    (tcmuParseOption addr (buf.toLineEnd stop cur + 2)
        (buf.followed (buf.toLineEnd stop cur) c) t cur).map (fun x => x.2.1) =
      some (t.modify (parseLine buf stop cur).key (ConfOption.setStr addr [c])) := by
  have hs := sameLine_followed h hlt c
  have h' := hs.atLine h
  have hlike := hs.like h
  have hof := h'.parse.2
  have hq := h.parse.2.q_eq
  set l := parseLine buf stop cur with hl
  set l' := parseLine (buf.followed (buf.toLineEnd stop cur) c) (buf.toLineEnd stop cur + 2) cur
  have hq' : l'.q = buf.toLineEnd stop cur := hlike.q_eq.trans hq
  obtain ⟨-, hchar, hnul, -⟩ := char_followed hlt c
  have hat : l'.buf.char (buf.toLineEnd stop cur + 1) = c := by
    rw [hof.char_after _ (by omega), hchar]
  have hbehind : l'.buf.char (buf.toLineEnd stop cur + 2) = 0 := by
    rw [hof.char_after _ (by omega), hnul]
  have hlen : l'.buf.length = buf.length := by rw [hof.length_eq, length_followed]
  have hblank : isBlank (l'.buf.char (buf.toLineEnd stop cur + 1)) = false := by
    rw [hat]
    exact not_isBlank_of_isPlain (isPlain_of_isAlpha hc)
  have hquote : ¬ isQuote c = true := by
    simp only [isAlpha, isQuote, decide_eq_true_eq] at hc ⊢
    rintro (rfl | rfl)
    · exact absurd hc (by decide)
    · exact absurd hc (by decide)
  have htextAt : l'.textAt (buf.toLineEnd stop cur) = buf.toLineEnd stop cur + 1 := by
    rw [ConfLine.textAt, scan_self hblank, if_neg (by rw [hat]; exact hquote)]
  have hunquoted : l'.unquoted.char (buf.toLineEnd stop cur + 1) = c := by
    have hback := back_le l'.buf isBlank (l'.q - 1)
    rcases char_unquoted l' (buf.toLineEnd stop cur + 1) with heq | ⟨heq, -⟩
    · rw [heq, hat]
    · omega
  have htext : l'.text (buf.toLineEnd stop cur) = [c] := by
    rw [ConfLine.text, htextAt,
      str_singleton (by rw [length_unquoted]; omega)
        (by rw [hunquoted]; rintro rfl; exact absurd hc (by decide))
        (char_unquoted_of_nul hbehind), hunquoted]
  rw [h'.map_parseOption, ConfLine.enterIn, hlike.value_eq, hlike.key_eq, hvalue, hget]
  dsimp only
  rw [htype, assignIn_str hof h' (show buf.toLineEnd stop cur < buf.toLineEnd stop cur + 2 by omega)
    (by omega) hbehind, htext, hlike.key_eq, hget, Option.any_some, if_neg (by simp [hdangling])]
  rfl

/-- In a line that is confined to its own bytes a known number has a digit. -/
theorem digit_of_lineConfined (h : AtLine buf stop cur) (hconf : LineConfined buf stop cur t)
    (hvalue : (parseLine buf stop cur).value = some s)
    (hget : t.get (parseLine buf stop cur).key = some o) (htype : o.type = .int) :
    ∃ i, s ≤ i ∧ i < (parseLine buf stop cur).q ∧
      isDigit ((parseLine buf stop cur).buf.char i) = true := by
  have hof := h.parse.2
  have hq := hof.q_eq
  have hlen := hof.length_eq
  have hinside := (tcmuParseOption_isSome_iff h).mp (hconf 1).1 s o hvalue hget
  rw [htype] at hinside
  obtain ⟨i, j, hsi, hij, hj, hdigit, -⟩ := hinside
  by_contra hnot
  have hnone : ∀ i, s ≤ i → i < buf.toLineEnd stop cur →
      isDigit ((parseLine buf stop cur).buf.char i) = false := by
    intro i hsi hiq
    by_contra hdigit
    exact hnot ⟨i, hsi, hq.symm ▸ hiq, by simpa using hdigit⟩
  -- the digit that the scan finds is behind the line, so there is room for another one
  have hiq : i ≠ buf.toLineEnd stop cur := by
    rintro rfl
    rw [← hq, hof.char_q] at hdigit
    exact absurd hdigit (by decide)
  have hqi : buf.toLineEnd stop cur < i := by
    by_contra hle
    rw [hnone i hsi (by omega)] at hdigit
    exact absurd hdigit (by simp)
  have hlt : buf.toLineEnd stop cur + 2 < buf.length := by omega
  have hsame := fun c => (hconf 1).2 _ _ (sameLine_followed h hlt c)
  have htables := (hsame 48).trans (hsame 49).symm
  rw [parseOption_followed_int h hlt hvalue hget htype hnone (by decide),
    parseOption_followed_int h hlt hvalue hget htype hnone (by decide)] at htables
  have hints := congrArg ConfOption.optInt (eq_of_modify_eq (f := ConfOption.setInt _)
    (g := ConfOption.setInt _) (fun _ => rfl) (fun _ => rfl) hget (Option.some.inj htables))
  rw [optInt_setInt, optInt_setInt] at hints
  exact absurd hints (by decide)

/-- With room behind it, a line with a known string and nothing behind the `=` is not confined to
its own bytes. -/
theorem not_lineConfined_of_room (h : AtLine buf stop cur)
    (hlt : buf.toLineEnd stop cur + 2 < buf.length)
    (hvalue : (parseLine buf stop cur).value = some (buf.toLineEnd stop cur))
    (hget : t.get (parseLine buf stop cur).key = some o) (htype : o.type = .str)
    (hdangling : o.dangling = false) : ¬ LineConfined buf stop cur t := by
  intro hconf
  have hsame := fun c => (hconf 1).2 _ _ (sameLine_followed h hlt c)
  have htables := (hsame 97).trans (hsame 98).symm
  rw [parseOption_followed_str h hlt hvalue hget htype hdangling (by decide),
    parseOption_followed_str h hlt hvalue hget htype hdangling (by decide)] at htables
  have htexts := congrArg ConfOption.text (eq_of_modify_eq (f := ConfOption.setStr _ _)
    (g := ConfOption.setStr _ _) (fun _ => rfl) (fun _ => rfl) hget (Option.some.inj htables))
  exact absurd htexts (by simp [ConfOption.setStr])

/-- Nor is it when only the last byte of the buffer is behind it, which need not be a `NUL`. -/
theorem not_lineConfined_of_last (h : AtLine buf stop cur)
    (hlast : buf.toLineEnd stop cur + 2 = buf.length)
    (hvalue : (parseLine buf stop cur).value = some (buf.toLineEnd stop cur))
    (hget : t.get (parseLine buf stop cur).key = some o) (htype : o.type = .str) :
    ¬ LineConfined buf stop cur t := by
  intro hconf
  obtain ⟨buf', hbuf'⟩ : ∃ buf' : ConfBuf,
    (buf.set (buf.toLineEnd stop cur) 0).set (buf.toLineEnd stop cur + 1) 97 = buf' := ⟨_, rfl⟩
  have hlen' : buf'.length = buf.length := by rw [← hbuf', length_set, length_set]
  have hzero : buf'.char (buf.toLineEnd stop cur) = 0 := by
    rw [← hbuf', char_set_of_ne (by omega), char_set_self (by omega)]
  have hsame : SameLine buf stop cur buf' (buf.toLineEnd stop cur) := by
    refine sameLine_of h hlen' (by omega) hzero (Or.inl rfl) fun i hi => ?_
    rw [← hbuf', char_set_of_ne (by omega), char_set_of_ne (by omega)]
  have h' := hsame.atLine h
  have hlike := hsame.like h
  have hsome := congrArg Option.isSome ((hconf 1).2 _ _ hsame)
  rw [Option.isSome_map, Option.isSome_map, (hconf 1).1] at hsome
  have hinside := (tcmuParseOption_isSome_iff h').mp hsome (buf.toLineEnd stop cur) o
    (hlike.value_eq.trans hvalue) (by rw [hlike.key_eq]; exact hget)
  rw [htype] at hinside
  obtain ⟨-, k, hk, hkl, hnul⟩ := hinside
  rw [h'.parse.2.length_eq] at hkl
  have hq' := hlike.q_eq.trans h.parse.2.q_eq
  rw [h'.parse.2.char_after k (by omega), show k = buf.toLineEnd stop cur + 1 by omega,
    ← hbuf', char_set_self (by rw [length_set]; omega)] at hnul
  exact absurd hnul (by decide)

/-- A line that is not held in its own bytes is not confined to them. -/
theorem held_of_lineConfined (h : AtLine buf stop cur) (hconf : LineConfined buf stop cur t) :
    (parseLine buf stop cur).Held t := by
  have hof := h.parse.2
  have hq := hof.q_eq
  have hlen := hof.length_eq
  intro s o hvalue hget
  cases htype : o.type with
  | int => exact digit_of_lineConfined h hconf hvalue hget htype
  | str =>
    have hinside := (tcmuParseOption_isSome_iff h).mp (hconf 1).1 s o hvalue hget
    rw [htype] at hinside
    obtain ⟨hdangling, k, hsk, hk, -⟩ := hinside
    obtain ⟨-, hsq, -⟩ := hof.value s hvalue
    refine ⟨hdangling, Nat.lt_of_le_of_ne hsq fun hs => ?_⟩
    obtain rfl := hs.trans hq
    rcases Nat.lt_or_ge (buf.toLineEnd stop cur + 2) buf.length with hlt | hge
    · exact not_lineConfined_of_room h hlt hvalue hget htype hdangling hconf
    · exact not_lineConfined_of_last h (by omega) hvalue hget htype hconf
  | bool => trivial

end Followed

/-- **One line.** It is confined to its own bytes if and only if a number that the table knows has
a digit behind the `=`, and a string that it knows has a character there, and its old value is one
that can be freed. -/
theorem lineConfined_iff (h : AtLine buf stop cur) :
    LineConfined buf stop cur t ↔ (parseLine buf stop cur).Held t :=
  ⟨held_of_lineConfined h, lineConfined_of_held h⟩

end Same

/-! ### Main result -/

/-- The option `log_dir_path` has a string that `strdup` has returned, if the table knows it. -/
def ConfTable.PathIsText (t : ConfTable) : Prop :=
  ∀ o, t.get logDirPathKey = some o → o.text.isSome = true

/-- **Behind the loop.** The options are taken from the table if and only if it is a reload, or the
directory of the log is a string. -/
theorem setOptions_isSome_iff (cfg : ConfSys) (reloading : Bool) :
    (cfg.setOptions reloading).isSome = true ↔ (reloading = false → cfg.options.PathIsText) := by
  cases reloading with
  | true => exact iff_of_true rfl fun h => absurd h (by simp)
  | false =>
    have hget : cfg.setLogLevel.options.get logDirPathKey = cfg.options.get logDirPathKey := by
      have hne : logDirPathKey ≠ logLevelKey := by decide
      have hlevel : ∀ s : ConfSys, (if s.logLevel ≠ 0 then
          { s with level := tcmuSetLogLevel s.logLevel } else s).options = s.options :=
        fun s => (apply_ite ConfSys.options _ _ _).trans (ite_self _)
      rw [ConfSys.setLogLevel, hlevel]
      cases cfg.options.get logLevelKey with
      | none => rfl
      | some o => exact get_modify_of_ne (f := ConfOption.setInt 3) (fun _ => rfl) hne
    rw [ConfSys.setOptions, if_neg (by simp), ConfSys.setLogDirPath, hget, ConfTable.PathIsText]
    cases hpath : cfg.options.get logDirPathKey with
    | none => simp
    | some o => simp

/-- Loading the file touches only the buffer, every line that the loop comes to is confined to its
own bytes, and behind the loop a string is copied only where there is one. -/
structure ConfLoad.Confined (ld : ConfLoad) (reloading : Bool) : Prop where
  /-- `buf[len]` is in the buffer. -/
  room : ∃ s, ld.start = some s
  /-- The lines. -/
  lines : ∀ s, ld.Reaches s → ¬ s.Left ld.file.length →
    isAlpha (s.buf.char (s.buf.nextLine ld.file.length s.cur)) = true →
    LineConfined s.buf ld.file.length (s.buf.nextLine ld.file.length s.cur) s.options
  /-- `tcmu_conf_set_options`. -/
  options : ∀ s, ld.Reaches s → s.Left ld.file.length → ∀ cfg : ConfSys,
    cfg.options = s.options → (cfg.setOptions reloading).isSome = true

/-- **Loading is confined** if and only if there is room for the `NUL` behind the file, every line
that the loop comes to holds the value of an option that the table knows, and at the first load
`log_dir_path`, if the loop leaves it in the table, is a string. -/
theorem load_confined_iff (ld : ConfLoad) (reloading : Bool) :
    ld.Confined reloading ↔ ld.file.length < tcmuMaxCfgFileSize ∧
      (∀ s, ld.Reaches s → ¬ s.Left ld.file.length →
        isAlpha (s.buf.char (s.buf.nextLine ld.file.length s.cur)) = true →
        (s.line ld.file.length).Held s.options) ∧
      ∀ s, ld.Reaches s → s.Left ld.file.length → reloading = false → s.options.PathIsText := by
  constructor
  · rintro ⟨hroom, hlines, hoptions⟩
    refine ⟨start_eq_some_iff.mp hroom, fun s hs hleft halpha => ?_, fun s hs hleft => ?_⟩
    · exact (lineConfined_iff (hs.sound.atLine hleft halpha)).mp (hlines s hs hleft halpha)
    · exact (setOptions_isSome_iff ⟨s.options, 0, none, 0⟩ reloading).mp (hoptions s hs hleft _ rfl)
  · rintro ⟨hlt, hheld, hpath⟩
    refine ⟨start_eq_some_iff.mpr hlt, fun s hs hleft halpha => ?_, fun s hs hleft cfg hcfg => ?_⟩
    · exact (lineConfined_iff (hs.sound.atLine hleft halpha)).mpr (hheld s hs hleft halpha)
    · rw [setOptions_isSome_iff, hcfg]
      exact hpath s hs hleft

theorem length_zeros_file :
    (List.replicate tcmuMaxCfgFileSize (0 : UInt8)).length = tcmuMaxCfgFileSize :=
  List.length_replicate

/-- A number without a digit, for an option that the table knows, and a second line. -/
def emptyNumber : ConfLoad :=
  { mem := List.replicate tcmuMaxCfgFileSize 0
    -- `a =`, and `b = 7`
    file := [97, 32, 61, 10, 98, 32, 61, 32, 55, 10]
    options := [⟨[97], .int, 5, none⟩]
    addr := fun _ => 4096
    length_mem := length_zeros_file
    length_file := Nat.le_of_ble_eq_true rfl }

/-- The buffer that it is read into. -/
def emptyNumber.buf : ConfBuf := (emptyNumber.file ++ emptyNumber.mem.drop 10).set 10 0

/-- The first line gets the number of the second. -/
theorem value_from_next_line : ¬ emptyNumber.Confined true ∧
    ((parseLine (emptyNumber.file ++ [0]) 10 0).enter 4096 emptyNumber.options).map
      (fun x => (x.2.get [97]).map ConfOption.optInt) = some (some 7) := by
  refine ⟨fun h => ?_, by decide +kernel⟩
  have hstart : emptyNumber.start = some ⟨emptyNumber.buf, emptyNumber.options, 0⟩ := by
    have hlt : 10 < (emptyNumber.file ++ emptyNumber.mem.drop 10).length := by
      rw [List.length_append, List.length_drop, emptyNumber.length_mem]
      decide
    exact congrArg (Option.map _) (setIn_of_lt hlt)
  have hreaches : emptyNumber.Reaches ⟨emptyNumber.buf, emptyNumber.options, 0⟩ :=
    ⟨_, [], hstart, rfl⟩
  obtain ⟨hnext, halpha, hvalue, hkey, hq⟩ : emptyNumber.buf.nextLine 10 0 = 0 ∧
      isAlpha (emptyNumber.buf.char 0) = true ∧
      (parseLine emptyNumber.buf 10 0).value = some 3 ∧
      (parseLine emptyNumber.buf 10 0).key = [97] ∧ (parseLine emptyNumber.buf 10 0).q = 3 := by
    decide +kernel
  have hleft : ¬ ConfPos.Left 10 ⟨emptyNumber.buf, emptyNumber.options, 0⟩ := by
    rintro (hle | hle)
    · exact absurd hle (by decide)
    · rw [hnext] at hle
      exact absurd hle (by decide)
  have hconf := h.lines _ hreaches hleft
  dsimp only at hconf
  rw [show emptyNumber.file.length = 10 from rfl, hnext] at hconf
  have hat : AtLine emptyNumber.buf 10 0 :=
    ⟨hreaches.sound.stop_lt, hreaches.sound.char_stop, by decide, isPlain_of_isAlpha halpha⟩
  have hheld := held_of_lineConfined hat (hconf halpha) 3 ⟨[97], .int, 5, none⟩ hvalue
    (by rw [hkey]; rfl)
  obtain ⟨i, hle, hlt, -⟩ := hheld
  omega

end Tcmu

end LioProject
