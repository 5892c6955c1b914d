import LioProject.Tcmu.ConfigLine

/-!
# The loop of the configuration parser

A turn of the loop of `tcmu_parse_options` skips blank lines and comments and parses one line, and
goes on behind it. At a character that begins none of these it does `continue`, and if nothing has
been skipped it is where it was: the loop goes on for ever (`config_stuck`).

`config_ends_iff` says for which files the loop comes to its end: every turn begins at a letter, a
blank, a line end or a `#`, and the lines are parsed inside the buffer.
-/

namespace LioProject

namespace Tcmu

/-! ### Turns -/

/-- The variables of the loop, and the table. -/
structure ConfPos where
  /-- `buf`. -/
  buf : ConfBuf
  /-- `tcmu_options`. -/
  options : ConfTable
  /-- `cur`. -/
  cur : ℕ

/-- The loop is left, by its condition or by the `break`. -/
def ConfPos.Left (stop : ℕ) (s : ConfPos) : Prop :=
  stop ≤ s.cur ∨ stop ≤ s.buf.nextLine stop s.cur

instance (stop : ℕ) (s : ConfPos) : Decidable (s.Left stop) :=
  inferInstanceAs (Decidable (_ ∨ _))

/-- The line that is parsed in this turn. -/
def ConfPos.line (stop : ℕ) (s : ConfPos) : ConfLine :=
  parseLine s.buf stop (s.buf.nextLine stop s.cur)

/-- A turn of the loop of `tcmu_parse_options` that does not leave it. `addr q` is what `strdup`
returns for the line that ends at `q`. -/
def ConfPos.turn (addr : ℕ → ℕ) (stop : ℕ) (s : ConfPos) : Unit → Option ConfPos
  | () =>
    if s.Left stop then none
    else
      let cur := s.buf.nextLine stop s.cur
      -- `continue`
      if !isAlpha (s.buf.char cur) then some { s with cur := cur }
      else (tcmuParseOption (addr (s.line stop).q) stop s.buf s.options cur).map fun x =>
        ⟨x.1, x.2.1, x.2.2⟩

/-- A call of `tcmu_load_config`. -/
structure ConfLoad where
  /-- What `malloc` has returned. -/
  mem : ConfBuf
  /-- What `read` returns. -/
  file : List UInt8
  /-- `tcmu_options`. -/
  options : ConfTable
  /-- What `strdup` returns. -/
  addr : ℕ → ℕ
  /-- The size of the buffer. -/
  length_mem : mem.length = tcmuMaxCfgFileSize
  /-- No more than that is read. -/
  length_file : file.length ≤ tcmuMaxCfgFileSize

/-- Reading the file, and `buf[len] = 0`. -/
def ConfLoad.start (ld : ConfLoad) : Option ConfPos :=
  (ConfBuf.setIn (ld.file ++ ld.mem.drop ld.file.length) ld.file.length 0).map fun buf =>
    ⟨buf, ld.options, 0⟩

/-- A turn of the loop for this file. -/
def ConfLoad.turn (ld : ConfLoad) : ConfPos → Unit → Option ConfPos :=
  ConfPos.turn ld.addr ld.file.length

/-- The loop stands at `s` after some turns. -/
def ConfLoad.Reaches (ld : ConfLoad) (s : ConfPos) : Prop :=
  ∃ s₀ us, ld.start = some s₀ ∧ run ld.turn s₀ us = some s

/-- The loop comes to its end, and every turn leaves it or goes on in the buffer. -/
structure ConfLoad.Ends (ld : ConfLoad) : Prop where
  /-- The loop is left. -/
  ends : ∃ s, ld.Reaches s ∧ s.Left ld.file.length
  /-- The turns. -/
  advances : ∀ s, ld.Reaches s →
    s.Left ld.file.length ∨ ∃ s', ld.turn s () = some s' ∧ s.cur < s'.cur

/-- A character at which a turn may begin. -/
def Begins (c : UInt8) : Bool := isAlpha c ∨ isBlank c ∨ isEol c ∨ c = 35

/-! ### What a turn keeps -/

section Turns

variable {buf : ConfBuf} {l : ConfLine} {t : ConfTable} {x : ConfBuf × ConfTable}
  {s s' : ConfPos} {addr : ℕ → ℕ} {stop cur k : ℕ} {ld : ConfLoad}

/-- The `NUL` behind the file is in the buffer. -/
structure ConfPos.Sound (stop : ℕ) (s : ConfPos) : Prop where
  /-- There is room for it. -/
  stop_lt : stop < s.buf.length
  /-- It has been written. -/
  char_stop : s.buf.char stop = 0

theorem char_set_nul (h : buf.char k = 0) (i : ℕ) : ConfBuf.char (buf.set i 0) k = 0 := by
  by_cases hk : k = i
  · rcases Nat.lt_or_ge k buf.length with hlt | hge
    · rw [← hk, char_set_self hlt]
    · exact char_of_le (by rwa [length_set])
  · rw [char_set_of_ne hk, h]

/-- Nothing but a `NUL` is written into the buffer. -/
theorem enterIn_buf {a : ℕ} (h : l.enterIn a t = some x) :
    x.1.length = l.buf.length ∧ ∀ k, l.buf.char k = 0 → x.1.char k = 0 := by
  have hassign : ∀ {s : ℕ} {t : ConfTable} {type : OptType}, l.assignIn a s t type = some x →
      x.1.length = l.buf.length ∧ ∀ k, l.buf.char k = 0 → x.1.char k = 0 := by
    intro s t type h
    have h := assignIn_eq_some h
    cases type with
    | int =>
      rw [ConfLine.assign] at h
      dsimp only at h
      split at h
      · exact absurd h (by simp)
      · obtain rfl := Option.some.inj h
        exact ⟨length_set .., fun k hk => char_set_nul hk _⟩
    | str =>
      rw [ConfLine.assign] at h
      dsimp only at h
      split at h
      · exact absurd h (by simp)
      · split at h
        · exact absurd h (by simp)
        · obtain rfl := Option.some.inj h
          exact ⟨length_unquoted l, fun k hk => char_unquoted_of_nul hk⟩
    | bool =>
      obtain rfl := Option.some.inj h
      exact ⟨rfl, fun k hk => hk⟩
  rw [ConfLine.enterIn] at h
  cases hvalue : l.value with
  | none =>
    rw [hvalue] at h
    obtain rfl := Option.some.inj h
    exact ⟨rfl, fun k hk => hk⟩
  | some s =>
    rw [hvalue] at h
    cases hget : t.get l.key with
    | some o =>
      simp only [hget] at h
      exact hassign h
    | none =>
      simp only [hget] at h
      obtain ⟨r, -, h⟩ := Option.bind_eq_some_iff.mp h
      cases htype : l.type with
      | none =>
        rw [htype] at h
        obtain rfl := Option.some.inj h
        exact ⟨rfl, fun k hk => hk⟩
      | some type =>
        rw [htype] at h
        exact hassign h

theorem ConfPos.Sound.atLine (hs : s.Sound stop) (hleft : ¬ s.Left stop)
    (halpha : isAlpha (s.buf.char (s.buf.nextLine stop s.cur)) = true) :
    AtLine s.buf stop (s.buf.nextLine stop s.cur) :=
  ⟨hs.stop_lt, hs.char_stop, Nat.lt_of_not_le fun hle => hleft (Or.inr hle),
    isPlain_of_isAlpha halpha⟩

/-- A turn that parses a line. -/
theorem turn_of_isAlpha (hleft : ¬ s.Left stop)
    (halpha : isAlpha (s.buf.char (s.buf.nextLine stop s.cur)) = true) :
    s.turn addr stop () =
      (tcmuParseOption (addr (s.line stop).q) stop s.buf s.options
        (s.buf.nextLine stop s.cur)).map fun x => ⟨x.1, x.2.1, x.2.2⟩ := by
  rw [ConfPos.turn, if_neg hleft]
  dsimp only
  rw [if_neg (by simp [halpha])]

/-- A turn that does not. -/
theorem turn_of_not_isAlpha (hleft : ¬ s.Left stop)
    (halpha : isAlpha (s.buf.char (s.buf.nextLine stop s.cur)) = false) :
    s.turn addr stop () = some { s with cur := s.buf.nextLine stop s.cur } := by
  rw [ConfPos.turn, if_neg hleft]
  dsimp only
  rw [if_pos (by simp [halpha])]

theorem not_left_of_turn (h : s.turn addr stop () = some s') : ¬ s.Left stop := by
  intro hleft
  rw [ConfPos.turn, if_pos hleft] at h
  exact absurd h (by simp)

/-- A turn that parses a line goes on behind it. -/
theorem cur_of_turn (hs : s.Sound stop)
    (halpha : isAlpha (s.buf.char (s.buf.nextLine stop s.cur)) = true)
    (h : s.turn addr stop () = some s') :
    s'.Sound stop ∧ s'.cur = (s.line stop).q + 1 ∧ s.buf.nextLine stop s.cur < (s.line stop).q := by
  have hleft := not_left_of_turn h
  have hat := hs.atLine hleft halpha
  obtain ⟨hparse, hof⟩ := hat.parse
  rw [turn_of_isAlpha hleft halpha, hat.parseOption_eq, Option.map_map] at h
  obtain ⟨x, hx, rfl⟩ := Option.map_eq_some_iff.mp h
  obtain ⟨hlen, hnul⟩ := enterIn_buf hx
  refine ⟨⟨?_, hnul stop ?_⟩, rfl, (hof.lt_q hat).1⟩
  · show stop < x.1.length
    rw [hlen, hof.length_eq]
    exact hs.stop_lt
  · rcases Nat.lt_or_eq_of_le (hof.lt_q hat).2.1 with hlt | heq
    · rw [hof.char_after stop hlt, hs.char_stop]
    · have hq := hof.char_q
      rwa [heq] at hq

theorem ConfPos.Sound.turn (hs : s.Sound stop) (h : s.turn addr stop () = some s') :
    s'.Sound stop := by
  cases halpha : isAlpha (s.buf.char (s.buf.nextLine stop s.cur)) with
  | false =>
    rw [turn_of_not_isAlpha (not_left_of_turn h) halpha] at h
    obtain rfl := Option.some.inj h
    exact ⟨hs.stop_lt, hs.char_stop⟩
  | true => exact (cur_of_turn hs halpha h).1

/-- There must be room for the `NUL`. -/
theorem start_eq_some_iff :
    (∃ s, ld.start = some s) ↔ ld.file.length < tcmuMaxCfgFileSize := by
  have hlen : (ld.file ++ ld.mem.drop ld.file.length).length = tcmuMaxCfgFileSize := by
    rw [List.length_append, List.length_drop, ld.length_mem]
    have := ld.length_file
    omega
  rw [ConfLoad.start, ConfBuf.setIn, hlen]
  split
  · rename_i hlt
    exact iff_of_true ⟨_, rfl⟩ hlt
  · rename_i hge
    refine iff_of_false ?_ hge
    rintro ⟨s, hs⟩
    exact absurd hs (by simp)

theorem sound_of_start (h : ld.start = some s) :
    s.Sound ld.file.length ∧ s.buf.length = tcmuMaxCfgFileSize := by
  obtain ⟨buf, hbuf, rfl⟩ := Option.map_eq_some_iff.mp h
  obtain ⟨hlt, rfl⟩ := setIn_eq_some.mp hbuf
  refine ⟨⟨?_, char_set_self hlt⟩, ?_⟩
  · rw [length_set]
    exact hlt
  · have := ld.length_file
    rw [length_set, List.length_append, List.length_drop, ld.length_mem]
    omega

theorem ConfLoad.Reaches.sound (h : ld.Reaches s) : s.Sound ld.file.length := by
  obtain ⟨s₀, us, hstart, hrun⟩ := h
  exact run_invariant (fun s u s' hs hturn => ConfPos.Sound.turn hs hturn)
    (sound_of_start hstart).1 hrun

theorem ConfLoad.Reaches.turn (h : ld.Reaches s) (hturn : ld.turn s () = some s') :
    ld.Reaches s' := by
  obtain ⟨s₀, us, hstart, hrun⟩ := h
  exact ⟨s₀, us ++ [()], hstart, run_concat.mpr ⟨s, hrun, hturn⟩⟩

/-- The turns are those of `parseOptions`. -/
theorem parseOptions_of_run {us : List Unit} (hrun : run (ConfPos.turn addr stop) s us = some s')
    (hleft : s'.Left stop) :
    parseOptions addr stop (us.length + 1) s.buf s.options s.cur = some s'.options := by
  induction us generalizing s with
  | nil =>
    obtain rfl := Option.some.inj hrun
    rw [List.length_nil, parseOptions_succ_eq]
    split
    · rfl
    · rename_i hcur
      rw [if_pos (hleft.resolve_left hcur)]
  | cons u us ih =>
    rw [run_cons, Option.bind_eq_some_iff] at hrun
    obtain ⟨r, hr, hrun⟩ := hrun
    have hnot := not_left_of_turn hr
    rw [List.length_cons, parseOptions_succ_eq, if_neg fun h => hnot (Or.inl h),
      if_neg fun h => hnot (Or.inr h)]
    cases halpha : isAlpha (s.buf.char (s.buf.nextLine stop s.cur)) with
    | false =>
      rw [turn_of_not_isAlpha hnot halpha] at hr
      obtain rfl := Option.some.inj hr
      rw [if_pos (show (!false) = true from rfl)]
      exact ih hrun
    | true =>
      rw [turn_of_isAlpha hnot halpha] at hr
      obtain ⟨⟨b, u, i⟩, hx, rfl⟩ := Option.map_eq_some_iff.mp hr
      obtain ⟨henter, rfl⟩ := tcmuParseOption_eq_some hx
      rw [if_neg (by simp)]
      change ((parseLine _ _ _).enter (addr (parseLine _ _ _).q) _).bind _ = _
      rw [show (s.line stop).q = (parseLine s.buf stop (s.buf.nextLine stop s.cur)).q from rfl]
        at henter
      rw [henter, Option.bind_some]
      exact ih hrun

/-! ### Going on -/

theorem skipCommentLines_self (h : buf.char cur ≠ 35) (n : ℕ) :
    buf.skipCommentLines stop n cur = cur := by
  cases n with
  | zero => rfl
  | succ n => rw [ConfBuf.skipCommentLines, if_neg fun hc => h hc.2]

/-- Where nothing is skipped. -/
theorem nextLine_eq_self (hstop : stop ≤ buf.length) (hcur : cur < stop)
    (h : Begins (buf.char cur) = false ∨ isAlpha (buf.char cur) = true) :
    buf.nextLine stop cur = cur := by
  have hblank : isBlank (buf.char cur) = false ∧ isEol (buf.char cur) = false ∧
      buf.char cur ≠ 35 := by
    rcases h with h | h
    · simp only [Begins, decide_eq_false_iff_not, not_or] at h
      exact ⟨by simpa using h.2.1, by simpa using h.2.2.1, h.2.2.2⟩
    · refine ⟨not_isBlank_of_isPlain (isPlain_of_isAlpha h),
        not_isEol_of_isPlain (isPlain_of_isAlpha h), fun hc => ?_⟩
      rw [hc] at h
      exact absurd h (by decide)
  have hskip : buf.skipBlankLines stop cur = cur :=
    scanTo_eq (Nat.le_refl _) (Nat.le_of_lt hcur) hstop (fun _ => by simp [hblank])
      fun k hk hk' => absurd hk' (Nat.not_lt.mpr hk)
  rw [ConfBuf.nextLine, hskip, skipCommentLines_self hblank.2.2]

/-- Where something is. -/
theorem lt_nextLine (hstop : stop ≤ buf.length) (hcur : cur < stop)
    (h : Begins (buf.char cur) = true) (halpha : isAlpha (buf.char cur) = false) :
    cur < buf.nextLine stop cur := by
  by_cases hhash : buf.char cur = 35
  · have hskip : buf.skipBlankLines stop cur = cur :=
      scanTo_eq (Nat.le_refl _) (Nat.le_of_lt hcur) hstop (fun _ => by rw [hhash]; decide)
        fun k hk hk' => absurd hk' (Nat.not_lt.mpr hk)
    obtain ⟨n, hn⟩ := Nat.exists_eq_add_of_lt (Nat.zero_lt_of_lt hcur)
    rw [ConfBuf.nextLine, hskip, show stop = n + 1 by omega, ConfBuf.skipCommentLines,
      if_pos ⟨by omega, hhash⟩]
    exact Nat.lt_of_lt_of_le (Nat.lt_succ_of_le (le_toLineEnd ..)) (le_skipCommentLines ..)
  · have hpass : (isBlank (buf.char cur) || isEol (buf.char cur)) = true := by
      simp only [Begins, decide_eq_true_eq, halpha] at h
      simpa [hhash] using h
    refine Nat.lt_of_lt_of_le (Nat.lt_of_le_of_ne (le_scanTo ..) fun heq => ?_)
      (le_skipCommentLines buf stop stop _)
    have hend := of_scanTo_lt (p := fun c => isBlank c || isEol c)
      (show buf.scanTo stop (fun c => isBlank c || isEol c) cur < stop from heq ▸ hcur) hstop
    rw [← heq, hpass] at hend
    exact absurd hend (by simp)

/-- The condition on a turn: it begins at a character that it understands, and a line is parsed
inside the buffer. -/
structure ConfPos.Understood (stop : ℕ) (s : ConfPos) : Prop where
  /-- The character. -/
  begins : s.cur < stop → Begins (s.buf.char s.cur) = true
  /-- The line. -/
  inside : ¬ s.Left stop → isAlpha (s.buf.char (s.buf.nextLine stop s.cur)) = true →
    (s.line stop).Inside s.options

/-- **One turn.** It leaves the loop or goes on, if and only if it is understood. -/
theorem advances_iff (addr : ℕ → ℕ) (hs : s.Sound stop) :
    (s.Left stop ∨ ∃ s', s.turn addr stop () = some s' ∧ s.cur < s'.cur) ↔ s.Understood stop := by
  have hstop := Nat.le_of_lt hs.stop_lt
  constructor
  · intro h
    refine ⟨fun hcur => ?_, fun hleft halpha => ?_⟩
    · by_contra hbegins
      have hnext := nextLine_eq_self hstop hcur (Or.inl (by simpa using hbegins))
      have hnot : isAlpha (s.buf.char s.cur) = false := by
        simp only [Begins, decide_eq_true_eq, not_or] at hbegins
        simpa using hbegins.1
      rcases h with hleft | ⟨s', hturn, hlt⟩
      · rcases hleft with hle | hle
        · omega
        · omega
      · rw [turn_of_not_isAlpha (not_left_of_turn hturn) (by rw [hnext]; exact hnot)] at hturn
        obtain rfl := Option.some.inj hturn
        dsimp only at hlt
        omega
    · obtain ⟨s', hturn, -⟩ := h.resolve_left hleft
      rw [turn_of_isAlpha hleft halpha] at hturn
      obtain ⟨x, hx, -⟩ := Option.map_eq_some_iff.mp hturn
      exact (tcmuParseOption_isSome_iff (hs.atLine hleft halpha)).mp
        (Option.isSome_iff_exists.mpr ⟨x, hx⟩)
  · intro h
    by_cases hleft : s.Left stop
    · exact Or.inl hleft
    · have hcur : s.cur < stop := Nat.lt_of_not_le fun hle => hleft (Or.inl hle)
      refine Or.inr ?_
      cases halpha : isAlpha (s.buf.char (s.buf.nextLine stop s.cur)) with
      | false =>
        refine ⟨_, turn_of_not_isAlpha hleft halpha, ?_⟩
        refine lt_nextLine hstop hcur (h.begins hcur) ?_
        -- at a letter nothing would have been skipped
        by_contra hletter
        rw [nextLine_eq_self hstop hcur (Or.inr (by simpa using hletter))] at halpha
        exact hletter halpha
      | true =>
        have hsome : (tcmuParseOption (addr (s.line stop).q) stop s.buf s.options
            (s.buf.nextLine stop s.cur)).isSome = true :=
          (tcmuParseOption_isSome_iff (hs.atLine hleft halpha)).mpr (h.inside hleft halpha)
        obtain ⟨x, hx⟩ := Option.isSome_iff_exists.mp hsome
        have hturn : s.turn addr stop () = some ⟨x.1, x.2.1, x.2.2⟩ := by
          rw [turn_of_isAlpha hleft halpha, hx, Option.map_some]
        obtain ⟨-, hnext, hlt⟩ := cur_of_turn hs halpha hturn
        have hle := le_nextLine s.buf stop s.cur
        exact ⟨_, hturn, by omega⟩

/-- Turns that go on come to an end. -/
theorem reaches_left (h : ld.Reaches s)
    (hadvances : ∀ s, ld.Reaches s →
      s.Left ld.file.length ∨ ∃ s', ld.turn s () = some s' ∧ s.cur < s'.cur) :
    ∃ s', ld.Reaches s' ∧ s'.Left ld.file.length := by
  induction hn : ld.file.length - s.cur using Nat.strongRecOn generalizing s with
  | ind n ih =>
    rcases hadvances s h with hleft | ⟨s', hturn, hlt⟩
    · exact ⟨s, h, hleft⟩
    · have hcur : s.cur < ld.file.length :=
        Nat.lt_of_not_le fun hle => not_left_of_turn hturn (Or.inl hle)
      exact ih (ld.file.length - s'.cur) (by omega) (h.turn hturn) rfl

end Turns

/-! ### Main result -/

/-- **The loop ends** if and only if there is room for the `NUL` behind the file and every turn is
understood. -/
theorem config_ends_iff (ld : ConfLoad) :
    ld.Ends ↔ ld.file.length < tcmuMaxCfgFileSize ∧
      ∀ s, ld.Reaches s → s.Understood ld.file.length := by
  constructor
  · rintro ⟨⟨s, ⟨s₀, us, hstart, hrun⟩, -⟩, hadvances⟩
    exact ⟨start_eq_some_iff.mp ⟨s₀, hstart⟩,
      fun s hs => (advances_iff ld.addr hs.sound).mp (hadvances s hs)⟩
  · rintro ⟨hlt, hunderstood⟩
    have hadvances := fun s (hs : ld.Reaches s) =>
      (advances_iff ld.addr hs.sound).mpr (hunderstood s hs)
    obtain ⟨s₀, hstart⟩ := start_eq_some_iff.mpr hlt
    exact ⟨reaches_left ⟨s₀, [], hstart, rfl⟩ hadvances, hadvances⟩

/-- A file that begins with a digit. -/
def digitFile : ConfLoad :=
  { mem := List.replicate tcmuMaxCfgFileSize 0
    file := [49]
    options := []
    addr := fun _ => 4096
    length_mem := List.length_replicate
    length_file := by decide }

/-- The first turn is where it was. -/
theorem config_stuck : digitFile.file.length ≤ tcmuMaxCfgFileSize ∧ ¬ digitFile.Ends := by
  refine ⟨digitFile.length_file, fun h => ?_⟩
  obtain ⟨s, hstart⟩ := start_eq_some_iff.mpr (show digitFile.file.length < _ by decide)
  have hsound := (sound_of_start hstart).1
  have hbegins := ((advances_iff digitFile.addr hsound).mp
    (h.advances s ⟨s, [], hstart, rfl⟩)).begins
  obtain ⟨buf, hbuf, rfl⟩ := Option.map_eq_some_iff.mp hstart
  obtain ⟨-, rfl⟩ := setIn_eq_some.mp hbuf
  have hchar : ConfBuf.char ((digitFile.file ++ digitFile.mem.drop digitFile.file.length).set
      digitFile.file.length 0) 0 = 49 := char_set_of_ne (by decide)
  rw [hchar] at hbegins
  exact absurd (hbegins (by decide)) (by decide)

end Tcmu

end LioProject
