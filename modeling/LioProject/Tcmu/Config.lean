import LioProject.Lib.Run
import Mathlib.Algebra.Order.Ring.Int

/-!
# The configuration file

`tcmu_load_config` reads the file into a buffer, `tcmu_parse_options` walks over it line by line and
enters what it finds into a table of options, and `tcmu_conf_set_options` takes the options that it
knows from there. The table stays when the file is loaded again.

The parser writes into the buffer as it goes: a `NUL` at the end of each line, of each key and of
each number. Some of its loops do not look at the end of the line, and one of them does not even
look at the end of the buffer. A load for which the parser does not come to an end, or reads behind
what has been read from the file, has no result here.

An option keeps the type that it had when it was first seen. After each load the log level is set
back to its default in the table, and a level of 0 is taken for none at all. So what a file does to
the log level depends on the files before it (`reload_keeps_level`), and `reload_independent_iff`
says when it does not.
-/

namespace LioProject

namespace Tcmu

/-! ### Characters -/

/-- `isblank`. -/
def isBlank (c : UInt8) : Bool := c = 32 ∨ c = 9

/-- `__EOL`. -/
def isEol (c : UInt8) : Bool := c = 10 ∨ c = 13

/-- `isdigit`. -/
def isDigit (c : UInt8) : Bool := 48 ≤ c ∧ c ≤ 57

/-- `isalpha`. -/
def isAlpha (c : UInt8) : Bool := (65 ≤ c ∧ c ≤ 90) ∨ (97 ≤ c ∧ c ≤ 122)

/-- A blank, or `=`. -/
def isBlankOrEq (c : UInt8) : Bool := isBlank c ∨ c = 61

/-- A quotation mark. -/
def isQuote (c : UInt8) : Bool := c = 34 ∨ c = 39

/-! ### Walking over the buffer -/

/-- What has been read from the file, and a `NUL`. -/
abbrev ConfBuf := List UInt8

/-- `*(buf + i)`. -/
def ConfBuf.char (buf : ConfBuf) (i : ℕ) : UInt8 := buf.getD i 0

/-- Where a loop that starts at `i` and goes on as long as `p` holds comes to an end. -/
def ConfBuf.scan (buf : ConfBuf) (p : UInt8 → Bool) (i : ℕ) : ℕ :=
  i + ((buf.drop i).takeWhile p).length

/-- The same for a loop that does not go behind `stop`. -/
def ConfBuf.scanTo (buf : ConfBuf) (stop : ℕ) (p : UInt8 → Bool) (i : ℕ) : ℕ :=
  i + (((buf.drop i).take (stop - i)).takeWhile p).length

/-- The same for a loop that goes backwards. -/
def ConfBuf.back (buf : ConfBuf) (p : UInt8 → Bool) : ℕ → ℕ
  | 0 => 0
  | i + 1 => if p (buf.char (i + 1)) then buf.back p i else i + 1

/-- The C string at `i`. -/
def ConfBuf.str (buf : ConfBuf) (i : ℕ) : List UInt8 := (buf.drop i).takeWhile (· ≠ 0)

/-- `strchr`. -/
def ConfBuf.strchr (buf : ConfBuf) (c : UInt8) (i : ℕ) : Option ℕ :=
  let j := buf.scan (fun d => d ≠ c ∧ d ≠ 0) i
  if buf.char j = c then some j else none

/-- `TCMU_TO_LINE_END`. -/
def ConfBuf.toLineEnd (buf : ConfBuf) (stop i : ℕ) : ℕ := buf.scanTo stop (fun c => !isEol c) i

/-- `TCMU_SKIP_BLANK_LINES`. -/
def ConfBuf.skipBlankLines (buf : ConfBuf) (stop i : ℕ) : ℕ :=
  buf.scanTo stop (fun c => isBlank c || isEol c) i

/-- `TCMU_SKIP_COMMENT_LINES`, for up to `n` lines. -/
def ConfBuf.skipCommentLines (buf : ConfBuf) (stop : ℕ) : ℕ → ℕ → ℕ
  | 0, i => i
  | n + 1, i =>
    if i < stop ∧ buf.char i = 35 then buf.skipCommentLines stop n (buf.toLineEnd stop i + 1) else i

/-- `atoi` of a string of digits: `strtol`, of which the lower 32 bits are kept. -/
def atoi (digits : List UInt8) : ℕ :=
  min (digits.foldl (fun n c => 10 * n + (c.toNat - 48)) 0) (2 ^ 63 - 1) % 2 ^ 32

/-! ### Options -/

/-- `tcmu_option_type`, as far as it is used. -/
inductive OptType where
  | int
  | str
  | bool
  deriving DecidableEq, Repr

/-- `struct tcmu_conf_option`. -/
structure ConfOption where
  /-- `key`. -/
  key : List UInt8
  /-- `type`. -/
  type : OptType
  /-- The union of `opt_int`, `opt_bool` and `opt_str`, as a word of 64 bits. -/
  word : ℕ
  /-- The string, if the word is a pointer that `strdup` has returned. -/
  text : Option (List UInt8)
  deriving DecidableEq, Repr

/-- `opt_int`, as 32 bits. -/
def ConfOption.optInt (o : ConfOption) : ℕ := o.word % 2 ^ 32

/-- Write `opt_int`. -/
def ConfOption.setInt (n : ℕ) (o : ConfOption) : ConfOption :=
  { o with word := o.word / 2 ^ 32 * 2 ^ 32 + n % 2 ^ 32, text := none }

/-- Set `opt_bool`. -/
def ConfOption.setBool (o : ConfOption) : ConfOption :=
  { o with word := o.word / 2 ^ 8 * 2 ^ 8 + 1, text := none }

/-- Write `opt_str`. `strdup` returns `NULL` if there is no memory. -/
def ConfOption.setStr (addr : ℕ) (text : List UInt8) (o : ConfOption) : ConfOption :=
  { o with word := addr, text := if addr = 0 then none else some text }

/-- The word is neither `NULL` nor a string. -/
def ConfOption.dangling (o : ConfOption) : Bool := o.word ≠ 0 ∧ o.text = none

/-- `tcmu_options`. -/
abbrev ConfTable := List ConfOption

/-- `tcmu_get_option`. -/
def ConfTable.get (t : ConfTable) (key : List UInt8) : Option ConfOption :=
  t.find? fun o => o.key = key

/-- `tcmu_register_option`. -/
def ConfTable.register (t : ConfTable) (key : List UInt8) (type : OptType) : ConfTable :=
  t ++ [⟨key, type, 0, none⟩]

/-- Change the option with a key. -/
def ConfTable.modify (t : ConfTable) (key : List UInt8) (f : ConfOption → ConfOption) :
    ConfTable :=
  t.map fun o => if o.key = key then f o else o

/-! ### The parser -/

/-- What `tcmu_parse_option` finds in a line before it looks into the table. -/
structure ConfLine where
  /-- The buffer, with the line and the key ended by a `NUL`. -/
  buf : ConfBuf
  /-- The key. -/
  key : List UInt8
  /-- `q`, the end of the line. -/
  q : ℕ
  /-- `s`, behind the `=`, if there is one. -/
  value : Option ℕ
  deriving DecidableEq, Repr

/-- The first part of `tcmu_parse_option`, for the line at `cur`. -/
def parseLine (buf : ConfBuf) (stop cur : ℕ) : ConfLine :=
  let p := buf.scan isBlank cur
  let q := buf.toLineEnd stop cur
  let buf : ConfBuf := buf.set q 0
  match buf.strchr 61 p with
  | none =>
    let r := buf.scanTo q (fun c => !isBlank c) p
    let buf : ConfBuf := buf.set r 0
    ⟨buf, buf.str p, q, none⟩
  | some r =>
    let buf : ConfBuf := buf.set (buf.back isBlankOrEq r + 1) 0
    ⟨buf, buf.str p, q, some (r + 1)⟩

/-- The type of a line, if it has one. -/
def ConfLine.type (l : ConfLine) : Option OptType :=
  match l.value with
  | none => some .bool
  | some s =>
    let c := l.buf.char (l.buf.scan isBlankOrEq s)
    if isQuote c then some .str else if isDigit c then some .int else none

/-- Parse the value of a line for an option of a type that is in the table. `addr` is what `strdup`
returns. -/
def ConfLine.assign (l : ConfLine) (addr s : ℕ) (t : ConfTable) :
    OptType → Option (ConfBuf × ConfTable)
  | .int =>
    let i := l.buf.scan (fun c => !isDigit c) s
    -- nothing but the next digit stops the loop
    if l.buf.length ≤ i then none
    else
      let j := l.buf.scan isDigit i
      let buf : ConfBuf := l.buf.set j 0
      some (buf, t.modify l.key (ConfOption.setInt (atoi (buf.str i))))
  | .str =>
    if l.buf.length ≤ s + 1 then none
    else
      let s := l.buf.scan isBlank (s + 1)
      let s := if isQuote (l.buf.char s) then s + 1 else s
      let r := l.buf.back isBlank (l.q - 1)
      let buf : ConfBuf := if isQuote (l.buf.char r) then l.buf.set r 0 else l.buf
      -- the old string is freed
      if (t.get l.key).any ConfOption.dangling then none
      else some (buf, t.modify l.key (ConfOption.setStr addr (buf.str s)))
  | .bool => some (l.buf, t)

/-- The second part of `tcmu_parse_option`. -/
def ConfLine.enter (l : ConfLine) (addr : ℕ) (t : ConfTable) : Option (ConfBuf × ConfTable) :=
  match l.value with
  | none =>
    let t := if (t.get l.key).isSome then t else t.register l.key .bool
    some (l.buf, t.modify l.key ConfOption.setBool)
  | some s =>
    match t.get l.key with
    | some o => l.assign addr s t o.type
    | none =>
      match l.type with
      | none => some (l.buf, t)
      | some type => l.assign addr s (t.register l.key type) type

/-- The loop of `tcmu_parse_options`, for up to `n` turns. `addr q` is what `strdup` returns for the
line that ends at `q`. -/
def parseOptions (addr : ℕ → ℕ) (stop : ℕ) : ℕ → ConfBuf → ConfTable → ℕ → Option ConfTable
  | 0, _, _, _ => none
  | n + 1, buf, t, cur =>
    if stop ≤ cur then some t
    else
      let cur := buf.skipBlankLines stop cur
      let cur := buf.skipCommentLines stop stop cur
      if stop ≤ cur then some t
      -- `continue`: if this is no blank either, the loop is stuck
      else if !isAlpha (buf.char cur) then parseOptions addr stop n buf t cur
      else do
        let l := parseLine buf stop cur
        let (buf, t) ← l.enter (addr l.q) t
        parseOptions addr stop n buf t (l.q + 1)

/-! ### The number of turns

Every turn of the loop but the last one goes on in the buffer, or it is stuck for ever. So the
number of turns that a load allows for is no restriction. -/

section Turns

variable {addr : ℕ → ℕ} {stop cur : ℕ} {buf : ConfBuf} {t : ConfTable}

theorem le_skipCommentLines (buf : ConfBuf) (stop n i : ℕ) : i ≤ buf.skipCommentLines stop n i := by
  induction n generalizing i with
  | zero => exact Nat.le_refl i
  | succ n ih =>
    rw [ConfBuf.skipCommentLines]
    split
    · refine Nat.le_trans ?_ (ih _)
      exact Nat.le_succ_of_le (Nat.le_add_right i _)
    · exact Nat.le_refl i

theorem le_toLineEnd (buf : ConfBuf) (stop i : ℕ) : i ≤ buf.toLineEnd stop i := Nat.le_add_right i _

/-- The beginning of the next line that is neither blank nor a comment. -/
def ConfBuf.nextLine (buf : ConfBuf) (stop cur : ℕ) : ℕ :=
  buf.skipCommentLines stop stop (buf.skipBlankLines stop cur)

theorem le_nextLine (buf : ConfBuf) (stop cur : ℕ) : cur ≤ buf.nextLine stop cur :=
  Nat.le_trans (Nat.le_add_right cur _) (le_skipCommentLines buf stop stop _)

theorem parseOptions_succ_eq (addr : ℕ → ℕ) (stop n : ℕ) (buf : ConfBuf) (t : ConfTable) (cur : ℕ) :
    parseOptions addr stop (n + 1) buf t cur =
      if stop ≤ cur then some t
      else if stop ≤ buf.nextLine stop cur then some t
      else if !isAlpha (buf.char (buf.nextLine stop cur)) then
        parseOptions addr stop n buf t (buf.nextLine stop cur)
      else
        ((parseLine buf stop (buf.nextLine stop cur)).enter
            (addr (parseLine buf stop (buf.nextLine stop cur)).q) t).bind fun x =>
          parseOptions addr stop n x.1 x.2 ((parseLine buf stop (buf.nextLine stop cur)).q + 1) :=
  rfl

end Turns

/-! ### Loading -/

/-- `to_syslog_level`. -/
def toSyslogLevel : ℤ → ℕ
  | 1 => 3
  | 2 => 4
  | 3 => 6
  | 4 => 7
  | 5 => 8
  | _ => 6

/-- `tcmu_set_log_level`: the value of `tcmu_log_level` for a level of the configuration. -/
def tcmuSetLogLevel (level : ℤ) : ℕ :=
  if level > 5 then toSyslogLevel 5 else if level < 1 then toSyslogLevel 1 else toSyslogLevel level

/-- An `int` of 32 bits. -/
def toInt32 (n : ℕ) : ℤ := if n % 2 ^ 32 < 2 ^ 31 then n % 2 ^ 32 else n % 2 ^ 32 - 2 ^ 32

/-- What survives a load. -/
structure ConfSys where
  /-- `tcmu_options`. -/
  options : ConfTable
  /-- `cfg->log_level`. -/
  logLevel : ℤ
  /-- `cfg->log_dir_path`. -/
  logDirPath : Option (List UInt8)
  /-- `tcmu_log_level`. -/
  level : ℕ
  deriving DecidableEq, Repr

/-- A process that has not loaded a file, with the log level that its command line leaves. -/
def ConfSys.fresh (level : ℕ) : ConfSys := ⟨[], 0, none, level⟩

/-- The key `log_level`. -/
def logLevelKey : List UInt8 := [108, 111, 103, 95, 108, 101, 118, 101, 108]

/-- The key `log_dir_path`. -/
def logDirPathKey : List UInt8 := [108, 111, 103, 95, 100, 105, 114, 95, 112, 97, 116, 104]

/-- `TCMU_PARSE_CFG_INT(cfg, log_level, TCMU_CONF_LOG_INFO)`, and what is done with the level. -/
def ConfSys.setLogLevel (s : ConfSys) : ConfSys :=
  let s :=
    match s.options.get logLevelKey with
    | none => s
    | some o =>
      { s with
        logLevel := toInt32 o.optInt
        options := s.options.modify logLevelKey (ConfOption.setInt 3) }
  if s.logLevel ≠ 0 then { s with level := tcmuSetLogLevel s.logLevel } else s

/-- `TCMU_PARSE_CFG_STR(cfg, log_dir_path)`. There is no string to copy if the option is of another
type. -/
def ConfSys.setLogDirPath (s : ConfSys) : Option ConfSys :=
  match s.options.get logDirPathKey with
  | none => some s
  | some o => o.text.map fun text => { s with logDirPath := some text }

/-- `tcmu_conf_set_options`. -/
def ConfSys.setOptions (s : ConfSys) (reloading : Bool) : Option ConfSys :=
  if reloading then some s.setLogLevel else s.setLogLevel.setLogDirPath

/-- `tcmu_load_config`, of a file with the given contents. -/
def ConfSys.load (s : ConfSys) (addr : ℕ → ℕ) (file : List UInt8) (reloading : Bool) :
    Option ConfSys := do
  let options ← parseOptions addr file.length (file.length + 2) (file ++ [0]) s.options 0
  ({ s with options := options } : ConfSys).setOptions reloading

/-- One file, and where its strings are put. -/
structure ConfFile where
  /-- The contents. -/
  file : List UInt8
  /-- What `strdup` returns. -/
  addr : ℕ → ℕ

/-- Load files one after the other. All but the first are reloads. -/
def ConfSys.loadAll (s : ConfSys) : List ConfFile → Bool → Option ConfSys
  | [], _ => some s
  | f :: fs, reloading => (s.load f.addr f.file reloading).bind fun s => s.loadAll fs true

/-! ### The table -/

section Table

variable {t : ConfTable} {k k' : List UInt8} {type : OptType} {f : ConfOption → ConfOption}

theorem get_register (h : t.get k = none) :
    (t.register k type).get k' = if k' = k then some ⟨k, type, 0, none⟩ else t.get k' := by
  rw [ConfTable.register, ConfTable.get, List.find?_append]
  split
  · rename_i hk
    rw [hk, ← ConfTable.get, h]
    simp
  · rename_i hk
    rw [List.find?_cons_of_neg (by simpa using Ne.symm hk)]
    simp [ConfTable.get]

theorem modify_cons (o : ConfOption) (t : ConfTable) :
    ConfTable.modify (o :: t) k f = (if o.key = k then f o else o) :: ConfTable.modify t k f := rfl

theorem get_modify_self (hf : ∀ o, (f o).key = o.key) : (t.modify k f).get k = (t.get k).map f := by
  induction t with
  | nil => rfl
  | cons o t ih =>
    rw [modify_cons]
    simp only [ConfTable.get, List.find?_cons] at ih ⊢
    by_cases hk : o.key = k
    · simp [hk, hf]
    · simp [hk, ih]

/-- Equal tables hold equal options. -/
theorem eq_of_modify_eq {g : ConfOption → ConfOption} {o : ConfOption}
    (hf : ∀ o, (f o).key = o.key) (hg : ∀ o, (g o).key = o.key) (hget : t.get k = some o)
    (heq : t.modify k f = t.modify k g) : f o = g o := by
  have hgets := congrArg (ConfTable.get · k) heq
  rw [get_modify_self hf, get_modify_self hg, hget] at hgets
  exact Option.some.inj hgets

theorem get_modify_of_ne (hf : ∀ o, (f o).key = o.key) (hne : k' ≠ k) :
    (t.modify k f).get k' = t.get k' := by
  induction t with
  | nil => rfl
  | cons o t ih =>
    rw [modify_cons]
    simp only [ConfTable.get, List.find?_cons] at ih ⊢
    by_cases hk : o.key = k
    · simp [hk, Ne.symm hne, hf, ih]
    · simp [hk, ih]

end Table

/-! ### Files that fit a table -/

/-- A line that is the first of its file for a key gives it the type that the table `t₀` has for it,
and `log_level` is no string. `t` is the table of a process that has loaded nothing else. -/
def ConfLine.Fits (t₀ t : ConfTable) (l : ConfLine) : Prop :=
  t.get l.key = none →
    (∀ o, t₀.get l.key = some o → l.type = some o.type) ∧
      (l.key = logLevelKey → l.type ≠ some .str)

/-- Every line that the parser meets fits the table `t₀`. -/
def LinesFit (t₀ : ConfTable) (addr : ℕ → ℕ) (stop : ℕ) : ℕ → ConfBuf → ConfTable → ℕ → Prop
  | 0, _, _, _ => True
  | n + 1, buf, t, cur =>
    if stop ≤ cur then True
    else
      let cur := buf.skipBlankLines stop cur
      let cur := buf.skipCommentLines stop stop cur
      if stop ≤ cur then True
      else if !isAlpha (buf.char cur) then LinesFit t₀ addr stop n buf t cur
      else
        let l := parseLine buf stop cur
        l.Fits t₀ t ∧ ∀ x, l.enter (addr l.q) t = some x →
          LinesFit t₀ addr stop n x.1 x.2 (l.q + 1)

/-- The file fits the table `t₀`. -/
def ConfFile.Fits (t₀ : ConfTable) (f : ConfFile) : Prop :=
  LinesFit t₀ f.addr f.file.length (f.file.length + 2) (f.file ++ [0]) [] 0

/-- The number that the file gives for `log_level`, as 32 bits, if it mentions it. -/
def ConfFile.logLevel (f : ConfFile) : Option ℕ :=
  ((parseOptions f.addr f.file.length (f.file.length + 2) (f.file ++ [0]) [] 0).bind fun t =>
    t.get logLevelKey).map ConfOption.optInt

/-! ### Two tables -/

/-- The options that two tables have for a key agree, in their types and, for `log_level`, in their
numbers up to the last byte. -/
def SimilarAt (k : List UInt8) (th tf : ConfTable) : Prop :=
  ∃ o o', tf.get k = some o ∧ th.get k = some o' ∧ o'.type = o.type ∧
    (k = logLevelKey → o'.optInt / 256 = o.optInt / 256 ∧ o.type ≠ .str)

/-- The table `th` comes from `t₀` by the lines from which `tf` comes from the empty table, as far
as the keys in `K` go. -/
structure SimOn (K : List UInt8 → Prop) (t₀ th tf : ConfTable) : Prop where
  /-- What the lines do not mention is as before. -/
  old : ∀ k, K k → tf.get k = none → th.get k = t₀.get k
  /-- What they mention agrees. -/
  new : ∀ k, K k → ∀ o, tf.get k = some o → ∃ o', th.get k = some o' ∧ o'.type = o.type ∧
    (k = logLevelKey → o'.optInt = o.optInt ∧ o.type ≠ .str)

/-- The same for all keys. -/
def Sim (t₀ th tf : ConfTable) : Prop := SimOn (fun _ => True) t₀ th tf

section Sim

variable {t₀ th tf : ConfTable} {l : ConfLine} {k : List UInt8} {f f' : ConfOption → ConfOption}

theorem sim_init (t₀ : ConfTable) : Sim t₀ t₀ [] :=
  ⟨fun _ _ _ => rfl, fun _ _ _ h => absurd h (by simp [ConfTable.get])⟩

theorem Sim.similarAt (h : Sim t₀ th tf) {o : ConfOption} (ho : tf.get k = some o) :
    SimilarAt k th tf := by
  obtain ⟨o', ho', htype, hint⟩ := h.new k trivial o ho
  exact ⟨o, o', ho, ho', htype, fun hk => ⟨by rw [(hint hk).1], (hint hk).2⟩⟩

/-- A line registers its key, in the tables in which it is new. -/
theorem Sim.register (h : Sim t₀ th tf) (hfits : l.Fits t₀ tf) {type : OptType}
    (htype : l.type = some type) (hint : ∀ o, t₀.get logLevelKey = some o → o.optInt = 3)
    (hnew : tf.get l.key = none) :
    SimOn (· ≠ l.key) t₀ (if (th.get l.key).isSome then th else th.register l.key type)
        (tf.register l.key type) ∧
      SimilarAt l.key (if (th.get l.key).isSome then th else th.register l.key type)
        (tf.register l.key type) := by
  obtain ⟨hfit, hstr⟩ := hfits hnew
  have hold := h.old l.key trivial hnew
  have hself : (tf.register l.key type).get l.key = some ⟨l.key, type, 0, none⟩ := by
    rw [get_register hnew, if_pos rfl]
  constructor
  · have hth : ∀ k, k ≠ l.key →
        (if (th.get l.key).isSome then th else th.register l.key type).get k = th.get k := by
      intro k hk
      split
      · rfl
      · rename_i hnone
        rw [get_register (by simpa using hnone), if_neg hk]
    refine ⟨fun k hk ht => ?_, fun k hk o ht => ?_⟩
    · rw [get_register hnew, if_neg hk] at ht
      rw [hth k hk]
      exact h.old k trivial ht
    · rw [get_register hnew, if_neg hk] at ht
      rw [hth k hk]
      exact h.new k trivial o ht
  · cases hget : th.get l.key with
    | none =>
      refine ⟨_, _, hself, ?_, rfl, fun hk => ⟨rfl, fun hs => hstr hk (hs ▸ htype)⟩⟩
      rw [if_neg (by simp), get_register hget, if_pos rfl]
    | some o =>
      rw [Option.isSome_some, if_pos rfl]
      rw [hold] at hget
      have ho := (htype.symm.trans (hfit o hget)).symm
      refine ⟨_, o, hself, hold.trans hget, Option.some.inj ho, fun hk => ?_⟩
      rw [hk] at hget
      refine ⟨?_, fun hs => hstr hk (hs ▸ htype)⟩
      rw [hint o hget]
      simp [ConfOption.optInt]

/-- Changing an option in both tables alike. -/
theorem SimOn.modify (h : SimOn (· ≠ k) t₀ th tf) (hk : SimilarAt k th tf)
    (hf : ∀ o, (f o).key = o.key ∧ (f o).type = o.type)
    (hf' : ∀ o, (f' o).key = o.key ∧ (f' o).type = o.type)
    (hint : k = logLevelKey → ∀ o o', o.type ≠ .str → o'.optInt / 256 = o.optInt / 256 →
      (f' o').optInt = (f o).optInt) :
    Sim t₀ (th.modify k f') (tf.modify k f) := by
  obtain ⟨o, o', ho, ho', htype, hsimilar⟩ := hk
  have hkey := fun o => (hf o).1
  have hkey' := fun o => (hf' o).1
  refine ⟨fun j _ ht => ?_, fun j _ x ht => ?_⟩
  · by_cases hj : j = k
    · rw [hj, get_modify_self hkey, ho] at ht
      exact absurd ht (by simp)
    · rw [get_modify_of_ne hkey hj] at ht
      rw [get_modify_of_ne hkey' hj]
      exact h.old j hj ht
  · by_cases hj : j = k
    · rw [hj, get_modify_self hkey, ho] at ht
      obtain rfl := Option.some.inj ht
      refine ⟨f' o', by rw [hj, get_modify_self hkey', ho']; rfl, ?_, fun hlog => ?_⟩
      · rw [(hf' o').2, (hf o).2, htype]
      · obtain ⟨hdiv, hstr⟩ := hsimilar (hj ▸ hlog)
        exact ⟨hint (hj ▸ hlog) o o' hstr hdiv, by rw [(hf o).2]; exact hstr⟩
    · rw [get_modify_of_ne hkey hj] at ht
      rw [get_modify_of_ne hkey' hj]
      exact h.new j hj x ht

theorem optInt_setInt {n : ℕ} {o : ConfOption} : (o.setInt n).optInt = n % 2 ^ 32 := by
  rw [ConfOption.optInt, ConfOption.setInt]
  dsimp only
  omega

theorem optInt_setBool {o : ConfOption} : o.setBool.optInt = o.optInt / 256 * 256 + 1 := by
  rw [ConfOption.optInt, ConfOption.optInt, ConfOption.setBool]
  dsimp only
  omega

/-- Parsing a value does the same to both tables. -/
theorem SimOn.assign (h : SimOn (· ≠ l.key) t₀ th tf) (hk : SimilarAt l.key th tf)
    {type : OptType} (htype : ∀ o, tf.get l.key = some o → o.type = type) (hbool : type ≠ .bool)
    {addr addr' s : ℕ} {x x' : ConfBuf × ConfTable} (hx : l.assign addr s tf type = some x)
    (hx' : l.assign addr' s th type = some x') : x'.1 = x.1 ∧ Sim t₀ x'.2 x.2 := by
  cases type with
  | int =>
    rw [ConfLine.assign] at hx hx'
    dsimp only at hx hx'
    split at hx
    · exact absurd hx (by simp)
    · rename_i hlt
      rw [if_neg hlt] at hx'
      obtain rfl := Option.some.inj hx
      obtain rfl := Option.some.inj hx'
      refine ⟨rfl, h.modify hk (fun _ => ⟨rfl, rfl⟩) (fun _ => ⟨rfl, rfl⟩) fun _ o o' _ _ => ?_⟩
      rw [optInt_setInt, optInt_setInt]
  | str =>
    rw [ConfLine.assign] at hx hx'
    dsimp only at hx hx'
    split at hx
    · exact absurd hx (by simp)
    · rename_i hlt
      rw [if_neg hlt] at hx'
      split at hx
      · exact absurd hx (by simp)
      · split at hx'
        · exact absurd hx' (by simp)
        · obtain rfl := Option.some.inj hx
          obtain rfl := Option.some.inj hx'
          refine ⟨rfl, h.modify hk (fun _ => ⟨rfl, rfl⟩) (fun _ => ⟨rfl, rfl⟩) fun hlog => ?_⟩
          obtain ⟨o, o', ho, -, -, hsimilar⟩ := hk
          exact absurd (htype o ho) (hsimilar hlog).2
  | bool => exact absurd rfl hbool

/-- A line with a value is of no type, or a number or a string. -/
theorem type_ne_bool {s : ℕ} (h : l.value = some s) : l.type ≠ some .bool := by
  rw [ConfLine.type, h]
  dsimp only
  split
  · simp
  · split
    · simp
    · simp

/-- A line does the same to both tables. -/
theorem Sim.enter (h : Sim t₀ th tf) (hfits : l.Fits t₀ tf)
    (hint : ∀ o, t₀.get logLevelKey = some o → o.optInt = 3) {addr addr' : ℕ}
    {x x' : ConfBuf × ConfTable} (hx : l.enter addr tf = some x)
    (hx' : l.enter addr' th = some x') : x'.1 = x.1 ∧ Sim t₀ x'.2 x.2 := by
  rw [ConfLine.enter] at hx hx'
  cases hvalue : l.value with
  | none =>
    rw [hvalue] at hx hx'
    obtain rfl := Option.some.inj hx
    obtain rfl := Option.some.inj hx'
    have hsetBool : ∀ o o' : ConfOption, o'.optInt / 256 = o.optInt / 256 →
        o'.setBool.optInt = o.setBool.optInt := by
      intro o o' hdiv
      rw [optInt_setBool, optInt_setBool, hdiv]
    refine ⟨rfl, ?_⟩
    cases hget : tf.get l.key with
    | some o =>
      obtain ⟨o', ho', -⟩ := h.new l.key trivial o hget
      rw [Option.isSome_some, if_pos rfl, ho', Option.isSome_some, if_pos rfl]
      exact SimOn.modify ⟨fun k _ => h.old k trivial, fun k _ => h.new k trivial⟩
        (h.similarAt hget) (fun _ => ⟨rfl, rfl⟩) (fun _ => ⟨rfl, rfl⟩) fun _ o o' _ => hsetBool o o'
    | none =>
      have htype : l.type = some .bool := by rw [ConfLine.type, hvalue]
      obtain ⟨hon, hat⟩ := h.register hfits htype hint hget
      show Sim t₀ _ ((tf.register l.key .bool).modify l.key ConfOption.setBool)
      exact hon.modify hat (fun _ => ⟨rfl, rfl⟩) (fun _ => ⟨rfl, rfl⟩) fun _ o o' _ => hsetBool o o'
  | some s =>
    rw [hvalue] at hx hx'
    cases hget : tf.get l.key with
    | some o =>
      obtain ⟨o', ho', htype, -⟩ := h.new l.key trivial o hget
      simp only [hget] at hx
      simp only [ho', htype] at hx'
      by_cases hbool : o.type = .bool
      · rw [hbool] at hx hx'
        obtain rfl := Option.some.inj hx
        obtain rfl := Option.some.inj hx'
        exact ⟨rfl, h⟩
      · refine SimOn.assign ⟨fun k _ => h.old k trivial, fun k _ => h.new k trivial⟩
          (h.similarAt hget) (fun x hx => ?_) hbool hx hx'
        rw [hget] at hx
        rw [Option.some.inj hx]
    | none =>
      simp only [hget] at hx
      have hold := h.old l.key trivial hget
      cases htype : l.type with
      | none =>
        -- a value of no type, for a key that neither table has
        simp only [htype] at hx
        have hnone : th.get l.key = none := by
          rw [hold, Option.eq_none_iff_forall_ne_some]
          intro o ho
          exact absurd (htype.symm.trans ((hfits hget).1 o ho)) (by simp)
        simp only [hnone, htype] at hx'
        obtain rfl := Option.some.inj hx
        obtain rfl := Option.some.inj hx'
        exact ⟨rfl, h⟩
      | some type =>
        simp only [htype] at hx
        have hbool : type ≠ .bool := fun hb => type_ne_bool hvalue (hb ▸ htype)
        obtain ⟨hon, hat⟩ := h.register hfits htype hint hget
        have hself : ∀ o, (tf.register l.key type).get l.key = some o → o.type = type := by
          intro o ho
          rw [get_register hget, if_pos rfl] at ho
          rw [← Option.some.inj ho]
        have hassign : l.assign addr' s
            (if (th.get l.key).isSome then th else th.register l.key type) type = some x' := by
          cases hold' : th.get l.key with
          | none =>
            simp only [hold', htype] at hx'
            exact hx'
          | some o =>
            simp only [hold'] at hx'
            rw [hold] at hold'
            have ho := htype.symm.trans ((hfits hget).1 o hold')
            rw [Option.some.inj ho]
            exact hx'
        exact hon.assign hat hself hbool hx hassign

/-- Parsing a file does the same to both tables. -/
theorem Sim.parseOptions {addr addr' : ℕ → ℕ} {stop n cur : ℕ} {buf : ConfBuf}
    {uh uf : ConfTable} (hint : ∀ o, t₀.get logLevelKey = some o → o.optInt = 3)
    (h : Sim t₀ th tf) (hfit : LinesFit t₀ addr stop n buf tf cur)
    (hf : Tcmu.parseOptions addr stop n buf tf cur = some uf)
    (hh : Tcmu.parseOptions addr' stop n buf th cur = some uh) : Sim t₀ uh uf := by
  induction n generalizing th tf buf cur with
  | zero => exact absurd hf (by simp [Tcmu.parseOptions])
  | succ n ih =>
    rw [Tcmu.parseOptions] at hf hh
    rw [LinesFit] at hfit
    dsimp only at hf hh hfit
    split at hf
    · rename_i hstop
      rw [if_pos hstop] at hh
      obtain rfl := Option.some.inj hf
      obtain rfl := Option.some.inj hh
      exact h
    · rename_i hstop
      rw [if_neg hstop] at hh hfit
      split at hf
      · rename_i hskip
        rw [if_pos hskip] at hh
        obtain rfl := Option.some.inj hf
        obtain rfl := Option.some.inj hh
        exact h
      · rename_i hskip
        rw [if_neg hskip] at hh hfit
        split at hf
        · rename_i halpha
          rw [if_pos halpha] at hh hfit
          exact ih h hfit hf hh
        · rename_i halpha
          rw [if_neg halpha] at hh hfit
          obtain ⟨x, hx, hf⟩ := Option.bind_eq_some_iff.mp hf
          obtain ⟨x', hx', hh⟩ := Option.bind_eq_some_iff.mp hh
          obtain ⟨hbuf, hsim⟩ := h.enter hfit.1 hint hx hx'
          rw [hbuf] at hh
          exact ih hsim (hfit.2 x hx) hf hh

end Sim

/-! ### Options stay -/

section Stay

variable {t u : ConfTable} {l : ConfLine} {k : List UInt8}

theorem get_none_of_register {k' : List UInt8} {type : OptType}
    (h : (t.register k' type).get k = none) : t.get k = none := by
  rw [ConfTable.register, ConfTable.get, List.find?_append] at h
  exact (Option.or_eq_none_iff.mp h).1

theorem get_none_of_modify {f : ConfOption → ConfOption} (hf : ∀ o, (f o).key = o.key)
    {k' : List UInt8} (h : (t.modify k' f).get k = none) : t.get k = none := by
  by_cases hk : k = k'
  · rw [hk, get_modify_self hf, Option.map_eq_none_iff] at h
    rw [hk, h]
  · rwa [get_modify_of_ne hf hk] at h

theorem get_none_of_assign {addr s : ℕ} {type : OptType} {x : ConfBuf × ConfTable}
    (hx : l.assign addr s t type = some x) (h : x.2.get k = none) : t.get k = none := by
  cases type with
  | int =>
    rw [ConfLine.assign] at hx
    dsimp only at hx
    split at hx
    · exact absurd hx (by simp)
    · obtain rfl := Option.some.inj hx
      exact get_none_of_modify (f := ConfOption.setInt _) (fun _ => rfl) h
  | str =>
    rw [ConfLine.assign] at hx
    dsimp only at hx
    split at hx
    · exact absurd hx (by simp)
    · split at hx
      · exact absurd hx (by simp)
      · obtain rfl := Option.some.inj hx
        exact get_none_of_modify (f := ConfOption.setStr _ _) (fun _ => rfl) h
  | bool =>
    obtain rfl := Option.some.inj hx
    exact h

theorem get_none_of_enter {addr : ℕ} {x : ConfBuf × ConfTable} (hx : l.enter addr t = some x)
    (h : x.2.get k = none) : t.get k = none := by
  rw [ConfLine.enter] at hx
  split at hx
  · obtain rfl := Option.some.inj hx
    have h := get_none_of_modify (f := ConfOption.setBool) (fun _ => rfl) h
    split at h
    · exact h
    · exact get_none_of_register h
  · split at hx
    · exact get_none_of_assign hx h
    · split at hx
      · obtain rfl := Option.some.inj hx
        exact h
      · exact get_none_of_register (get_none_of_assign hx h)

/-- No option leaves the table. -/
theorem get_none_of_parseOptions {addr : ℕ → ℕ} {stop n cur : ℕ} {buf : ConfBuf}
    (hu : parseOptions addr stop n buf t cur = some u) (h : u.get k = none) : t.get k = none := by
  induction n generalizing t buf cur with
  | zero => exact absurd hu (by simp [parseOptions])
  | succ n ih =>
    rw [parseOptions] at hu
    dsimp only at hu
    split at hu
    · obtain rfl := Option.some.inj hu
      exact h
    · split at hu
      · obtain rfl := Option.some.inj hu
        exact h
      · split at hu
        · exact ih hu
        · obtain ⟨x, hx, hu⟩ := Option.bind_eq_some_iff.mp hu
          exact get_none_of_enter hx (ih hu)

end Stay

/-! ### Runs of loads -/

section Loads

variable {s s' : ConfSys} {level : ℕ}

/-- Between two loads: the level has been set back to its default in the table, and as long as it is
not there it has not been changed. -/
def ConfSys.Inv (level : ℕ) (s : ConfSys) : Prop :=
  (∀ o, s.options.get logLevelKey = some o → o.optInt = 3) ∧
    (s.options.get logLevelKey = none → s.logLevel = 0 ∧ s.level = level)

theorem ConfSys.inv_fresh (level : ℕ) : (ConfSys.fresh level).Inv level :=
  ⟨fun _ h => absurd h (by simp [ConfSys.fresh, ConfTable.get]), fun _ => ⟨rfl, rfl⟩⟩

theorem toInt32_eq_zero {n : ℕ} : toInt32 n = 0 ↔ n % 2 ^ 32 = 0 := by
  rw [toInt32]
  split
  · omega
  · omega

/-- The log level after a load, when the options have been parsed. -/
def ConfSys.levelWith (s : ConfSys) (t : ConfTable) : ℕ :=
  match t.get logLevelKey with
  | none => if s.logLevel ≠ 0 then tcmuSetLogLevel s.logLevel else s.level
  | some o => if o.optInt ≠ 0 then tcmuSetLogLevel (toInt32 o.optInt) else s.level

/-- Setting the log level, and setting it back in the table. -/
theorem setLogLevel_spec (s : ConfSys) :
    s.setLogLevel.level = s.levelWith s.options ∧
      s.setLogLevel.options.get logLevelKey =
        (s.options.get logLevelKey).map (ConfOption.setInt 3) ∧
      (s.options.get logLevelKey = none → s.setLogLevel.logLevel = s.logLevel) := by
  rw [ConfSys.setLogLevel, ConfSys.levelWith]
  cases hget : s.options.get logLevelKey with
  | none =>
    dsimp only
    split
    · exact ⟨rfl, hget, fun _ => rfl⟩
    · exact ⟨rfl, hget, fun _ => rfl⟩
  | some o =>
    have hback : (s.options.modify logLevelKey (ConfOption.setInt 3)).get logLevelKey =
        some (o.setInt 3) := by
      rw [get_modify_self (f := ConfOption.setInt 3) (fun _ => rfl), hget]
      rfl
    have hzero : toInt32 o.optInt = 0 ↔ o.optInt = 0 := by
      rw [toInt32_eq_zero, ConfOption.optInt, Nat.mod_mod]
    dsimp only
    by_cases h : o.optInt = 0
    · rw [if_neg (not_not.mpr (hzero.mpr h)), if_neg (not_not.mpr h)]
      exact ⟨rfl, hback, fun hnone => absurd hnone (by simp)⟩
    · rw [if_pos (fun hz => h (hzero.mp hz)), if_pos h]
      exact ⟨rfl, hback, fun hnone => absurd hnone (by simp)⟩

/-- What a load that comes to an end does. -/
theorem load_cases {addr : ℕ → ℕ} {file : List UInt8} {reloading : Bool}
    (h : s.load addr file reloading = some s') :
    ∃ t, parseOptions addr file.length (file.length + 2) (file ++ [0]) s.options 0 = some t ∧
      s'.level = s.levelWith t ∧
      s'.options.get logLevelKey = (t.get logLevelKey).map (ConfOption.setInt 3) ∧
      (t.get logLevelKey = none → s'.logLevel = s.logLevel) := by
  obtain ⟨t, ht, h⟩ := Option.bind_eq_some_iff.mp h
  have hspec := setLogLevel_spec { s with options := t }
  refine ⟨t, ht, ?_⟩
  rw [ConfSys.setOptions] at h
  split at h
  · obtain rfl := Option.some.inj h
    exact hspec
  · rw [ConfSys.setLogDirPath] at h
    split at h
    · obtain rfl := Option.some.inj h
      exact hspec
    · obtain ⟨text, -, rfl⟩ := Option.map_eq_some_iff.mp h
      exact hspec

theorem ConfSys.Inv.load {addr : ℕ → ℕ} {file : List UInt8} {reloading : Bool} (hs : s.Inv level)
    (h : s.load addr file reloading = some s') : s'.Inv level := by
  obtain ⟨t, ht, hlevel, hoptions, hlogLevel⟩ := load_cases h
  refine ⟨fun o ho => ?_, fun hnone => ?_⟩
  · rw [hoptions] at ho
    obtain ⟨x, -, rfl⟩ := Option.map_eq_some_iff.mp ho
    exact optInt_setInt
  · rw [hoptions, Option.map_eq_none_iff] at hnone
    obtain ⟨hzero, hkept⟩ := hs.2 (get_none_of_parseOptions ht hnone)
    refine ⟨(hlogLevel hnone).trans hzero, ?_⟩
    rw [hlevel, ConfSys.levelWith, hnone]
    dsimp only
    rw [if_neg (not_not.mpr hzero), hkept]

theorem ConfSys.Inv.loadAll {fs : List ConfFile} {reloading : Bool} (hs : s.Inv level)
    (h : s.loadAll fs reloading = some s') : s'.Inv level := by
  induction fs generalizing s reloading with
  | nil =>
    obtain rfl := Option.some.inj h
    exact hs
  | cons f fs ih =>
    obtain ⟨u, hu, h⟩ := Option.bind_eq_some_iff.mp h
    exact ih (hs.load hu) h

/-- The last file of several. -/
theorem loadAll_concat {fs : List ConfFile} {f : ConfFile} {reloading : Bool}
    (h : s.loadAll (fs ++ [f]) reloading = some s') :
    ∃ u, s.loadAll fs reloading = some u ∧ ∃ r, u.load f.addr f.file r = some s' := by
  induction fs generalizing s reloading with
  | nil =>
    obtain ⟨u, hu, h⟩ := Option.bind_eq_some_iff.mp h
    obtain rfl := Option.some.inj h
    exact ⟨s, rfl, reloading, hu⟩
  | cons g fs ih =>
    obtain ⟨v, hv, h⟩ := Option.bind_eq_some_iff.mp h
    obtain ⟨u, hu, hlast⟩ := ih h
    refine ⟨u, ?_, hlast⟩
    rw [ConfSys.loadAll, hv]
    exact hu

end Loads

/-! ### Main result -/

/-- **Reloading.** Files are loaded one after the other, and a process that has loaded nothing loads
the last one of them. Nothing in that file conflicts with the types that the options have already.
Then the log levels are the same if and only if the file sets one other than 0, or sets 0 while the
level is the one at the start, or does not mention it and either no file before did or the level at
the start was the default. -/
theorem reload_independent_iff {level : ℕ} {fs : List ConfFile} {f f' : ConfFile} {s s' t : ConfSys}
    (hbefore : (ConfSys.fresh level).loadAll fs false = some s)
    (hlast : (ConfSys.fresh level).loadAll (fs ++ [f]) false = some s')
    (hfresh : (ConfSys.fresh level).loadAll [f'] false = some t) (hfile : f'.file = f.file)
    (hfits : f'.Fits s.options) :
    s'.level = t.level ↔
      match f'.logLevel with
      | some n => n = 0 → s.level = level
      | none => s.options.get logLevelKey ≠ none → level = 6 := by
  obtain ⟨u, hu, r, hload⟩ := loadAll_concat hlast
  obtain rfl : s = u := Option.some.inj (hbefore.symm.trans hu)
  obtain ⟨u, hu, hnil⟩ := Option.bind_eq_some_iff.mp hfresh
  obtain rfl : u = t := Option.some.inj hnil
  have hinv : s.Inv level := (ConfSys.inv_fresh level).loadAll hbefore
  obtain ⟨th, hth, hlevel, -⟩ := load_cases hload
  obtain ⟨tf, htf, hlevel', -⟩ := load_cases hu
  rw [← hfile] at hth
  have hsim : Sim s.options th tf := (sim_init s.options).parseOptions hinv.1 hfits htf hth
  have hnumber : f'.logLevel = (tf.get logLevelKey).map ConfOption.optInt := by
    have htf : parseOptions f'.addr f'.file.length (f'.file.length + 2) (f'.file ++ [0]) [] 0 =
        some tf := htf
    rw [ConfFile.logLevel, htf]
    rfl
  rw [hlevel, hlevel', hnumber, ConfSys.levelWith, ConfSys.levelWith]
  cases hget : tf.get logLevelKey with
  | some o =>
    obtain ⟨o', ho', -, hint⟩ := hsim.new _ trivial o hget
    rw [ho', Option.map_some]
    dsimp only
    rw [(hint rfl).1]
    by_cases hzero : o.optInt = 0
    · rw [if_neg (not_not.mpr hzero), if_neg (not_not.mpr hzero)]
      exact ⟨fun h _ => h, fun h => h hzero⟩
    · rw [if_pos hzero, if_pos hzero]
      exact iff_of_true rfl fun h => absurd h hzero
  | none =>
    rw [hsim.old _ trivial hget, Option.map_none]
    cases hold : s.options.get logLevelKey with
    | none =>
      obtain ⟨hzero, hkept⟩ := hinv.2 hold
      dsimp only
      rw [if_neg (not_not.mpr hzero), hkept]
      exact iff_of_true rfl fun h => absurd rfl h
    | some o =>
      dsimp only
      rw [hinv.1 o hold, if_pos (by decide)]
      show 6 = level ↔ (some o ≠ none → level = 6)
      exact ⟨fun h _ => h.symm, fun h => (h (by simp)).symm⟩

/-- A file with a text. -/
def confFile (text : String) : ConfFile :=
  ⟨text.toList.map fun c => UInt8.ofNat c.toNat, fun _ => 4096⟩

/-- A file that does not mention the level sets it back to the default. -/
theorem reload_independent_empty : ∃ s t,
    (ConfSys.fresh 6).loadAll [confFile "log_level = 5\n", confFile ""] false = some s ∧
      (ConfSys.fresh 6).loadAll [confFile ""] false = some t ∧ s.level = t.level := by
  have hbefore : ∃ s, (ConfSys.fresh 6).loadAll [confFile "log_level = 5\n"] false = some s :=
    ⟨_, rfl⟩
  have hlast : ∃ s, (ConfSys.fresh 6).loadAll ([confFile "log_level = 5\n"] ++ [confFile ""])
      false = some s := ⟨_, rfl⟩
  have hfresh : ∃ t, (ConfSys.fresh 6).loadAll [confFile ""] false = some t := ⟨_, rfl⟩
  obtain ⟨u, hbefore⟩ := hbefore
  obtain ⟨s, hlast⟩ := hlast
  obtain ⟨t, hfresh⟩ := hfresh
  have hfits : (confFile "").Fits u.options := trivial
  exact ⟨s, t, hlast, hfresh,
    (reload_independent_iff hbefore hlast hfresh rfl hfits).mpr fun _ => rfl⟩

/-- A level of 0 leaves the level of the file before. -/
theorem reload_keeps_level :
    ((ConfSys.fresh 6).loadAll [confFile "log_level = 5\n", confFile "log_level = 0\n"] false).map
        ConfSys.level = some 8 ∧
      ((ConfSys.fresh 6).loadAll [confFile "log_level = 0\n"] false).map
        ConfSys.level = some 6 := by
  decide +kernel

end Tcmu

end LioProject
