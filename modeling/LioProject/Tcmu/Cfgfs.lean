import LioProject.Tcmu.ConfigLine
import Mathlib.Data.List.TakeWhile

/-!
# Reading an attribute of configfs

`tcmu_get_cfgfs_str` reads an attribute into a buffer of `CFGFS_BUF_SIZE` zero bytes and returns it
as a string. The members of an attribute may be separated by `NUL`s, which become newlines, and one
newline or `NUL` at the end is left out.

The `NUL`s are found with `strlen`, which needs one behind the contents. There is one unless the
contents fill the buffer, and for that case the function has a message of its own; but by then
`strlen` has been called (`full_attribute_overruns`). `cfgfs_str_iff` says that shorter contents
come back as they should.
-/

namespace LioProject

namespace Tcmu

/-! ### The function -/

/-- `CFGFS_BUF_SIZE`. -/
def cfgfsBufSize : ℕ := 4096

/-- The loop that replaces `NUL`s, for up to `k` turns. -/
def nulToNewline (ret : ℕ) : ℕ → ConfBuf → Option ConfBuf
  | 0, _ => none
  | k + 1, buf => do
    let n ← buf.scanIn (· ≠ 0) 0
    let buf ← buf.setIn n 10
    if n < ret then nulToNewline ret k buf else some buf

/-- What comes behind the loop: a newline at the end is left out, and a `NUL` is put behind the
contents if there is none. `strdup` may find no memory. -/
def cfgfsCopy (ret : ℕ) (memory : Bool) (buf : ConfBuf) : Option (Option (List UInt8)) :=
  let buf : ConfBuf := if buf.char (ret - 1) = 10 then buf.set (ret - 1) 0 else buf
  if buf.char (ret - 1) ≠ 0 ∧ cfgfsBufSize ≤ ret then some none
  else do
    let buf : ConfBuf := if buf.char (ret - 1) ≠ 0 then buf.set ret 0 else buf
    let val ← buf.strIn 0
    some (if memory then some val else none)

/-- `tcmu_get_cfgfs_str`, with up to `k` turns of its loop: what `read` has delivered, if the file
could be opened and read, and whether `strdup` finds memory. There is no result when the loop goes
on or an access leaves the buffer, and the result `none` is `NULL`. -/
def tcmuGetCfgfsStr (k : ℕ) (read : Option (List UInt8)) (memory : Bool) :
    Option (Option (List UInt8)) :=
  match read with
  | none => some none
  | some data =>
    let ret := data.length
    if ret = 0 then some none
    else do
      let buf : ConfBuf := data ++ List.replicate (cfgfsBufSize - ret) 0
      let n ← buf.scanIn (· ≠ 0) 0
      let buf ← if ret ≠ n then nulToNewline ret k buf else some buf
      cfgfsCopy ret memory buf

/-! ### What it is for -/

/-- An attribute that has something in it, and fits. -/
structure Attribute where
  /-- The contents. -/
  data : List UInt8
  ne : data ≠ []
  le : data.length ≤ cfgfsBufSize

/-- A newline for a `NUL`. -/
def newlineFor (c : UInt8) : UInt8 := if c = 0 then 10 else c

/-- The string that should be returned. -/
def Attribute.str (a : Attribute) : List UInt8 :=
  if newlineFor (a.data.getLast a.ne) = 10 then a.data.dropLast.map newlineFor
  else a.data.map newlineFor

/-- The function ends inside its buffer, with the string, or with `NULL` if the contents fill the
buffer and leave no room for a `NUL`. -/
def Attribute.Faithful (a : Attribute) : Prop :=
  ∃ k val, tcmuGetCfgfsStr k (some a.data) true = some val ∧
    (val = some a.str ∨
      val = none ∧ a.data.length = cfgfsBufSize ∧ newlineFor (a.data.getLast a.ne) ≠ 10)

/-! ### Strings in a buffer -/

section Strings

variable {xs ys zs : List UInt8} {c d : UInt8} {k ret : ℕ} {buf : ConfBuf}

/-- `strlen`. -/
theorem scanIn_nul (h : 0 ∉ xs) (zs : List UInt8) :
    ConfBuf.scanIn (xs ++ 0 :: zs) (· ≠ 0) 0 = some xs.length := by
  have hpass : ∀ c ∈ xs, decide (c ≠ 0) = true := by
    intro c hc
    simpa using fun hz : c = 0 => h (hz ▸ hc)
  have hscan : ConfBuf.scan (xs ++ 0 :: zs) (· ≠ 0) 0 = xs.length := by
    rw [ConfBuf.scan, List.drop_zero, List.takeWhile_append_of_pos hpass,
      List.takeWhile_cons_of_neg (by simp)]
    simp
  exact scanIn_eq_some.mpr ⟨hscan, by simp⟩

theorem strIn_nul (h : 0 ∉ xs) (zs : List UInt8) :
    ConfBuf.strIn (xs ++ 0 :: zs) 0 = some xs := by
  have hpass : ∀ c ∈ xs, decide (c ≠ 0) = true := by
    intro c hc
    simpa using fun hz : c = 0 => h (hz ▸ hc)
  rw [ConfBuf.strIn, scanIn_nul h, Option.map_some, ConfBuf.str, List.drop_zero,
    List.takeWhile_append_of_pos hpass, List.takeWhile_cons_of_neg (by simp), List.append_nil]

theorem set_at_length (xs zs : List UInt8) (c d : UInt8) :
    (xs ++ c :: zs).set xs.length d = xs ++ d :: zs := by
  rw [List.set_append_right _ _ (Nat.le_refl _), Nat.sub_self, List.set_cons_zero]

theorem char_at_length (xs zs : List UInt8) (c : UInt8) :
    ConfBuf.char (xs ++ c :: zs) xs.length = c := by
  rw [ConfBuf.char, List.getD_append_right _ _ _ _ (Nat.le_refl _), Nat.sub_self]
  rfl

theorem zero_not_mem_map (xs : List UInt8) : 0 ∉ xs.map newlineFor := by
  intro h
  obtain ⟨c, -, hc⟩ := List.mem_map.mp h
  rw [newlineFor] at hc
  split at hc
  · exact absurd hc (by decide)
  · rename_i hne
    exact hne hc

theorem map_newlineFor (h : 0 ∉ xs) : xs.map newlineFor = xs := by
  conv_rhs => rw [← List.map_id xs]
  refine List.map_congr_left fun c hc => ?_
  rw [newlineFor, if_neg (fun hz : c = 0 => h (hz ▸ hc))]
  rfl

/-- **The loop.** Every `NUL` of the contents becomes a newline, and so does the first one behind
them. -/
theorem nulToNewline_eq (hxs : 0 ∉ xs) (hret : xs.length + ys.length = ret) (hk : ys.length < k) :
    nulToNewline ret k (xs ++ ys ++ 0 :: zs) = some (xs ++ ys.map newlineFor ++ 10 :: zs) := by
  have hsetIn : ∀ (as bs : List UInt8), ConfBuf.setIn (as ++ 0 :: bs) as.length 10 =
      some (as ++ 10 :: bs) := by
    intro as bs
    rw [setIn_of_lt (by simp), set_at_length]
  induction k generalizing xs ys with
  | zero => exact absurd hk (Nat.not_lt_zero _)
  | succ k ih =>
    by_cases h0 : 0 ∈ ys
    · -- the first of them
      obtain ⟨as, bs, rfl, has⟩ := List.eq_append_cons_of_mem h0
      have hbuf : xs ++ (as ++ 0 :: bs) ++ 0 :: zs = (xs ++ as) ++ 0 :: (bs ++ 0 :: zs) := by simp
      have hfirst : 0 ∉ xs ++ as := by
        rw [List.mem_append]
        exact not_or.mpr ⟨hxs, has⟩
      rw [List.length_append, List.length_cons] at hret hk
      have hsecond : 0 ∉ xs ++ as ++ [10] := by simpa using hfirst
      have hlen : (xs ++ as ++ [10]).length + bs.length = ret := by
        simp only [List.length_append, List.length_singleton]
        omega
      have hrest := ih hsecond hlen (by omega)
      rw [nulToNewline, hbuf, scanIn_nul hfirst]
      change ((ConfBuf.setIn _ _ 10).bind _) = _
      rw [hsetIn, Option.bind_some, if_pos (by rw [List.length_append]; omega)]
      rw [show xs ++ as ++ 10 :: (bs ++ 0 :: zs) = xs ++ as ++ [10] ++ bs ++ 0 :: zs by simp, hrest,
        List.map_append, List.map_cons, map_newlineFor has]
      simp [newlineFor]
    · -- there is none left
      have hall : 0 ∉ xs ++ ys := by
        rw [List.mem_append]
        exact not_or.mpr ⟨hxs, h0⟩
      rw [nulToNewline, scanIn_nul hall]
      change ((ConfBuf.setIn _ _ 10).bind _) = _
      rw [hsetIn, Option.bind_some,
        if_neg (by rw [List.length_append]; omega), map_newlineFor h0]

/-- Without a `NUL` behind the contents, the loop leaves the buffer. -/
theorem nulToNewline_of_full (h : buf.length = ret) : nulToNewline ret k buf = none := by
  induction k generalizing buf with
  | zero => rfl
  | succ k ih =>
    rw [nulToNewline, Option.bind_eq_bind, Option.bind_eq_none_iff]
    intro n hn
    obtain ⟨-, hlt⟩ := scanIn_eq_some.mp hn
    rw [setIn_of_lt hlt]
    change (if n < ret then nulToNewline ret k (buf.set n 10) else _) = none
    rw [if_pos (h ▸ hlt)]
    exact ih (by rw [length_set, h])

end Strings

/-! ### Main result -/

section Main

variable {a : Attribute} {k : ℕ}

theorem length_pos (a : Attribute) : 0 < a.data.length := List.length_pos_iff.mpr a.ne

/-- The last part of the function, for contents with no `NUL` left in them and one character
behind. -/
theorem cfgfsCopy_eq {xs zs : List UInt8} {x : UInt8} (hxs : 0 ∉ xs) (hne : xs ≠ [])
    (hlt : xs.length < cfgfsBufSize) :
    cfgfsCopy xs.length true (xs ++ x :: zs) =
      some (some (if xs.getLast hne = 10 then xs.dropLast else xs)) := by
  obtain ⟨init, l, rfl⟩ : ∃ init l, xs = init ++ [l] :=
    ⟨_, _, (List.dropLast_append_getLast hne).symm⟩
  have hinit : 0 ∉ init := fun h => hxs (List.mem_append_left _ h)
  have hl : l ≠ 0 := fun h => hxs (h ▸ List.mem_append_right _ (List.mem_singleton_self _))
  have hbuf : init ++ [l] ++ x :: zs = init ++ l :: (x :: zs) := by simp
  have hret : (init ++ [l]).length - 1 = init.length := by simp
  have hlast : ConfBuf.char (init ++ [l] ++ x :: zs) init.length = l := by
    rw [hbuf, char_at_length]
  rw [List.getLast_append_singleton, List.dropLast_concat, cfgfsCopy, hret]
  dsimp only
  by_cases hnewline : l = 10
  · have htrim : (if ConfBuf.char (init ++ [l] ++ x :: zs) init.length = 10 then
        (init ++ [l] ++ x :: zs).set init.length 0 else init ++ [l] ++ x :: zs) =
        init ++ 0 :: (x :: zs) := by
      rw [if_pos (hlast.trans hnewline), hbuf, set_at_length]
    rw [htrim, char_at_length, if_neg (fun h => h.1 rfl), if_neg (fun h => h rfl),
      strIn_nul hinit, if_pos hnewline]
    rfl
  · have htrim : (if ConfBuf.char (init ++ [l] ++ x :: zs) init.length = 10 then
        (init ++ [l] ++ x :: zs).set init.length 0 else init ++ [l] ++ x :: zs) =
        init ++ [l] ++ x :: zs := if_neg fun h => hnewline (hlast.symm.trans h)
    rw [htrim, hlast, if_neg (fun h => Nat.not_le.mpr hlt h.2), if_pos hl, set_at_length,
      strIn_nul hxs, if_neg hnewline]
    rfl

/-- Contents that leave room come back. -/
theorem cfgfs_of_lt (hlt : a.data.length < cfgfsBufSize) (hk : a.data.length < k) :
    tcmuGetCfgfsStr k (some a.data) true = some (some a.str) := by
  obtain ⟨zs, hzs⟩ : ∃ zs, List.replicate (cfgfsBufSize - a.data.length) (0 : UInt8) = 0 :: zs :=
    ⟨List.replicate (cfgfsBufSize - a.data.length - 1) 0, by
      rw [← List.replicate_succ, show cfgfsBufSize - a.data.length - 1 + 1 =
        cfgfsBufSize - a.data.length by omega]⟩
  have hne : a.data.map newlineFor ≠ [] := by simpa using a.ne
  have hcopy : ∀ x, cfgfsCopy a.data.length true (a.data.map newlineFor ++ x :: zs) =
      some (some a.str) := by
    intro x
    have hlen : (a.data.map newlineFor).length = a.data.length := List.length_map ..
    have h := @cfgfsCopy_eq _ zs x (zero_not_mem_map a.data) hne (hlen.symm ▸ hlt)
    rw [hlen, List.getLast_map, ← List.map_dropLast] at h
    exact h
  rw [tcmuGetCfgfsStr]
  dsimp only
  rw [if_neg (Nat.ne_of_gt (length_pos a)), hzs]
  by_cases h0 : 0 ∈ a.data
  · obtain ⟨as, bs, hdata, has⟩ := List.eq_append_cons_of_mem h0
    have hscan : ConfBuf.scanIn (a.data ++ 0 :: zs) (· ≠ 0) 0 = some as.length := by
      rw [hdata, List.append_assoc, List.cons_append]
      exact scanIn_nul has _
    have hloop : nulToNewline a.data.length k ([] ++ a.data ++ 0 :: zs) =
        some ([] ++ a.data.map newlineFor ++ 10 :: zs) :=
      nulToNewline_eq (by simp) (Nat.zero_add _) hk
    rw [List.nil_append, List.nil_append] at hloop
    have hne' : a.data.length ≠ as.length := by
      rw [hdata, List.length_append, List.length_cons]
      omega
    rw [hscan, Option.bind_eq_bind, Option.bind_some, if_pos hne', hloop]
    exact hcopy 10
  · rw [scanIn_nul h0, Option.bind_eq_bind, Option.bind_some, if_neg (fun h => h rfl)]
    have h := hcopy 0
    rw [map_newlineFor h0] at h
    exact h

/-- Contents that fill the buffer overrun it. -/
theorem cfgfs_of_full (hfull : a.data.length = cfgfsBufSize) (memory : Bool) :
    tcmuGetCfgfsStr k (some a.data) memory = none := by
  rw [tcmuGetCfgfsStr]
  dsimp only
  rw [if_neg (Nat.ne_of_gt (length_pos a)), hfull, Nat.sub_self, List.replicate_zero,
    List.append_nil, Option.bind_eq_bind, Option.bind_eq_none_iff]
  intro n hn
  obtain ⟨-, hlt⟩ := scanIn_eq_some.mp hn
  rw [if_pos (by omega), nulToNewline_of_full hfull]
  rfl

/-- **Reading an attribute.** It is faithful if and only if the contents leave room for a `NUL`. -/
theorem cfgfs_str_iff (a : Attribute) : a.Faithful ↔ a.data.length < cfgfsBufSize := by
  constructor
  · rintro ⟨k, val, hval, -⟩
    refine Nat.lt_of_le_of_ne a.le fun hfull => ?_
    rw [cfgfs_of_full hfull] at hval
    exact absurd hval (by simp)
  · intro hlt
    exact ⟨a.data.length + 1, _, cfgfs_of_lt hlt (Nat.lt_succ_self _), Or.inl rfl⟩

/-- An attribute of `CFGFS_BUF_SIZE` bytes. -/
def fullAttribute : Attribute :=
  { data := List.replicate cfgfsBufSize 97
    ne := by decide
    le := by rw [List.length_replicate] }

/-- `strlen` leaves the buffer. -/
theorem full_attribute_overruns : (∀ k, tcmuGetCfgfsStr k (some fullAttribute.data) true = none) ∧
    ¬ fullAttribute.Faithful := by
  have hnone : ∀ k, tcmuGetCfgfsStr k (some fullAttribute.data) true = none :=
    fun k => cfgfs_of_full List.length_replicate true
  refine ⟨hnone, fun ⟨k, val, hval, _⟩ => ?_⟩
  rw [hnone k] at hval
  exact absurd hval (by simp)

end Main

end Tcmu

end LioProject
