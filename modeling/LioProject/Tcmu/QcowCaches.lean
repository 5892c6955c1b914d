import LioProject.Tcmu.Qcow

/-!
# QCOW images: calls that do what they should, and the caches

Most of what is said about images is about environments in which the system calls do what they
should (`Calls.Full`): nothing is transferred in part, and nothing fails. Reads of data and
allocations are excepted, unless it is said. Where another call fails the functions go on all the
same, and leave tables in memory that differ from those in the file.

What remains are two faults that no environment is to blame for (`Expected`): a table of reference
counts that is too small, and a line of a cache that has been asked for `INT_MAX` times.

The two caches are coherent with the file: a lookup gives the line of what it was asked for
(`does_cacheLookup`).
-/

namespace LioProject

namespace Tcmu

/-! ### Calls -/

/-- Which calls may fail after all. -/
structure Calls where
  /-- `preadv` does what it should. -/
  reads : Bool
  /-- There is room: memory and space for files are allocated when they are asked for. -/
  room : Bool

/-- The proposals under which calls do what they should. -/
def Calls.Full (m : Calls) : (o : FileOp) → FileAns o → Prop
  | .pread _ n _, r => ∃ bs, r = some bs ∧ n ≤ bs.length
  | .pwrite _ bytes _, (r : ℤ) => bytes.length ≤ r
  | .preadv _ iov _, (r : ℤ) => m.reads = true → iovTotal iov ≤ r
  | .pwritev _ iov _, (r : ℤ) => iovTotal iov ≤ r
  | .seekEnd _, r => r ≠ none
  | .ftruncate .., r | .zeroRange .., r | .malloc, r => m.room = true → r = true
  | .memset .., _ | .memcpy .., _ => True

/-- The faults that remain. -/
def Expected (f : QcowFault) : Prop := f = .counter ∨ f = .refcounts

/-- In every environment in which the calls do what they should, the program ends as it should, or
with one of the faults that remain. -/
def Does (m : Calls) {α : Type} (p : QcowProg α) (Q : α → Kernel → Prop) (k : Kernel) : Prop :=
  Prog.wp kernelInterp (m.Full) (fun f _ => Expected f) p Q k

section Kernel

variable {k : Kernel} {fd : ℕ} {file : List UInt8}

@[simp] theorem Kernel.files_write_self (k : Kernel) (fd : ℕ) (file : List UInt8) :
    (k.write fd file).files fd = file :=
  Function.update_self ..

theorem Kernel.files_write_of_ne {fd' : ℕ} (h : fd' ≠ fd) :
    (k.write fd file).files fd' = k.files fd' :=
  Function.update_of_ne h ..

@[simp] theorem Kernel.mem_write (k : Kernel) (fd : ℕ) (file : List UInt8) :
    (k.write fd file).mem = k.mem := rfl

@[simp] theorem Kernel.write_write (k : Kernel) (fd : ℕ) (file file' : List UInt8) :
    (k.write fd file).write fd file' = k.write fd file' := by
  rw [Kernel.write, Kernel.write, Kernel.write, Function.update_idem]

@[simp] theorem Kernel.write_self (k : Kernel) (fd : ℕ) : k.write fd (k.files fd) = k := by
  rw [Kernel.write, Function.update_eq_self]

/-- Nothing changes but a file. -/
def Kernel.Only (fd : ℕ) (k k' : Kernel) : Prop := ∃ file', k' = k.write fd file'

theorem Kernel.Only.refl (fd : ℕ) (k : Kernel) : k.Only fd k := ⟨_, (k.write_self fd).symm⟩

theorem Kernel.Only.trans {k' k'' : Kernel} (h : k.Only fd k') (h' : k'.Only fd k'') :
    k.Only fd k'' := by
  obtain ⟨file', rfl⟩ := h
  obtain ⟨file'', rfl⟩ := h'
  exact ⟨file'', k.write_write fd file' file''⟩

end Kernel

section Calls

variable {m : Calls} {α β : Type} {k : Kernel} {fd n offset : ℕ}

theorem does_pure {a : α} {Q : α → Kernel → Prop} (h : Q a k) :
    Does m (pure a : QcowProg α) Q k := h

theorem does_fail {f : QcowFault} {Q : α → Kernel → Prop} (h : Expected f) :
    Does m (.fail f : QcowProg α) Q k := h

/-- A sequence, with the postcondition of its first part spelled out. -/
theorem Does.seq {p : QcowProg α} {f : α → QcowProg β} {R : α → Kernel → Prop}
    {Q : β → Kernel → Prop} (hp : Does m p R k) (hf : ∀ a k', R a k' → Does m (f a) Q k') :
    Does m (p >>= f) Q k :=
  Prog.wp_seq hp hf

theorem Does.mono {p : QcowProg α} {Q R : α → Kernel → Prop} (h : Does m p Q k)
    (hQR : ∀ a k', Q a k' → R a k') : Does m p R k :=
  Prog.wp_mono h hQR

/-- A read of bytes of the file. -/
theorem does_pread {Q : Option (List UInt8) → Kernel → Prop}
    (h : Q (some (slice (k.files fd) offset n)) k) : Does m (Sys.pread fd n offset) Q k := by
  rintro a ⟨bs, rfl, hle⟩ r k' hr
  obtain ⟨rfl, rfl⟩ := Prod.mk.inj (Option.some.inj hr)
  change Q (some (slice (k.files fd) offset (min n bs.length))) k
  rwa [Nat.min_eq_left hle]

/-- A write of bytes into the file. -/
theorem does_pwrite {bytes : List UInt8} {Q : ℤ → Kernel → Prop}
    (h : Q bytes.length (k.write fd (writeAt 0 (k.files fd) offset bytes))) :
    Does m (Sys.pwrite fd bytes offset) Q k := by
  intro a hle r k' hr
  change (bytes.length : ℤ) ≤ a at hle
  have hnat : bytes.length ≤ Int.toNat a := by omega
  rw [kernelInterp, if_neg (by omega), List.take_of_length_le hnat, Nat.min_eq_right hnat] at hr
  obtain ⟨rfl, rfl⟩ := Prod.mk.inj (Option.some.inj hr)
  exact h

/-- A write of what the entries of a scatter list describe. -/
theorem does_pwritev {iov : List Iovec} {Q : ℤ → Kernel → Prop}
    (h : Q (iovTotal iov) (k.write fd (writeAt 0 (k.files fd) offset (gather iov k.mem)))) :
    Does m (Sys.pwritev fd iov offset) Q k := by
  intro a hle r k' hr
  change (iovTotal iov : ℤ) ≤ a at hle
  have hlen := length_gather iov k.mem
  have hnat : (gather iov k.mem).length ≤ Int.toNat a := by omega
  rw [kernelInterp, if_neg (by omega), List.take_of_length_le hnat] at hr
  obtain ⟨rfl, rfl⟩ := Prod.mk.inj (Option.some.inj hr)
  change Q ((gather iov k.mem).length : ℕ) _
  rwa [hlen]

/-- A read into the entries of a scatter list: it fails, or transfers some bytes, or all of them
that there are. -/
theorem does_preadv {iov : List Iovec} {Q : ℤ → Kernel → Prop}
    (hfail : m.reads = false → ∀ r < 0, Q r k)
    (hpart : ∀ l ≤ iovTotal iov, (m.reads = true → l = iovTotal iov) →
      Q (slice (k.files fd) offset l).length
        { k with mem := scatter k.mem iov (slice (k.files fd) offset l) }) :
    Does m (Sys.preadv fd iov offset) Q k := by
  intro a hle r k' hr
  change m.reads = true → (iovTotal iov : ℤ) ≤ a at hle
  rw [kernelInterp] at hr
  split at hr
  · rename_i hneg
    obtain ⟨rfl, rfl⟩ := Prod.mk.inj (Option.some.inj hr)
    refine hfail ?_ a hneg
    cases hreads : m.reads with
    | false => rfl
    | true => exact absurd (hle hreads) (by omega)
  · rename_i hpos
    obtain ⟨rfl, rfl⟩ := Prod.mk.inj (Option.some.inj hr)
    refine hpart _ (Nat.min_le_right _ _) fun hfull => ?_
    have hall := hle hfull
    exact Nat.min_eq_right (by omega)

theorem does_seekEnd {Q : Option ℕ → Kernel → Prop} (h : Q (some (k.files fd).length) k) :
    Does m (Sys.seekEnd fd) Q k := by
  intro a hne r k' hr
  obtain ⟨rfl, rfl⟩ := Prod.mk.inj (Option.some.inj hr)
  change Option ℕ at a
  cases a with
  | none => exact absurd rfl hne
  | some x => exact h

/-- A file grows, up to what an `off_t` can say. -/
theorem does_ftruncate {Q : Bool → Kernel → Prop}
    (hfail : (m.room = true → 2 ^ 63 ≤ n) → Q false k)
    (h : n < 2 ^ 63 → Q true (k.write fd (resize (k.files fd) n))) :
    Does m (Sys.ftruncate fd n) Q k := by
  intro a ha r k' hr
  change m.room = true → a = true at ha
  rw [kernelInterp] at hr
  split at hr
  · rename_i hok
    obtain ⟨rfl, rfl⟩ := Prod.mk.inj (Option.some.inj hr)
    exact h hok.2
  · rename_i hno
    obtain ⟨rfl, rfl⟩ := Prod.mk.inj (Option.some.inj hr)
    exact hfail fun hroom => Nat.le_of_not_lt fun hlt => hno ⟨ha hroom, hlt⟩

theorem does_zeroRange {Q : Bool → Kernel → Prop} (hfail : m.room = false → Q false k)
    (h : Q true (k.write fd (writeAt 0 (k.files fd) offset (List.replicate n 0)))) :
    Does m (Sys.zeroRange fd offset n) Q k := by
  intro a ha r k' hr
  change Bool at a
  change m.room = true → a = true at ha
  obtain ⟨rfl, rfl⟩ := Prod.mk.inj (Option.some.inj hr)
  cases a with
  | true => exact h
  | false => exact hfail (by simpa using ha)

theorem does_malloc {Q : Bool → Kernel → Prop} (hfail : m.room = false → Q false k)
    (h : Q true k) : Does m Sys.malloc Q k := by
  intro a ha r k' hr
  change Bool at a
  change m.room = true → a = true at ha
  obtain ⟨rfl, rfl⟩ := Prod.mk.inj (Option.some.inj hr)
  cases a with
  | true => exact h
  | false => exact hfail (by simpa using ha)

theorem does_memset {iov : List Iovec} {Q : Unit → Kernel → Prop}
    (h : Q () { k with mem := scatter k.mem iov (List.replicate (min n (iovTotal iov)) 0) }) :
    Does m (Sys.memset iov n) Q k := by
  rintro a - r k' hr
  obtain ⟨rfl, rfl⟩ := Prod.mk.inj (Option.some.inj hr)
  exact h

theorem does_memcpy {iov : List Iovec} {bytes : List UInt8} {Q : Unit → Kernel → Prop}
    (h : Q () { k with mem := scatter k.mem iov bytes }) :
    Does m (Sys.memcpy iov bytes) Q k := by
  rintro a - r k' hr
  obtain ⟨rfl, rfl⟩ := Prod.mk.inj (Option.some.inj hr)
  exact h

end Calls

/-! ### Lookups -/

/-- The cache has lines, they are coherent with the pieces of `n` bytes of the file, and all of them
that have been filled have a tag in `T`. -/
structure CacheOf (file : List UInt8) (n : ℕ) (T : ℕ → Prop)
    (ls : List (CacheLine (List UInt8))) : Prop where
  coherent : CacheLine.Coherent (fun t => slice file t n) ls
  lines : 0 < ls.length
  tags : ∀ {i : ℕ} {l : CacheLine (List UInt8)}, ls[i]? = some l → l.tag ≠ 0 → T l.tag

section Lookup

variable {m : Calls} {k : Kernel} {fd n offset : ℕ} {T : ℕ → Prop}
  {ls : List (CacheLine (List UInt8))}

/-- A line of the cache with a piece of the file. -/
structure LineOf (file : List UInt8) (n offset : ℕ) (ls : List (CacheLine (List UInt8))) (i : ℕ) :
    Prop where
  line : ∃ l, ls[i]? = some l ∧ l.tag = offset
  data : lineData ls i = slice file offset n

theorem CacheOf.lineOf {file : List UInt8} {l : CacheLine (List UInt8)} {i : ℕ}
    (h : CacheOf file n T ls) (hl : ls[i]? = some l) (htag : l.tag = offset) (h0 : offset ≠ 0) :
    LineOf file n offset ls i := by
  refine ⟨⟨l, hl, htag⟩, ?_⟩
  rw [lineData, hl]
  exact (h.coherent.data hl (htag ▸ h0)).trans (by rw [htag])

/-- A piece is written, to its line and to the file. -/
theorem CacheOf.write {file file' bs : List UInt8} {i : ℕ} (h : CacheOf file n T ls)
    (hline : LineOf file n offset ls i) (hself : slice file' offset n = bs)
    (hothers : ∀ o, o ≠ 0 → o ≠ offset → T o → slice file' o n = slice file o n) :
    CacheOf file' n T (CacheLine.rewrite ls i fun _ => bs) := by
  obtain ⟨l, hl, rfl⟩ := hline.line
  refine ⟨h.coherent.write hl hself fun hm hne h0 => hothers _ h0 hne (h.tags hm h0), ?_, ?_⟩
  · rw [CacheLine.length_rewrite]
    exact h.lines
  · intro j m hm h0
    obtain ⟨m', hm', htag, -⟩ := CacheLine.getElem?_rewrite hm
    rw [htag] at h0 ⊢
    exact h.tags hm' h0

/-- **A lookup** gives the line of what it was asked for. -/
theorem does_cacheLookup (h : CacheOf (k.files fd) n T ls) (hT : T offset) (h0 : offset ≠ 0)
    (hin : offset + n ≤ (k.files fd).length) :
    Does m (cacheLookup fd n ls offset)
      (fun r k' => k' = k ∧ CacheOf (k.files fd) n T r.2 ∧
        ∃ i, r.1 = some i ∧ LineOf (k.files fd) n offset r.2 i) k := by
  rw [cacheLookup]
  split
  · rename_i i hhit
    obtain ⟨l, hl, htag⟩ := CacheLine.hit_eq_some hhit
    have htouch : CacheOf (k.files fd) n T (CacheLine.touch ls i) := by
      refine ⟨h.coherent.touch i, by rw [CacheLine.length_touch]; exact h.lines, ?_⟩
      intro j l hl htag
      obtain ⟨l', hl', htag', -⟩ := CacheLine.getElem?_touch hl
      rw [htag'] at htag ⊢
      exact h.tags hl' htag
    dsimp only
    split
    · exact does_fail (Or.inl rfl)
    · refine does_pure ⟨rfl, htouch, i, rfl, htouch.lineOf (l := { l with count := l.count + 1 }) ?_
        htag h0⟩
      rw [CacheLine.touch, List.getElem?_modify, hl]
      simp
  · rename_i hmiss
    have hlen : (slice (k.files fd) offset n).length = n := length_slice hin
    have hlt : CacheLine.leastUsed ls 0 0 intMax < ls.length :=
      CacheLine.leastUsed_lt h.lines (by omega)
    refine Does.seq (does_pread (Q := fun r k' =>
      r = some (slice (k.files fd) offset n) ∧ k' = k) ⟨rfl, rfl⟩) ?_
    rintro _ k' ⟨rfl, hk⟩
    rw [hk]
    dsimp only
    rw [if_pos hlen]
    have hfill : CacheOf (k.files fd) n T
        (ls.set (CacheLine.leastUsed ls 0 0 intMax) ⟨offset, 1, slice (k.files fd) offset n⟩) := by
      refine ⟨h.coherent.fill hmiss _ 1, by rw [List.length_set]; exact h.lines, ?_⟩
      intro j l hl htag
      rw [List.getElem?_set] at hl
      split at hl
      · obtain rfl := Option.some.inj hl
        exact hT
      · exact h.tags hl htag
    refine does_pure ⟨rfl, hfill, _, rfl, hfill.lineOf (List.getElem?_set_self hlt) rfl h0⟩

end Lookup

end Tcmu

end LioProject
