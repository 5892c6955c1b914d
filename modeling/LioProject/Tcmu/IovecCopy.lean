import LioProject.Lib.Places
import LioProject.Tcmu.CawSeek

/-!
# Copying into scatter lists and out of them

`tcmu_memcpy_into_iovec` and `tcmu_memcpy_from_iovec` change the entries that they touch, so that
the next call goes on where the last one has stopped. Here the array is part of the result, and the
flat buffer is in memory like everything else. What a scatter list is for is said by the addresses
that it describes: copying into it is `fill` at these addresses, and afterwards it describes those
that are left.
-/

namespace LioProject

namespace Tcmu

/-! ### The loops -/

/-- What a copy leaves behind. -/
structure IovecCopy where
  /-- The memory. -/
  mem : Mem
  /-- The entries of the array. -/
  iov : List Iovec
  /-- The number of bytes copied. -/
  copied : ℕ

/-- An entry comes before the others. -/
def IovecCopy.cons (v : Iovec) (r : IovecCopy) : IovecCopy := { r with iov := v :: r.iov }

/-- An entry without its first `n` bytes. -/
def Iovec.advance (v : Iovec) (n : ℕ) : Iovec := ⟨v.base + n, v.len - n⟩

/-- The loop of both functions. `move` copies the given number of bytes between the entry with the
given address and the flat buffer, from which so many bytes have been used. -/
def memcpyLoop (move : Mem → (copied base toCopy : ℕ) → Mem) :
    Mem → List Iovec → (len copied : ℕ) → IovecCopy
  | mem, [], _, copied => ⟨mem, [], copied⟩
  | mem, v :: vs, len, copied =>
    if len = 0 then ⟨mem, v :: vs, copied⟩
    else
      let toCopy := min v.len len
      if toCopy = 0 then (memcpyLoop move mem vs len copied).cons v
      else
        (memcpyLoop move (move mem copied v.base toCopy) vs (len - toCopy) (copied + toCopy)).cons
          (v.advance toCopy)

/-- `memcpy(iovec->iov_base, src + copied, to_copy)`. -/
def moveInto (src : ℕ) (mem : Mem) (copied base toCopy : ℕ) : Mem :=
  mem.store base (mem.load (src + copied) toCopy)

/-- `memcpy(dest + copied, iovec->iov_base, to_copy)`. -/
def moveFrom (dest : ℕ) (mem : Mem) (copied base toCopy : ℕ) : Mem :=
  mem.store (dest + copied) (mem.load base toCopy)

/-- `tcmu_memcpy_into_iovec`, for a buffer at address `src`. -/
def Mem.tcmuMemcpyIntoIovec (mem : Mem) (iov : List Iovec) (src len : ℕ) : IovecCopy :=
  memcpyLoop (moveInto src) mem iov len 0

/-- `tcmu_memcpy_from_iovec`, for a buffer at address `dest`. -/
def Mem.tcmuMemcpyFromIovec (mem : Mem) (dest len : ℕ) (iov : List Iovec) : IovecCopy :=
  memcpyLoop (moveFrom dest) mem iov len 0

/-! ### Addresses -/

/-- The addresses that a scatter list describes, one entry after the other. -/
def addresses (iov : List Iovec) : List ℕ := iov.flatMap fun v => List.range' v.base v.len

section Addresses

variable {iov : List Iovec} {mem : Mem} {v : Iovec} {a n k : ℕ}

theorem Mem.load_eq_map (mem : Mem) (a n : ℕ) : mem.load a n = (List.range' a n).map mem := by
  rw [Mem.load, List.range'_eq_map_range, List.map_map]
  rfl

/-- Storing is filling. -/
theorem Mem.store_eq_fill (mem : Mem) (a : ℕ) (bs : List UInt8) :
    mem.store a bs = fill mem (List.range' a bs.length) bs := by
  induction bs generalizing mem a with
  | nil => rw [Mem.store_nil, fill_nil_right]
  | cons b bs ih =>
    have hone : mem.store a [b] = Function.update mem a b := by
      funext x
      rw [Mem.store, Function.update_apply]
      rcases Nat.lt_trichotomy x a with hlt | rfl | hgt
      · rw [if_neg (by omega), if_neg (by omega)]
      · rw [if_pos (Nat.le_refl _), if_pos rfl, Nat.sub_self]
        rfl
      · rw [if_pos (by omega), if_neg (by omega), List.getD_eq_default _ _ (by simp; omega)]
    rw [← List.singleton_append, Mem.store_append, ih, hone]
    rfl

/-- Storing in front. -/
theorem Mem.store_eq_fill_of_le (mem : Mem) (a : ℕ) {bs : List UInt8} (h : bs.length ≤ n) :
    mem.store a bs = fill mem (List.range' a n) bs := by
  rw [Mem.store_eq_fill, ← fill_take_left mem (List.range' a n), List.take_range'_of_length_ge h]

/-- Filling elsewhere does not change what is loaded. -/
theorem Mem.load_fill {xs : List ℕ} {bs : List UInt8} (h : ∀ i < n, a + i ∉ xs) :
    Mem.load (fill mem xs bs) a n = mem.load a n :=
  List.map_congr_left fun i hi => fill_of_notMem (h i (List.mem_range.mp hi))

@[simp] theorem addresses_nil : addresses [] = [] := rfl

theorem addresses_cons (v : Iovec) (iov : List Iovec) :
    addresses (v :: iov) = List.range' v.base v.len ++ addresses iov := List.flatMap_cons

theorem gather_eq_map (iov : List Iovec) (mem : Mem) :
    gather iov mem = (addresses iov).map mem := by
  induction iov with
  | nil => rfl
  | cons v iov ih =>
    rw [gather_cons, addresses_cons, List.map_append, ← Mem.load_eq_map, ih]

theorem length_addresses (iov : List Iovec) : (addresses iov).length = iovTotal iov := by
  rw [← length_gather iov fun _ => 0, gather_eq_map, List.length_map]

/-- Putting bytes into the entries is filling their addresses. -/
theorem scatter_eq_fill (mem : Mem) (iov : List Iovec) (bs : List UInt8) :
    scatter mem iov bs = fill mem (addresses iov) bs := by
  induction iov generalizing mem bs with
  | nil => rw [scatter, addresses_nil, fill_nil_left]
  | cons v iov ih =>
    rw [scatter, ih, addresses_cons, fill_append, List.length_range',
      Mem.store_eq_fill_of_le mem v.base (List.length_take_le v.len bs)]

/-! ### The array -/

/-- The entries when `n` bytes have been copied. -/
def iovAfter : List Iovec → ℕ → List Iovec
  | [], _ => []
  | v :: vs, n => v.advance (min v.len n) :: iovAfter vs (n - min v.len n)

@[simp] theorem Iovec.advance_zero (v : Iovec) : v.advance 0 = v := rfl

theorem iovAfter_zero (iov : List Iovec) : iovAfter iov 0 = iov := by
  induction iov with
  | nil => rfl
  | cons v iov ih => rw [iovAfter, Nat.min_zero, Nat.sub_zero, ih, Iovec.advance_zero]

theorem length_iovAfter (iov : List Iovec) (n : ℕ) : (iovAfter iov n).length = iov.length := by
  induction iov generalizing n with
  | nil => rfl
  | cons v iov ih => rw [iovAfter, List.length_cons, List.length_cons, ih]

/-- The entries describe what is left. -/
theorem addresses_iovAfter (iov : List Iovec) (n : ℕ) :
    addresses (iovAfter iov n) = (addresses iov).drop n := by
  induction iov generalizing n with
  | nil => rw [iovAfter, addresses_nil, List.drop_nil]
  | cons v iov ih =>
    rw [iovAfter, addresses_cons, addresses_cons, ih, List.drop_append, List.length_range',
      List.drop_range']
    change List.range' (v.base + min v.len n) (v.len - min v.len n) ++ _ = _
    rcases Nat.le_total v.len n with hle | hge
    · rw [Nat.min_eq_left hle, Nat.sub_self, Nat.sub_eq_zero_of_le hle, List.range'_zero,
        List.range'_zero]
    · rw [Nat.min_eq_right hge, Nat.sub_self, Nat.sub_eq_zero_of_le hge, Nat.mul_one]

theorem iovTotal_iovAfter (iov : List Iovec) (n : ℕ) :
    iovTotal (iovAfter iov n) = iovTotal iov - n := by
  rw [← length_addresses, addresses_iovAfter, List.length_drop, length_addresses]

/-- Two copies leave what one copy of all the bytes leaves. -/
theorem iovAfter_iovAfter (iov : List Iovec) (n k : ℕ) :
    iovAfter (iovAfter iov n) k = iovAfter iov (n + k) := by
  induction iov generalizing n k with
  | nil => rfl
  | cons v iov ih =>
    rw [iovAfter, iovAfter, iovAfter, ih]
    congr 1
    · simp only [Iovec.advance, Iovec.mk.injEq]
      omega
    · congr 1
      simp only [Iovec.advance]
      omega

end Addresses

/-! ### The loops, again -/

section Loops

variable {iov : List Iovec} {mem : Mem} {move : Mem → ℕ → ℕ → ℕ → Mem} {src dest len copied : ℕ}

theorem memcpyLoop_iov : (memcpyLoop move mem iov len copied).iov = iovAfter iov len := by
  induction iov generalizing mem len copied with
  | nil => rfl
  | cons v iov ih =>
    rw [memcpyLoop]
    split
    · rename_i hlen
      rw [hlen, iovAfter_zero]
    · dsimp only
      split
      · rename_i hzero
        rw [IovecCopy.cons, ih, iovAfter, hzero, Nat.sub_zero, Iovec.advance_zero]
      · rw [IovecCopy.cons, ih, iovAfter]

theorem memcpyLoop_copied :
    (memcpyLoop move mem iov len copied).copied = copied + min len (iovTotal iov) := by
  induction iov generalizing mem len copied with
  | nil => rw [memcpyLoop, iovTotal, List.map_nil, List.sum_nil, Nat.min_zero, Nat.add_zero]
  | cons v iov ih =>
    rw [memcpyLoop, iovTotal_cons]
    split
    · dsimp only
      omega
    · dsimp only
      split
      · rw [IovecCopy.cons, ih]
        omega
      · rw [IovecCopy.cons, ih]
        omega

/-- **Copying in** fills the addresses with the bytes of the buffer. -/
theorem memcpyLoop_into
    (h : ∀ i < min len (iovTotal iov), src + copied + i ∉ addresses iov) :
    (memcpyLoop (moveInto src) mem iov len copied).mem =
      fill mem (addresses iov) (mem.load (src + copied) (min len (iovTotal iov))) := by
  induction iov generalizing mem len copied with
  | nil => rw [memcpyLoop, addresses_nil, fill_nil_left]
  | cons v iov ih =>
    rw [iovTotal_cons, addresses_cons] at h
    rw [memcpyLoop, iovTotal_cons, addresses_cons]
    split
    · rename_i hlen
      rw [hlen, Nat.zero_min]
      exact (fill_nil_right _ _).symm
    · dsimp only
      split
      · rename_i hlen hzero
        have hnil : v.len = 0 := by omega
        rw [hnil, Nat.zero_add] at h
        rw [hnil, Nat.zero_add, IovecCopy.cons, ih h]
        rfl
      · rename_i hlen hpos
        -- the bytes of this entry, and those of the others
        have hsplit : min len (v.len + iovTotal iov) =
            min v.len len + min (len - min v.len len) (iovTotal iov) := by omega
        have hmove : (moveInto src mem copied v.base (min v.len len)) =
            fill mem (List.range' v.base v.len) (mem.load (src + copied) (min v.len len)) :=
          Mem.store_eq_fill_of_le mem v.base
            ((Mem.length_load ..).trans_le (Nat.min_le_left _ _))
        rw [hsplit] at h ⊢
        have hload : (moveInto src mem copied v.base (min v.len len)).load
              (src + copied + min v.len len) (min (len - min v.len len) (iovTotal iov)) =
            mem.load (src + copied + min v.len len)
              (min (len - min v.len len) (iovTotal iov)) := by
          rw [hmove]
          refine Mem.load_fill fun i hi hin => ?_
          refine h (min v.len len + i) (by omega) (List.mem_append_left _ ?_)
          rwa [← Nat.add_assoc]
        rw [IovecCopy.cons, ih, ← Nat.add_assoc, hload, hmove, Mem.load_add,
          fill_append _ _ _ (_ ++ _), List.length_range']
        · rcases Nat.le_total v.len len with hle | hge
          · rw [List.take_left' (by simp; omega), List.drop_left' (by simp; omega)]
          · have hnil : mem.load (src + copied + min v.len len)
                (min (len - min v.len len) (iovTotal iov)) = [] :=
              List.eq_nil_of_length_eq_zero (by simp; omega)
            rw [hnil, List.append_nil, fill_nil_right, List.take_of_length_le (by simp),
              List.drop_eq_nil_of_le (by simp), fill_nil_right]
        · intro i hi hin
          have hplace : src + copied + (min v.len len + i) =
              src + (copied + min v.len len) + i := by omega
          refine h (min v.len len + i) (by omega) (List.mem_append_right _ ?_)
          rwa [hplace]

/-- **Copying out** stores the first bytes that the entries describe. -/
theorem memcpyLoop_from
    (h : ∀ i < min len (iovTotal iov), dest + copied + i ∉ addresses iov) :
    (memcpyLoop (moveFrom dest) mem iov len copied).mem =
      mem.store (dest + copied) ((gather iov mem).take len) := by
  induction iov generalizing mem len copied with
  | nil => rw [memcpyLoop, gather, List.flatMap_nil, List.take_nil, Mem.store_nil]
  | cons v iov ih =>
    rw [iovTotal_cons, addresses_cons] at h
    rw [memcpyLoop, gather_cons]
    split
    · rename_i hlen
      rw [hlen, List.take_zero, Mem.store_nil]
    · dsimp only
      split
      · rename_i hlen hzero
        have hnil : v.len = 0 := by omega
        rw [hnil, Nat.zero_add] at h
        rw [hnil, IovecCopy.cons, ih h]
        rfl
      · rename_i hlen hpos
        have hsplit : min len (v.len + iovTotal iov) =
            min v.len len + min (len - min v.len len) (iovTotal iov) := by omega
        rw [hsplit] at h
        have hgather : gather iov (moveFrom dest mem copied v.base (min v.len len)) =
            gather iov mem := by
          rw [gather_eq_map, gather_eq_map, moveFrom, Mem.store_eq_fill, Mem.length_load]
          refine map_fill_of_disjoint fun x hx hin => ?_
          obtain ⟨i, hi, rfl⟩ := List.mem_range'.mp hin
          rw [Nat.one_mul] at hx
          exact h i (by omega) (List.mem_append_right _ hx)
        have hload : (mem.load v.base v.len ++ gather iov mem).take len =
            mem.load v.base (min v.len len) ++ (gather iov mem).take (len - min v.len len) := by
          rw [List.take_append, Mem.length_load]
          rcases Nat.le_total v.len len with hle | hge
          · rw [Nat.min_eq_left hle, List.take_of_length_le (by simp; omega)]
          · rw [Nat.min_eq_right hge, Mem.load_take _ _ hge, Nat.sub_eq_zero_of_le hge,
              Nat.sub_self]
        rw [IovecCopy.cons, ih, hgather, hload, Mem.store_append, Mem.length_load, Nat.add_assoc]
        · rfl
        · intro i hi hin
          have hplace : dest + copied + (min v.len len + i) =
              dest + (copied + min v.len len) + i := by omega
          refine h (min v.len len + i) (by omega) (List.mem_append_right _ ?_)
          rwa [hplace]

end Loops

/-! ### Flat buffers -/

/-- The scatter list does not describe any of `n` bytes at address `a`. -/
def Elsewhere (iov : List Iovec) (a n : ℕ) : Prop := ∀ i < n, a + i ∉ addresses iov

instance (iov : List Iovec) (a n : ℕ) : Decidable (Elsewhere iov a n) :=
  inferInstanceAs (Decidable (∀ i < n, _))

/-- The copy is one from a buffer at address `src` to the bytes that the scatter list describes. -/
structure IovecCopy.IsInto (r : IovecCopy) (mem : Mem) (iov : List Iovec) (src len : ℕ) :
    Prop where
  /-- As much is copied as there is and as fits. -/
  copied : r.copied = min len (iovTotal iov)
  /-- So much of the bytes is replaced. -/
  data : gather iov r.mem = mem.load src r.copied ++ (gather iov mem).drop r.copied
  /-- Nothing else is changed. -/
  frame : ∀ x ∉ (addresses iov).take r.copied, r.mem x = mem x
  /-- The array describes what is left. -/
  rest : addresses r.iov = (addresses iov).drop r.copied
  /-- It has as many entries as before. -/
  length : r.iov.length = iov.length

/-- The copy is one from the bytes that the scatter list describes to a buffer at address `dest`. -/
structure IovecCopy.IsFrom (r : IovecCopy) (mem : Mem) (iov : List Iovec) (dest len : ℕ) :
    Prop where
  /-- As much is copied as there is and as is wanted. -/
  copied : r.copied = min len (iovTotal iov)
  /-- So many bytes are in the buffer. -/
  data : r.mem.load dest r.copied = (gather iov mem).take r.copied
  /-- Nothing else is changed. -/
  frame : ∀ x, x < dest ∨ dest + r.copied ≤ x → r.mem x = mem x
  /-- The array describes what is left. -/
  rest : addresses r.iov = (addresses iov).drop r.copied
  /-- It has as many entries as before. -/
  length : r.iov.length = iov.length

/-- A copy, and one that goes on where it has stopped, are one copy. -/
structure IovecCopy.Joins (r r' whole : IovecCopy) : Prop where
  mem : r'.mem = whole.mem
  iov : r'.iov = whole.iov
  copied : r.copied + r'.copied = whole.copied

section Flat

variable {iov : List Iovec} {mem : Mem} {src dest len n k : ℕ}

theorem Elsewhere.of_drop {iov' : List Iovec} (h : Elsewhere iov src len)
    (hdrop : addresses iov' = (addresses iov).drop n) : Elsewhere iov' src len := by
  intro i hi hin
  rw [hdrop] at hin
  exact h i hi (List.mem_of_mem_drop hin)

theorem drop_min_iovTotal (iov : List Iovec) (n : ℕ) :
    (addresses iov).drop (min n (iovTotal iov)) = (addresses iov).drop n := by
  rcases Nat.le_total n (iovTotal iov) with hle | hge
  · rw [Nat.min_eq_left hle]
  · rw [Nat.min_eq_right hge, List.drop_eq_nil_of_le (length_addresses iov).le,
      List.drop_eq_nil_of_le ((length_addresses iov).trans_le hge)]

theorem into_iov : (mem.tcmuMemcpyIntoIovec iov src len).iov = iovAfter iov len := memcpyLoop_iov

theorem into_copied : (mem.tcmuMemcpyIntoIovec iov src len).copied = min len (iovTotal iov) :=
  memcpyLoop_copied.trans (Nat.zero_add _)

theorem into_mem (h : Elsewhere iov src len) :
    (mem.tcmuMemcpyIntoIovec iov src len).mem = fill mem (addresses iov) (mem.load src len) := by
  have hload : mem.load src (min len (iovTotal iov)) =
      (mem.load src len).take (addresses iov).length := by
    rw [length_addresses]
    rcases Nat.le_total len (iovTotal iov) with hle | hge
    · rw [Nat.min_eq_left hle, List.take_of_length_le (by simpa using hle)]
    · rw [Nat.min_eq_right hge, Mem.load_take _ _ hge]
  rw [← fill_take, ← hload]
  exact memcpyLoop_into fun i hi => h i (hi.trans_le (Nat.min_le_left _ _))

theorem from_iov : (mem.tcmuMemcpyFromIovec dest len iov).iov = iovAfter iov len := memcpyLoop_iov

theorem from_copied : (mem.tcmuMemcpyFromIovec dest len iov).copied = min len (iovTotal iov) :=
  memcpyLoop_copied.trans (Nat.zero_add _)

theorem from_mem (h : Elsewhere iov dest len) :
    (mem.tcmuMemcpyFromIovec dest len iov).mem = mem.store dest ((gather iov mem).take len) :=
  memcpyLoop_from fun i hi => h i (hi.trans_le (Nat.min_le_left _ _))

/-- The copy that the handlers of the commands make. -/
theorem into_eq_tcmuMemcpyIntoIovec (h : Elsewhere iov src len) :
    (mem.tcmuMemcpyIntoIovec iov src len).mem =
      (tcmuMemcpyIntoIovec mem iov (mem.load src len)).1 := by
  rw [into_mem h, tcmuMemcpyIntoIovec_fst, scatter_eq_fill]

/-- The copy of a parameter list. -/
theorem copyParam_eq_from (h : Elsewhere iov dest len) :
    copyParam mem dest len iov =
      ((mem.store dest (List.replicate len 0)).tcmuMemcpyFromIovec dest len iov).mem := by
  have hgather : gather iov (mem.store dest (List.replicate len 0)) = gather iov mem := by
    rw [gather_eq_map, gather_eq_map, Mem.store_eq_fill, List.length_replicate]
    refine map_fill_of_disjoint fun x hx hin => ?_
    obtain ⟨i, hi, rfl⟩ := List.mem_range'.mp hin
    rw [Nat.one_mul] at hx
    exact h i hi hx
  rw [from_mem h, hgather]
  rfl

theorem into_isInto (hnodup : (addresses iov).Nodup) (h : Elsewhere iov src len) :
    (mem.tcmuMemcpyIntoIovec iov src len).IsInto mem iov src len := by
  refine ⟨into_copied, ?_, fun x hx => ?_, ?_, ?_⟩
  · rw [into_copied, into_mem h, gather_eq_map, map_fill hnodup, length_addresses, Mem.length_load,
      gather_eq_map, ← List.map_drop, ← List.map_drop, drop_min_iovTotal]
    rcases Nat.le_total len (iovTotal iov) with hle | hge
    · rw [Nat.min_eq_left hle, List.take_of_length_le (by simpa using hle)]
    · rw [Nat.min_eq_right hge, Mem.load_take _ _ hge]
  · rw [into_copied] at hx
    rw [into_mem h]
    refine fill_of_notMem_take fun hin => hx ?_
    rw [Mem.length_load] at hin
    rwa [← length_addresses, List.take_eq_take_min, Nat.min_comm, Nat.min_left_comm, Nat.min_self,
      ← List.take_eq_take_min]
  · rw [into_iov, into_copied, addresses_iovAfter, drop_min_iovTotal]
  · rw [into_iov, length_iovAfter]

theorem from_isFrom (h : Elsewhere iov dest len) :
    (mem.tcmuMemcpyFromIovec dest len iov).IsFrom mem iov dest len := by
  have htake : (gather iov mem).take len = (gather iov mem).take (min len (iovTotal iov)) := by
    rw [← length_gather iov mem, ← List.take_eq_take_min]
  have hlen : ((gather iov mem).take (min len (iovTotal iov))).length = min len (iovTotal iov) := by
    rw [List.length_take, length_gather]
    omega
  refine ⟨from_copied, ?_, fun x hx => ?_, ?_, ?_⟩
  · rw [from_copied, from_mem h, htake, Mem.load_store _ _ hlen]
  · rw [from_copied] at hx
    rw [from_mem h, htake, Mem.store_eq_fill, hlen]
    refine fill_of_notMem fun hin => ?_
    obtain ⟨i, hi, rfl⟩ := List.mem_range'.mp hin
    omega
  · rw [from_iov, from_copied, addresses_iovAfter, drop_min_iovTotal]
  · rw [from_iov, length_iovAfter]

/-- **Two copies into a scatter list** are one copy of all the bytes. -/
theorem into_joins {src' whole : ℕ} (h : Elsewhere iov src len) (h' : Elsewhere iov src' k)
    (hwhole : Elsewhere iov whole (len + k))
    (hload : mem.load whole (len + k) = mem.load src len ++ mem.load src' k) :
    (mem.tcmuMemcpyIntoIovec iov src len).Joins
      ((mem.tcmuMemcpyIntoIovec iov src len).mem.tcmuMemcpyIntoIovec
        (mem.tcmuMemcpyIntoIovec iov src len).iov src' k)
      (mem.tcmuMemcpyIntoIovec iov whole (len + k)) := by
  have hrest : Elsewhere (iovAfter iov len) src' k := h'.of_drop (addresses_iovAfter iov len)
  refine ⟨?_, ?_, ?_⟩
  · have hsame : (mem.tcmuMemcpyIntoIovec iov src len).mem.load src' k = mem.load src' k := by
      rw [into_mem h]
      exact Mem.load_fill h'
    have hdrop := fill_drop mem (addresses iov) (mem.load src len) (mem.load src' k)
    rw [Mem.length_load] at hdrop
    rw [into_iov, into_mem hrest, hsame, into_mem h, into_mem hwhole, hload, addresses_iovAfter,
      hdrop]
  · rw [into_iov, into_iov, into_iov, iovAfter_iovAfter]
  · rw [into_iov, into_copied, into_copied, into_copied, iovTotal_iovAfter]
    omega

/-- **Two copies out of a scatter list** are one copy of all the bytes. -/
theorem from_joins (h : Elsewhere iov dest len) (h' : Elsewhere iov (dest + len) k) :
    (mem.tcmuMemcpyFromIovec dest len iov).Joins
      ((mem.tcmuMemcpyFromIovec dest len iov).mem.tcmuMemcpyFromIovec (dest + len) k
        (mem.tcmuMemcpyFromIovec dest len iov).iov)
      (mem.tcmuMemcpyFromIovec dest (len + k) iov) := by
  have hrest : Elsewhere (iovAfter iov len) (dest + len) k :=
    h'.of_drop (addresses_iovAfter iov len)
  have hwhole : Elsewhere iov dest (len + k) := by
    intro i hi
    rcases Nat.lt_or_ge i len with hlt | hge
    · exact h i hlt
    · have hplace : dest + i = dest + len + (i - len) := by omega
      rw [hplace]
      exact h' (i - len) (by omega)
  refine ⟨?_, ?_, ?_⟩
  · have hgather : gather (iovAfter iov len) (mem.tcmuMemcpyFromIovec dest len iov).mem =
        (gather iov mem).drop len := by
      have hsame : (addresses iov).map (mem.tcmuMemcpyFromIovec dest len iov).mem =
          (addresses iov).map mem := by
        refine List.map_congr_left fun x hx => (from_isFrom h).frame x ?_
        by_contra hin
        refine h (x - dest) ?_ ?_
        · rw [from_copied] at hin
          omega
        · rwa [Nat.add_sub_cancel' (by omega)]
      rw [gather_eq_map, addresses_iovAfter, List.map_drop, hsame, gather_eq_map]
    rw [from_iov, from_mem hrest, hgather, from_mem h, from_mem hwhole, List.take_add,
      Mem.store_append]
    rcases Nat.le_total len (gather iov mem).length with hle | hge
    · rw [List.length_take, Nat.min_eq_left hle]
    · rw [List.drop_eq_nil_of_le hge, List.take_nil, Mem.store_nil, Mem.store_nil]
  · rw [from_iov, from_iov, from_iov, iovAfter_iovAfter]
  · rw [from_iov, from_copied, from_copied, from_copied, iovTotal_iovAfter]
    omega

/-- **Copies into a scatter list and out of it are copies of flat buffers.** They copy as much as
there is room or data, to or from the bytes that the array describes, and leave the array with what
is behind them. Two copies are one copy of all the bytes, and what has been copied in can be read
back with the array as it was. -/
theorem memcpy_iovec_flat (hnodup : (addresses iov).Nodup) (hsrc : Elsewhere iov src len)
    (hdest : Elsewhere iov dest len) :
    (mem.tcmuMemcpyIntoIovec iov src len).IsInto mem iov src len ∧
      (mem.tcmuMemcpyFromIovec dest len iov).IsFrom mem iov dest len ∧
      (∀ src' k whole, Elsewhere iov src' k → Elsewhere iov whole (len + k) →
        mem.load whole (len + k) = mem.load src len ++ mem.load src' k →
          (mem.tcmuMemcpyIntoIovec iov src len).Joins
            ((mem.tcmuMemcpyIntoIovec iov src len).mem.tcmuMemcpyIntoIovec
              (mem.tcmuMemcpyIntoIovec iov src len).iov src' k)
            (mem.tcmuMemcpyIntoIovec iov whole (len + k))) ∧
      (∀ k, Elsewhere iov (dest + len) k →
        (mem.tcmuMemcpyFromIovec dest len iov).Joins
          ((mem.tcmuMemcpyFromIovec dest len iov).mem.tcmuMemcpyFromIovec (dest + len) k
            (mem.tcmuMemcpyFromIovec dest len iov).iov)
          (mem.tcmuMemcpyFromIovec dest (len + k) iov)) ∧
      (((mem.tcmuMemcpyIntoIovec iov src len).mem.tcmuMemcpyFromIovec dest len iov).mem.load dest
          (min len (iovTotal iov)) =
        mem.load src (min len (iovTotal iov))) := by
  have hinto : (mem.tcmuMemcpyIntoIovec iov src len).IsInto mem iov src len :=
    into_isInto hnodup hsrc
  refine ⟨hinto, from_isFrom hdest, fun src' k whole h' hwhole hload =>
    into_joins hsrc h' hwhole hload, fun k h' => from_joins hdest h', ?_⟩
  have hfrom : ((mem.tcmuMemcpyIntoIovec iov src len).mem.tcmuMemcpyFromIovec dest len iov).IsFrom
      (mem.tcmuMemcpyIntoIovec iov src len).mem iov dest len := from_isFrom hdest
  have hback := hfrom.data
  rw [from_copied, hinto.data, into_copied] at hback
  rw [hback, List.take_left' (Mem.length_load ..)]

/-- A buffer is copied into a scatter list with an empty entry, and back. -/
theorem memcpy_iovec_flat_three :
    ((Mem.tcmuMemcpyIntoIovec (fun x => UInt8.ofNat x) [⟨100, 2⟩, ⟨50, 0⟩, ⟨200, 3⟩] 10 4).IsInto
        (fun x => UInt8.ofNat x) [⟨100, 2⟩, ⟨50, 0⟩, ⟨200, 3⟩] 10 4) ∧
      (Mem.tcmuMemcpyIntoIovec (fun x => UInt8.ofNat x) [⟨100, 2⟩, ⟨50, 0⟩, ⟨200, 3⟩] 10 4).iov =
        [⟨102, 0⟩, ⟨50, 0⟩, ⟨202, 1⟩] := by
  have hdest : Elsewhere [⟨100, 2⟩, ⟨50, 0⟩, ⟨200, 3⟩] 20 4 := by decide
  exact ⟨(memcpy_iovec_flat (by decide) (by decide) hdest).1, by decide⟩

end Flat

end Tcmu

end LioProject
