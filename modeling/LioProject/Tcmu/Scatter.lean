import LioProject.Tcmu.Command

/-!
# Walking scatter lists

The helpers of `api.c` that a multi-step command uses on its Data-Out buffer: copying a parameter
list out of it (`tcmu_memcpy_from_iovec`), comparing it with a buffer (`tcmu_compare_with_iovec`)
and seeking in it (`tcmu_seek_in_iovec`).

Seeking does not move the pointer to the first entry. It empties the entries it passes and says how
many they were, and `tcmu_seek_in_cmd_iovec` takes that number off the count.
-/

namespace LioProject

namespace Tcmu

theorem length_gather (iov : List Iovec) (mem : Mem) : (gather iov mem).length = iovTotal iov := by
  induction iov with
  | nil => rfl
  | cons v iov ih =>
    rw [gather, List.flatMap_cons, List.length_append, ← gather, ih, iovTotal, iovTotal,
      List.map_cons, List.sum_cons, Iovec.bytes, Mem.load, List.length_map, List.length_range]

section Gather

variable {iov : List Iovec} {mem : Mem}

theorem gather_cons (v : Iovec) : gather (v :: iov) mem = mem.load v.base v.len ++ gather iov mem :=
  List.flatMap_cons

theorem gather_append (vs : List Iovec) :
    gather (iov ++ vs) mem = gather iov mem ++ gather vs mem :=
  List.flatMap_append

theorem iovTotal_cons (v : Iovec) : iovTotal (v :: iov) = v.len + iovTotal iov := List.sum_cons

end Gather

/-- The big-endian number in the `k` bytes of memory from address `a` on. -/
def Mem.be (mem : Mem) (a k : ℕ) : ℕ := beAt (mem.load a k) 0 k

/-- The byte at an address, as a number. -/
def Mem.byte (mem : Mem) (a : ℕ) : ℕ := (mem a).toNat

/-- The memory after `calloc(1, n)` at address `a` and `tcmu_memcpy_from_iovec` of `n` bytes. What
lies behind the `n` bytes is what it was. -/
def copyParam (mem : Mem) (a n : ℕ) (iov : List Iovec) : Mem :=
  (mem.store a (List.replicate n 0)).store a ((gather iov mem).take n)

/-- What `tcmu_memcpy_from_iovec` returns: the number of bytes it copied. -/
def copiedParam (n : ℕ) (iov : List Iovec) : ℕ := min n (iovTotal iov)

/-- `tcmu_compare_with_iovec`: the first offset, below `size`, at which the memory from `a` on and
the scatter list differ. The entries have to cover `size` bytes. -/
def tcmuCompareWithIovec (mem : Mem) (a : ℕ) : List Iovec → ℕ → Option ℕ
  | [], _ => none
  | v :: vs, size =>
    if size = 0 then none
    else
      let part := min size v.len
      match (List.range part).find? fun i => mem (a + i) ≠ mem (v.base + i) with
      | some pos => some pos
      | none => (tcmuCompareWithIovec mem (a + part) vs (size - part)).map (part + ·)

/-- `tcmu_seek_in_iovec`: the entries after seeking, and how many of them are used up. -/
def tcmuSeekInIovec : List Iovec → ℕ → List Iovec × ℕ
  | [], _ => ([], 0)
  | v :: vs, count =>
    if count = 0 then (v :: vs, 0)
    else if v.len ≤ count then
      ({ v with len := 0 } :: (tcmuSeekInIovec vs (count - v.len)).1,
        (tcmuSeekInIovec vs (count - v.len)).2 + 1)
    else (⟨v.base + count, v.len - count⟩ :: vs, 0)

/-- `tcmu_seek_in_cmd_iovec`: the scatter list that the command describes afterwards. -/
def tcmuSeekInCmdIovec (iov : List Iovec) (count : ℕ) : List Iovec :=
  (tcmuSeekInIovec iov count).1.take (iov.length - (tcmuSeekInIovec iov count).2)

section Seek

variable {iov : List Iovec} {mem : Mem} {n : ℕ}

/-- The entries after seeking describe what is left. -/
theorem gather_tcmuSeekInIovec :
    gather (tcmuSeekInIovec iov n).1 mem = (gather iov mem).drop n := by
  induction iov generalizing n with
  | nil => exact (List.drop_nil).symm
  | cons v iov ih =>
    have hlen : (mem.load v.base v.len).length = v.len := Mem.length_load ..
    rw [tcmuSeekInIovec]
    split
    · rename_i hn
      rw [hn, List.drop_zero]
    · split
      · rename_i hle
        have hnil : (mem.load v.base v.len).drop n = [] := List.drop_eq_nil_of_le (by omega)
        rw [gather_cons, gather_cons, ih, List.drop_append, hlen, hnil]
        rfl
      · rename_i hlt
        have hzero : n - v.len = 0 := by omega
        rw [gather_cons, gather_cons, List.drop_append, hlen, hzero, List.drop_zero, Mem.load_drop]

theorem length_tcmuSeekInIovec : (tcmuSeekInIovec iov n).1.length = iov.length := by
  induction iov generalizing n with
  | nil => rfl
  | cons v iov ih =>
    rw [tcmuSeekInIovec]
    split
    · rfl
    · split
      · rw [List.length_cons, ih, List.length_cons]
      · rfl

/-- What is left is as much less. -/
theorem iovTotal_tcmuSeekInIovec : iovTotal (tcmuSeekInIovec iov n).1 = iovTotal iov - n := by
  have hdrop := congrArg List.length
    (show gather (tcmuSeekInIovec iov n).1 (fun _ => 0) = _ from gather_tcmuSeekInIovec)
  rwa [List.length_drop, length_gather, length_gather] at hdrop

/-- Seeking does not touch the entries behind those that the bytes reach. -/
theorem tcmuSeekInIovec_append (rest : List Iovec) (h : n ≤ iovTotal iov) :
    (tcmuSeekInIovec (iov ++ rest) n).1 = (tcmuSeekInIovec iov n).1 ++ rest := by
  induction iov generalizing n with
  | nil =>
    obtain rfl : n = 0 := Nat.le_zero.mp h
    cases rest <;> rfl
  | cons v iov ih =>
    rw [iovTotal_cons] at h
    rw [List.cons_append, tcmuSeekInIovec, tcmuSeekInIovec]
    split
    · rfl
    · split
      · rw [ih (by omega), List.cons_append]
      · rfl

/-- Seeking in the first entries of a longer list. -/
theorem take_tcmuSeekInIovec {k : ℕ} (h : n ≤ iovTotal (iov.take k)) :
    (tcmuSeekInIovec iov n).1.take k = (tcmuSeekInIovec (iov.take k) n).1 := by
  have hlen : (tcmuSeekInIovec (iov.take k) n).1.length = (iov.take k).length :=
    length_tcmuSeekInIovec
  have hsplit := tcmuSeekInIovec_append (iov.drop k) h
  rw [List.take_append_drop] at hsplit
  rw [hsplit]
  rcases Nat.le_total k iov.length with hle | hge
  · rw [List.length_take, Nat.min_eq_left hle] at hlen
    rw [List.take_append_of_le_length (by omega), List.take_of_length_le (by omega)]
  · rw [List.drop_eq_nil_of_le hge, List.append_nil,
      List.take_of_length_le (by rw [hlen, List.length_take]; omega)]

end Seek

/-! ### Filling scatter lists -/

/-- The memory with `bs` put into the entries, one after the other. Bytes that do not fit are
dropped, and entries that get no bytes are left alone. -/
def scatter (mem : Mem) : List Iovec → List UInt8 → Mem
  | [], _ => mem
  | v :: vs, bs => scatter (mem.store v.base (bs.take v.len)) vs (bs.drop v.len)

/-- `tcmu_memcpy_into_iovec`: the memory afterwards, and the number of bytes copied. It stops when
everything has been copied, or no entries are left. -/
def tcmuMemcpyIntoIovec (mem : Mem) : List Iovec → List UInt8 → Mem × ℕ
  | [], _ => (mem, 0)
  | v :: vs, src =>
    if src.length = 0 then (mem, 0)
    else
      let toCopy := min v.len src.length
      let r := tcmuMemcpyIntoIovec (mem.store v.base (src.take toCopy)) vs (src.drop toCopy)
      (r.1, toCopy + r.2)

/-- `tcmu_zero_iovec`. -/
def tcmuZeroIovec (mem : Mem) : List Iovec → Mem
  | [] => mem
  | v :: vs => tcmuZeroIovec (mem.store v.base (List.replicate v.len 0)) vs

section Fill

variable {iov : List Iovec} {mem : Mem}

@[simp] theorem Mem.store_nil (mem : Mem) (a : ℕ) : mem.store a [] = mem := by
  funext x
  simp [Mem.store]

/-- Two stores, one directly behind the other. -/
theorem Mem.store_append (mem : Mem) (a : ℕ) (bs cs : List UInt8) :
    mem.store a (bs ++ cs) = (mem.store a bs).store (a + bs.length) cs := by
  funext x
  simp only [Mem.store]
  rcases Nat.lt_or_ge x a with hlt | hge
  · rw [if_neg (by omega), if_neg (by omega), if_neg (by omega)]
  · rw [if_pos hge, if_pos hge]
    rcases Nat.lt_or_ge (x - a) bs.length with hin | hout
    · rw [if_neg (by omega), List.getD_append _ _ _ _ hin]
    · rw [if_pos (by omega), List.getD_append_right _ _ _ _ hout,
        List.getD_eq_default _ _ hout, Nat.sub_sub]

theorem scatter_nil (mem : Mem) (iov : List Iovec) : scatter mem iov [] = mem := by
  induction iov generalizing mem with
  | nil => rfl
  | cons v iov ih => rw [scatter, List.take_nil, List.drop_nil, Mem.store_nil, ih]

/-- Filling goes on where seeking leads to: two parts of the bytes, the second after seeking over
the first, are put where all of them at once are put. -/
theorem scatter_tcmuSeekInIovec (mem : Mem) {bs : List UInt8} (cs : List UInt8)
    (h : bs.length ≤ iovTotal iov) :
    scatter (scatter mem iov bs) (tcmuSeekInIovec iov bs.length).1 cs
      = scatter mem iov (bs ++ cs) := by
  induction iov generalizing mem bs with
  | nil => rfl
  | cons v iov ih =>
    rw [iovTotal_cons] at h
    rw [tcmuSeekInIovec]
    split
    · rename_i hzero
      rw [List.length_eq_zero_iff.mp hzero, scatter_nil, List.nil_append]
    · split
      · rename_i hle
        have hrest : bs.length - v.len = (bs.drop v.len).length := by rw [List.length_drop]
        rw [scatter, scatter, scatter, List.take_zero, Mem.store_nil, List.drop_zero, hrest,
          ih _ (by rw [List.length_drop]; omega), List.take_append_of_le_length hle,
          List.drop_append_of_le_length hle]
      · rename_i hlt
        have hdrop : bs.drop v.len = [] := List.drop_eq_nil_of_le (by omega)
        have htake : bs.take v.len = bs := List.take_of_length_le (by omega)
        have hdrops : (bs ++ cs).drop v.len = cs.drop (v.len - bs.length) := by
          rw [List.drop_append, hdrop, List.nil_append]
        have htakes : (bs ++ cs).take v.len = bs ++ cs.take (v.len - bs.length) := by
          rw [List.take_append, htake]
        rw [scatter, scatter, scatter, hdrop, htake, scatter_nil, hdrops, htakes,
          Mem.store_append]

/-- Copying into a scatter list fills it. -/
theorem tcmuMemcpyIntoIovec_fst (src : List UInt8) :
    (tcmuMemcpyIntoIovec mem iov src).1 = scatter mem iov src := by
  induction iov generalizing mem src with
  | nil => rfl
  | cons v iov ih =>
    rw [tcmuMemcpyIntoIovec]
    split
    · rename_i hzero
      rw [List.length_eq_zero_iff.mp hzero, scatter_nil]
    · dsimp only
      rw [ih, scatter]
      rcases Nat.le_total v.len src.length with hle | hge
      · rw [Nat.min_eq_left hle]
      · rw [Nat.min_eq_right hge, List.take_length, List.drop_length, List.take_of_length_le hge,
          List.drop_eq_nil_of_le hge]

/-- Zeroing a scatter list fills it with zeros. -/
theorem tcmuZeroIovec_eq_scatter :
    tcmuZeroIovec mem iov = scatter mem iov (List.replicate (iovTotal iov) 0) := by
  induction iov generalizing mem with
  | nil => rfl
  | cons v iov ih =>
    rw [tcmuZeroIovec, scatter, ih, iovTotal_cons, List.take_replicate, List.drop_replicate,
      Nat.min_eq_left (Nat.le_add_right _ _), Nat.add_sub_cancel_left]

/-- Two entries have no byte in common. -/
def Iovec.Disjoint (v w : Iovec) : Prop := v.base + v.len ≤ w.base ∨ w.base + w.len ≤ v.base

/-- Filling entries elsewhere does not change what is loaded. -/
theorem load_scatter_of_disjoint {v : Iovec} {bs : List UInt8} (h : ∀ w ∈ iov, v.Disjoint w) :
    (scatter mem iov bs).load v.base v.len = mem.load v.base v.len := by
  induction iov generalizing mem bs with
  | nil => rfl
  | cons w iov ih =>
    obtain ⟨hw, hrest⟩ := List.forall_mem_cons.mp h
    have hlen : (bs.take w.len).length ≤ w.len := List.length_take_le ..
    rw [scatter, ih hrest]
    refine Mem.load_store_of_disjoint mem ?_
    rcases hw with hbefore | hbehind
    · exact Or.inr hbefore
    · exact Or.inl (by omega)

/-- Storing elsewhere does not change what a scatter list describes. -/
theorem gather_store_of_disjoint {a : ℕ} {bs : List UInt8}
    (h : ∀ v ∈ iov, a + bs.length ≤ v.base ∨ v.base + v.len ≤ a) :
    gather iov (mem.store a bs) = gather iov mem := by
  rw [gather, gather]
  refine List.flatMap_congr fun v hv => ?_
  exact Mem.load_store_of_disjoint _ (h v hv)

/-- Entries that do not overlap contain what they have been filled with, as far as there is room,
and behind it what they had. -/
theorem gather_scatter_take {bs : List UInt8} (hdisjoint : iov.Pairwise Iovec.Disjoint) :
    gather iov (scatter mem iov bs)
      = bs.take (iovTotal iov) ++ (gather iov mem).drop bs.length := by
  induction iov generalizing mem bs with
  | nil => rw [gather, gather, List.flatMap_nil, List.flatMap_nil, List.drop_nil]; rfl
  | cons v iov ih =>
    obtain ⟨hv, hrest⟩ := List.pairwise_cons.mp hdisjoint
    have hlen : (mem.load v.base v.len).length = v.len := Mem.length_load ..
    have hstore : gather iov (mem.store v.base (bs.take v.len)) = gather iov mem := by
      refine gather_store_of_disjoint fun w hw => ?_
      have hle : (bs.take v.len).length ≤ v.len := List.length_take_le ..
      rcases hv w hw with hbefore | hbehind
      · exact Or.inl (by omega)
      · exact Or.inr hbehind
    rw [scatter, gather_cons, ih hrest, hstore, load_scatter_of_disjoint hv,
      Mem.load_store_front _ _ (List.length_take_le ..), gather_cons, iovTotal_cons, List.take_add,
      List.drop_append, hlen, List.length_drop, List.length_take]
    rcases Nat.le_total v.len bs.length with hle | hge
    · have hnil : (mem.load v.base v.len).drop bs.length = [] :=
        List.drop_eq_nil_of_le (by omega)
      have hnil' : (mem.load v.base v.len).drop v.len = [] := List.drop_eq_nil_of_le (by omega)
      rw [Nat.min_eq_left hle, hnil, hnil', List.append_nil, List.nil_append, List.append_assoc]
    · have hdrop : bs.drop v.len = [] := List.drop_eq_nil_of_le hge
      rw [Nat.min_eq_right hge, hdrop, List.take_nil, List.nil_append, List.append_nil,
        List.append_assoc]

/-- Entries that do not overlap contain what they have been filled with. -/
theorem gather_scatter {bs : List UInt8} (hdisjoint : iov.Pairwise Iovec.Disjoint)
    (h : bs.length = iovTotal iov) : gather iov (scatter mem iov bs) = bs := by
  rw [gather_scatter_take hdisjoint, List.take_of_length_le (by omega),
    List.drop_eq_nil_of_le (by rw [length_gather]; omega), List.append_nil]

end Fill

end Tcmu

end LioProject
