import LioProject.Tcmu.IovecCopy
import LioProject.Tcmu.QcowCaches

/-!
# Segments of scatter lists

`iovec_segment` makes a scatter list for a part of what another one describes, for the part of a
request that is in one cluster. It does not look at the number of entries, but it does not need to
when the part is inside (`exists_iovecSegment`). The addresses that the segment describes are those
of the part (`addresses_iovecSegment`).

What is read from a disk and written to it are its bytes from some place on, `diskBytes`.
-/

namespace LioProject

namespace Tcmu

section Segment

variable {iov seg : List Iovec} {off len n : ℕ} {mem mem' : Mem}

/-- The first addresses of an entry and of those behind it. -/
theorem take_addresses_cons (a n k : ℕ) (xs : List ℕ) :
    (List.range' a n ++ xs).take k = List.range' a (min n k) ++ xs.take (k - min n k) := by
  rw [List.take_append, List.length_range']
  rcases Nat.le_total n k with hle | hge
  · rw [Nat.min_eq_left hle, List.take_range'_of_length_le hle]
  · rw [Nat.min_eq_right hge, List.take_range'_of_length_ge hge, Nat.sub_self,
      Nat.sub_eq_zero_of_le hge]

theorem addresses_segmentFront (h : segmentFront iov len = some seg) :
    addresses seg = (addresses iov).take len := by
  induction iov generalizing len seg with
  | nil =>
    cases len with
    | zero =>
      obtain rfl := Option.some.inj h
      rfl
    | succ len => cases h
  | cons v iov ih =>
    cases len with
    | zero =>
      obtain rfl := Option.some.inj h
      exact List.take_zero.symm
    | succ len =>
      rw [segmentFront] at h
      obtain ⟨rest, hrest, rfl⟩ := Option.map_eq_some_iff.mp h
      rw [addresses_cons, addresses_cons, ih hrest, take_addresses_cons]

theorem exists_segmentFront (h : len ≤ iovTotal iov) : ∃ seg, segmentFront iov len = some seg := by
  induction iov generalizing len with
  | nil =>
    obtain rfl := Nat.le_zero.mp h
    exact ⟨_, rfl⟩
  | cons v iov ih =>
    cases len with
    | zero => exact ⟨_, rfl⟩
    | succ len =>
      rw [iovTotal_cons] at h
      have hrest : len + 1 - min v.len (len + 1) ≤ iovTotal iov := by omega
      obtain ⟨rest, hrest⟩ := ih hrest
      exact ⟨_, by rw [segmentFront, hrest]; rfl⟩

/-- **The addresses of a segment** are those of the part of the list. -/
theorem addresses_iovecSegment (h : iovecSegment iov off len = some seg) :
    addresses seg = ((addresses iov).drop off).take len := by
  induction iov generalizing off len seg with
  | nil =>
    cases off with
    | zero => exact addresses_segmentFront h
    | succ off => cases h
  | cons v iov ih =>
    cases off with
    | zero => exact addresses_segmentFront h
    | succ off =>
      rw [iovecSegment] at h
      have hdrop : (addresses (v :: iov)).drop (off + 1) =
          List.range' (v.base + (off + 1)) (v.len - (off + 1)) ++
            (addresses iov).drop (off + 1 - v.len) := by
        rw [addresses_cons, List.drop_append, List.length_range', List.drop_range', Nat.mul_one]
      rw [hdrop]
      split at h
      · rename_i hle
        rw [ih h, Nat.sub_eq_zero_of_le hle]
        rfl
      · rename_i hlt
        obtain ⟨rest, hrest, rfl⟩ := Option.map_eq_some_iff.mp h
        have hnone : off + 1 - v.len = 0 := by omega
        rw [addresses_cons, addresses_segmentFront hrest, hnone, List.drop_zero,
          take_addresses_cons]

/-- A segment that is inside is found. -/
theorem exists_iovecSegment (h : off + len ≤ iovTotal iov) :
    ∃ seg, iovecSegment iov off len = some seg := by
  induction iov generalizing off len with
  | nil =>
    obtain ⟨rfl, rfl⟩ : off = 0 ∧ len = 0 := Nat.add_eq_zero_iff.mp (Nat.le_zero.mp h)
    exact ⟨_, rfl⟩
  | cons v iov ih =>
    cases off with
    | zero => exact exists_segmentFront (by omega)
    | succ off =>
      rw [iovTotal_cons] at h
      rw [iovecSegment]
      split
      · exact ih (by omega)
      · have hrest : len - min (v.len - (off + 1)) len ≤ iovTotal iov := by omega
        obtain ⟨rest, hrest⟩ := exists_segmentFront hrest
        exact ⟨_, by rw [hrest]; rfl⟩

theorem le_of_segmentFront (h : segmentFront iov len = some seg) : len ≤ iovTotal iov := by
  induction iov generalizing len seg with
  | nil =>
    cases len with
    | zero => exact Nat.zero_le _
    | succ len => cases h
  | cons v iov ih =>
    cases len with
    | zero => exact Nat.zero_le _
    | succ len =>
      rw [segmentFront] at h
      obtain ⟨rest, hrest, -⟩ := Option.map_eq_some_iff.mp h
      have hle := ih hrest
      rw [iovTotal_cons]
      omega

theorem le_of_iovecSegment (h : iovecSegment iov off len = some seg) :
    off + len ≤ iovTotal iov := by
  induction iov generalizing off len seg with
  | nil =>
    cases off with
    | zero =>
      rw [Nat.zero_add]
      exact le_of_segmentFront h
    | succ off => cases h
  | cons v iov ih =>
    cases off with
    | zero =>
      rw [Nat.zero_add]
      exact le_of_segmentFront h
    | succ off =>
      rw [iovecSegment] at h
      rw [iovTotal_cons]
      split at h
      · have hle := ih h
        omega
      · obtain ⟨rest, hrest, -⟩ := Option.map_eq_some_iff.mp h
        have hle := le_of_segmentFront hrest
        omega

/-- **A segment** is found exactly when the part is inside, and describes the part. -/
theorem iovecSegment_iff (iov : List Iovec) (off len : ℕ) :
    ((∃ seg, iovecSegment iov off len = some seg) ↔ off + len ≤ iovTotal iov) ∧
      ∀ seg, iovecSegment iov off len = some seg →
        addresses seg = slice (addresses iov) off len ∧ iovTotal seg = len := by
  refine ⟨⟨fun ⟨_, h⟩ => le_of_iovecSegment h, exists_iovecSegment⟩, fun seg h => ?_⟩
  have haddr := addresses_iovecSegment h
  refine ⟨haddr, ?_⟩
  rw [← length_addresses, haddr, List.length_take, List.length_drop, length_addresses]
  have hle := le_of_iovecSegment h
  omega

theorem iovTotal_iovecSegment (h : iovecSegment iov off len = some seg)
    (hin : off + len ≤ iovTotal iov) : iovTotal seg = len := by
  rw [← length_addresses, addresses_iovecSegment h, List.length_take, List.length_drop,
    length_addresses]
  omega

/-- What is left of a list after seeking. -/
theorem addresses_tcmuSeekInIovec (iov : List Iovec) (n : ℕ) :
    addresses (tcmuSeekInIovec iov n).1 = (addresses iov).drop n := by
  induction iov generalizing n with
  | nil => exact List.drop_nil.symm
  | cons v iov ih =>
    rw [tcmuSeekInIovec]
    split
    · rename_i hn
      rw [hn, List.drop_zero]
    · have hdrop : (addresses (v :: iov)).drop n =
          List.range' (v.base + n) (v.len - n) ++ (addresses iov).drop (n - v.len) := by
        rw [addresses_cons, List.drop_append, List.length_range', List.drop_range', Nat.mul_one]
      rw [hdrop]
      split
      · rename_i hle
        rw [addresses_cons, ih, Nat.sub_eq_zero_of_le hle]
        rfl
      · rename_i hlt
        have hnone : n - v.len = 0 := by omega
        rw [addresses_cons, hnone, List.drop_zero]

end Segment

/-! ### Bytes of a disk -/

/-- The `n` bytes of a disk from byte `x` on. -/
def diskBytes (disk : ℕ → UInt8) (x n : ℕ) : List UInt8 := (List.range n).map fun i => disk (x + i)

section DiskBytes

variable {disk disk' : ℕ → UInt8} {x n : ℕ}

@[simp] theorem length_diskBytes (disk : ℕ → UInt8) (x n : ℕ) :
    (diskBytes disk x n).length = n := by
  rw [diskBytes, List.length_map, List.length_range]

theorem diskBytes_add (disk : ℕ → UInt8) (x m n : ℕ) :
    diskBytes disk x (m + n) = diskBytes disk x m ++ diskBytes disk (x + m) n := by
  rw [diskBytes, List.range_add, List.map_append, List.map_map, diskBytes, diskBytes]
  refine congrArg _ (List.map_congr_left fun i _ => ?_)
  rw [Function.comp_apply, Nat.add_assoc]

theorem diskBytes_congr (h : ∀ i < n, disk' (x + i) = disk (x + i)) :
    diskBytes disk' x n = diskBytes disk x n :=
  List.map_congr_left fun i hi => h i (List.mem_range.mp hi)

/-- Bytes that are known to be those of a list. -/
theorem diskBytes_eq {bs : List UInt8} (hlen : bs.length = n)
    (h : ∀ i < n, bs.getD i 0 = disk (x + i)) : diskBytes disk x n = bs := by
  refine ext_getD (z := 0) (by rw [length_diskBytes, hlen]) fun i => ?_
  rcases Nat.lt_or_ge i n with hlt | hge
  · rw [h i hlt, List.getD_eq_getElem _ 0 (by rw [length_diskBytes]; exact hlt)]
    simp [diskBytes]
  · rw [List.getD_eq_default _ _ (by rw [length_diskBytes]; exact hge),
      List.getD_eq_default _ _ (by rw [hlen]; exact hge)]

end DiskBytes

end Tcmu

end LioProject
