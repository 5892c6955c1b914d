import LioProject.Tcmu.QcowSound

/-!
# QCOW images: allocation

`block_alloc` gives a piece of the file that no area has a byte of, and that is full of zeros
(`Allocated`). In a QCOW image it is behind the end of the file, and in a QCOW2 image it is a
cluster without a reference count. The search for one does not run forever: it leaves the table of
reference counts at last.

With room in memory and in the file system, the allocation of QCOW2 does not fail, and that of QCOW
fails only when the offset would be too large for the file system (`Declined`).
-/

namespace LioProject

namespace Tcmu

section Counts

variable {z : Inflate} {hdr : ℕ} {m : Calls} {k : Kernel} {s : QcowState} {c : ℕ}

theorem getRefcount_isSome {order : ℕ} (h : order ≤ 5) (block : List UInt8) (i : ℕ) :
    ∃ rc, getRefcount order block i = some rc := by
  have hcases : order = 0 ∨ order = 1 ∨ order = 2 ∨ order = 3 ∨ order = 4 ∨ order = 5 := by
    omega
  rcases hcases with rfl | rfl | rfl | rfl | rfl | rfl <;> exact ⟨_, rfl⟩

/-- The place of the reference count of a cluster. -/
theorem does_refcountPlace (s : QcowState) (c : ℕ) :
    Does m (refcountPlace s c)
      (fun r k' => k' = k ∧ 8 * s.countBlock (c / s.clusterSize) + 8 ≤ s.refcountTable.length ∧
        r = (s.countBlock (c / s.clusterSize), s.refblock (s.countBlock (c / s.clusterSize)),
          s.countIndex (c / s.clusterSize))) k := by
  have hcluster : c >>> s.clusterBits = c / s.clusterSize := Nat.shiftRight_eq_div_pow ..
  rw [refcountPlace, hcluster, Nat.shiftRight_add, hcluster]
  split
  · exact does_fail (Or.inr rfl)
  · rename_i h
    rw [not_or, Nat.not_lt, Nat.not_lt] at h
    exact does_pure ⟨rfl, h.2, rfl⟩

/-- A lookup of a block of reference counts. -/
theorem does_rcCacheLookup (hs : Sound z hdr s (k.files s.fd)) (hv : s.version = .qcow2) {i : ℕ}
    (hi : 8 * i + 8 ≤ s.refcountTable.length) (h0 : s.refblock i ≠ 0) :
    Does m (rcCacheLookup s (s.refblock i))
      (fun r k' => k' = k ∧ Sound z hdr r.2 (k.files s.fd) ∧ ∃ ls j,
        r.2 = { s with rcCache := ls } ∧ r.1 = some j ∧
        LineOf (k.files s.fd) s.clusterSize (s.refblock i) ls j) k := by
  have hin := hs.tables.placed_le (.rcBlock hv hi h0)
  refine Does.seq (does_cacheLookup (hs.refcounts hv).cache ⟨i, hi, rfl⟩ h0 hin) ?_
  rintro ⟨line, ls⟩ k' ⟨hk, hcache, j, hj, hline⟩
  exact does_pure ⟨hk, hs.withRcCache fun _ => hcache, ls, j, rfl, hj, hline⟩

/-- **The reference count** of a cluster that is in the table is looked up. -/
theorem does_getRefcount (hs : Sound z hdr s (k.files s.fd)) (hv : s.version = .qcow2) (c : ℕ) :
    Does m (qcow2GetRefcount s c)
      (fun r k' => k' = k ∧ Sound z hdr r.2 (k.files s.fd) ∧
        (∃ ls, r.2 = { s with rcCache := ls }) ∧
        r.1 = refcountOf s.toQcowTables (k.files s.fd) (c / s.clusterSize) ∧
        8 * s.countBlock (c / s.clusterSize) + 8 ≤ s.refcountTable.length) k := by
  refine Does.seq (does_refcountPlace s c) ?_
  rintro _ k' ⟨hk, hin, rfl⟩
  rw [hk]
  dsimp only
  split
  · rename_i h0
    refine does_pure ⟨rfl, hs, ⟨s.rcCache, rfl⟩, ?_, hin⟩
    rw [refcountOf, if_pos (Or.inr h0)]
  · rename_i h0
    refine Does.seq (does_rcCacheLookup hs hv hin h0) ?_
    rintro ⟨line, s'⟩ k'' ⟨hk', hs', ls, j, hs'_eq, hj, hline⟩
    dsimp only at hj hs'_eq hs'
    subst hs'_eq hj
    obtain ⟨rc, hrc⟩ := getRefcount_isSome (hs.refcounts hv).order_le
      (slice (k.files s.fd) (s.refblock (s.countBlock (c / s.clusterSize))) s.clusterSize)
      (s.countIndex (c / s.clusterSize))
    dsimp only
    rw [hline.data, hrc]
    refine does_pure ⟨hk', hs', ⟨ls, rfl⟩, ?_, hin⟩
    rw [refcountOf, if_neg (not_or.mpr ⟨Nat.not_lt.mpr hin, h0⟩), hrc]
    rfl

/-- **A free cluster is found**, or the table of reference counts is too small. -/
theorem does_findFreeCluster {fuel : ℕ} (hs : Sound z hdr s (k.files s.fd))
    (hv : s.version = .qcow2) (halign : c % s.clusterSize = 0) (h0 : 0 < fuel)
    (hfuel : s.refcountTable.length * 2 ^ s.refcountBits < c / s.clusterSize + fuel) :
    Does m (findFreeCluster fuel s c)
      (fun r k' => k' = k ∧ Sound z hdr r.2 (k.files s.fd) ∧
        (∃ ls, r.2 = { s with rcCache := ls }) ∧
        c ≤ r.1 ∧ r.1 % s.clusterSize = 0 ∧
        refcountOf s.toQcowTables (k.files s.fd) (r.1 / s.clusterSize) = 0 ∧
        8 * s.countBlock (r.1 / s.clusterSize) + 8 ≤ s.refcountTable.length) k := by
  induction fuel generalizing s c with
  | zero => exact absurd h0 (Nat.lt_irrefl 0)
  | succ fuel ih =>
    refine Does.seq (does_getRefcount hs hv c) ?_
    rintro ⟨rc, s'⟩ k' ⟨hk, hs', ⟨ls, hs'_eq⟩, hrc, hin⟩
    dsimp only at hs'_eq hs' hrc
    subst hs'_eq
    rw [hk]
    dsimp only
    split
    · have hnext : (c + s.clusterSize) / s.clusterSize = c / s.clusterSize + 1 :=
        Nat.add_div_right c s.clusterSize_pos
      -- the cluster has a place in the table, so there is fuel for the next one
      have hlt : c / s.clusterSize < s.refcountTable.length * 2 ^ s.refcountBits := by
        rw [QcowTables.countBlock, Nat.shiftRight_eq_div_pow] at hin
        exact (Nat.div_lt_iff_lt_mul (Nat.two_pow_pos _)).mp (by omega)
      have halign' : (c + s.clusterSize) % s.clusterSize = 0 :=
        (Nat.add_mod_right c s.clusterSize).trans halign
      have hfuel' : s.refcountTable.length * 2 ^ s.refcountBits <
          (c + s.clusterSize) / s.clusterSize + fuel := by omega
      refine (ih hs' hv halign' (by omega) hfuel').mono fun r k' h => ?_
      · obtain ⟨hk', hr, ⟨ls', hls'⟩, hle, hrest⟩ := h
        exact ⟨hk', hr, ⟨ls', hls'⟩, (Nat.le_add_right _ _).trans hle, hrest⟩
    · rename_i h0
      refine does_pure ⟨rfl, hs', ⟨ls, rfl⟩, Nat.le_refl _, halign, ?_, hin⟩
      rw [← hrc, not_not.mp h0]

end Counts

/-! ### Pieces of the file -/

/-- Why an allocation may fail. -/
def Declined (m : Calls) (s : QcowState) (file : List UInt8) : Prop :=
  m.room = true → s.version = .qcow ∧ 2 ^ 62 ≤ file.length

/-- The `n` bytes from `c` on have been allocated. -/
structure Allocated (z : Inflate) (hdr : ℕ) (s : QcowState) (file : List UInt8) (c n : ℕ)
    (s' : QcowState) (file' : List UInt8) : Prop where
  offset : Offset s.toQcowTables c
  aligned : s.version = .qcow2 → c % s.clusterSize = 0
  fresh : Fresh hdr s.toQcowTables file c n
  state : ∃ ls f, s' = { s with rcCache := ls, firstFreeCluster := f }
  free_le : s.firstFreeCluster ≤ s'.firstFreeCluster
  le_free : s.version = .qcow2 → c + n ≤ s'.firstFreeCluster
  sound : Sound z hdr s' file'
  elsewhere : ∀ x, x < c ∨ c + n ≤ x → file'.getD x 0 = file.getD x 0
  zero : ∀ x, c ≤ x → x < c + n → file'.getD x 0 = 0
  length : file.length ≤ file'.length
  inside : c + n ≤ file'.length

section Alloc

variable {z : Inflate} {hdr : ℕ} {m : Calls} {k : Kernel} {s s' : QcowState}
  {file file' : List UInt8} {c n : ℕ}

theorem Fresh.stays (hfresh : Fresh hdr s.toQcowTables file c n)
    (h : ∀ x, x < c ∨ c + n ≤ x → file'.getD x 0 = file.getD x 0) {a : Area} {o l : ℕ}
    (hp : Placed hdr s.toQcowTables file a o l) : Stays file file' o l :=
  fun x hlo hhi => h x (hfresh hp x hlo hhi)

/-- Nothing changes for an image when something is written where no area is. -/
theorem Sound.of_fresh (hs : Sound z hdr s file) (hfresh : Fresh hdr s.toQcowTables file c n)
    (h : ∀ x, x < c ∨ c + n ≤ x → file'.getD x 0 = file.getD x 0)
    (hlen : file.length ≤ file'.length) : Sound z hdr s file' :=
  hs.of_stays (fun _ _ _ hp => Or.inr (hfresh.stays h hp))
    (fun hv => ⟨hfresh.stays h (.rcTable hv), fun hk h0 => hfresh.stays h (.rcBlock hv hk h0)⟩) hlen

theorem Sound.withFree (hs : Sound z hdr s file) {f : ℕ} (hle : s.firstFreeCluster ≤ f)
    (halign : f % s.clusterSize = 0) : Sound z hdr { s with firstFreeCluster := f } file :=
  { hs with
    refcounts := fun hv => { hs.refcounts hv with
      free_aligned := halign
      in_use := (hs.refcounts hv).in_use.mono fun _ hx => hx.trans_le hle } }

/-- A cluster without a reference count is free. -/
theorem fresh_of_refcount (hs : Sound z hdr s file) (hv : s.version = .qcow2)
    (halign : c % s.clusterSize = 0) (hfree : s.firstFreeCluster ≤ c)
    (hrc : refcountOf s.toQcowTables file (c / s.clusterSize) = 0) :
    Fresh hdr s.toQcowTables file c s.clusterSize := by
  intro a o l hp x hlo hhi
  by_contra hin
  rw [not_or, Nat.not_lt, Nat.not_le] at hin
  have hsame : x / s.clusterSize = c / s.clusterSize := by
    refine Nat.div_eq_of_lt_le ?_ ?_
    · rw [Nat.div_mul_cancel (Nat.dvd_of_mod_eq_zero halign)]
      exact hin.1
    · rw [Nat.succ_mul, Nat.div_mul_cancel (Nat.dvd_of_mod_eq_zero halign)]
      exact hin.2
  rcases (hs.refcounts hv).in_use hp x hlo hhi with hne | hlt
  · rw [hsame] at hne
    exact hne hrc
  · omega

/-- The offsets of the clusters in the table of reference counts. -/
theorem end_le_of_countBlock (hr : RefcountsSound hdr s file)
    (halign : c % s.clusterSize = 0)
    (hin : 8 * s.countBlock (c / s.clusterSize) + 8 ≤ s.refcountTable.length) :
    c + s.clusterSize ≤ 2 ^ 62 := by
  have hlt : c / s.clusterSize < s.refcountTable.length / 8 * 2 ^ s.refcountBits := by
    rw [QcowTables.countBlock, Nat.shiftRight_eq_div_pow] at hin
    exact (Nat.div_lt_iff_lt_mul (Nat.two_pow_pos _)).mp (by omega)
  calc c + s.clusterSize = (c / s.clusterSize + 1) * s.clusterSize := by
        rw [Nat.succ_mul, Nat.div_mul_cancel (Nat.dvd_of_mod_eq_zero halign)]
    _ ≤ s.refcountTable.length / 8 * 2 ^ s.refcountBits * s.clusterSize :=
        Nat.mul_le_mul_right _ hlt
    _ ≤ 2 ^ 62 := hr.capacity

theorem QcowTables.two_dvd_clusterSize {t : QcowTables} (h : TablesSound hdr t file) :
    2 ∣ t.clusterSize :=
  dvd_pow_self 2 (by have := h.clusterBits.1; omega)

/-- What is known after an attempt to allocate `n` bytes. -/
def AllocResult (z : Inflate) (hdr : ℕ) (m : Calls) (s : QcowState) (k : Kernel) (n : ℕ)
    (r : ℕ × QcowState) (k' : Kernel) : Prop :=
  (r.1 = 0 ∧ Declined m s (k.files s.fd) ∧ k' = k ∧ Sound z hdr r.2 (k.files s.fd) ∧
      ∃ ls, r.2 = { s with rcCache := ls }) ∨
    (k.Only s.fd k' ∧ Allocated z hdr s (k.files s.fd) r.1 n r.2 (k'.files s.fd))

/-- `qcow2_block_alloc` gives a cluster. -/
theorem does_qcow2BlockAlloc (hs : Sound z hdr s (k.files s.fd)) (hv : s.version = .qcow2) :
    Does m (qcow2BlockAlloc s s.clusterSize) (AllocResult z hdr m s k s.clusterSize) k := by
  have hr := hs.refcounts hv
  rw [qcow2BlockAlloc, if_neg (not_not.mpr rfl)]
  refine Does.seq (does_findFreeCluster hs hv hr.free_aligned (Nat.succ_pos _)
    (Nat.lt_of_lt_of_le (Nat.lt_succ_self _) (Nat.le_add_left _ _))) ?_
  rintro ⟨c, s'⟩ k' ⟨hk, hs', ⟨ls, hs'_eq⟩, hfree, halign, hrc, hin⟩
  dsimp only at hs'_eq hfree halign hrc hin
  subst hs'_eq
  rw [hk]
  refine Does.seq (does_zeroRange (Q := fun b k' => (b = false ∧ m.room = false ∧ k' = k) ∨
    (b = true ∧ k' = k.write s.fd
      (writeAt 0 (k.files s.fd) c (List.replicate s.clusterSize 0)))) ?_ ?_) ?_
  · exact fun hroom => Or.inl ⟨rfl, hroom, rfl⟩
  · exact Or.inr ⟨rfl, rfl⟩
  rintro b k' (⟨rfl, hroom, rfl⟩ | ⟨rfl, rfl⟩)
  · refine does_pure (Or.inl ⟨rfl, fun hroom' => ?_, rfl, hs', ls, rfl⟩)
    rw [hroom] at hroom'
    cases hroom'
  · have hpos := s.clusterSize_pos
    have hne : List.replicate s.clusterSize (0 : UInt8) ≠ [] := by
      rw [ne_eq, List.replicate_eq_nil_iff]
      omega
    have hfresh := fresh_of_refcount hs hv halign hfree hrc
    have helse : ∀ x, x < c ∨ c + s.clusterSize ≤ x →
        (writeAt 0 (k.files s.fd) c (List.replicate s.clusterSize 0)).getD x 0 =
          (k.files s.fd).getD x 0 := by
      intro x hx
      rw [getD_writeAt, if_neg (by rw [List.length_replicate]; omega)]
    have hlen := length_le_writeAt 0 (k.files s.fd) c (List.replicate s.clusterSize 0)
    have hnext : (c + s.clusterSize) % s.clusterSize = 0 := (Nat.add_mod_right ..).trans halign
    have hlt : c < 2 ^ 62 := by
      have := end_le_of_countBlock hr halign hin
      omega
    refine does_pure (Or.inr ⟨⟨_, rfl⟩, ?_⟩)
    rw [Kernel.files_write_self]
    refine ⟨⟨?_, ?_, ?_⟩, fun _ => halign, hfresh, ⟨ls, _, rfl⟩, ?_, fun _ => Nat.le_refl _, ?_,
      helse, ?_, hlen, ?_⟩
    · rw [QcowTables.offsetLimit, hv]
      exact hlt
    · exact Nat.mod_eq_zero_of_dvd
        ((QcowTables.two_dvd_clusterSize hs.tables).trans (Nat.dvd_of_mod_eq_zero halign))
    · have hfirst := hfresh .header 0 (Nat.le_refl 0) (by have := hs.tables.hdr_pos; omega)
      dsimp only
      omega
    · exact hfree.trans (Nat.le_add_right _ _)
    · exact (hs'.of_fresh hfresh helse hlen).withFree (hfree.trans (Nat.le_add_right _ _)) hnext
    · intro x hlo hhi
      rw [getD_writeAt, if_pos (by rw [List.length_replicate]; exact ⟨hlo, hhi⟩)]
      rw [List.getD_eq_getElem?_getD, List.getElem?_replicate]
      split <;> rfl
    · rw [length_writeAt _ _ _ hne, List.length_replicate]
      exact Nat.le_max_right _ _

/-- A file that grows has zeros at its end. -/
theorem getD_resize {l : ℕ} (h : file.length ≤ l) (x : ℕ) :
    (resize file l).getD x 0 = file.getD x 0 := by
  rw [resize, List.take_of_length_le h]
  rcases Nat.lt_or_ge x file.length with hlt | hge
  · exact List.getD_append _ _ _ _ hlt
  · rw [List.getD_append_right _ _ _ _ hge, List.getD_eq_default _ _ hge,
      List.getD_eq_getElem?_getD, List.getElem?_replicate]
    split <;> rfl

theorem length_resize (file : List UInt8) (l : ℕ) : (resize file l).length = l := by
  rw [resize, List.length_append, List.length_take, List.length_replicate]
  omega

/-- `qcow_block_alloc` gives the bytes behind the end of the file. -/
theorem does_qcowBlockAlloc (hs : Sound z hdr s (k.files s.fd)) (hv : s.version = .qcow)
    {e : ℕ} (he : 1 ≤ e ∧ e ≤ 16) (hn : n = 2 ^ e) :
    Does m (qcowBlockAlloc s n) (AllocResult z hdr m s k n) k := by
  have hpos : 0 < n := hn ▸ Nat.two_pow_pos e
  have hle : n ≤ 2 ^ 16 := hn ▸ Nat.pow_le_pow_right (by decide) he.2
  have heven : 2 ∣ n := hn ▸ dvd_pow_self 2 (by omega)
  rw [qcowBlockAlloc]
  refine Does.seq (does_seekEnd (Q := fun r k' => r = some (k.files s.fd).length ∧ k' = k)
    ⟨rfl, rfl⟩) ?_
  rintro _ k' ⟨rfl, hk⟩
  rw [hk]
  dsimp only
  generalize hfile : k.files s.fd = file at hs
  -- the end of the file, rounded up
  have hround := Nat.div_add_mod (file.length + n - 1) n
  have hmod := Nat.mod_lt (file.length + n - 1) hpos
  have hmul : (file.length + n - 1) / n * n % n = 0 := Nat.mul_mod_left ..
  have hcomm := Nat.mul_comm n ((file.length + n - 1) / n)
  generalize hoff : (file.length + n - 1) / n * n = c at *
  have hend : file.length ≤ c ∧ c < file.length + n := by omega
  refine Does.seq (does_ftruncate (Q := fun b k' =>
    (b = false ∧ (m.room = true → 2 ^ 63 ≤ c + n) ∧ k' = k) ∨
      (b = true ∧ c + n < 2 ^ 63 ∧ k' = k.write s.fd (resize file (c + n)))) ?_ ?_) ?_
  · exact fun hfull => Or.inl ⟨rfl, hfull, rfl⟩
  · exact fun hlt => Or.inr ⟨rfl, hlt, by rw [hfile]⟩
  rintro b k' (⟨rfl, hfull, rfl⟩ | ⟨rfl, hlt, rfl⟩)
  · refine does_pure (Or.inl ⟨rfl, fun hroom => ⟨hv, ?_⟩, rfl, ?_, s.rcCache, rfl⟩)
    · have hlarge := hfull hroom
      rw [hfile]
      omega
    · rw [hfile]
      exact hs
  · have hsize := hs.tables.room
    have hcpos := s.clusterSize_pos
    have hfresh : Fresh hdr s.toQcowTables file c n := by
      intro a o l hp x hlo hhi
      have hin := hs.tables.placed_le hp
      exact Or.inl (by omega)
    have helse : ∀ x, (resize file (c + n)).getD x 0 = file.getD x 0 :=
      fun x => getD_resize (by omega) x
    have hlen : file.length ≤ (resize file (c + n)).length := by
      rw [length_resize]
      omega
    refine does_pure (Or.inr ⟨⟨_, rfl⟩, ?_⟩)
    rw [hfile, Kernel.files_write_self]
    refine ⟨⟨?_, ?_, ?_⟩, fun hv2 => ?_, hfresh, ⟨s.rcCache, s.firstFreeCluster, rfl⟩,
      Nat.le_refl _, fun hv2 => ?_, hs.of_fresh hfresh (fun x _ => helse x) hlen,
      fun x _ => helse x, fun x hlo _ => ?_, hlen, (length_resize ..).ge⟩
    · rw [QcowTables.offsetLimit, hv]
      dsimp only
      omega
    · exact Nat.mod_eq_zero_of_dvd (heven.trans (Nat.dvd_of_mod_eq_zero hmul))
    · dsimp only
      omega
    · cases hv.symm.trans hv2
    · cases hv.symm.trans hv2
    · rw [helse]
      exact List.getD_eq_default _ _ (by omega)

/-- **Allocation.** -/
theorem does_blockAlloc (hs : Sound z hdr s (k.files s.fd)) {e : ℕ} (he : 1 ≤ e ∧ e ≤ 16)
    (hn : n = 2 ^ e) (hv2 : s.version = .qcow2 → n = s.clusterSize) :
    Does m (blockAlloc s n) (AllocResult z hdr m s k n) k := by
  rw [blockAlloc]
  cases hv : s.version with
  | qcow => exact does_qcowBlockAlloc hs hv he hn
  | qcow2 =>
    rw [hv2 hv]
    exact does_qcow2BlockAlloc hs hv

theorem does_qcowClusterAlloc (hs : Sound z hdr s (k.files s.fd)) :
    Does m (qcowClusterAlloc s) (AllocResult z hdr m s k s.clusterSize) k := by
  have hbits := hs.tables.clusterBits
  exact does_blockAlloc hs ⟨by omega, hbits.2⟩ rfl fun _ => rfl

theorem does_l2TableAlloc (hs : Sound z hdr s (k.files s.fd)) :
    Does m (l2TableAlloc s) (AllocResult z hdr m s k (8 * s.l2Size)) k := by
  have hbits := hs.tables.l2Bits
  have hsize : s.l2Size * 8 = 2 ^ (s.l2Bits + 3) := (Nat.pow_add 2 s.l2Bits 3).symm
  rw [l2TableAlloc, Nat.mul_comm 8]
  refine does_blockAlloc hs ⟨by omega, by omega⟩ hsize fun hv => ?_
  rw [hsize, hs.tables.l2Bits_qcow2 hv]
  rfl

end Alloc

end Tcmu

end LioProject
