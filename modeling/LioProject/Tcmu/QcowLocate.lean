import LioProject.Tcmu.QcowMap

/-!
# QCOW images: clusters get a place of their own

A cluster that is to be written is not in the image, or compressed, or perhaps in several places of
the disk, or it can be written where it is. `get_cluster_offset` deals with each of these cases, and
adds an L2 table before if there is none. Whichever it was, the cluster is alone in its place
afterwards and has the data `clusterBase` (`does_locateCluster`).
-/

namespace LioProject

namespace Tcmu

/-! ### Entries -/

section Entry

variable {t : QcowTables} {x : ℕ}

/-- The flag for compressed clusters is not that for clusters of their own. -/
theorem QcowTables.uncopied_and_clusterCompressed (hx : x < 2 ^ 64) :
    t.uncopied x &&& t.clusterCompressed = x &&& t.clusterCompressed := by
  rw [QcowTables.uncopied, QcowTables.clusterCopied, QcowTables.clusterCompressed]
  cases t.version with
  | qcow =>
    change (x &&& (2 ^ 64 - 1)) &&& 2 ^ 63 = x &&& 2 ^ 63
    rw [Nat.and_two_pow_sub_one_of_lt_two_pow hx]
  | qcow2 =>
    change (x &&& (2 ^ 63 - 1)) &&& 2 ^ 62 = x &&& 2 ^ 62
    rw [Nat.and_assoc]
    rfl

/-- The offset and the size of a compressed cluster are in the bits below the flags. -/
theorem QcowTables.uncopied_and_clusterOffsetMask (hx : x < 2 ^ 64) :
    t.uncopied x &&& t.clusterOffsetMask = x &&& t.clusterOffsetMask := by
  rw [QcowTables.uncopied_eq hx]
  cases t.version with
  | qcow => rfl
  | qcow2 =>
    rw [QcowTables.clusterOffsetMask, Nat.and_two_pow_sub_one_eq_mod,
      Nat.and_two_pow_sub_one_eq_mod]
    exact Nat.mod_mod_of_dvd x (Nat.pow_dvd_pow 2 (Nat.sub_le ..))

theorem QcowTables.uncopied_bits (hx : x < 2 ^ 64) (hbits : t.clusterBits ≤ 63) :
    (t.uncopied x >>> (63 - t.clusterBits)) &&& (t.clusterSize - 1) =
      (x >>> (63 - t.clusterBits)) &&& (t.clusterSize - 1) := by
  rw [QcowTables.uncopied_eq hx]
  cases t.version with
  | qcow => rfl
  | qcow2 =>
    refine Nat.eq_of_testBit_eq fun i => ?_
    rw [QcowTables.clusterSize, Nat.testBit_and, Nat.testBit_and, Nat.testBit_two_pow_sub_one,
      Nat.testBit_shiftRight, Nat.testBit_shiftRight, Nat.testBit_mod_two_pow]
    by_cases hi : i < t.clusterBits
    · rw [decide_eq_true (show 63 - t.clusterBits + i < 63 by omega), Bool.true_and]
    · rw [decide_eq_false hi, Bool.and_false, Bool.and_false]

theorem QcowTables.uncopied_of_and (hx : x < 2 ^ 64) (h : x &&& t.clusterCopied = 0) :
    t.uncopied x = x := by
  rw [QcowTables.uncopied_eq hx]
  rw [QcowTables.clusterCopied] at h
  cases hv : t.version with
  | qcow => rfl
  | qcow2 =>
    rw [hv] at h
    exact Nat.mod_eq_of_lt (lt_two_pow_of_and_eq_zero h hx)

/-- What is left of an entry that is not compressed is an offset. -/
theorem QcowTables.uncopied_lt (hx : x < 2 ^ 64) (h : x &&& t.clusterCompressed = 0) :
    t.uncopied x < t.offsetLimit := by
  rw [← QcowTables.uncopied_and_clusterCompressed hx, QcowTables.clusterCompressed] at h
  rw [QcowTables.offsetLimit]
  have heq := QcowTables.uncopied_eq (t := t) hx
  cases hv : t.version with
  | qcow =>
    rw [hv] at h heq
    exact lt_two_pow_of_and_eq_zero h (heq.trans_lt hx)
  | qcow2 =>
    rw [hv] at h heq
    exact lt_two_pow_of_and_eq_zero h (heq.trans_lt (Nat.mod_lt _ (Nat.two_pow_pos _)))

theorem QcowTables.and_clusterMask_of_lt (hx : x < t.offsetLimit)
    (heven : t.version = .qcow2 → x % 2 = 0) : x &&& t.clusterMask = x := by
  rw [QcowTables.offsetLimit] at hx
  rw [QcowTables.clusterMask]
  cases hv : t.version with
  | qcow =>
    rw [hv] at hx
    exact Nat.and_two_pow_sub_one_of_lt_two_pow hx
  | qcow2 =>
    rw [hv] at hx
    change x < 2 ^ 62 at hx
    change x &&& (2 ^ 62 - 1) <<< 1 = x
    rw [and_even_mask (heven hv)]
    exact Nat.mod_eq_of_lt (by omega)

theorem QcowTables.one_and_clusterCompressed (t : QcowTables) : 1 &&& t.clusterCompressed = 0 := by
  rw [QcowTables.clusterCompressed]
  cases t.version <;> rfl

end Entry

/-! ### What an entry says -/

section Entries

variable {t : QcowTables} {hdr : ℕ} {file : List UInt8} {i j : ℕ}

/-- The mapping in terms of the entry of an L2 table. -/
theorem mapping_of_table (file : List UInt8) (j : ℕ) (h0 : t.l2Offset i ≠ 0) :
    t.mapping file i j =
      if t.uncopied (t.l2Entry file i j) = 0 then .hole
      else if t.uncopied (t.l2Entry file i j) = 1 then .zero
      else if t.uncopied (t.l2Entry file i j) &&& t.clusterCompressed ≠ 0 then
        .compressed (t.uncopied (t.l2Entry file i j) &&& t.clusterOffsetMask)
          ((t.uncopied (t.l2Entry file i j) >>> (63 - t.clusterBits)) &&& (t.clusterSize - 1))
      else .plain (t.uncopied (t.l2Entry file i j)) := by
  have hlocated : t.located file i j = t.uncopied (t.l2Entry file i j) := if_neg h0
  rw [← hlocated]
  exact t.mapping_eq file i j

/-- No entry, no cluster. -/
theorem mapping_of_empty (h0 : t.l2Offset i ≠ 0) (hentry : t.l2Entry file i j = 0) :
    t.mapping file i j = .hole := by
  rw [mapping_of_table file j h0, hentry]
  exact if_pos (Nat.zero_and _)

/-- The flag of a compressed cluster is the one that is looked at. -/
theorem mapping_of_flag (h : TablesSound hdr t file) (h0 : t.l2Offset i ≠ 0)
    (hflag : t.l2Entry file i j &&& t.clusterCompressed ≠ 0) :
    t.mapping file i j = .compressed (t.l2Entry file i j &&& t.clusterOffsetMask)
      ((t.l2Entry file i j >>> (63 - t.clusterBits)) &&& (t.clusterSize - 1)) := by
  have hlt := t.l2Entry_lt file i j
  have hflag' := (QcowTables.uncopied_and_clusterCompressed hlt).trans_ne hflag
  rw [mapping_of_table file j h0, if_neg (fun h => hflag' (by rw [h, Nat.zero_and])),
    if_neg (fun h => hflag' (by rw [h]; exact t.one_and_clusterCompressed)), if_pos hflag',
    QcowTables.uncopied_and_clusterOffsetMask hlt,
    QcowTables.uncopied_bits hlt (h.clusterBits.2.trans (by decide))]

theorem mapping_of_no_flag (h0 : t.l2Offset i ≠ 0)
    (hplain : t.l2Entry file i j &&& t.clusterCompressed = 0) :
    t.mapping file i j =
      if t.uncopied (t.l2Entry file i j) = 0 then .hole
      else if t.uncopied (t.l2Entry file i j) = 1 then .zero
      else .plain (t.uncopied (t.l2Entry file i j)) := by
  have hflag := @QcowTables.uncopied_and_clusterCompressed t _ (t.l2Entry_lt file i j)
  rw [mapping_of_table file j h0, if_neg (not_not.mpr (hflag.trans hplain))]

/-- A cluster that may be shared: its data are at the offset that is in the entry, and those of one
of zeros are taken from the start of the file. -/
theorem mapping_of_shared (h : TablesSound hdr t file) (hi : i < t.l1Size) (hj : j < t.l2Size)
    (h0 : t.l2Offset i ≠ 0) (hne : t.l2Entry file i j ≠ 0)
    (hplain : t.l2Entry file i j &&& t.clusterCompressed = 0)
    (hshared : t.l2Entry file i j &&& t.clusterCopied = 0) :
    ∃ o, (t.mapping file i j = .plain o ∨
        (t.mapping file i j = .zero ∧ o = 0 ∧ t.version = .qcow2)) ∧
      t.l2Entry file i j &&& t.clusterMask = o := by
  have hlt := t.l2Entry_lt file i j
  have hsame := QcowTables.uncopied_of_and hlt hshared
  have hlimit := QcowTables.uncopied_lt hlt hplain
  have hmapping := mapping_of_no_flag h0 hplain
  rw [hsame] at hmapping hlimit
  rw [if_neg hne] at hmapping
  by_cases hone : t.l2Entry file i j = 1
  · rw [if_pos hone] at hmapping
    have hv := (h.zero hi hj hmapping).1
    refine ⟨0, Or.inr ⟨hmapping, rfl, hv⟩, ?_⟩
    rw [hone, QcowTables.clusterMask, hv]
    rfl
  · rw [if_neg hone] at hmapping
    refine ⟨_, Or.inl hmapping, QcowTables.and_clusterMask_of_lt hlimit fun hv => ?_⟩
    exact Nat.mod_eq_zero_of_dvd ((QcowTables.two_dvd_clusterSize h).trans
      (Nat.dvd_of_mod_eq_zero (h.aligned hi hj hmapping hv)))

/-- A cluster that is alone. -/
theorem mapping_of_own (h : TablesSound hdr t file) (hi : i < t.l1Size) (hj : j < t.l2Size)
    (h0 : t.l2Offset i ≠ 0) (hne : t.l2Entry file i j ≠ 0)
    (hplain : t.l2Entry file i j &&& t.clusterCompressed = 0)
    (hown : t.l2Entry file i j &&& t.clusterCopied ≠ 0) :
    t.uncopied (t.l2Entry file i j) ≠ 0 ∧
      t.mapping file i j = .plain (t.uncopied (t.l2Entry file i j)) := by
  have hmapping := mapping_of_no_flag h0 hplain
  have hnot0 : t.uncopied (t.l2Entry file i j) ≠ 0 := by
    intro h'
    rw [if_pos h'] at hmapping
    exact hne (h.hole hi hj h0 hmapping)
  have hnot1 : t.uncopied (t.l2Entry file i j) ≠ 1 := by
    intro h'
    rw [if_neg hnot0, if_pos h'] at hmapping
    obtain ⟨hv, hone⟩ := h.zero hi hj hmapping
    rw [hone, QcowTables.clusterCopied, hv] at hown
    exact hown rfl
  rw [if_neg hnot0, if_neg hnot1] at hmapping
  exact ⟨hnot0, hmapping⟩

end Entries

/-! ### Compressed clusters -/

section Decompress

variable {z : Inflate} {hdr : ℕ} {m : Calls} {k : Kernel} {s : QcowState} {file : List UInt8}
  {i j o n entry : ℕ}

/-- Another compressed cluster is in the cache. -/
theorem Sound.withClusterCache (hs : Sound z hdr s file) (hi : i < s.l1Size) (hj : j < s.l2Size)
    (hm : s.mapping file i j = .compressed o n) :
    Sound z hdr { s with clusterCache := inflated z s.toQcowTables file o n
                         clusterCacheOffset := o } file :=
  { hs with
    clusterCache_length := (hs.inflates hi hj hm).2
    clusterCache := fun hi' hj' hm' ho => by
      subst ho
      rw [hs.same hi hj hm hi' hj' hm']
    refcounts := fun hv => { hs.refcounts hv with } }

/-- **A cluster is decompressed.** -/
theorem does_decompressCluster (hs : Sound z hdr s (k.files s.fd)) (hi : i < s.l1Size)
    (hj : j < s.l2Size) (hm : s.mapping (k.files s.fd) i j = .compressed o n)
    (ho : entry &&& s.clusterOffsetMask = o)
    (hn : (entry >>> (63 - s.clusterBits)) &&& (s.clusterSize - 1) = n) :
    Does m (decompressCluster z s entry)
      (fun r k' => k' = k ∧ r.1 = true ∧ Sound z hdr r.2 (k.files s.fd) ∧
        r.2.clusterCache = inflated z s.toQcowTables (k.files s.fd) o n ∧
        ∃ cc co, r.2 = { s with clusterCache := cc, clusterCacheOffset := co }) k := by
  have hin := hs.tables.placed_le (@Placed.compressed hdr _ _ _ _ _ _ hi hj hm)
  have hlen : (slice (k.files s.fd) o n).length = n := length_slice hin
  obtain ⟨hgood, hsize⟩ := hs.inflates hi hj hm
  rw [decompressCluster]
  dsimp only
  rw [ho, hn]
  split
  · rename_i hoffset
    exact does_pure ⟨rfl, rfl, hs, hs.clusterCache hi hj hm hoffset.symm, _, _, rfl⟩
  · refine Does.seq (does_pread (Q := fun r k' => r = some (slice (k.files s.fd) o n) ∧ k' = k)
      ⟨rfl, rfl⟩) ?_
    rintro _ k' ⟨rfl, hk⟩
    rw [hk]
    dsimp only
    rw [if_neg (not_not.mpr hlen)]
    change Does m (if (z (slice (k.files s.fd) o n) s.clusterSize).1 = true ∧
      (inflated z s.toQcowTables (k.files s.fd) o n).length = s.clusterSize then _ else _) _ k
    have hsplice : splice s.clusterCache 0 (inflated z s.toQcowTables (k.files s.fd) o n) =
        inflated z s.toQcowTables (k.files s.fd) o n := by
      rw [splice_zero, List.drop_eq_nil_of_le (by rw [hsize, hs.clusterCache_length]),
        List.append_nil]
    rw [if_pos ⟨hgood, hsize⟩]
    refine does_pure ⟨rfl, rfl, ?_, hsplice, _, _, rfl⟩
    change Sound z hdr { s with
      clusterCache := splice s.clusterCache 0 (inflated z s.toQcowTables (k.files s.fd) o n)
      clusterCacheOffset := o } (k.files s.fd)
    rw [hsplice]
    exact hs.withClusterCache hi hj hm

end Decompress

/-! ### The cases -/

/-- What a cluster begins with at its new place. -/
def clusterBase (z : Inflate) (t : QcowTables) (file : List UInt8) (i j : ℕ) : List UInt8 :=
  match t.mapping file i j with
  | .hole => List.replicate t.clusterSize 0
  | .zero => slice file 0 t.clusterSize
  | .compressed o n => inflated z t file o n
  | .plain o => slice file o t.clusterSize

/-- What is known after an attempt to give cluster `j` of table `i` a place of its own. -/
def LocateResult (z : Inflate) (hdr : ℕ) (m : Calls) (s : QcowState) (k : Kernel) (i j : ℕ)
    (r : ℕ × QcowState) (k' : Kernel) : Prop :=
  k.Only s.fd k' ∧
    ((r.1 = 0 ∧ ImageKept z hdr m (fun _ _ => True) s (k.files s.fd) r.2 (k'.files s.fd) ∧
        Sound z hdr r.2 (k'.files s.fd) ∧ Declined m s (k'.files s.fd)) ∨
      Located z hdr m s (k.files s.fd) i j (clusterBase z s.toQcowTables (k.files s.fd) i j) r.1 r.2
        (k'.files s.fd))

section Cases

variable {z : Inflate} {hdr : ℕ} {m : Calls} {k : Kernel} {s s' s'' : QcowState}
  {file file' file'' base : List UInt8} {i j c n line : ℕ}

theorem clusterData_eq_none {t : QcowTables} :
    clusterData z t file i j = none ↔ t.mapping file i j = .hole := by
  rw [clusterData]
  cases t.mapping file i j with
  | hole => exact ⟨fun _ => rfl, fun _ => rfl⟩
  | zero | compressed | plain => exact iff_of_false (Option.some_ne_none _) Mapping.noConfusion

/-- Something that kept the image was done before. -/
theorem Located.after (h : ImageKept z hdr m (fun _ _ => True) s file s' file')
    (h' : Located z hdr m s' file' i j base c s'' file'') :
    Located z hdr m s file i j base c s'' file'' := by
  have hkept := (h.mono fun _ _ _ => trivial).trans h'.toImageKept
  obtain ⟨l1, rt, l2, cc, co, rc, f, rfl⟩ := h.state
  exact { hkept with
    sound := h'.sound
    mapping := h'.mapping
    lt := h'.lt
    ne_zero := h'.ne_zero
    alone := h'.alone
    base := h'.base }

theorem LineOf.of_slice {offset : ℕ} {ls : List (CacheLine (List UInt8))}
    (h : LineOf file n offset ls line) (hslice : slice file' offset n = slice file offset n) :
    LineOf file' n offset ls line :=
  ⟨h.line, h.data.trans hslice.symm⟩

theorem writeAt_elsewhere (file bs : List UInt8) (c : ℕ) :
    ∀ x, x < c ∨ c + bs.length ≤ x → (writeAt 0 file c bs).getD x 0 = file.getD x 0 := by
  intro x hx
  rw [getD_writeAt, if_neg (by omega)]

/-- There was no room for a cluster. -/
theorem LocateResult.declined (h : Declined m s (k.files s.fd))
    (hs' : Sound z hdr s' (k.files s.fd)) (hstate : ∃ l2 cc co rc f, s' = { s with
      l2Cache := l2, clusterCache := cc, clusterCacheOffset := co, rcCache := rc,
      firstFreeCluster := f }) : LocateResult z hdr m s k i j (0, s') k :=
  ⟨.refl .., Or.inl ⟨rfl, .of_tables hstate, hs', h⟩⟩

theorem LocateResult.after {r : ℕ × QcowState} {k₁ k' : Kernel} (honly : k.Only s.fd k₁)
    (hkept : ImageKept z hdr m (fun _ _ => True) s (k.files s.fd) s' (k₁.files s.fd))
    (hbase : clusterBase z s'.toQcowTables (k₁.files s.fd) i j =
      clusterBase z s.toQcowTables (k.files s.fd) i j)
    (h : LocateResult z hdr m s' k₁ i j r k') : LocateResult z hdr m s k i j r k' := by
  obtain ⟨honly', h⟩ := h
  have hkept' := hkept
  obtain ⟨l1, rt, l2, cc, co, rc, f, rfl⟩ := hkept'.state
  refine ⟨honly.trans honly', ?_⟩
  rcases h with ⟨hr, hkept', hs', hdeclined⟩ | hlocated
  · exact Or.inl ⟨hr, hkept.trans hkept', hs', hdeclined⟩
  · exact Or.inr (hbase ▸ Located.after hkept hlocated)

/-- Only caches have changed before. -/
theorem LocateResult.after_cache {r : ℕ × QcowState} {k' : Kernel}
    (hstate : ∃ l2 cc co rc f, s' = { s with
      l2Cache := l2, clusterCache := cc, clusterCacheOffset := co, rcCache := rc,
      firstFreeCluster := f })
    (h : LocateResult z hdr m s' k i j r k') : LocateResult z hdr m s k i j r k' := by
  refine h.after (.refl ..) (.of_tables hstate) ?_
  obtain ⟨l2, cc, co, rc, f, rfl⟩ := hstate
  rfl

/-- **A cluster that has been allocated is mapped**, after it has been filled with `base`. -/
theorem does_mapAllocated {k₁ k₂ : Kernel} {s₁ : QcowState} (hs : Sound z hdr s (k.files s.fd))
    (hi : i < s.l1Size) (hj : j < s.l2Size) (h0 : s.l2Offset i ≠ 0)
    (hline : LineOf (k.files s.fd) (8 * s.l2Size) (s.l2Offset i) s.l2Cache line)
    (halloc : Allocated z hdr s (k.files s.fd) c s.clusterSize s₁ (k₁.files s.fd))
    (honly : k.Only s.fd k₂) (hlen : (k₁.files s.fd).length ≤ (k₂.files s.fd).length)
    (helse : ∀ x, x < c ∨ c + s.clusterSize ≤ x →
      (k₂.files s.fd).getD x 0 = (k₁.files s.fd).getD x 0)
    (hbase : slice (k₂.files s.fd) c s.clusterSize =
      clusterBase z s.toQcowTables (k.files s.fd) i j) :
    Does m (mapCluster s₁ line (s.l2Offset i) j c) (LocateResult z hdr m s k i j) k₂ := by
  have hfresh := halloc.fresh_after
  have htables := halloc.tables
  have hkept := halloc.imageKept (m := m) (P := fun _ _ => True) hs.tables
  have htable := @Placed.table hdr _ (k.files s.fd) _ hi h0
  have hline₁ := hline.of_slice (hs.tables.slice_eq halloc.length htable (halloc.stays htable))
  obtain ⟨ls, f, rfl⟩ := halloc.state
  have hs₂ : Sound z hdr _ (k₂.files s.fd) := halloc.sound.of_fresh hfresh helse hlen
  have htable₁ := htable.of_stays halloc.tablesStay
  have hline₂ := hline₁.of_slice
    (halloc.sound.tables.slice_eq hlen htable₁ (hfresh.stays helse htable₁))
  have hfilled : ImageKept z hdr m (fun _ _ => True) { s with rcCache := ls, firstFreeCluster := f }
      (k₁.files s.fd) { s with rcCache := ls, firstFreeCluster := f } (k₂.files s.fd) := by
    have htablesStay : TablesStay s.toQcowTables (k₁.files s.fd) (k₂.files s.fd) :=
      fun i' hi' h0' => hfresh.stays helse (@Placed.table hdr _ _ _ hi' h0')
    refine ⟨⟨_, _, _, _, _, _, _, rfl⟩, hlen, hfresh.stays helse .header, fun i' j' hi' hj' _ => ?_,
      fun _ hv E hE => ?_⟩
    · have hmap := mapping_of_stays (htablesStay i' hi') hj'
      exact clusterKept_of_stays halloc.sound.tables hmap hlen hi' hj'
        fun hp => hfresh.stays helse hp
    · exact hE.of_stays halloc.sound.tables htablesStay
        ⟨hfresh.stays helse (.rcTable hv), fun hk hk0 => hfresh.stays helse (.rcBlock hv hk hk0)⟩ hv
        hlen
  have hback : TablesStay s.toQcowTables (k₂.files s.fd) (k₁.files s.fd) :=
    TablesStay.symm fun i' hi' h0' => hfresh.stays helse (@Placed.table hdr _ _ _ hi' h0')
  have hfresh₂ : Fresh hdr s.toQcowTables (k₂.files s.fd) c s.clusterSize :=
    fun _ _ _ hp => hfresh (hp.of_stays hback)
  refine (does_mapCluster hs₂ hi hj h0 hline₂ halloc.offset halloc.aligned
    (halloc.inside.trans hlen) hfresh₂ halloc.le_free).mono fun r k' h => ?_
  obtain ⟨honly', rfl, hlocated⟩ := h
  refine ⟨honly.trans honly', Or.inr ?_⟩
  rw [← hbase]
  exact Located.after (hkept.trans hfilled) hlocated

theorem slice_of_zeros (hin : c + n ≤ file.length)
    (h : ∀ x, c ≤ x → x < c + n → file.getD x 0 = 0) : slice file c n = List.replicate n 0 := by
  refine List.eq_replicate_iff.mpr ⟨length_slice hin, fun b hb => ?_⟩
  obtain ⟨x, hx, rfl⟩ := List.getElem_of_mem hb
  rw [length_slice hin] at hx
  rw [← List.getD_eq_getElem _ 0, getD_slice, if_pos hx]
  exact h _ (Nat.le_add_right _ _) (Nat.add_lt_add_left hx _)

/-- A cluster that is not in the image. -/
theorem does_allocHole (hs : Sound z hdr s (k.files s.fd)) (hi : i < s.l1Size)
    (hj : j < s.l2Size) (h0 : s.l2Offset i ≠ 0)
    (hline : LineOf (k.files s.fd) (8 * s.l2Size) (s.l2Offset i) s.l2Cache line)
    (hm : s.mapping (k.files s.fd) i j = .hole) :
    Does m (do
      let (c, s₁) ← qcowClusterAlloc s
      if c = 0 then pure (0, s₁) else mapCluster s₁ line (s.l2Offset i) j c)
      (LocateResult z hdr m s k i j) k := by
  refine Does.seq (does_qcowClusterAlloc hs) ?_
  rintro ⟨c, s₁⟩ k₁ (⟨rfl, hdeclined, rfl, hs₁, ls, hs₁_eq⟩ | ⟨honly, halloc⟩)
  · dsimp only at hs₁ hs₁_eq
    exact does_pure (.declined hdeclined hs₁ ⟨_, _, _, ls, _, hs₁_eq⟩)
  · dsimp only at halloc ⊢
    rw [if_neg halloc.offset.ne_zero]
    refine does_mapAllocated hs hi hj h0 hline halloc honly (Nat.le_refl _) (fun _ _ => rfl) ?_
    rw [clusterBase, hm]
    exact slice_of_zeros halloc.inside halloc.zero

/-- What is written into a cluster that has been allocated. -/
theorem does_fill {k₁ : Kernel} {s₁ : QcowState} {bytes : List UInt8}
    (hs : Sound z hdr s (k.files s.fd))
    (hi : i < s.l1Size) (hj : j < s.l2Size) (h0 : s.l2Offset i ≠ 0)
    (hline : LineOf (k.files s.fd) (8 * s.l2Size) (s.l2Offset i) s.l2Cache line)
    (halloc : Allocated z hdr s (k.files s.fd) c s.clusterSize s₁ (k₁.files s.fd))
    (honly : k.Only s.fd k₁) (hbytes : bytes.length = s.clusterSize)
    (hbase : bytes = clusterBase z s.toQcowTables (k.files s.fd) i j) :
    Does m (do
      let written ← Sys.pwrite s₁.fd bytes c
      if written ≠ s₁.clusterSize then pure (0, s₁)
      else mapCluster s₁ line (s.l2Offset i) j c) (LocateResult z hdr m s k i j) k₁ := by
  have htables := halloc.tables
  have hpos := s.clusterSize_pos
  rw [show s₁.fd = s.fd by rw [htables], show s₁.clusterSize = s.clusterSize by rw [htables]]
  refine Does.seq (does_pwrite (Q := fun r k' => r = bytes.length ∧
    k' = k₁.write s.fd (writeAt 0 (k₁.files s.fd) c bytes)) ⟨rfl, rfl⟩) ?_
  rintro _ k₂ ⟨rfl, rfl⟩
  rw [if_neg (not_not.mpr (by rw [hbytes]))]
  refine does_mapAllocated hs hi hj h0 hline halloc (honly.trans ⟨_, rfl⟩) ?_ ?_ ?_
  · rw [Kernel.files_write_self]
    exact length_le_writeAt ..
  · rw [Kernel.files_write_self, ← hbytes]
    exact writeAt_elsewhere _ _ _
  · rw [Kernel.files_write_self, ← hbase, ← hbytes]
    refine slice_writeAt 0 _ _ fun hnil => ?_
    rw [hnil] at hbytes
    exact absurd hbytes.symm hpos.ne'

/-- A compressed cluster. -/
theorem does_reallocCompressed {o l entry : ℕ} (hs : Sound z hdr s (k.files s.fd))
    (hi : i < s.l1Size) (hj : j < s.l2Size) (h0 : s.l2Offset i ≠ 0)
    (hline : LineOf (k.files s.fd) (8 * s.l2Size) (s.l2Offset i) s.l2Cache line)
    (hm : s.mapping (k.files s.fd) i j = .compressed o l)
    (ho : entry &&& s.clusterOffsetMask = o)
    (hl : (entry >>> (63 - s.clusterBits)) &&& (s.clusterSize - 1) = l) :
    Does m (reallocCompressed z s line (s.l2Offset i) j entry)
      (LocateResult z hdr m s k i j) k := by
  rw [reallocCompressed]
  refine Does.seq (does_decompressCluster hs hi hj hm ho hl) ?_
  rintro ⟨_, s₀⟩ k' ⟨hk, hok, hs₀, hcache, cc, co, hs₀_eq⟩
  dsimp only at hok hs₀ hcache hs₀_eq
  subst hok
  rw [hk]
  have hsize := (hs.inflates hi hj hm).2
  have hbase : (inflated z s.toQcowTables (k.files s.fd) o l).take s.clusterSize =
      clusterBase z s.toQcowTables (k.files s.fd) i j := by
    rw [clusterBase, hm, List.take_of_length_le (Nat.le_of_eq hsize)]
  refine (Does.mono (Q := LocateResult z hdr m s₀ k i j) ?_ fun r k' h =>
    h.after_cache ⟨_, cc, co, _, _, hs₀_eq⟩)
  subst hs₀_eq
  dsimp only at hcache ⊢
  rw [if_neg Bool.noConfusion]
  refine Does.seq (does_qcowClusterAlloc hs₀) ?_
  rintro ⟨c, s₁⟩ k₁ (⟨rfl, hdeclined, rfl, hs₁, ls, hs₁_eq⟩ | ⟨honly, halloc⟩)
  · dsimp only at hs₁ hs₁_eq
    exact does_pure (.declined hdeclined hs₁ ⟨_, _, _, ls, _, hs₁_eq⟩)
  · dsimp only at halloc ⊢
    rw [if_neg halloc.offset.ne_zero]
    have htake : s₁.clusterCache.take s₁.clusterSize =
        (inflated z s.toQcowTables (k.files s.fd) o l).take s.clusterSize := by
      obtain ⟨ls, f, rfl⟩ := halloc.state
      exact congrArg _ hcache
    rw [htake]
    refine does_fill hs₀ hi hj h0 hline halloc honly ?_ hbase
    rw [List.length_take, hsize, Nat.min_self]

/-- An allocation leaves the first cluster of the file alone. -/
theorem Allocated.first_stays (h : Allocated z hdr s file c n s' file') (hv : s.version = .qcow2) :
    Stays file file' 0 s.clusterSize := by
  have hle : s.clusterSize ≤ c :=
    Nat.le_of_dvd (Nat.pos_of_ne_zero h.offset.ne_zero) (Nat.dvd_of_mod_eq_zero (h.aligned hv))
  exact fun x _ hx => h.elsewhere x (Or.inl (by omega))

/-- A cluster that may be in several places of the disk, or is said to be one of zeros. -/
theorem does_reallocShared {o entry : ℕ} (hs : Sound z hdr s (k.files s.fd))
    (hi : i < s.l1Size) (hj : j < s.l2Size) (h0 : s.l2Offset i ≠ 0)
    (hline : LineOf (k.files s.fd) (8 * s.l2Size) (s.l2Offset i) s.l2Cache line)
    (hm : s.mapping (k.files s.fd) i j = .plain o ∨
      (s.mapping (k.files s.fd) i j = .zero ∧ o = 0 ∧ s.version = .qcow2))
    (ho : entry &&& s.clusterMask = o) :
    Does m (reallocShared s line (s.l2Offset i) j entry)
      (LocateResult z hdr m s k i j) k := by
  have hbase : slice (k.files s.fd) o s.clusterSize =
      clusterBase z s.toQcowTables (k.files s.fd) i j := by
    rcases hm with hm | ⟨hm, rfl, -⟩ <;> rw [clusterBase, hm]
  have hin : o + s.clusterSize ≤ (k.files s.fd).length := by
    rcases hm with hm | ⟨-, rfl, -⟩
    · exact hs.tables.placed_le (@Placed.plain hdr _ _ _ _ _ hi hj hm)
    · rw [Nat.zero_add]
      exact hs.tables.room
  rw [reallocShared]
  dsimp only
  rw [ho]
  refine Does.seq (does_malloc (Q := fun b k' => k' = k ∧ (b = false → m.room = false))
    (fun hroom => ⟨rfl, fun _ => hroom⟩) ⟨rfl, Bool.noConfusion⟩) ?_
  rintro b k' ⟨rfl, hroom⟩
  split
  · rename_i hb
    refine does_pure (.declined (fun hr => ?_) hs ⟨_, _, _, _, _, rfl⟩)
    rw [hroom hb] at hr
    cases hr
  refine Does.seq (does_qcowClusterAlloc hs) ?_
  rintro ⟨c, s₁⟩ k₁ (⟨rfl, hdeclined, rfl, hs₁, ls, hs₁_eq⟩ | ⟨honly, halloc⟩)
  · dsimp only at hs₁ hs₁_eq
    exact does_pure (.declined hdeclined hs₁ ⟨_, _, _, ls, _, hs₁_eq⟩)
  · dsimp only at halloc ⊢
    rw [if_neg halloc.offset.ne_zero]
    have htables := halloc.tables
    have hfd : s₁.fd = s.fd := by rw [htables]
    have hsize : s₁.clusterSize = s.clusterSize := by rw [htables]
    have hstays : Stays (k'.files s.fd) (k₁.files s.fd) o s.clusterSize := by
      rcases hm with hm | ⟨-, rfl, hv⟩
      · exact halloc.stays (.plain hi hj hm)
      · exact halloc.first_stays hv
    have hread : slice (k₁.files s.fd) o s.clusterSize = slice (k'.files s.fd) o s.clusterSize :=
      hstays.slice_eq hin (hin.trans halloc.length)
    have hlen : (slice (k₁.files s.fd) o s.clusterSize).length = s.clusterSize :=
      length_slice (hin.trans halloc.length)
    refine Does.seq (does_pread (Q := fun r k₂ => r = some (slice (k₁.files s.fd) o s.clusterSize) ∧
      k₂ = k₁) ?_) ?_
    · rw [hfd, hsize]
      exact ⟨rfl, rfl⟩
    rintro _ k₂ ⟨rfl, hk₂⟩
    rw [hk₂]
    dsimp only
    rw [if_neg (not_not.mpr (hlen.trans hsize.symm))]
    exact does_fill hs hi hj h0 hline halloc honly hlen (hread.trans hbase)

/-- A cluster that is alone stays where it is. -/
theorem LocateResult.own (hs : Sound z hdr s (k.files s.fd)) (hi : i < s.l1Size)
    (hj : j < s.l2Size) (h0 : s.l2Offset i ≠ 0) (hne : s.l2Entry (k.files s.fd) i j ≠ 0)
    (hplain : s.l2Entry (k.files s.fd) i j &&& s.clusterCompressed = 0)
    (hown : s.l2Entry (k.files s.fd) i j &&& s.clusterCopied ≠ 0) :
    LocateResult z hdr m s k i j (s.uncopied (s.l2Entry (k.files s.fd) i j), s) k := by
  obtain ⟨hnot0, hmapping⟩ := mapping_of_own hs.tables hi hj h0 hne hplain hown
  have hplaced : Placed hdr s.toQcowTables (k.files s.fd) (.cluster i j)
      (s.uncopied (s.l2Entry (k.files s.fd) i j)) s.clusterSize := .plain hi hj hmapping
  refine ⟨.refl .., Or.inr ?_⟩
  refine { ImageKept.of_tables ⟨_, _, _, _, _, rfl⟩ with
    sound := hs
    mapping := hmapping
    lt := QcowTables.uncopied_lt (s.l2Entry_lt _ i j) hplain
    ne_zero := hnot0
    alone := fun a o n hp hne => hs.tables.outside hplaced hown hp hne
    base := by rw [clusterBase, hmapping] }

/-- **With the L2 table there**, the cluster gets a place of its own. -/
theorem does_clusterOfTable (hs : Sound z hdr s (k.files s.fd)) (hi : i < s.l1Size)
    (hj : j < s.l2Size) (h0 : s.l2Offset i ≠ 0) :
    Does m (clusterOfTable z s (s.l2Offset i) j true) (LocateResult z hdr m s k i j) k := by
  rw [clusterOfTable]
  refine Does.seq (does_l2CacheLookup hs hi h0) ?_
  rintro ⟨_, s₀⟩ k' ⟨hk, hs₀, ls, line, hs₀_eq, hline_eq, hline⟩
  dsimp only at hs₀ hs₀_eq hline_eq
  subst hline_eq
  rw [hk]
  refine (Does.mono (Q := LocateResult z hdr m s₀ k i j) ?_ fun r k' h =>
    h.after_cache ⟨ls, _, _, _, _, hs₀_eq⟩)
  subst hs₀_eq
  dsimp only
  rw [hline.entry hj]
  split
  · rename_i hnone
    rw [if_neg (fun h => Bool.noConfusion h)]
    exact does_allocHole hs₀ hi hj h0 hline (mapping_of_empty h0 hnone)
  rename_i hne
  split
  · rename_i hflag
    exact does_reallocCompressed hs₀ hi hj h0 hline (mapping_of_flag hs.tables h0 hflag.1) rfl rfl
  rename_i hplain
  have hplain' : s.l2Entry (k.files s.fd) i j &&& s.clusterCompressed = 0 := by
    by_contra h
    exact hplain ⟨h, rfl⟩
  split
  · rename_i hshared
    obtain ⟨o, hmapping, ho⟩ := mapping_of_shared hs.tables hi hj h0 hne hplain' hshared.1
    exact does_reallocShared hs₀ hi hj h0 hline hmapping ho
  · rename_i hcopied
    exact does_pure (.own hs₀ hi hj h0 hne hplain' fun h => hcopied ⟨h, rfl⟩)

end Cases

/-! ### L2 tables -/

section Table

variable {z : Inflate} {hdr : ℕ} {m : Calls} {k : Kernel} {s : QcowState}
  {file file' : List UInt8} {i c : ℕ}

section New

variable {t : QcowTables} (hs : TablesSound hdr t file) (hi : i < t.l1Size) (h0 : t.l2Offset i = 0)
  (hc : Offset t c) (hzero : ∀ j < t.l2Size, beAt file (c + 8 * j) 8 = 0)

include hs hi h0 hc

/-- The tables of the lines of the cache are still in use. -/
theorem CacheOf.withTable {n : ℕ} {ls : List (CacheLine (List UInt8))}
    (h : CacheOf file n (fun o => ∃ i < t.l1Size, t.l2Offset i = o) ls) :
    CacheOf file n (fun o => ∃ i' < t.l1Size, (t.withTable i c).l2Offset i' = o) ls := by
  refine ⟨h.coherent, h.lines, fun {j l} hl hne => ?_⟩
  obtain ⟨i', hi', hoff⟩ := h.tags hl hne
  refine ⟨i', hi', ?_⟩
  rw [l2Offset_withTable hs hi hc, if_neg fun hii => ?_, hoff]
  rw [hii, h0] at hoff
  exact hne hoff.symm

include hzero

/-- The new table is the only area that may have no count. -/
theorem Covered.withTable {E : ℕ → Prop} (h : Covered hdr t file E) :
    Covered hdr (t.withTable i c) file fun x => E x ∨ (c ≤ x ∧ x < c + 8 * t.l2Size) := by
  intro a o n hp x hlo hhi
  rcases placed_withTable hs hi h0 hc hzero hp with ⟨-, rfl, rfl⟩ | ⟨-, hp⟩
  · exact Or.inr (Or.inr ⟨hlo, hhi⟩)
  · exact (h hp x hlo hhi).imp_right Or.inl

/-- There is nothing in the new table. -/
theorem clusterKept_withTable (i' : ℕ) {j' : ℕ} (hj' : j' < t.l2Size) :
    ClusterKept z t file (t.withTable i c) file i' j' := by
  have hmap := mapping_withTable hs hi h0 hc hzero i' hj'
  refine ⟨?_, fun hz => hmap.symm.trans hz⟩
  rw [clusterData, hmap, clusterData]
  rfl

end New

/-- **A new L2 table** goes into the L1 table. -/
theorem Sound.withTable (hs : Sound z hdr s file) (hi : i < s.l1Size) (h0 : s.l2Offset i = 0)
    (hc : Offset s.toQcowTables c)
    (hzero : ∀ x, c ≤ x → x < c + 8 * s.l2Size → file.getD x 0 = 0)
    (hin : c + 8 * s.l2Size ≤ file.length)
    (hfresh : Fresh hdr s.toQcowTables file c (8 * s.l2Size))
    (hfree : s.version = .qcow2 → c + 8 * s.l2Size ≤ s.firstFreeCluster)
    (hdisk : slice file' s.l1TableOffset (8 * s.l1Size) =
      putBe s.l1Table (8 * i) (c ||| s.clusterCopied) 8)
    (helse : ∀ x, x < s.l1TableOffset ∨ s.l1TableOffset + 8 * s.l1Size ≤ x →
      file'.getD x 0 = file.getD x 0)
    (hlen : file.length ≤ file'.length) :
    Sound z hdr { s with l1Table := putBe s.l1Table (8 * i) (c ||| s.clusterCopied) 8 } file' ∧
      Stays file file' 0 hdr ∧
      (∀ i' j', i' < s.l1Size → j' < s.l2Size →
        ClusterKept z s.toQcowTables file (s.withTable i c) file' i' j') ∧
      (s.version = .qcow2 → ∀ E, Covered hdr s.toQcowTables file E →
        Covered hdr (s.withTable i c) file' fun x => E x ∨ (c ≤ x ∧ x < c + 8 * s.l2Size)) := by
  have hstays : ∀ ⦃a o n⦄, Placed hdr s.toQcowTables file a o n → a ≠ .l1 →
      Stays file file' o n := fun a o n hp hne x hlo hhi =>
    helse x (hs.tables.outside .l1 trivial hp hne x hlo hhi)
  have htables : TablesStay s.toQcowTables file file' :=
    fun i' hi' h0' => hstays (@Placed.table hdr _ _ _ hi' h0') Area.noConfusion
  have hcounts : s.version = .qcow2 → CountsStay s.toQcowTables file file' := fun hv =>
    ⟨hstays (.rcTable hv) Area.noConfusion, fun hk hk0 =>
      hstays (.rcBlock hv hk hk0) Area.noConfusion⟩
  have hold : TablesSound hdr s.toQcowTables file' := hs.tables.of_stays htables hlen
  have hfresh' : Fresh hdr s.toQcowTables file' c (8 * s.l2Size) :=
    fun _ _ _ hp => hfresh (hp.of_stays htables.symm)
  have hzero' : ∀ j < s.l2Size, beAt file' (c + 8 * j) 8 = 0 := by
    intro j hj
    refine beAt_of_zeros fun x hx => ?_
    rw [byteAt, helse, hzero _ (by omega) (by omega)]
    · rfl
    by_contra hout
    rw [not_or, Nat.not_lt, Nat.not_le] at hout
    rcases hfresh .l1 _ hout.1 hout.2 with hlt | hge <;> omega
  have hcompressed : ∀ {i' j' o n}, i' < s.l1Size → j' < s.l2Size →
      (s.withTable i c).mapping file' i' j' = .compressed o n →
      s.mapping file i' j' = .compressed o n ∧ slice file' o n = slice file o n := by
    intro i' j' o n hi' hj' hm
    rw [mapping_withTable hold hi h0 hc hzero' i' hj', mapping_of_stays (htables i' hi') hj'] at hm
    have hp := @Placed.compressed hdr _ _ _ _ _ _ hi' hj' hm
    exact ⟨hm, hs.tables.slice_eq hlen hp (hstays hp Area.noConfusion)⟩
  have hcovered : s.version = .qcow2 → ∀ E, Covered hdr s.toQcowTables file E →
      Covered hdr (s.withTable i c) file' fun x => E x ∨ (c ≤ x ∧ x < c + 8 * s.l2Size) :=
    fun hv E hE =>
      (hE.of_stays hs.tables htables (hcounts hv) hv hlen).withTable hold hi h0 hc hzero'
  refine ⟨⟨hs.toMapSound.of_compressed (hold.withTable hi h0 hc hzero' (hin.trans hlen) hfresh')
    hdisk ?_ hcompressed, fun hv => ?_⟩, hstays .header Area.noConfusion,
    fun i' j' hi' hj' => ?_, hcovered⟩
  · refine CacheOf.withTable hold hi h0 hc (hs.l2Cache.of_slice ?_)
    rintro o ho ⟨i', hi', rfl⟩
    exact hs.tables.slice_eq hlen (.table hi' ho) (htables i' hi' ho)
  · have hr := (hs.refcounts hv).of_stays hs.tables htables (hcounts hv) hv hlen
    exact { hr with
      in_use := (hcovered hv _ (hs.refcounts hv).in_use).mono fun x hx =>
        hx.elim id fun hx => hx.2.trans_le (hfree hv) }
  · refine (clusterKept_of_stays hs.tables (mapping_of_stays (htables i' hi') hj') hlen hi' hj'
      fun hp => hstays hp Area.noConfusion).trans ?_
    exact clusterKept_withTable hold hi h0 hc hzero' i' hj'

/-- `l1_table_update`, with an L2 table that has been allocated. -/
theorem does_l1TableUpdate (hs : Sound z hdr s (k.files s.fd)) (hi : i < s.l1Size)
    (h0 : s.l2Offset i = 0) (hc : Offset s.toQcowTables c)
    (hzero : ∀ x, c ≤ x → x < c + 8 * s.l2Size → (k.files s.fd).getD x 0 = 0)
    (hin : c + 8 * s.l2Size ≤ (k.files s.fd).length)
    (hfresh : Fresh hdr s.toQcowTables (k.files s.fd) c (8 * s.l2Size))
    (hfree : s.version = .qcow2 → c + 8 * s.l2Size ≤ s.firstFreeCluster) :
    Does m (l1TableUpdate s i (c ||| s.clusterCopied))
      (fun s' k' => s' = { s with l1Table := putBe s.l1Table (8 * i) (c ||| s.clusterCopied) 8 } ∧
        k.Only s.fd k' ∧ (k.files s.fd).length ≤ (k'.files s.fd).length ∧
        Sound z hdr s' (k'.files s.fd) ∧ Stays (k.files s.fd) (k'.files s.fd) 0 hdr ∧
        (∀ i' j', i' < s.l1Size → j' < s.l2Size →
          ClusterKept z s.toQcowTables (k.files s.fd) s'.toQcowTables (k'.files s.fd) i' j') ∧
        (s.version = .qcow2 → ∀ E, Covered hdr s.toQcowTables (k.files s.fd) E →
          Covered hdr s'.toQcowTables (k'.files s.fd)
            fun x => E x ∨ (c ≤ x ∧ x < c + 8 * s.l2Size))) k := by
  have htin := hs.tables.placed_le .l1
  have hlen := hs.tables.l1_length
  refine Does.seq (does_tableUpdate (by rw [hlen]; exact hs.l1_disk) (by rw [hlen]; exact htin)
    (by rw [hlen]; omega)) ?_
  rintro _ k' ⟨rfl, file', rfl, hdisk, hgrow, helse⟩
  rw [hlen] at hdisk helse
  obtain ⟨hs', hheader, hdata, hcovered⟩ :=
    hs.withTable hi h0 hc hzero hin hfresh hfree hdisk helse hgrow
  refine does_pure ⟨rfl, ⟨_, rfl⟩, ?_⟩
  rw [Kernel.files_write_self]
  exact ⟨hgrow, hs', hheader, hdata, hcovered⟩

/-- **A cluster gets a place of its own.** -/
theorem does_locateCluster (hs : Sound z hdr s (k.files s.fd)) {x : ℕ}
    (hx : x < s.l1Size * 2 ^ (s.l2Bits + s.clusterBits)) :
    Does m (getClusterOffset z s x true)
      (LocateResult z hdr m s k (s.l1Index x) (s.l2Index x)) k := by
  obtain ⟨-, hi⟩ := l1Index_eq hs.tables hx
  have hj := l2Index_lt s.toQcowTables x
  have hin : ¬s.l1Table.length < 8 * s.l1Index x + 8 := by
    rw [hs.tables.l1_length]
    omega
  rw [getClusterOffset, if_neg hin]
  dsimp only
  split
  · rename_i h0
    exact does_clusterOfTable hs hi hj h0
  rename_i h0
  rw [not_not] at h0
  rw [if_neg Bool.noConfusion]
  have hhole : s.mapping (k.files s.fd) (s.l1Index x) (s.l2Index x) = .hole := if_pos h0
  refine Does.seq (does_l2TableAlloc hs) ?_
  rintro ⟨c, s₁⟩ k₁ (⟨rfl, hdeclined, rfl, hs₁, ls, hs₁_eq⟩ | ⟨honly₁, halloc⟩)
  · dsimp only at hs₁ hs₁_eq
    exact does_pure (.declined hdeclined hs₁ ⟨_, _, _, ls, _, hs₁_eq⟩)
  dsimp only at halloc ⊢
  rw [if_neg halloc.offset.ne_zero]
  have hkept₁ := halloc.imageKept (m := m) (P := fun _ _ => True) hs.tables
  have hfresh := halloc.fresh_after
  have halign := halloc.aligned
  obtain ⟨ls, f, rfl⟩ := halloc.state
  refine Does.seq (does_l1TableUpdate (i := s.l1Index x) halloc.sound hi h0 halloc.offset
    halloc.zero halloc.inside hfresh halloc.le_free) ?_
  rintro s₂ k₂ ⟨rfl, honly₂, hlen₂, hs₂, hheader₂, hdata₂, hcov₂⟩
  refine Does.seq (does_stateSetRefcount hs₂ c) ?_
  rintro s₃ k₃ ⟨honly₃, hs₃, hset₃, hroom₃⟩
  have hoff : (s.withTable (s.l1Index x) c).l2Offset (s.l1Index x) = c := by
    rw [l2Offset_withTable hs.tables hi halloc.offset, if_pos rfl]
  have hne : (s.withTable (s.l1Index x) c).l2Offset (s.l1Index x) ≠ 0 :=
    hoff.trans_ne halloc.offset.ne_zero
  have hkept₃ : ImageKept z hdr m (fun _ _ => True) _ (k₂.files s.fd) s₃ (k₃.files s.fd) :=
    hset₃.imageKept hs₂.tables fun hr hv => (hroom₃ hr hv).2
  have hkept : ImageKept z hdr m (fun _ _ => True) s (k.files s.fd) s₃ (k₃.files s.fd) := by
    refine ⟨?_, halloc.length.trans (hlen₂.trans hset₃.length),
      hkept₁.header.trans (hheader₂.trans hkept₃.header), fun i j hi hj _ => ?_,
      fun hr hv E hE => ?_⟩
    · obtain ⟨T, ls', f', rfl⟩ := hset₃.state
      exact ⟨_, T, _, _, _, ls', f', rfl⟩
    · exact (hkept₁.data i j hi hj trivial).trans
        ((hdata₂ i j hi hj).trans (hkept₃.data i j hi hj trivial))
    · obtain ⟨hcount, hcov₃⟩ := hroom₃ hr hv
      have hE₃ := hcov₃ _ (hcov₂ hv E (hkept₁.covered hr hv E hE))
      rw [show QcowTables.l2Size _ = s.l2Size from rfl, hs.tables.l2Size_eq hv] at hE₃
      obtain ⟨T, ls', f', rfl⟩ := hset₃.state
      exact hE₃.of_cluster (halign hv) hcount
  have hstate : s₃.fd = s.fd ∧ s₃.l1Size = s.l1Size ∧ s₃.l2Size = s.l2Size ∧
      s₃.l2Index x = s.l2Index x ∧ s₃.clusterSize = s.clusterSize ∧
      s₃.l2Offset (s.l1Index x) = c := by
    obtain ⟨T, ls', f', rfl⟩ := hset₃.state
    exact ⟨rfl, rfl, rfl, rfl, rfl, hoff⟩
  obtain ⟨hfd, hl1, hl2, hindex, hsize, hoff₃⟩ := hstate
  have hhole₃ : s₃.mapping (k₃.files s.fd) (s.l1Index x) (s.l2Index x) = .hole := by
    have hdata := (hkept.data _ _ hi hj trivial).data
    rw [clusterData_eq_none.mpr hhole] at hdata
    exact clusterData_eq_none.mp hdata
  have hfind := does_clusterOfTable (m := m) (hfd ▸ hs₃) (hi.trans_eq hl1.symm)
    (hj.trans_eq hl2.symm) (hoff₃.trans_ne halloc.offset.ne_zero)
  rw [hoff₃] at hfind
  rw [hindex]
  refine hfind.mono fun r k₄ h => h.after (honly₁.trans (honly₂.trans honly₃)) hkept ?_
  rw [clusterBase, hhole₃, clusterBase, hhole]
  exact congrArg (List.replicate · 0) hsize

end Table

end Tcmu

end LioProject
