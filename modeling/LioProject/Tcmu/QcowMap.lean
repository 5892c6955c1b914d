import LioProject.Tcmu.QcowCounts

/-!
# QCOW images: clusters are found, and mapped

`get_cluster_offset` gives the offset of a cluster in the file. For a read this is what the tables
say (`does_getClusterOffset`). For a write the cluster is put into a place of its own first, if it
does not have one, and what it begins with there is `clusterBase`: what was in it, but zeros if it
was not in the image, and a copy of the first cluster of the file if it was one of zeros.

All other clusters keep their data (`ImageKept`), and the image stays sound (`Located`).
-/

namespace LioProject

namespace Tcmu

/-! ### What the tables say -/

section Located

variable {z : Inflate} {hdr : ℕ} {m : Calls} {k : Kernel} {s : QcowState} {t : QcowTables}
  {file file' : List UInt8} {i j c : ℕ}

/-- The offset of a cluster, with what else is in its entry; 0 if it is not in the image. -/
def QcowTables.located (t : QcowTables) (file : List UInt8) (i j : ℕ) : ℕ :=
  if t.l2Offset i = 0 then 0 else t.uncopied (t.l2Entry file i j)

theorem QcowTables.mapping_eq (t : QcowTables) (file : List UInt8) (i j : ℕ) :
    t.mapping file i j =
      if t.located file i j = 0 then .hole
      else if t.located file i j = 1 then .zero
      else if t.located file i j &&& t.clusterCompressed ≠ 0 then
        .compressed (t.located file i j &&& t.clusterOffsetMask)
          ((t.located file i j >>> (63 - t.clusterBits)) &&& (t.clusterSize - 1))
      else .plain (t.located file i j) := by
  rw [QcowTables.mapping, QcowTables.located]
  split
  · rw [if_pos rfl]
  · rfl

/-- The lookup of an L2 table. -/
theorem does_l2CacheLookup (hs : Sound z hdr s (k.files s.fd)) (hi : i < s.l1Size)
    (h0 : s.l2Offset i ≠ 0) :
    Does m (l2CacheLookup s (s.l2Offset i))
      (fun r k' => k' = k ∧ Sound z hdr r.2 (k.files s.fd) ∧ ∃ ls line,
        r.2 = { s with l2Cache := ls } ∧ r.1 = some line ∧
        LineOf (k.files s.fd) (8 * s.l2Size) (s.l2Offset i) ls line) k := by
  have hin := hs.tables.placed_le (@Placed.table hdr _ _ _ hi h0)
  refine Does.seq (does_cacheLookup hs.l2Cache ⟨i, hi, rfl⟩ h0 hin) ?_
  rintro ⟨line, ls⟩ k' ⟨hk, hcache, j, hj, hline⟩
  exact does_pure ⟨hk, hs.withL2Cache hcache, ls, j, rfl, hj, hline⟩

/-- An entry of a table in the cache. -/
theorem LineOf.entry {ls : List (CacheLine (List UInt8))} {line : ℕ}
    (h : LineOf file (8 * t.l2Size) (t.l2Offset i) ls line) (hj : j < t.l2Size) :
    beAt (lineData ls line) (8 * j) 8 = t.l2Entry file i j := by
  rw [h.data, beAt_slice _ (by omega), QcowTables.l2Entry]

/-- The indices of the cluster that byte `x` of the disk is in. -/
theorem l1Index_eq (hs : TablesSound hdr t file) {x : ℕ}
    (hx : x < t.l1Size * 2 ^ (t.l2Bits + t.clusterBits)) :
    t.l1Index x = x / 2 ^ (t.l2Bits + t.clusterBits) ∧ t.l1Index x < t.l1Size := by
  have hlt : x / 2 ^ (t.l2Bits + t.clusterBits) < t.l1Size :=
    (Nat.div_lt_iff_lt_mul (Nat.two_pow_pos _)).mpr hx
  have heq : t.l1Index x = x / 2 ^ (t.l2Bits + t.clusterBits) := by
    rw [QcowTables.l1Index, Nat.shiftRight_eq_div_pow]
    exact Nat.mod_eq_of_lt (hlt.trans (hs.l1_lt.trans (by decide)))
  exact ⟨heq, heq.trans_lt hlt⟩

theorem l2Index_lt (t : QcowTables) (x : ℕ) : t.l2Index x < t.l2Size := by
  rw [QcowTables.l2Index, QcowTables.l2Size, Nat.and_two_pow_sub_one_eq_mod]
  exact Nat.mod_lt _ (Nat.two_pow_pos _)

/-- **A cluster is found** where the tables say that it is. -/
theorem does_getClusterOffset (hs : Sound z hdr s (k.files s.fd)) {x : ℕ}
    (hx : x < s.l1Size * 2 ^ (s.l2Bits + s.clusterBits)) :
    Does m (getClusterOffset z s x false)
      (fun r k' => k' = k ∧ Sound z hdr r.2 (k.files s.fd) ∧
        (∃ ls, r.2 = { s with l2Cache := ls }) ∧
        r.1 = s.located (k.files s.fd) (s.l1Index x) (s.l2Index x)) k := by
  obtain ⟨-, hi⟩ := l1Index_eq hs.tables hx
  have hj := l2Index_lt s.toQcowTables x
  have hin : ¬s.l1Table.length < 8 * s.l1Index x + 8 := by
    rw [hs.tables.l1_length]
    omega
  rw [getClusterOffset, if_neg hin]
  dsimp only
  split
  · rename_i h0
    refine Does.seq (does_l2CacheLookup hs hi h0) ?_
    rintro ⟨_, _⟩ k' ⟨hk, hs', ls, line, hs'_eq, hline_eq, hline⟩
    dsimp only at hs'_eq hline_eq hs'
    subst hs'_eq hline_eq
    rw [hk]
    dsimp only
    rw [QcowTables.located, if_neg h0, hline.entry hj]
    split
    · rename_i hentry
      rw [if_pos rfl, hentry]
      exact does_pure ⟨rfl, hs', ⟨ls, rfl⟩, (Nat.zero_and _).symm⟩
    · rw [if_neg (fun h => Bool.noConfusion h.2), if_neg (fun h => Bool.noConfusion h.2)]
      exact does_pure ⟨rfl, hs', ⟨ls, rfl⟩, rfl⟩
  · rename_i h0
    rw [if_pos rfl, QcowTables.located, if_pos (not_not.mp h0)]
    exact does_pure ⟨rfl, hs, ⟨s.l2Cache, rfl⟩, rfl⟩

end Located

/-! ### What stays when something is allocated -/

/-- The clusters `P` have the data that they had, and what has a reference count keeps one. -/
structure ImageKept (z : Inflate) (hdr : ℕ) (m : Calls) (P : ℕ → ℕ → Prop) (s : QcowState)
    (file : List UInt8) (s' : QcowState) (file' : List UInt8) : Prop where
  state : ∃ l1 rt l2 cc co rc f, s' = { s with
    l1Table := l1, refcountTable := rt, l2Cache := l2, clusterCache := cc,
    clusterCacheOffset := co, rcCache := rc, firstFreeCluster := f }
  length : file.length ≤ file'.length
  header : Stays file file' 0 hdr
  data : ∀ i j, i < s.l1Size → j < s.l2Size → P i j →
    ClusterKept z s.toQcowTables file s'.toQcowTables file' i j
  covered : m.room = true → s.version = .qcow2 → ∀ E, Covered hdr s.toQcowTables file E →
    Covered hdr s'.toQcowTables file' E

section Kept

variable {z : Inflate} {hdr : ℕ} {m : Calls} {P Q : ℕ → ℕ → Prop} {s s' s'' : QcowState}
  {file file' file'' : List UInt8} {c n : ℕ}

theorem ImageKept.trans (h : ImageKept z hdr m P s file s' file')
    (h' : ImageKept z hdr m P s' file' s'' file'') : ImageKept z hdr m P s file s'' file'' := by
  obtain ⟨l1, rt, l2, cc, co, rc, f, rfl⟩ := h.state
  obtain ⟨l1', rt', l2', cc', co', rc', f', rfl⟩ := h'.state
  exact {
    state := ⟨l1', rt', l2', cc', co', rc', f', rfl⟩
    length := h.length.trans h'.length
    header := h.header.trans h'.header
    data := fun i j hi hj hP => (h.data i j hi hj hP).trans (h'.data i j hi hj hP)
    covered := fun hroom hv E hE => h'.covered hroom hv E (h.covered hroom hv E hE) }

theorem ImageKept.mono (h : ImageKept z hdr m P s file s' file') (hQ : ∀ i j, Q i j → P i j) :
    ImageKept z hdr m Q s file s' file' :=
  { h with data := fun i j hi hj hq => h.data i j hi hj (hQ i j hq) }

/-- Only what is in memory has changed. -/
theorem ImageKept.of_tables (hstate : ∃ l2 cc co rc f, s' = { s with
    l2Cache := l2, clusterCache := cc, clusterCacheOffset := co, rcCache := rc,
    firstFreeCluster := f }) : ImageKept z hdr m P s file s' file := by
  obtain ⟨l2, cc, co, rc, f, rfl⟩ := hstate
  exact ⟨⟨_, _, l2, cc, co, rc, f, rfl⟩, Nat.le_refl _, Stays.refl _ _ _,
    fun _ _ _ _ _ => ⟨rfl, id⟩, fun _ _ _ hE => hE⟩

theorem Allocated.imageKept (h : Allocated z hdr s file c n s' file')
    (hs : TablesSound hdr s.toQcowTables file) : ImageKept z hdr m P s file s' file' where
  state := by
    obtain ⟨ls, f, rfl⟩ := h.state
    exact ⟨_, _, _, _, _, ls, f, rfl⟩
  length := h.length
  header := h.stays .header
  data i j hi hj _ := by
    rw [h.tables]
    exact clusterKept_of_stays hs (mapping_of_stays (h.tablesStay i hi) hj) h.length hi hj h.stays
  covered _ hv E hE := h.covered hs hv hE

theorem CountsSet.imageKept (h : CountsSet hdr s file s' file')
    (hs : TablesSound hdr s.toQcowTables file)
    (hcov : m.room = true → s.version = .qcow2 → ∀ E, Covered hdr s.toQcowTables file E →
      Covered hdr s'.toQcowTables file' E) : ImageKept z hdr m P s file s' file' where
  state := by
    obtain ⟨T, ls, f, rfl⟩ := h.state
    exact ⟨_, T, _, _, _, ls, f, rfl⟩
  length := h.length
  header := h.stays .header trivial
  data i j hi hj _ := by
    have hdata := clusterKept_of_stays (z := z) hs (mapping_of_stays (h.tables i hi) hj) h.length
      hi hj fun hp => h.stays hp trivial
    obtain ⟨T, ls, f, rfl⟩ := h.state
    exact ⟨hdata.data, hdata.zero⟩
  covered := hcov

end Kept

/-! ### A cluster is mapped -/

section Map

variable {z : Inflate} {hdr : ℕ} {m : Calls} {k : Kernel} {s s' : QcowState}
  {file file' : List UInt8} {i j c line : ℕ}

/-- The L2 table in the file, after one of its entries has been written. -/
theorem mapped_of_slice (hi : i < s.l1Size) (hj : j < s.l2Size) (hc : Offset s.toQcowTables c)
    (hin : s.l2Offset i + 8 * s.l2Size ≤ file.length)
    (hdisk : slice file' (s.l2Offset i) (8 * s.l2Size) =
      putBe (slice file (s.l2Offset i) (8 * s.l2Size)) (8 * j) (c ||| s.clusterCopied) 8)
    (hothers : ∀ i' < s.l1Size, i' ≠ i → s.l2Offset i' ≠ 0 →
      Stays file file' (s.l2Offset i') (8 * s.l2Size)) :
    Mapped s.toQcowTables file file' i j c := by
  have hv : c ||| s.clusterCopied < 256 ^ 8 := QcowTables.or_clusterCopied_lt hc.lt
  have hlen : (slice file (s.l2Offset i) (8 * s.l2Size)).length = 8 * s.l2Size := length_slice hin
  have hentry : ∀ j' < s.l2Size, s.l2Entry file' i j' =
      if j' = j then c ||| s.clusterCopied else s.l2Entry file i j' := by
    intro j' hj'
    rw [QcowTables.l2Entry, ← beAt_slice (n := 8 * s.l2Size) _ (by omega), hdisk,
      beAt_putBe_mul (by omega) hv, beAt_slice _ (by omega), QcowTables.l2Entry]
  refine ⟨(hentry j hj).trans (if_pos rfl), fun {i' j'} hi' hj' h0' hne => ?_⟩
  by_cases hii : i' = i
  · subst hii
    rw [hentry j' hj', if_neg fun hjj => hne ⟨rfl, hjj⟩]
  · exact l2Entry_of_stays (hothers i' hi' hii h0') hj'

/-- **A new cluster** goes into an L2 table. -/
theorem Sound.mapCluster (hs : Sound z hdr s file) (hi : i < s.l1Size) (hj : j < s.l2Size)
    (h0 : s.l2Offset i ≠ 0)
    (hline : LineOf file (8 * s.l2Size) (s.l2Offset i) s.l2Cache line)
    (hc : Offset s.toQcowTables c) (halign : s.version = .qcow2 → c % s.clusterSize = 0)
    (hin : c + s.clusterSize ≤ file.length)
    (hfresh : Fresh hdr s.toQcowTables file c s.clusterSize)
    (hfree : s.version = .qcow2 → c + s.clusterSize ≤ s.firstFreeCluster) {table : List UInt8}
    (htable : table =
      putBe (slice file (s.l2Offset i) (8 * s.l2Size)) (8 * j) (c ||| s.clusterCopied) 8)
    (hdisk : slice file' (s.l2Offset i) (8 * s.l2Size) = table)
    (helse : ∀ x, x < s.l2Offset i ∨ s.l2Offset i + 8 * s.l2Size ≤ x →
      file'.getD x 0 = file.getD x 0)
    (hlen : file.length ≤ file'.length) :
    Sound z hdr { s with l2Cache := CacheLine.rewrite s.l2Cache line fun _ => table } file' ∧
      Mapped s.toQcowTables file file' i j c ∧
      (∀ ⦃a o n⦄, Placed hdr s.toQcowTables file a o n → a ≠ .table i → Stays file file' o n) ∧
      ∀ E, s.version = .qcow2 → Covered hdr s.toQcowTables file E →
        Covered hdr s.toQcowTables file' fun x => E x ∨ (c ≤ x ∧ x < c + s.clusterSize) := by
  have hown := @Placed.table hdr _ file _ hi h0
  have hstays : ∀ ⦃a o n⦄, Placed hdr s.toQcowTables file a o n → a ≠ .table i →
      Stays file file' o n := fun a o n hp hne x hlo hhi =>
    helse x (hs.tables.outside hown trivial hp hne x hlo hhi)
  have htables : ∀ i' < s.l1Size, i' ≠ i → s.l2Offset i' ≠ 0 →
      Stays file file' (s.l2Offset i') (8 * s.l2Size) :=
    fun i' hi' hii h0' => hstays (.table hi' h0') fun heq => hii (Area.table.inj heq)
  have hmapped : Mapped s.toQcowTables file file' i j c :=
    mapped_of_slice hi hj hc (hs.tables.placed_le hown) (hdisk.trans htable) htables
  have hcounts : s.version = .qcow2 → CountsStay s.toQcowTables file file' := fun hv =>
    ⟨hstays (.rcTable hv) Area.noConfusion, fun hk hk0 =>
      hstays (.rcBlock hv hk hk0) Area.noConfusion⟩
  have hcovered : ∀ E, s.version = .qcow2 → Covered hdr s.toQcowTables file E →
      Covered hdr s.toQcowTables file' fun x => E x ∨ (c ≤ x ∧ x < c + s.clusterSize) := by
    intro E hv hE a o n hp x hlo hhi
    rw [(hcounts hv).refcountOf_eq hs.tables hv hlen]
    rcases placed_map hmapped h0 hc hp with ⟨-, rfl, rfl⟩ | ⟨-, hp⟩
    · exact Or.inr (Or.inr ⟨hlo, hhi⟩)
    · exact (hE hp x hlo hhi).imp_right Or.inl
  -- what is compressed afterwards was compressed before, and has stayed
  have hcompressed : ∀ {i' j' o n}, i' < s.l1Size → j' < s.l2Size →
      s.mapping file' i' j' = .compressed o n →
      s.mapping file i' j' = .compressed o n ∧ slice file' o n = slice file o n := by
    intro i' j' o n hi' hj' hm
    by_cases hij : i' = i ∧ j' = j
    · rw [hij.1, hij.2, hmapped.mapping_self h0 hc] at hm
      cases hm
    · rw [hmapped.mapping_of_ne hi' hj' hij] at hm
      have hp := @Placed.compressed hdr _ _ _ _ _ _ hi' hj' hm
      exact ⟨hm, hs.tables.slice_eq hlen hp (hstays hp Area.noConfusion)⟩
  refine ⟨⟨hs.toMapSound.of_compressed ?_ ?_ ?_ hcompressed, fun hv => ?_⟩, hmapped, hstays,
    hcovered⟩
  · exact hs.tables.map hmapped h0 hc hlen hin hfresh halign
  · exact (hs.tables.slice_eq hlen .l1 (hstays .l1 Area.noConfusion)).trans hs.l1_disk
  · refine hs.l2Cache.write hline hdisk fun o ho hne hT => ?_
    obtain ⟨i', hi', rfl⟩ := hT
    have hii : i' ≠ i := fun hii => hne (hii ▸ rfl)
    exact hs.tables.slice_eq hlen (.table hi' ho) (htables i' hi' hii ho)
  · have hr := hs.refcounts hv
    have hrc := @Placed.rcTable hdr _ file hv
    refine { hr with
      table_disk := ?_
      cache := ?_
      in_use := ?_ }
    · exact (hs.tables.slice_eq hlen hrc (hcounts hv).table).trans hr.table_disk
    · refine hr.cache.of_slice fun o ho hblock => ?_
      obtain ⟨k, hk, rfl⟩ := hblock
      exact (hcounts hv).slice_block hs.tables hv hlen hk ho
    · exact (hcovered _ hv hr.in_use).mono fun x hx =>
        hx.elim id fun hx => hx.2.trans_le (hfree hv)

/-- A new cluster has the flag, if there is one. -/
theorem Mapped.owned {t : QcowTables} (h : Mapped t file file' i j c) (hv : t.version = .qcow2) :
    (Area.cluster i j).Owned t file' := by
  change t.l2Entry file' i j &&& t.clusterCopied ≠ 0
  rw [h.entry, QcowTables.clusterCopied, hv]
  intro h0
  have hbit := congrArg (fun y => y.testBit 63) h0
  rw [Nat.testBit_and, Nat.testBit_or, Nat.testBit_two_pow_self, Bool.or_true] at hbit
  cases hbit

theorem Mapped.of_stays {t : QcowTables} {file'' : List UInt8} (h : Mapped t file file' i j c)
    (hi : i < t.l1Size) (hj : j < t.l2Size) (h0 : t.l2Offset i ≠ 0)
    (htables : TablesStay t file' file'') : Mapped t file file'' i j c where
  entry := (l2Entry_of_stays (htables i hi h0) hj).trans h.entry
  others hi' hj' h0' hne :=
    (l2Entry_of_stays (htables _ hi' h0') hj').trans (h.others hi' hj' h0' hne)

/-- The cluster has a place of its own, with the data `base`. The other clusters are as before. -/
structure Located (z : Inflate) (hdr : ℕ) (m : Calls) (s : QcowState) (file : List UInt8)
    (i j : ℕ) (base : List UInt8) (c : ℕ) (s' : QcowState) (file' : List UInt8) : Prop
    extends ImageKept z hdr m (fun i' j' => ¬(i' = i ∧ j' = j)) s file s' file' where
  sound : Sound z hdr s' file'
  mapping : s'.mapping file' i j = .plain c
  lt : c < s.offsetLimit
  ne_zero : c ≠ 0
  alone : ∀ ⦃a o n⦄, Placed hdr s'.toQcowTables file' a o n → a ≠ .cluster i j →
    ∀ x, o ≤ x → x < o + n → x < c ∨ c + s.clusterSize ≤ x
  base : slice file' c s.clusterSize = base

/-- The areas with data are where they were before. -/
theorem CountsSet.placed_before (h : CountsSet hdr s file s' file') {a : Area} {o n : ℕ}
    (hp : Placed hdr s'.toQcowTables file' a o n) (ha : a.OfData) :
    Placed hdr s.toQcowTables file a o n := by
  have hmap : ∀ {i j}, i < s.l1Size → j < s.l2Size → s.mapping file' i j = s.mapping file i j :=
    fun hi hj => mapping_of_stays (h.tables _ hi) hj
  obtain ⟨T, ls, f, rfl⟩ := h.state
  cases hp with
  | header => exact .header
  | l1 => exact .l1
  | table hi h0 => exact .table hi h0
  | plain hi hj hm => exact .plain hi hj ((hmap hi hj).symm.trans hm)
  | compressed hi hj hm => exact .compressed hi hj ((hmap hi hj).symm.trans hm)
  | rcTable hv => exact ha.elim
  | rcBlock hv hk h0 => exact ha.elim

/-- `l2_table_update`, with a cluster that has been allocated. -/
theorem does_l2TableUpdate (hs : Sound z hdr s (k.files s.fd)) (hi : i < s.l1Size)
    (hj : j < s.l2Size) (h0 : s.l2Offset i ≠ 0)
    (hline : LineOf (k.files s.fd) (8 * s.l2Size) (s.l2Offset i) s.l2Cache line)
    (hc : Offset s.toQcowTables c) (halign : s.version = .qcow2 → c % s.clusterSize = 0)
    (hin : c + s.clusterSize ≤ (k.files s.fd).length)
    (hfresh : Fresh hdr s.toQcowTables (k.files s.fd) c s.clusterSize)
    (hfree : s.version = .qcow2 → c + s.clusterSize ≤ s.firstFreeCluster) :
    Does m (l2TableUpdate s line (s.l2Offset i) j (c ||| s.clusterCopied))
      (fun s' k' => (∃ ls, s' = { s with l2Cache := ls }) ∧ k.Only s.fd k' ∧
        (k.files s.fd).length ≤ (k'.files s.fd).length ∧ Sound z hdr s' (k'.files s.fd) ∧
        Mapped s.toQcowTables (k.files s.fd) (k'.files s.fd) i j c ∧
        (∀ x, x < s.l2Offset i ∨ s.l2Offset i + 8 * s.l2Size ≤ x →
          (k'.files s.fd).getD x 0 = (k.files s.fd).getD x 0) ∧
        (∀ ⦃a o n⦄, Placed hdr s.toQcowTables (k.files s.fd) a o n → a ≠ .table i →
          Stays (k.files s.fd) (k'.files s.fd) o n) ∧
        ∀ E, s.version = .qcow2 → Covered hdr s.toQcowTables (k.files s.fd) E →
          Covered hdr s.toQcowTables (k'.files s.fd)
            fun x => E x ∨ (c ≤ x ∧ x < c + s.clusterSize)) k := by
  have htin := hs.tables.placed_le (@Placed.table hdr _ (k.files s.fd) _ hi h0)
  have hlen : (slice (k.files s.fd) (s.l2Offset i) (8 * s.l2Size)).length = 8 * s.l2Size :=
    length_slice htin
  rw [l2TableUpdate, hline.data]
  refine Does.seq (does_tableUpdate (by rw [hlen]) (by rw [hlen]; exact htin) (by omega)) ?_
  rintro _ k' ⟨rfl, file', rfl, hdisk, hgrow, helse⟩
  rw [hlen] at hdisk helse
  obtain ⟨hs', hmapped, hstays, hcovered⟩ := hs.mapCluster hi hj h0 hline hc halign hin hfresh hfree
    rfl hdisk helse hgrow
  refine does_pure ⟨⟨_, rfl⟩, ⟨_, rfl⟩, ?_⟩
  rw [Kernel.files_write_self]
  exact ⟨hgrow, hs', hmapped, helse, hstays, hcovered⟩

/-- The cluster is apart from all other areas after its count has been set. -/
theorem Located.of_countsSet {file'' : List UInt8} {ls : List (CacheLine (List UInt8))}
    (hs : Sound z hdr s file) (hs' : Sound z hdr { s with l2Cache := ls } file')
    (hs'' : Sound z hdr s' file'') (hmapped : Mapped s.toQcowTables file file' i j c)
    (hset : CountsSet hdr { s with l2Cache := ls } file' s' file'') (hi : i < s.l1Size)
    (hj : j < s.l2Size) (h0 : s.l2Offset i ≠ 0) (hc : Offset s.toQcowTables c)
    (hfresh : Fresh hdr s.toQcowTables file c s.clusterSize)
    (hbase : slice file' c s.clusterSize = slice file c s.clusterSize)
    (hstays : ∀ ⦃a o n⦄, Placed hdr s.toQcowTables file a o n → a ≠ .table i →
      Stays file file' o n)
    (hlen : file.length ≤ file'.length)
    (hcovered : m.room = true → s.version = .qcow2 → ∀ E, Covered hdr s.toQcowTables file E →
      Covered hdr s'.toQcowTables file'' E) :
    Located z hdr m s file i j (slice file c s.clusterSize) c s' file'' := by
  have htables : TablesStay s.toQcowTables file' file'' := hset.tables
  have hself := hmapped.mapping_self h0 hc
  have hplaced : Placed hdr s.toQcowTables file' (.cluster i j) c s.clusterSize :=
    .plain hi hj hself
  have hmapped' := hmapped.of_stays hi hj h0 htables
  have hstate := hset.state
  refine ⟨⟨?_, hlen.trans hset.length, ?_, fun i' j' hi' hj' hne => ?_, hcovered⟩, hs'', ?_, hc.lt,
    hc.ne_zero, fun a o n hp hne x hlo hhi => ?_, ?_⟩
  · obtain ⟨T, rc, f, rfl⟩ := hstate
    exact ⟨_, T, ls, _, _, rc, f, rfl⟩
  · exact (hstays .header Area.noConfusion).trans (hset.stays .header trivial)
  · have hdata : ClusterKept z s.toQcowTables file' s.toQcowTables file'' i' j' :=
      clusterKept_of_stays hs'.tables (mapping_of_stays (htables i' hi') hj') hset.length hi' hj'
        fun hp => hset.stays hp trivial
    have hdata' := clusterKept_of_stays (z := z) hs.tables (hmapped.mapping_of_ne hi' hj' hne) hlen
      hi' hj' fun hp => hstays hp Area.noConfusion
    obtain ⟨T, rc, f, rfl⟩ := hstate
    exact hdata'.trans ⟨hdata.data, hdata.zero⟩
  · obtain ⟨T, rc, f, rfl⟩ := hstate
    exact hmapped'.mapping_self h0 hc
  · by_cases ha : a.OfData
    · rcases placed_map hmapped h0 hc (hset.placed_before hp ha) with ⟨rfl, -, -⟩ | ⟨-, hp⟩
      · exact absurd rfl hne
      · exact hfresh hp x hlo hhi
    · -- an area about counts may be new, but then the cluster has the flag
      have hv : s.version = .qcow2 := by
        obtain ⟨T, rc, f, rfl⟩ := hstate
        cases hp with
        | rcTable hv => exact hv
        | rcBlock hv hk hk0 => exact hv
        | header | l1 | table | plain | compressed => exact absurd trivial ha
      have hown : (Area.cluster i j).Owned s'.toQcowTables file'' := by
        obtain ⟨T, rc, f, rfl⟩ := hstate
        exact hmapped'.owned hv
      exact hs''.tables.outside (hset.placed hplaced trivial) hown hp hne x hlo hhi
  · have hslice := hs'.tables.slice_eq hset.length hplaced (hset.stays hplaced trivial)
    exact hslice.trans hbase

/-- **The end of an allocation**: the cluster is mapped, and gets a reference count. -/
theorem does_mapCluster (hs : Sound z hdr s (k.files s.fd)) (hi : i < s.l1Size) (hj : j < s.l2Size)
    (h0 : s.l2Offset i ≠ 0)
    (hline : LineOf (k.files s.fd) (8 * s.l2Size) (s.l2Offset i) s.l2Cache line)
    (hc : Offset s.toQcowTables c) (halign : s.version = .qcow2 → c % s.clusterSize = 0)
    (hin : c + s.clusterSize ≤ (k.files s.fd).length)
    (hfresh : Fresh hdr s.toQcowTables (k.files s.fd) c s.clusterSize)
    (hfree : s.version = .qcow2 → c + s.clusterSize ≤ s.firstFreeCluster) :
    Does m (mapCluster s line (s.l2Offset i) j c)
      (fun r k' => k.Only s.fd k' ∧ r.1 = c ∧ Located z hdr m s (k.files s.fd) i j
        (slice (k.files s.fd) c s.clusterSize) c r.2 (k'.files s.fd)) k := by
  rw [Tcmu.mapCluster]
  refine Does.seq (does_l2TableUpdate hs hi hj h0 hline hc halign hin hfresh hfree) ?_
  rintro _ k₁ ⟨⟨ls, rfl⟩, honly₁, hlen₁, hs₁, hmapped, helse, hstays, hcov₁⟩
  refine Does.seq (does_stateSetRefcount hs₁ c) ?_
  rintro s₂ k₂ ⟨honly₂, hs₂, hset, hroom⟩
  have hown := @Placed.table hdr _ (k.files s.fd) _ hi h0
  have hbase : slice (k₁.files s.fd) c s.clusterSize = slice (k.files s.fd) c s.clusterSize := by
    have hstay : Stays (k.files s.fd) (k₁.files s.fd) c s.clusterSize := by
      intro x hlo hhi
      refine helse x ?_
      by_contra hout
      rw [not_or, Nat.not_lt, Nat.not_le] at hout
      rcases hfresh hown x hout.1 hout.2 with hlt | hge <;> omega
    exact hstay.slice_eq hin (hin.trans hlen₁)
  have huncopied : s₂.uncopied c = c := by
    obtain ⟨T, rc, f, rfl⟩ := hset.state
    exact QcowTables.uncopied_of_lt hc.lt
  refine does_pure ⟨honly₁.trans honly₂, huncopied, ?_⟩
  refine .of_countsSet hs hs₁ hs₂ hmapped hset hi hj h0 hc hfresh hbase hstays hlen₁ ?_
  intro hr hv E hE
  obtain ⟨hcount, hcov⟩ := hroom hr hv
  have hE₂ := hcov _ (hcov₁ E hv hE)
  obtain ⟨T, rc, f, rfl⟩ := hset.state
  exact hE₂.of_cluster (halign hv) hcount

end Map

end Tcmu

end LioProject
