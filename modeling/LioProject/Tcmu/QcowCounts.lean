import Mathlib.Data.Finset.Card
import Mathlib.Data.Finset.Range
import LioProject.Tcmu.QcowAlloc

/-!
# QCOW images: reference counts are set

`qcow2_set_refcount` puts a reference count into its block, and allocates the block if there is
none. The new block is a cluster that needs a reference count itself, for which the function calls
itself. That may go on for some time, but each call fills an entry of the table of reference counts,
and no entry is cleared.

The rest of the image stays as it is (`CountsSet`). With room, all clusters that had a reference
count have one afterwards, and so have the cluster that the function was called for and the blocks
that were allocated (`does_stateSetRefcount`).
-/

namespace LioProject

namespace Tcmu

/-- The area is not about reference counts. -/
def Area.OfData : Area → Prop
  | .rcTable | .rcBlock _ => False
  | _ => True

/-- What stays when reference counts are set: everything else, and counts that are not zero. -/
structure CountsSet (hdr : ℕ) (s : QcowState) (file : List UInt8) (s' : QcowState)
    (file' : List UInt8) : Prop where
  state : ∃ T ls f, s' = { s with refcountTable := T, rcCache := ls, firstFreeCluster := f }
  table_length : s'.refcountTable.length = s.refcountTable.length
  entries : ∀ i, s.refblock i ≠ 0 → s'.refblock i = s.refblock i
  free_le : s.firstFreeCluster ≤ s'.firstFreeCluster
  length : file.length ≤ file'.length
  stays : ∀ ⦃a o n⦄, Placed hdr s.toQcowTables file a o n → a.OfData → Stays file file' o n
  nonzero : ∀ c, refcountOf s.toQcowTables file c ≠ 0 → refcountOf s'.toQcowTables file' c ≠ 0

section CountsSet

variable {hdr : ℕ} {s s' s'' : QcowState} {file file' file'' : List UInt8} {a : Area} {o n : ℕ}

theorem CountsSet.refl (hdr : ℕ) (s : QcowState) (file : List UInt8) :
    CountsSet hdr s file s file where
  state := ⟨_, _, _, rfl⟩
  table_length := rfl
  entries _ _ := rfl
  free_le := Nat.le_refl _
  length := Nat.le_refl _
  stays _ o n _ _ := Stays.refl file o n
  nonzero _ h := h

theorem CountsSet.tables (h : CountsSet hdr s file s' file') :
    TablesStay s.toQcowTables file file' :=
  fun _ hi h0 => h.stays (@Placed.table hdr _ file _ hi h0) trivial

/-- The areas with data are where they were. -/
theorem CountsSet.placed (h : CountsSet hdr s file s' file')
    (hp : Placed hdr s.toQcowTables file a o n) (ha : a.OfData) :
    Placed hdr s'.toQcowTables file' a o n := by
  have hmap : ∀ {i j}, i < s.l1Size → j < s.l2Size → s.mapping file' i j = s.mapping file i j :=
    fun hi hj => mapping_of_stays (h.tables _ hi) hj
  obtain ⟨T, ls, f, rfl⟩ := h.state
  cases hp with
  | header => exact .header
  | l1 => exact .l1
  | table hi h0 => exact .table hi h0
  | plain hi hj hm => exact .plain hi hj ((hmap hi hj).trans hm)
  | compressed hi hj hm => exact .compressed hi hj ((hmap hi hj).trans hm)
  | rcTable hv => exact ha.elim
  | rcBlock hv hk h0 => exact ha.elim

theorem CountsSet.trans (h : CountsSet hdr s file s' file')
    (h' : CountsSet hdr s' file' s'' file'') : CountsSet hdr s file s'' file'' where
  state := by
    obtain ⟨T, ls, f, rfl⟩ := h.state
    obtain ⟨T', ls', f', rfl⟩ := h'.state
    exact ⟨T', ls', f', rfl⟩
  table_length := h'.table_length.trans h.table_length
  entries i h0 := by
    have hsame := h.entries i h0
    rw [← hsame] at h0
    exact (h'.entries i h0).trans hsame
  free_le := h.free_le.trans h'.free_le
  length := h.length.trans h'.length
  stays _ _ _ hp ha := (h.stays hp ha).trans (h'.stays (h.placed hp ha) ha)
  nonzero c h0 := h'.nonzero c (h.nonzero c h0)

end CountsSet

/-! ### Changes of a table -/

section Update

variable {m : Calls} {k : Kernel} {fd off i v : ℕ} {table : List UInt8}

/-- An entry of a table is changed, in memory and in the file. -/
theorem does_tableUpdate (hdisk : slice (k.files fd) off table.length = table)
    (hin : off + table.length ≤ (k.files fd).length) (hi : 8 * i + 8 ≤ table.length) :
    Does m (tableUpdate fd off table i v)
      (fun table' k' => table' = putBe table (8 * i) v 8 ∧ ∃ file', k' = k.write fd file' ∧
        slice file' off table.length = table' ∧ (k.files fd).length ≤ file'.length ∧
        ∀ x, x < off ∨ off + table.length ≤ x → file'.getD x 0 = (k.files fd).getD x 0) k := by
  have hpiece : (slice (putBe table (8 * i) v 8) (8 * i) 8).length = 8 :=
    length_slice (by rw [length_putBe]; exact hi)
  rw [tableUpdate]
  refine Does.seq (does_pwrite (Q := fun _ k' => k' = k.write fd (writeAt 0 (k.files fd)
    (off + i * 8) (slice (putBe table (8 * i) v 8) (8 * i) 8))) rfl) ?_
  rintro _ k' rfl
  refine does_pure ⟨rfl, _, rfl, ?_, length_le_writeAt .., fun x hx => ?_⟩
  · rw [Nat.mul_comm i 8]
    refine slice_writeAt_slice 0 hdisk hin (length_putBe ..) hi fun j hj => ?_
    exact UInt8.toNat_inj.mp (byteAt_putBe_of_outside table v (by omega))
  · rw [getD_writeAt, hpiece, if_neg (by omega)]

end Update

/-! ### A block of zeros -/

section Block

variable {z : Inflate} {hdr : ℕ} {s : QcowState} {t : QcowTables} {file file' : List UInt8}
  {i j c : ℕ}

theorem beAt_of_zeros {bs : List UInt8} {o k : ℕ} (h : ∀ x < k, byteAt bs (o + x) = 0) :
    beAt bs o k = 0 := by
  induction k with
  | zero => rfl
  | succ k ih => rw [beAt, ih fun x hx => h x (by omega), h k (by omega)]

theorem getRefcount_of_zeros {order : ℕ} {block : List UInt8} (h : ∀ x, byteAt block x = 0)
    (c : ℕ) : (getRefcount order block c).getD 0 = 0 := by
  unfold getRefcount bitField
  split
  · rw [h, Nat.zero_shiftRight, Nat.zero_and, Option.getD_some]
  · rw [h, Nat.zero_shiftRight, Nat.zero_and, Option.getD_some]
  · rw [h, Nat.zero_shiftRight, Nat.zero_and, Option.getD_some]
  · rw [h, Option.getD_some]
  · rw [beAt_of_zeros fun x _ => h _, Option.getD_some]
  · rw [beAt_of_zeros fun x _ => h _, Option.getD_some]
  · rw [beAt_of_zeros fun x _ => h _, Option.getD_some]
  · rfl

/-- What a new block of zeros does to the counts: nothing. -/
theorem refcountOf_withBlock (hi : 8 * i + 8 ≤ t.refcountTable.length) (h0 : t.refblock i = 0)
    (hc : Offset t c) (hzero : ∀ x, c ≤ x → x < c + t.clusterSize → file'.getD x 0 = 0)
    (hslice : ∀ j, 8 * j + 8 ≤ t.refcountTable.length → t.refblock j ≠ 0 →
      slice file' (t.refblock j) t.clusterSize = slice file (t.refblock j) t.clusterSize) (d : ℕ) :
    refcountOf (t.withBlock i c) file' d = refcountOf t file d := by
  have hlen : (t.withBlock i c).refcountTable.length = t.refcountTable.length := length_putBe ..
  have hblock := refblock_withBlock hi (hc.lt.trans_le (t.offsetLimit_le.trans (by decide)))
    (t.countBlock d)
  change (if (t.withBlock i c).refcountTable.length < 8 * t.countBlock d + 8 ∨
      (t.withBlock i c).refblock (t.countBlock d) = 0 then 0
    else (getRefcount t.refcountOrder (slice file' ((t.withBlock i c).refblock (t.countBlock d))
      t.clusterSize) (t.countIndex d)).getD 0) = _
  rw [refcountOf, hlen, hblock]
  by_cases hd : t.countBlock d = i
  · have hbytes : ∀ x, byteAt (slice file' c t.clusterSize) x = 0 := by
      intro x
      rw [byteAt, getD_slice]
      split
      · rw [hzero (c + x) (by omega) (by omega)]
        rfl
      · rfl
    rw [if_pos hd, hd, if_pos (Or.inr h0), getRefcount_of_zeros hbytes, ite_self]
  · rw [if_neg hd]
    split
    · rfl
    · rename_i h
      rw [not_or, Nat.not_lt] at h
      rw [hslice _ h.1 h.2]

/-- **A new block** goes into the table of reference counts. -/
theorem Sound.withBlock (hs : Sound z hdr s file) (hv : s.version = .qcow2)
    (hi : 8 * i + 8 ≤ s.refcountTable.length) (h0 : s.refblock i = 0)
    (hc : Offset s.toQcowTables c) (hin : c + s.clusterSize ≤ file.length)
    (hfresh : Fresh hdr s.toQcowTables file c s.clusterSize)
    (hzero : ∀ x, c ≤ x → x < c + s.clusterSize → file.getD x 0 = 0)
    (hfree : c + s.clusterSize ≤ s.firstFreeCluster)
    (hdisk : slice file' s.refcountTableOffset s.refcountTable.length =
      putBe s.refcountTable (8 * i) c 8)
    (helse : ∀ x, x < s.refcountTableOffset ∨
      s.refcountTableOffset + s.refcountTable.length ≤ x → file'.getD x 0 = file.getD x 0)
    (hlen : file.length ≤ file'.length) :
    Sound z hdr { s with refcountTable := putBe s.refcountTable (8 * i) c 8 } file' ∧
      CountsSet hdr s file { s with refcountTable := putBe s.refcountTable (8 * i) c 8 } file' ∧
      ∀ E, Covered hdr s.toQcowTables file E → Covered hdr (s.withBlock i c) file'
        fun x => E x ∨ (c ≤ x ∧ x < c + s.clusterSize) := by
  have hr := hs.refcounts hv
  -- all areas stay, but for the table itself
  have hstays : ∀ ⦃a o n⦄, Placed hdr s.toQcowTables file a o n → a ≠ .rcTable →
      Stays file file' o n := fun a o n hp hne x hlo hhi =>
    helse x (hs.tables.outside (.rcTable hv) trivial hp hne x hlo hhi)
  have hslice : ∀ j, 8 * j + 8 ≤ s.refcountTable.length → s.refblock j ≠ 0 →
      slice file' (s.refblock j) s.clusterSize = slice file (s.refblock j) s.clusterSize :=
    fun j hj hj0 => hs.tables.slice_eq hlen (.rcBlock hv hj hj0)
      (hstays (.rcBlock hv hj hj0) Area.noConfusion)
  have hzero' : ∀ x, c ≤ x → x < c + s.clusterSize → file'.getD x 0 = 0 := by
    intro x hlo hhi
    rw [helse x, hzero x hlo hhi]
    by_contra hout
    rw [not_or, Nat.not_lt, Nat.not_le] at hout
    rcases hfresh (.rcTable hv) x hout.1 hout.2 with hlt | hge <;> omega
  have hcounts : ∀ d, refcountOf (s.withBlock i c) file' d = refcountOf s.toQcowTables file d :=
    refcountOf_withBlock hi h0 hc hzero' hslice
  have hareas : AreasStay hdr s.toQcowTables file file' := by
    intro a o n hp
    by_cases ha : a = .rcTable
    · exact Or.inl (ha ▸ trivial)
    · exact Or.inr (hstays hp ha)
  have hmap := hs.toMapSound.of_stays hareas hlen
  have hfresh' : Fresh hdr s.toQcowTables file' c s.clusterSize :=
    fun _ _ _ hp => hfresh (hp.of_stays hareas.tables.symm)
  have hlt : c < 2 ^ 64 := hc.lt.trans_le (s.offsetLimit_le.trans (by decide))
  have hblock : ∀ j, s.refblock j ≠ 0 → (s.withBlock i c).refblock j = s.refblock j := by
    intro j hj
    rw [refblock_withBlock hi hlt]
    exact if_neg fun hji : j = i => hj (hji ▸ h0)
  have hcovered : ∀ E, Covered hdr s.toQcowTables file E → Covered hdr (s.withBlock i c) file'
      fun x => E x ∨ (c ≤ x ∧ x < c + s.clusterSize) := by
    intro E hE a o n hp x hlo hhi
    change refcountOf (s.withBlock i c) file' (x / s.clusterSize) ≠ 0 ∨ _
    rw [hcounts]
    rcases placed_withBlock hi hc hp with ⟨-, rfl, rfl⟩ | ⟨-, hp⟩
    · exact Or.inr (Or.inr ⟨hlo, hhi⟩)
    · exact (hE (hp.of_stays hareas.tables.symm) x hlo hhi).imp_right Or.inl
  have htables := hmap.tables.withBlock hi hc (hin.trans hlen) hfresh'
  refine ⟨⟨{ hmap with tables := htables }, fun _ => ?_⟩,
    ⟨⟨_, _, _, rfl⟩, length_putBe .., hblock, Nat.le_refl _, hlen, fun a o n hp ha => ?_,
      fun d hd => ?_⟩, hcovered⟩
  · refine { hr with
      capacity := ?_
      table_disk := ?_
      cache := ?_
      in_use := (hcovered _ hr.in_use).mono fun x hx => hx.elim id fun hx => hx.2.trans_le hfree }
    · change (putBe s.refcountTable (8 * i) c 8).length / 8 * _ * _ ≤ _
      rw [length_putBe]
      exact hr.capacity
    · change slice file' _ (putBe s.refcountTable (8 * i) c 8).length = _
      rw [length_putBe]
      exact hdisk
    · have hcache : CacheOf file' s.clusterSize (IsBlock s.toQcowTables) s.rcCache :=
        hr.cache.of_slice fun o hne ⟨j, hj, hjo⟩ => hjo ▸ hslice j hj (hjo ▸ hne)
      refine { hcache with tags := fun {j l} hl hne => ?_ }
      obtain ⟨k, hk, hkl⟩ := hcache.tags hl hne
      refine ⟨k, hk.trans_eq (length_putBe ..).symm, ?_⟩
      exact (hblock k (hkl ▸ hne)).trans hkl
  · refine hstays hp fun heq => ?_
    rw [heq] at ha
    exact ha
  · exact (hcounts d).symm ▸ hd

end Block

/-! ### A count in its block -/

section Put

variable {z : Inflate} {hdr : ℕ} {m : Calls} {k : Kernel} {s : QcowState} {file file' : List UInt8}
  {i d v : ℕ} {block : List UInt8}

/-- The index of a count is inside of a block. -/
theorem entryIn_countIndex (hr : RefcountsSound hdr s file) (hbits : 9 ≤ s.clusterBits)
    (hlen : block.length = s.clusterSize) (d : ℕ) :
    EntryIn s.refcountOrder block (s.countIndex d) := by
  have hlt : s.countIndex d < 2 ^ s.refcountBits := by
    rw [QcowTables.countIndex, Nat.and_two_pow_sub_one_eq_mod]
    exact Nat.mod_lt _ (Nat.two_pow_pos _)
  have horder := hr.order_le
  refine ⟨horder, ?_⟩
  calc (s.countIndex d + 1) * 2 ^ s.refcountOrder
      ≤ 2 ^ s.refcountBits * 2 ^ s.refcountOrder := Nat.mul_le_mul_right _ hlt
    _ = 2 ^ (3 + s.clusterBits) := by
        rw [← Nat.pow_add, QcowTables.refcountBits]
        congr 1
        omega
    _ = 8 * block.length := by
        rw [hlen, Nat.pow_add]
        rfl

/-- **A block is rewritten** with another count in it. -/
theorem Sound.putBlock (hs : Sound z hdr s file) (hv : s.version = .qcow2) {i : ℕ}
    (hi : 8 * i + 8 ≤ s.refcountTable.length) (h0 : s.refblock i ≠ 0) {line : ℕ}
    (hline : LineOf file s.clusterSize (s.refblock i) s.rcCache line)
    (hlen : block.length = s.clusterSize)
    (hcounts : ∀ d, (getRefcount s.refcountOrder (slice file (s.refblock i) s.clusterSize) d).getD 0
      ≠ 0 → (getRefcount s.refcountOrder block d).getD 0 ≠ 0) :
    Sound z hdr { s with rcCache := CacheLine.rewrite s.rcCache line fun _ => block }
        (writeAt 0 file (s.refblock i) block) ∧
      CountsSet hdr s file { s with rcCache := CacheLine.rewrite s.rcCache line fun _ => block }
        (writeAt 0 file (s.refblock i) block) := by
  have hr := hs.refcounts hv
  have hgrow := length_le_writeAt 0 file (s.refblock i) block
  have hne : block ≠ [] := fun hnil => by
    rw [hnil] at hlen
    exact absurd hlen.symm s.clusterSize_pos.ne'
  have hown := @Placed.rcBlock hdr _ file _ hv hi h0
  have hstays : ∀ ⦃a o n⦄, Placed hdr s.toQcowTables file a o n → a ≠ .rcBlock i →
      Stays file (writeAt 0 file (s.refblock i) block) o n := by
    intro a o n hp ha
    refine stays_writeAt ?_
    rw [hlen]
    exact hs.tables.outside hown trivial hp ha
  have hslice : ∀ j, j ≠ i → 8 * j + 8 ≤ s.refcountTable.length → s.refblock j ≠ 0 →
      slice (writeAt 0 file (s.refblock i) block) (s.refblock j) s.clusterSize =
        slice file (s.refblock j) s.clusterSize :=
    fun j hj hlj hj0 => hs.tables.slice_eq hgrow (.rcBlock hv hlj hj0)
      (hstays (.rcBlock hv hlj hj0) fun heq => hj (Area.rcBlock.inj heq))
  have hself : slice (writeAt 0 file (s.refblock i) block) (s.refblock i) s.clusterSize =
      block := by
    rw [← hlen]
    exact slice_writeAt 0 file _ hne
  have hareas : AreasStay hdr s.toQcowTables file (writeAt 0 file (s.refblock i) block) := by
    intro a o n hp
    by_cases ha : a = .rcBlock i
    · exact Or.inl (ha ▸ trivial)
    · exact Or.inr (hstays hp ha)
  have hmap := hs.toMapSound.of_stays hareas hgrow
  have hnonzero : ∀ d, refcountOf s.toQcowTables file d ≠ 0 →
      refcountOf s.toQcowTables (writeAt 0 file (s.refblock i) block) d ≠ 0 := by
    intro d hd
    rw [refcountOf] at hd ⊢
    split at hd
    · exact absurd rfl hd
    · rename_i h
      rw [if_neg h]
      by_cases hdi : s.countBlock d = i
      · rw [hdi] at hd ⊢
        rw [hself]
        exact hcounts _ hd
      · rw [not_or, Nat.not_lt] at h
        rw [hslice _ hdi h.1 h.2]
        exact hd
  refine ⟨⟨{ hmap with }, fun _ => ?_⟩, ⟨⟨_, _, _, rfl⟩, rfl, fun _ _ => rfl, Nat.le_refl _, hgrow,
    fun a o n hp ha => ?_, hnonzero⟩⟩
  · refine { hr with
      table_disk := ?_
      cache := ?_
      in_use := fun a o n hp x hlo hhi => ?_ }
    · have htable := @Placed.rcTable hdr _ file hv
      exact (hs.tables.slice_eq hgrow htable (hstays htable Area.noConfusion)).trans hr.table_disk
    · refine hr.cache.write hline hself fun o ho hne hblock => ?_
      obtain ⟨j, hj, rfl⟩ := hblock
      exact hslice j (fun hji => hne (hji ▸ rfl)) hj ho
    · exact (hr.in_use (hp.of_stays hareas.tables.symm) x hlo hhi).imp_left (hnonzero _)
  · refine hstays hp fun heq => ?_
    rw [heq] at ha
    exact ha

/-- **A count is put** into its block. -/
theorem does_putRefcount (hs : Sound z hdr s (k.files s.fd)) (hv : s.version = .qcow2)
    (hi : 8 * s.countBlock d + 8 ≤ s.refcountTable.length) {o : ℕ}
    (ho : s.refblock (s.countBlock d) = o) (h0 : o ≠ 0) (hne : v ≠ 0)
    (hfits : v < 2 ^ 2 ^ s.refcountOrder) :
    Does m (putRefcount s o (s.countIndex d) v)
      (fun s' k' => k.Only s.fd k' ∧ Sound z hdr s' (k'.files s.fd) ∧
        CountsSet hdr s (k.files s.fd) s' (k'.files s.fd) ∧ (∃ ls, s' = { s with rcCache := ls }) ∧
        refcountOf s'.toQcowTables (k'.files s.fd) d ≠ 0) k := by
  subst ho
  have hown := @Placed.rcBlock hdr _ (k.files s.fd) _ hv hi h0
  have hlen : (slice (k.files s.fd) (s.refblock (s.countBlock d)) s.clusterSize).length =
      s.clusterSize := length_slice (hs.tables.placed_le hown)
  obtain ⟨block, hput, hblock, hread⟩ := setRefcount_eq
    (entryIn_countIndex (hs.refcounts hv) hs.tables.clusterBits.1 hlen d) hfits
  rw [hlen] at hblock
  refine Does.seq (does_rcCacheLookup hs hv hi h0) ?_
  rintro ⟨_, _⟩ k' ⟨hk, hs', ls, j, hs'_eq, hj, hline⟩
  dsimp only at hj hs'_eq hs'
  subst hs'_eq hj
  rw [hk]
  dsimp only
  rw [hline.data, hput]
  refine Does.seq (does_pwrite (Q := fun _ k' => k' = k.write s.fd (writeAt 0 (k.files s.fd)
    (s.refblock (s.countBlock d)) block)) rfl) ?_
  rintro _ k' rfl
  have hcounts : ∀ e, (getRefcount s.refcountOrder
      (slice (k.files s.fd) (s.refblock (s.countBlock d)) s.clusterSize) e).getD 0 ≠ 0 →
      (getRefcount s.refcountOrder block e).getD 0 ≠ 0 := by
    intro e he
    rw [hread]
    split
    · exact hne
    · exact he
  obtain ⟨hsound, hset⟩ := hs'.putBlock hv hi h0 hline hblock hcounts
  have hgrow := length_le_writeAt 0 (k.files s.fd) (s.refblock (s.countBlock d)) block
  have hnil : block ≠ [] := fun hnil => by
    rw [hnil] at hblock
    exact absurd hblock.symm s.clusterSize_pos.ne'
  refine does_pure ⟨⟨_, rfl⟩, ?_⟩
  rw [Kernel.files_write_self]
  refine ⟨hsound, ⟨⟨_, _, _, rfl⟩, rfl, hset.entries, Nat.le_refl _, hgrow, hset.stays,
    hset.nonzero⟩, ⟨_, rfl⟩, ?_⟩
  change refcountOf s.toQcowTables (writeAt 0 (k.files s.fd) (s.refblock (s.countBlock d)) block) d
    ≠ 0
  rw [refcountOf, if_neg (not_or.mpr ⟨Nat.not_lt.mpr hi, h0⟩), ← hblock, slice_writeAt 0 _ _ hnil,
    hread, if_pos rfl]
  exact hne

end Put

/-! ### What an allocation leaves alone -/

section Allocated

variable {z : Inflate} {hdr : ℕ} {s s' : QcowState} {file file' : List UInt8} {c n : ℕ}

theorem Allocated.tables (h : Allocated z hdr s file c n s' file') :
    s'.toQcowTables = s.toQcowTables := by
  obtain ⟨ls, f, rfl⟩ := h.state
  rfl

theorem Allocated.stays (h : Allocated z hdr s file c n s' file') {a : Area} {o l : ℕ}
    (hp : Placed hdr s.toQcowTables file a o l) : Stays file file' o l :=
  h.fresh.stays h.elsewhere hp

theorem Allocated.tablesStay (h : Allocated z hdr s file c n s' file') :
    TablesStay s.toQcowTables file file' :=
  fun _ hi h0 => h.stays (@Placed.table hdr _ file _ hi h0)

/-- No area is there afterwards either. -/
theorem Allocated.fresh_after (h : Allocated z hdr s file c n s' file') :
    Fresh hdr s'.toQcowTables file' c n := by
  rw [h.tables]
  exact fun _ _ _ hp => h.fresh (hp.of_stays h.tablesStay.symm)

theorem Allocated.countsStay (h : Allocated z hdr s file c n s' file') (hv : s.version = .qcow2) :
    CountsStay s.toQcowTables file file' :=
  ⟨h.stays (.rcTable hv), fun hk h0 => h.stays (.rcBlock hv hk h0)⟩

theorem Allocated.countsSet (h : Allocated z hdr s file c n s' file')
    (hs : TablesSound hdr s.toQcowTables file) (hv : s.version = .qcow2) :
    CountsSet hdr s file s' file' where
  state := by
    obtain ⟨ls, f, hs'⟩ := h.state
    exact ⟨s.refcountTable, ls, f, hs'⟩
  table_length := by rw [h.tables]
  entries i _ := by rw [h.tables]
  free_le := h.free_le
  length := h.length
  stays _ _ _ hp _ := h.stays hp
  nonzero d hd := by rwa [h.tables, (h.countsStay hv).refcountOf_eq hs hv h.length]

theorem Allocated.covered (h : Allocated z hdr s file c n s' file')
    (hs : TablesSound hdr s.toQcowTables file) (hv : s.version = .qcow2) {E : ℕ → Prop}
    (hE : Covered hdr s.toQcowTables file E) : Covered hdr s'.toQcowTables file' E := by
  rw [h.tables]
  exact hE.of_stays hs h.tablesStay (h.countsStay hv) hv h.length

end Allocated

/-! ### The loop -/

section Loop

variable {z : Inflate} {hdr : ℕ} {m : Calls} {k : Kernel} {s s' : QcowState}
  {file file' : List UInt8} {c d v : ℕ}

/-- Counts in blocks that are there already. -/
theorem CountsSet.covered (h : CountsSet hdr s file s' file')
    (hs' : ∃ ls, s' = { s with rcCache := ls }) {E : ℕ → Prop}
    (hE : Covered hdr s.toQcowTables file E) : Covered hdr s'.toQcowTables file' E := by
  intro a o n hp x hlo hhi
  have htables := h.tables.symm
  have hnonzero := h.nonzero
  obtain ⟨ls, rfl⟩ := hs'
  exact (hE (hp.of_stays htables) x hlo hhi).imp_left (hnonzero _)

/-- A cluster that has a count need not be excepted. -/
theorem Covered.of_cluster {t : QcowTables} {E : ℕ → Prop}
    (hE : Covered hdr t file fun x => E x ∨ (c ≤ x ∧ x < c + t.clusterSize))
    (halign : c % t.clusterSize = 0) (hc : refcountOf t file (c / t.clusterSize) ≠ 0) :
    Covered hdr t file E := by
  intro a o n hp x hlo hhi
  rcases hE hp x hlo hhi with hne | hx | ⟨hx, hx'⟩
  · exact Or.inl hne
  · exact Or.inr hx
  · have hsame : x / t.clusterSize = c / t.clusterSize := by
      refine Nat.div_eq_of_lt_le ?_ ?_
      · rwa [Nat.div_mul_cancel (Nat.dvd_of_mod_eq_zero halign)]
      · rwa [Nat.succ_mul, Nat.div_mul_cancel (Nat.dvd_of_mod_eq_zero halign)]
    exact Or.inl (hsame ▸ hc)

/-- The entries of the table of reference counts that are 0. -/
def QcowTables.emptyEntries (t : QcowTables) : Finset ℕ :=
  (Finset.range (t.refcountTable.length / 8)).filter fun i => t.refblock i = 0

/-- A new block fills one. -/
theorem card_emptyEntries_withBlock {t : QcowTables} {i : ℕ}
    (hi : 8 * i + 8 ≤ t.refcountTable.length) (h0 : t.refblock i = 0) (hc : Offset t c) :
    (t.withBlock i c).emptyEntries.card < t.emptyEntries.card := by
  have hblock := refblock_withBlock hi (hc.lt.trans_le (t.offsetLimit_le.trans (by decide)))
  have hlen : (t.withBlock i c).refcountTable.length = t.refcountTable.length := length_putBe ..
  refine Finset.card_lt_card ⟨fun j hj => ?_, fun hsub => ?_⟩
  · rw [QcowTables.emptyEntries, Finset.mem_filter, hlen, hblock] at hj
    rw [QcowTables.emptyEntries, Finset.mem_filter]
    refine ⟨hj.1, ?_⟩
    by_cases hji : j = i
    · rw [hji]
      exact h0
    · rw [if_neg hji] at hj
      exact hj.2
  · have hmem : i ∈ t.emptyEntries :=
      Finset.mem_filter.mpr ⟨Finset.mem_range.mpr (by omega), h0⟩
    have hnot := (Finset.mem_filter.mp (hsub hmem)).2
    rw [hblock, if_pos rfl] at hnot
    exact hc.ne_zero hnot

/-- A block that has been allocated goes into the table. -/
theorem does_rcTableUpdate {i : ℕ} (hs : Sound z hdr s (k.files s.fd)) (hv : s.version = .qcow2)
    (hi : 8 * i + 8 ≤ s.refcountTable.length) (h0 : s.refblock i = 0)
    (hc : Offset s.toQcowTables c) (hin : c + s.clusterSize ≤ (k.files s.fd).length)
    (hfresh : Fresh hdr s.toQcowTables (k.files s.fd) c s.clusterSize)
    (hzero : ∀ x, c ≤ x → x < c + s.clusterSize → (k.files s.fd).getD x 0 = 0)
    (hfree : c + s.clusterSize ≤ s.firstFreeCluster) :
    Does m (rcTableUpdate s i c)
      (fun s' k' => s' = { s with refcountTable := putBe s.refcountTable (8 * i) c 8 } ∧
        k.Only s.fd k' ∧ Sound z hdr s' (k'.files s.fd) ∧
        CountsSet hdr s (k.files s.fd) s' (k'.files s.fd) ∧
        ∀ E, Covered hdr s.toQcowTables (k.files s.fd) E →
          Covered hdr s'.toQcowTables (k'.files s.fd)
            fun x => E x ∨ (c ≤ x ∧ x < c + s.clusterSize)) k := by
  have htable := hs.tables.placed_le (.rcTable hv)
  refine Does.seq (does_tableUpdate (hs.refcounts hv).table_disk htable hi) ?_
  rintro _ k' ⟨rfl, file', rfl, hdisk, hlen, helse⟩
  obtain ⟨hs', hset, hcov⟩ :=
    hs.withBlock hv hi h0 hc hin hfresh hzero hfree hdisk helse hlen
  refine does_pure ⟨rfl, ⟨file', rfl⟩, ?_⟩
  rw [Kernel.files_write_self]
  exact ⟨hs', hset, hcov⟩

/-- What is known after the count of the cluster with number `d` has been set. -/
def CountResult (z : Inflate) (hdr : ℕ) (m : Calls) (s : QcowState) (k : Kernel) (d : ℕ)
    (s' : QcowState) (k' : Kernel) : Prop :=
  k.Only s.fd k' ∧ Sound z hdr s' (k'.files s.fd) ∧
    CountsSet hdr s (k.files s.fd) s' (k'.files s.fd) ∧
    (m.room = true → s.version = .qcow2 → refcountOf s'.toQcowTables (k'.files s.fd) d ≠ 0 ∧
      ∀ E, Covered hdr s.toQcowTables (k.files s.fd) E →
        Covered hdr s'.toQcowTables (k'.files s.fd) E)

/-- **A reference count is set**, and so are those of the blocks that are allocated for it. -/
theorem does_setRefcountLoop {fuel : ℕ} (hs : Sound z hdr s (k.files s.fd))
    (hv : s.version = .qcow2) (hne : v ≠ 0) (hfits : v < 2 ^ 2 ^ s.refcountOrder)
    (hfuel : s.emptyEntries.card < fuel) :
    Does m (qcow2SetRefcountLoop fuel s c v) (CountResult z hdr m s k (c / s.clusterSize)) k := by
  induction fuel generalizing s k c v with
  | zero => exact absurd hfuel (Nat.not_lt_zero _)
  | succ fuel ih =>
    refine Does.seq (does_refcountPlace s c) ?_
    rintro _ k' ⟨hk, hin, rfl⟩
    rw [hk]
    dsimp only
    generalize hd : c / s.clusterSize = d at *
    split
    · rename_i h0
      refine Does.seq (does_qcowClusterAlloc hs) ?_
      rintro ⟨b, s₁⟩ k₁ (⟨rfl, hdeclined, rfl, hs₁, ls, hs₁_eq⟩ | ⟨honly₁, halloc⟩)
      · dsimp only at hs₁ hs₁_eq
        subst hs₁_eq
        refine does_pure ⟨.refl .., hs₁, ?_, fun hroom _ => ?_⟩
        · exact { CountsSet.refl hdr s _ with state := ⟨_, _, _, rfl⟩ }
        · cases hv.symm.trans (hdeclined hroom).1
      dsimp only at halloc ⊢
      rw [if_neg halloc.offset.ne_zero]
      have hset₁ := halloc.countsSet hs.tables hv
      have hcov₁ := fun E => halloc.covered (E := E) hs.tables hv
      have hfresh := halloc.fresh_after
      have halign := halloc.aligned hv
      obtain ⟨ls, f, rfl⟩ := halloc.state
      refine Does.seq (does_rcTableUpdate halloc.sound hv hin h0 halloc.offset halloc.inside hfresh
        halloc.zero (halloc.le_free hv)) ?_
      rintro s₂ k₂ ⟨rfl, honly₂, hs₂, hset₂, hcov₂⟩
      -- the block needs a count itself, and an entry less is empty
      have hless := card_emptyEntries_withBlock hin h0 halloc.offset
      refine Does.seq (ih (c := b) hs₂ hv Nat.one_ne_zero
        (Nat.one_lt_two_pow (Nat.two_pow_pos _).ne') ?_) ?_
      · exact Nat.lt_of_lt_of_le hless (Nat.lt_succ_iff.mp hfuel)
      rintro s₃ k₃ ⟨honly₃, hs₃, hset₃, hroom₃⟩
      have hset := hset₁.trans (hset₂.trans hset₃)
      have hblock : (s.withBlock (s.countBlock d) b).refblock (s.countBlock d) = b := by
        rw [refblock_withBlock hin (halloc.offset.lt.trans_le (s.offsetLimit_le.trans (by decide))),
          if_pos rfl]
      have hkept := hset₃.entries (s.countBlock d) (hblock.trans_ne halloc.offset.ne_zero)
      have hlen := hset.table_length
      obtain ⟨T, ls', f', rfl⟩ := hset.state
      have hb := hkept.trans hblock
      refine (does_putRefcount (d := d) hs₃ hv (hin.trans_eq hlen.symm) hb halloc.offset.ne_zero hne
        hfits).mono fun s₄ k₄ h => ?_
      obtain ⟨honly₄, hs₄, hset₄, hstate, hcount⟩ := h
      refine ⟨honly₁.trans (honly₂.trans (honly₃.trans honly₄)), hs₄, hset.trans hset₄,
        fun hroom _ => ⟨hcount, fun E hE => hset₄.covered hstate ?_⟩⟩
      obtain ⟨hcount₃, hcov₃⟩ := hroom₃ hroom hv
      exact (hcov₃ _ (hcov₂ _ (hcov₁ _ hE))).of_cluster halign hcount₃
    · rename_i h0
      refine (does_putRefcount hs hv hin rfl h0 hne hfits).mono fun s' k' h => ?_
      obtain ⟨honly, hs', hset, hstate, hcount⟩ := h
      exact ⟨honly, hs', hset, fun _ _ => ⟨hcount, fun E => hset.covered hstate⟩⟩

/-- `set_refcount` of the state. In a QCOW image there is nothing to do. -/
theorem does_stateSetRefcount (hs : Sound z hdr s (k.files s.fd)) (c : ℕ) :
    Does m (stateSetRefcount s c 1) (CountResult z hdr m s k (c / s.clusterSize)) k := by
  rw [stateSetRefcount]
  cases hv : s.version with
  | qcow =>
    refine does_pure ⟨.refl .., hs, .refl .., fun _ hv2 => ?_⟩
    cases hv.symm.trans hv2
  | qcow2 =>
    refine does_setRefcountLoop hs hv Nat.one_ne_zero
      (Nat.one_lt_two_pow (Nat.two_pow_pos _).ne') ?_
    have hcard : s.emptyEntries.card ≤ s.refcountTable.length / 8 :=
      (Finset.card_filter_le ..).trans_eq (Finset.card_range _)
    omega

/-- **Counts are not lost**, through the caches and when the table of reference counts grows: after
the count of one cluster has been set, that cluster and all that had a count are found in use. -/
theorem counted_after_set (hs : Sound z hdr s (k.files s.fd)) (hv : s.version = .qcow2)
    (c d : ℕ) :
    Does m (do
      let s' ← stateSetRefcount s c 1
      qcow2GetRefcount s' d)
      (fun r k' => Sound z hdr r.2 (k'.files s.fd) ∧ (m.room = true →
        (d / s.clusterSize = c / s.clusterSize ∨
          refcountOf s.toQcowTables (k.files s.fd) (d / s.clusterSize) ≠ 0) → r.1 ≠ 0)) k := by
  refine Does.seq (does_stateSetRefcount hs c) ?_
  rintro s' k' ⟨-, hs', hset, hroom⟩
  have hnonzero := hset.nonzero
  obtain ⟨T, ls, f, rfl⟩ := hset.state
  refine (does_getRefcount hs' hv d).mono ?_
  rintro ⟨rc, s''⟩ k'' ⟨hk, hs'', -, hrc, -⟩
  dsimp only at hs'' hrc ⊢
  rw [hk]
  refine ⟨hs'', fun hr hd => ?_⟩
  rw [hrc]
  rcases hd with hd | hd
  · change refcountOf _ _ (d / s.clusterSize) ≠ 0
    rw [hd]
    exact (hroom hr hv).1
  · exact hnonzero _ hd

theorem counted_after_set_small : Does ⟨true, true⟩ (do
    let s' ← stateSetRefcount smallState 2048 1
    qcow2GetRefcount s' 2048)
    (fun r _ => r.1 ≠ 0) ⟨fun _ => smallFile, fun _ => 0⟩ := by
  have hs : Sound (fun _ _ => (false, [])) 104 smallState smallFile := sound_small _
  refine Does.mono (counted_after_set (k := ⟨fun _ => smallFile, fun _ => 0⟩) hs
    smallState_version 2048 2048) ?_
  intro r k' h
  exact h.2 rfl (Or.inl rfl)

end Loop

end Tcmu

end LioProject
