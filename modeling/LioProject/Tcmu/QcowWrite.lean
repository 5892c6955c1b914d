import LioProject.Lib.Overlay
import LioProject.Tcmu.QcowRead

/-!
# QCOW images: writing

The clusters that are in an image are a layer over its backing image (`imageLayer`). A write brings
all clusters into the layer that have a byte of the request, and changes the bytes of the request
and no others that were in the layer (`Written`). The rest of a cluster that was not in the layer is
zero then, and not what is behind it. The rest of a cluster of zeros is what the first cluster of
the file has there, and nothing is said about it.

A write fails only if something cannot be allocated, and the first sectors of the request have been
written then (`does_qcowWrite`). The image is sound again, and nothing is written to other files.
-/

namespace LioProject

namespace Tcmu

/-! ### The layer of an image -/

/-- The bytes of the disk that are in the image. -/
def imageLayer (z : Inflate) (t : QcowTables) (file : List UInt8) (y : ℕ) : Option UInt8 :=
  (clusterData z t file (t.l1Index y) (t.l2Index y)).map fun bs => bs.getD (y % t.clusterSize) 0

/-- The cluster of a byte is one of zeros. -/
def InZeros (t : QcowTables) (file : List UInt8) (y : ℕ) : Prop :=
  t.mapping file (t.l1Index y) (t.l2Index y) = .zero

/-- The bytes `bs` have been written to the disk, from byte `x` on. -/
structure Written (z : Inflate) (t : QcowTables) (file : List UInt8) (x : ℕ) (bs : List UInt8)
    (t' : QcowTables) (file' : List UInt8) : Prop where
  size : t'.size = t.size
  clusterSize : t'.clusterSize = t.clusterSize
  layer : ∀ y < t.size, (InZeros t file y → Layer.Touches t.clusterSize x bs.length y →
      x ≤ y ∧ y < x + bs.length) →
    imageLayer z t' file' y = Layer.put t.clusterSize 0 (imageLayer z t file) x bs y
  zeros : ∀ y < t.size, InZeros t' file' y →
    InZeros t file y ∧ ¬Layer.Touches t.clusterSize x bs.length y

section Layers

variable {z : Inflate} {hdr : ℕ} {t t' t'' : QcowTables} {file file' file'' : List UInt8}
  {back : ℕ → UInt8} {x y : ℕ} {bs cs : List UInt8}

/-- The disk is what is seen through the layer. -/
theorem diskByte_eq_seen : diskByte z t file back = Layer.seen (imageLayer z t file) back := by
  funext y
  rw [diskByte, Layer.seen, imageLayer]
  cases clusterData z t file (t.l1Index y) (t.l2Index y) <;> rfl

/-- Writing nothing. -/
theorem Written.nil (hsize : t'.size = t.size) (hcluster : t'.clusterSize = t.clusterSize)
    (hlayer : ∀ y < t.size, imageLayer z t' file' y = imageLayer z t file y)
    (hzeros : ∀ y < t.size, InZeros t' file' y → InZeros t file y) :
    Written z t file x [] t' file' where
  size := hsize
  clusterSize := hcluster
  layer y hy _ := (hlayer y hy).trans (Layer.put_nil ..).symm
  zeros y hy h := ⟨hzeros y hy h, Layer.not_touches_zero⟩

/-- **Parts of a write** that are done one after the other. -/
theorem Written.append (h : Written z t file x bs t' file')
    (h' : Written z t' file' (x + bs.length) cs t'' file'') :
    Written z t file x (bs ++ cs) t'' file'' where
  size := h'.size.trans h.size
  clusterSize := h'.clusterSize.trans h.clusterSize
  layer y hy hzero := by
    have hlayer := h'.layer y (hy.trans_eq h.size.symm)
    rw [h.clusterSize] at hlayer
    rw [List.length_append, Layer.touches_add] at hzero
    rw [Layer.put_append]
    by_cases hin : x + bs.length ≤ y ∧ y < x + bs.length + cs.length
    · rw [hlayer fun _ _ => hin, Layer.put_of_mem hin.1 hin.2, Layer.put_of_mem hin.1 hin.2]
    · have hfirst : imageLayer z t' file' y =
          Layer.put t.clusterSize 0 (imageLayer z t file) x bs y :=
        h.layer y hy fun hz htouch => by
          have htotal := hzero hz (Or.inl htouch)
          omega
      rw [hlayer fun hz htouch => ?_, Layer.put_congr hfirst]
      obtain ⟨hz', hno⟩ := h.zeros y hy hz
      have htotal := hzero hz' (Or.inr htouch)
      by_contra hout
      exact hno (Layer.touches_of_mem htotal.1 (by omega))
  zeros y hy hz := by
    obtain ⟨hz', hno'⟩ := h'.zeros y (hy.trans_eq h.size.symm) hz
    obtain ⟨hz'', hno⟩ := h.zeros y hy hz'
    refine ⟨hz'', fun htouch => ?_⟩
    rw [List.length_append, Layer.touches_add] at htouch
    rw [h.clusterSize] at hno'
    exact htouch.elim hno hno'

/-- Two bytes are in the same cluster if their indices are the same. -/
theorem sameCluster_iff (hs : TablesSound hdr t file) (hx : x < t.size) (hy : y < t.size) :
    (t.l1Index y = t.l1Index x ∧ t.l2Index y = t.l2Index x) ↔
      y / t.clusterSize = x / t.clusterSize := by
  have hl1 : ∀ {x}, x < t.size → t.l1Index x = x / t.clusterSize / t.l2Size := by
    intro x hx
    rw [(l1Index_eq hs (hx.trans_le hs.size_le)).1, Nat.add_comm, Nat.pow_add,
      ← Nat.div_div_eq_div_mul]
    rfl
  rw [hl1 hx, hl1 hy, t.l2Index_of_div, t.l2Index_of_div]
  constructor
  · rintro ⟨hdiv, hmod⟩
    rw [← Nat.div_add_mod (y / t.clusterSize) t.l2Size, hdiv, hmod, Nat.div_add_mod]
  · intro h
    rw [h]
    exact ⟨rfl, rfl⟩

/-- What a byte is when its cluster has been given a place of its own. -/
theorem getD_clusterBase (hnot : ¬InZeros t file y) :
    (clusterBase z t file (t.l1Index y) (t.l2Index y)).getD (y % t.clusterSize) 0 =
      (imageLayer z t file y).getD 0 := by
  rw [imageLayer, clusterData, clusterBase]
  cases hm : t.mapping file (t.l1Index y) (t.l2Index y) with
  | hole =>
    rw [List.getD_eq_getElem?_getD,
      List.getElem?_replicate_of_lt (Nat.mod_lt _ t.clusterSize_pos)]
    rfl
  | zero => exact absurd hm hnot
  | compressed o n => rfl
  | plain o => rfl

end Layers

/-! ### A part of a cluster -/

section Part

variable {z : Inflate} {hdr : ℕ} {m : Calls} {s s' : QcowState} {file file' bs : List UInt8}
  {x c i j o : ℕ}

/-- Nothing but its cluster changes when a part of a cluster is written. -/
theorem Located.stays {base : List UInt8} (h : Located z hdr m s file i j base c s' file')
    (hin : o + bs.length ≤ s.clusterSize) ⦃a : Area⦄ ⦃p n : ℕ⦄
    (hp : Placed hdr s'.toQcowTables file' a p n) (hne : a ≠ .cluster i j) :
    Stays file' (writeAt 0 file' (c + o) bs) p n := by
  intro x hlo hhi
  refine writeAt_elsewhere file' bs (c + o) x ?_
  rcases h.alone hp hne x hlo hhi with hlt | hge <;> omega

theorem Located.areasStay {base : List UInt8} (h : Located z hdr m s file i j base c s' file')
    (hin : o + bs.length ≤ s.clusterSize) :
    AreasStay hdr s'.toQcowTables file' (writeAt 0 file' (c + o) bs) := by
  intro a p n hp
  by_cases ha : a = .cluster i j
  · subst ha
    refine Or.inl ?_
    change s'.mapping file' i j = .plain p
    cases hp with
    | plain hi hj hm => exact hm
    | compressed hi hj hm => cases hm.symm.trans h.mapping
  · exact Or.inr (h.stays hin hp ha)

/-- The geometry of an image stays. -/
structure SameGeometry (t t' : QcowTables) : Prop where
  fd : t'.fd = t.fd
  version : t'.version = t.version
  size : t'.size = t.size
  clusterSize : t'.clusterSize = t.clusterSize
  l1Size : t'.l1Size = t.l1Size
  l2Size : t'.l2Size = t.l2Size
  l1Index : ∀ y, t'.l1Index y = t.l1Index y
  l2Index : ∀ y, t'.l2Index y = t.l2Index y

theorem ImageKept.geometry {P : ℕ → ℕ → Prop} (h : ImageKept z hdr m P s file s' file') :
    SameGeometry s.toQcowTables s'.toQcowTables := by
  obtain ⟨l1, rt, l2, cc, co, rc, f, rfl⟩ := h.state
  exact ⟨rfl, rfl, rfl, rfl, rfl, rfl, fun _ => rfl, fun _ => rfl⟩

theorem Located.countsStay {base : List UInt8} (h : Located z hdr m s file i j base c s' file')
    (hin : o + bs.length ≤ s.clusterSize) (hv : s'.version = .qcow2) :
    CountsStay s'.toQcowTables file' (writeAt 0 file' (c + o) bs) :=
  ⟨h.stays hin (.rcTable hv) Area.noConfusion,
    fun hk h0 => h.stays hin (.rcBlock hv hk h0) Area.noConfusion⟩

/-- The bytes of other clusters, when a part of a cluster is written. -/
theorem Located.other {base : List UInt8} (h : Located z hdr m s file i j base c s' file')
    (hin : o + bs.length ≤ s.clusterSize) {i' j' : ℕ} (hi' : i' < s.l1Size) (hj' : j' < s.l2Size)
    (hij : ¬(i' = i ∧ j' = j)) :
    ClusterKept z s.toQcowTables file s'.toQcowTables (writeAt 0 file' (c + o) bs) i' j' := by
  have hgeom := h.geometry
  have hareas := h.areasStay hin
  have hi'' := hi'.trans_eq hgeom.l1Size.symm
  have hj'' := hj'.trans_eq hgeom.l2Size.symm
  refine (h.data _ _ hi' hj' hij).trans ?_
  exact clusterKept_of_stays h.sound.tables (mapping_of_stays (hareas.tables _ hi'') hj'')
    (length_le_writeAt ..) hi'' hj'' fun hp => h.stays hin hp fun heq => hij (Area.cluster.inj heq)

/-- The bytes of the cluster itself. -/
theorem Located.self {base : List UInt8} (h : Located z hdr m s file i j base c s' file')
    (hin : o + bs.length ≤ s.clusterSize) (hi : i < s.l1Size) (hj : j < s.l2Size) :
    s'.mapping (writeAt 0 file' (c + o) bs) i j = .plain c ∧
      ∀ p < s.clusterSize, (slice (writeAt 0 file' (c + o) bs) c s.clusterSize).getD p 0 =
        if o ≤ p ∧ p < o + bs.length then bs.getD (p - o) 0 else base.getD p 0 := by
  have hgeom := h.geometry
  have hareas := h.areasStay hin
  refine ⟨?_, fun p hp => ?_⟩
  · rw [mapping_of_stays (hareas.tables _ (hi.trans_eq hgeom.l1Size.symm))
      (hj.trans_eq hgeom.l2Size.symm)]
    exact h.mapping
  · rw [getD_slice, if_pos hp, getD_writeAt, ← h.base, getD_slice, if_pos hp]
    split
    · rename_i hmem
      rw [if_pos (by omega), Nat.add_sub_add_left]
    · rename_i hout
      rw [if_neg (by omega)]

/-- **A part of a cluster is written** into its place. -/
theorem Located.write (hs : Sound z hdr s file) (hx : x < s.size)
    (hin : x % s.clusterSize + bs.length ≤ s.clusterSize) (hbs : bs ≠ [])
    (h : Located z hdr m s file (s.l1Index x) (s.l2Index x)
      (clusterBase z s.toQcowTables file (s.l1Index x) (s.l2Index x)) c s' file') :
    Sound z hdr s' (writeAt 0 file' (c + x % s.clusterSize) bs) ∧
      ImageKept z hdr m (fun _ _ => False) s file s'
        (writeAt 0 file' (c + x % s.clusterSize) bs) ∧
      Written z s.toQcowTables file x bs s'.toQcowTables
        (writeAt 0 file' (c + x % s.clusterSize) bs) := by
  have hgeom := h.geometry
  have hareas := h.areasStay hin
  have hcounts := h.countsStay hin
  have hother : ∀ {i j}, i < s.l1Size → j < s.l2Size → ¬(i = s.l1Index x ∧ j = s.l2Index x) →
      ClusterKept z s.toQcowTables file s'.toQcowTables _ i j :=
    fun hi hj hij => h.other hin hi hj hij
  have hlen := length_le_writeAt 0 file' (c + x % s.clusterSize) bs
  have hindex : ∀ {y}, y < s.size → s.l1Index y < s.l1Size ∧ s.l2Index y < s.l2Size :=
    fun hy => ⟨(l1Index_eq hs.tables (hy.trans_le hs.tables.size_le)).2, l2Index_lt _ _⟩
  obtain ⟨hself, hbytes⟩ := h.self hin (hindex hx).1 (hindex hx).2
  refine ⟨h.sound.of_stays hareas hcounts hlen, ?_, ?_⟩
  · refine ⟨h.state, h.length.trans hlen, h.header.trans (h.stays hin .header Area.noConfusion),
      fun _ _ _ _ hno => hno.elim, fun hroom hv E hE => ?_⟩
    have hv' := hgeom.version.trans hv
    exact (h.covered hroom hv E hE).of_stays h.sound.tables hareas.tables (hcounts hv') hv' hlen
  generalize writeAt 0 file' (c + x % s.clusterSize) bs = file'' at *
  have htouch : ∀ y, Layer.Touches s.clusterSize x bs.length y ↔
      y / s.clusterSize = x / s.clusterSize := by
    intro y
    constructor
    · rintro ⟨i, hi, heq⟩
      rw [← heq, (div_add_of_lt (by omega)).1]
    · intro heq
      exact ⟨0, List.length_pos_of_ne_nil hbs, by rw [Nat.add_zero, heq]⟩
  have hsame : ∀ {y}, y < s.size → ((s.l1Index y = s.l1Index x ∧ s.l2Index y = s.l2Index x) ↔
      y / s.clusterSize = x / s.clusterSize) := fun hy => sameCluster_iff hs.tables hx hy
  refine ⟨hgeom.size, hgeom.clusterSize, fun y hy hzero => ?_, fun y hy hz => ?_⟩
  · by_cases hcluster : y / s.clusterSize = x / s.clusterSize
    · obtain ⟨hi, hj⟩ := (hsame hy).mpr hcluster
      have hmod := Nat.mod_lt y s.clusterSize_pos
      have hleft : imageLayer z s'.toQcowTables file'' y =
          some ((slice file'' c s.clusterSize).getD (y % s.clusterSize) 0) := by
        rw [imageLayer, hgeom.l1Index, hgeom.l2Index, hgeom.clusterSize, clusterData, hi, hj, hself,
          hgeom.clusterSize]
        rfl
      rw [hleft, hbytes _ hmod]
      have hxdiv := Nat.div_add_mod x s.clusterSize
      have hydiv := Nat.div_add_mod y s.clusterSize
      rw [hcluster] at hydiv
      by_cases hmem : x ≤ y ∧ y < x + bs.length
      · rw [Layer.put_of_mem hmem.1 hmem.2, if_pos (by omega)]
        congr 2
        omega
      · rw [Layer.put_of_touches hmem ((htouch y).mpr hcluster), if_neg (by omega), ← hi, ← hj,
          getD_clusterBase fun hz => hmem (hzero hz ((htouch y).mpr hcluster))]
    · obtain ⟨hi, hj⟩ := hindex hy
      have hkept := hother hi hj fun hij => hcluster ((hsame hy).mp hij)
      rw [Layer.put_of_not_touches fun h => hcluster ((htouch y).mp h), imageLayer, hgeom.l1Index,
        hgeom.l2Index, hgeom.clusterSize, hkept.data, imageLayer]
  · rw [InZeros, hgeom.l1Index, hgeom.l2Index] at hz
    by_cases hcluster : y / s.clusterSize = x / s.clusterSize
    · obtain ⟨hi, hj⟩ := (hsame hy).mpr hcluster
      rw [hi, hj, hself] at hz
      cases hz
    · obtain ⟨hi, hj⟩ := hindex hy
      have hkept := hother hi hj fun hij => hcluster ((hsame hy).mp hij)
      exact ⟨hkept.zero hz, fun h => hcluster ((htouch y).mp h)⟩

theorem ImageKept.written_nil (hs : TablesSound hdr s.toQcowTables file)
    (h : ImageKept z hdr m (fun _ _ => True) s file s' file') :
    Written z s.toQcowTables file x [] s'.toQcowTables file' := by
  have hgeom := h.geometry
  have hkept : ∀ {y}, y < s.size →
      ClusterKept z s.toQcowTables file s'.toQcowTables file' (s.l1Index y) (s.l2Index y) :=
    fun hy => h.data _ _ (l1Index_eq hs (hy.trans_le hs.size_le)).2 (l2Index_lt _ _) trivial
  refine .nil hgeom.size hgeom.clusterSize (fun y hy => ?_) fun y hy hz => ?_
  · rw [imageLayer, hgeom.l1Index, hgeom.l2Index, hgeom.clusterSize, (hkept hy).data, imageLayer]
  · rw [InZeros, hgeom.l1Index, hgeom.l2Index] at hz
    exact (hkept hy).zero hz

end Part

/-! ### The loop -/

section Loop

variable {z : Inflate} {hdr : ℕ} {m : Calls} {k : Kernel} {s : QcowState} {iov seg : List Iovec}
  {sector count off len fuel : ℕ}

/-- The bytes that a segment describes. -/
theorem gather_iovecSegment {mem : Mem} (h : iovecSegment iov off len = some seg) :
    gather seg mem = slice (gather iov mem) off len := by
  rw [gather_eq_map, addresses_iovecSegment h, gather_eq_map, slice, List.map_take, List.map_drop]

/-- What is known after an attempt to write the `n` bytes `bs` to the disk, from byte `x` on: the
first `d` of them have been written. -/
structure WriteResult (z : Inflate) (hdr : ℕ) (m : Calls) (s : QcowState) (k : Kernel) (x : ℕ)
    (bs : List UInt8) (ok : Prop) (s' : QcowState) (k' : Kernel) : Prop where
  only : k.Only s.fd k'
  sound : Sound z hdr s' (k'.files s.fd)
  kept : ImageKept z hdr m (fun _ _ => False) s (k.files s.fd) s' (k'.files s.fd)
  written : ∃ d ≤ bs.length, 512 ∣ d ∧
    Written z s.toQcowTables (k.files s.fd) x (bs.take d) s'.toQcowTables (k'.files s.fd) ∧
    ((d = bs.length ∧ ok) ∨ (¬ok ∧ Declined m s (k'.files s.fd)))

theorem ioResult_of_pos {d : ℕ} (h : 0 < d) : ioResult d = d := if_neg h.ne'

/-- A part of a request has been written, and then the rest of it, or a part of it. -/
theorem WriteResult.after {s₁ s₂ : QcowState} {k₁ k₂ : Kernel} {x : ℕ} {bs cs : List UInt8}
    {ok : Prop} (honly : k.Only s.fd k₁)
    (hkept : ImageKept z hdr m (fun _ _ => False) s (k.files s.fd) s₁ (k₁.files s.fd))
    (hwritten : Written z s.toQcowTables (k.files s.fd) x bs s₁.toQcowTables (k₁.files s.fd))
    (hbs : 512 ∣ bs.length) (h : WriteResult z hdr m s₁ k₁ (x + bs.length) cs ok s₂ k₂) :
    WriteResult z hdr m s k x (bs ++ cs) ok s₂ k₂ := by
  have hgeom := hkept.geometry
  obtain ⟨honly', hsound, hkept', d, hd, hdvd, hwritten', hend⟩ := h
  rw [hgeom.fd] at honly' hsound hkept' hwritten' hend
  refine ⟨honly.trans honly', hsound, hkept.trans hkept', bs.length + d, ?_, Nat.dvd_add hbs hdvd,
    ?_, ?_⟩
  · rw [List.length_append]
    exact Nat.add_le_add_left hd _
  · rw [List.take_length_add_append]
    exact hwritten.append hwritten'
  · rw [List.length_append]
    refine hend.imp (And.imp_left (congrArg (bs.length + ·))) (And.imp_right fun hdeclined => ?_)
    exact fun hroom => ⟨hgeom.version ▸ (hdeclined hroom).1, (hdeclined hroom).2⟩

/-- Nothing has been written. -/
theorem WriteResult.of_kept {s' : QcowState} {k' : Kernel} {x : ℕ} {bs : List UInt8} {ok : Prop}
    (hs : TablesSound hdr s.toQcowTables (k.files s.fd)) (honly : k.Only s.fd k')
    (hs' : Sound z hdr s' (k'.files s.fd))
    (hkept : ImageKept z hdr m (fun _ _ => True) s (k.files s.fd) s' (k'.files s.fd))
    (hend : (0 = bs.length ∧ ok) ∨ (¬ok ∧ Declined m s (k'.files s.fd))) :
    WriteResult z hdr m s k x bs ok s' k' :=
  ⟨honly, hs', hkept.mono fun _ _ => False.elim, 0, Nat.zero_le _, Nat.dvd_zero _,
    hkept.written_nil hs, hend⟩

/-- All of the request has been written. -/
theorem WriteResult.done {x : ℕ} (hs : Sound z hdr s (k.files s.fd)) (hoff : off = iovTotal iov)
    (hpos : 0 < iovTotal iov) :
    (0 ≤ ioResult off → ioResult off = iovTotal iov) ∧
      WriteResult z hdr m s k x ((gather iov k.mem).drop off) (0 ≤ ioResult off) s k := by
  have hret : ioResult off = iovTotal iov := by
    rw [hoff]
    exact ioResult_of_pos hpos
  refine ⟨fun _ => hret, .of_kept hs.tables (.refl ..) hs (.of_tables ⟨_, _, _, _, _, rfl⟩)
    (Or.inl ⟨?_, ?_⟩)⟩
  · rw [List.length_drop, length_gather, hoff, Nat.sub_self]
  · rw [hret]
    exact Int.natCast_nonneg _

/-- **The loop** writes what is left of a request, or as much as there is room for. -/
theorem does_writeLoop (hs : Sound z hdr s (k.files s.fd)) (hfuel : count ≤ fuel)
    (htotal : off + 512 * count = iovTotal iov) (hpos : 0 < iovTotal iov)
    (hin : sector * 512 + 512 * count ≤ s.size) :
    Does m (writeLoop z iov fuel s sector count off) (fun r k' =>
      (0 ≤ r.1 → r.1 = iovTotal iov) ∧
      WriteResult z hdr m s k (sector * 512) ((gather iov k.mem).drop off) (0 ≤ r.1) r.2 k') k := by
  have hneg : ¬(0 : ℤ) ≤ -1 := by decide
  induction fuel generalizing k s sector count off with
  | zero =>
    obtain rfl := Nat.le_zero.mp hfuel
    exact does_pure (WriteResult.done hs htotal hpos)
  | succ fuel ih =>
    rw [writeLoop]
    split
    · rename_i hzero
      rw [hzero] at htotal
      exact does_pure (WriteResult.done hs htotal hpos)
    rename_i hne
    dsimp only
    have hindex := sectorIndex_mul hs.tables sector
    have hmod := Nat.mod_lt (sector * 512) s.clusterSize_pos
    have hsize := QcowTables.clusterSize_eq hs.tables
    generalize hn : min count (s.clusterSectors - (sector &&& (s.clusterSectors - 1))) = n
    have hcount : n ≤ count := hn ▸ Nat.min_le_left ..
    have hcluster : sector * 512 % s.clusterSize + n * 512 ≤ s.clusterSize := by omega
    have hpos' : 0 < n := by omega
    have hinside : off + n * 512 ≤ iovTotal iov := by omega
    have hx : sector * 512 < s.size := by omega
    obtain ⟨seg, hseg⟩ := exists_iovecSegment hinside
    have hlen := iovTotal_iovecSegment hseg hinside
    rw [hseg]
    dsimp only
    rw [Nat.shiftLeft_eq]
    refine Does.seq (does_locateCluster hs (hx.trans_le hs.tables.size_le)) ?_
    rintro ⟨c, s₁⟩ k₁ ⟨honly₁, ⟨rfl, hkept₁, hs₁, hdeclined⟩ | hlocated⟩
    · refine does_pure ⟨fun h => absurd h hneg, ?_⟩
      exact .of_kept hs.tables honly₁ hs₁ hkept₁ (Or.inr ⟨hneg, hdeclined⟩)
    dsimp only at hlocated ⊢
    rw [if_neg hlocated.ne_zero, if_neg (not_not.mpr (and_two_pow_of_lt
      (hlocated.lt.trans_le (QcowTables.offsetLimit_le _))))]
    have hfd := hlocated.geometry.fd
    have hmem : k₁.mem = k.mem := by
      obtain ⟨file', rfl⟩ := honly₁
      rfl
    have hbytes : gather seg k₁.mem = slice (gather iov k.mem) off (n * 512) := by
      rw [hmem, gather_iovecSegment hseg]
    have hbytes_len : (slice (gather iov k.mem) off (n * 512)).length = n * 512 :=
      length_slice (by rw [length_gather]; exact hinside)
    have hbytes_ne : slice (gather iov k.mem) off (n * 512) ≠ [] := by
      refine List.ne_nil_of_length_pos ?_
      rw [hbytes_len]
      exact Nat.mul_pos hpos' (by decide)
    obtain ⟨hs₂, hkept₂, hwritten₂⟩ := hlocated.write hs hx (by rw [hbytes_len]; exact hcluster)
      hbytes_ne
    rw [hindex, hfd]
    generalize hfile₂ : writeAt 0 (k₁.files s.fd) (c + sector * 512 % s.clusterSize)
      (slice (gather iov k.mem) off (n * 512)) = file₂ at *
    refine Does.seq (does_pwritev (Q := fun r k' => 0 ≤ r ∧ k' = k₁.write s.fd file₂) ?_) ?_
    · rw [hbytes, hfile₂]
      exact ⟨Int.natCast_nonneg _, rfl⟩
    rintro written k₂ ⟨hwritten, rfl⟩
    rw [if_neg (Int.not_lt.mpr hwritten)]
    have hsize₁ := hlocated.geometry.size
    have hrest : off + n * 512 + 512 * (count - n) = iovTotal iov := by omega
    have hin' := ((sectors_left sector hcount).trans_le hin).trans_eq hsize₁.symm
    have hfile : (k₁.write s.fd file₂).files s.fd = file₂ := Kernel.files_write_self ..
    have hdrop : (gather iov k.mem).drop off =
        slice (gather iov k.mem) off (n * 512) ++ (gather iov k.mem).drop (off + n * 512) := by
      rw [slice, ← List.drop_drop, List.take_append_drop]
    rw [← hfile] at hs₂ hkept₂ hwritten₂
    have hs₂' : Sound z hdr s₁ ((k₁.write s.fd file₂).files s₁.fd) := hfd.symm ▸ hs₂
    refine (ih hs₂' (by omega) hrest hin').mono fun r k₃ h => ⟨h.1, ?_⟩
    rw [hdrop]
    refine .after (honly₁.trans ⟨file₂, rfl⟩) hkept₂ hwritten₂ ?_ ?_
    · rw [hbytes_len]
      exact Nat.dvd_mul_left ..
    · rw [hbytes_len, ← Nat.add_mul, ← hmem]
      exact h.2

end Loop

/-! ### The handler -/

section Handler

variable {β : Type} {z : Inflate} {hdr : ℕ} {m : Calls} {back : BdevOps β} {b : QcowImage β}
  {k : Kernel} {iov : List Iovec} {x : ℕ}

/-- **A write to an image.** -/
theorem does_qcowPwritev (hs : Sound z hdr b.state (k.files b.state.fd)) (hx : 512 ∣ x)
    (htotal : 512 ∣ iovTotal iov) (hpos : 0 < iovTotal iov) (hin : x + iovTotal iov ≤ b.state.size)
    (hlt : iovTotal iov < 2 ^ 63) :
    Does m (qcowPwritev z b iov x) (fun r k' => (0 ≤ r.1 → r.1 = iovTotal iov) ∧
      r.2.backing = b.backing ∧
      WriteResult z hdr m b.state k x (gather iov k.mem) (0 ≤ r.1) r.2.state k') k := by
  obtain ⟨count, hcount⟩ := htotal
  obtain ⟨sector, rfl⟩ := hx
  have hlen : tcmuIovecLength iov = iovTotal iov := by
    rw [tcmuIovecLength_eq, Nat.mod_eq_of_lt (hlt.trans (by decide))]
  have hmask : iovTotal iov &&& 511 = 0 := by
    rw [show 511 = 2 ^ 9 - 1 from rfl, Nat.and_two_pow_sub_one_eq_mod, hcount]
    exact Nat.mul_mod_right 512 count
  have hdiv : iovTotal iov / 512 = count := by
    rw [hcount]
    exact Nat.mul_div_cancel_left count (by decide)
  have hsector : (512 * sector) >>> 9 = sector := by
    rw [Nat.shiftRight_eq_div_pow]
    exact Nat.mul_div_cancel_left sector (by decide)
  have hsectors : sector + count ≤ b.state.size / 512 := by
    rw [Nat.le_div_iff_mul_le (by decide)]
    omega
  rw [qcowPwritev, hlen, hmask, if_neg (not_not.mpr rfl), hdiv, hsector, if_neg (by omega),
    Nat.min_eq_left (by omega)]
  refine Does.seq (does_writeLoop hs (Nat.le_refl _) (by omega) hpos (by omega)) ?_
  rintro ⟨ret, s'⟩ k' ⟨hret, hresult⟩
  rw [List.drop_zero, Nat.mul_comm] at hresult
  exact does_pure ⟨hret, rfl, hresult⟩

/-- **A write** puts all bytes of the request where they belong, or says that it has failed. It only
fails when something cannot be allocated. The image is sound afterwards in either case. -/
theorem does_qcowWrite (hs : Sound z hdr b.state (k.files b.state.fd)) (hx : 512 ∣ x)
    (htotal : 512 ∣ iovTotal iov) (hin : x + iovTotal iov ≤ b.state.size)
    (hlt : iovTotal iov < 2 ^ 63) :
    Does m (qcowWrite (qcowOps z back) b iov (iovTotal iov) x) (fun r k' =>
      r.2.backing = b.backing ∧ (r.1 = .ok ∨ r.1 = .wrErr) ∧
      WriteResult z hdr m b.state k x (gather iov k.mem) (r.1 = .ok) r.2.state k') k := by
  rw [qcowWrite]
  generalize hlength : iovTotal iov = length
  cases length with
  | zero =>
    rw [qcowIoLoop, if_pos rfl]
    have hnil : gather iov k.mem = [] := by
      rw [← List.length_eq_zero_iff, length_gather, hlength]
    refine does_pure ⟨rfl, Or.inl rfl, hnil ▸ ?_⟩
    exact .of_kept hs.tables (.refl ..) hs (.of_tables ⟨_, _, _, _, _, rfl⟩) (Or.inl ⟨rfl, rfl⟩)
  | succ length =>
    have hpos : 0 < iovTotal iov := hlength ▸ Nat.succ_pos _
    rw [qcowIoLoop, if_neg (Nat.succ_ne_zero _)]
    refine Does.seq (does_qcowPwritev hs hx htotal hpos hin hlt) ?_
    rintro ⟨ret, b'⟩ k' ⟨hret, hbacking, hresult⟩
    dsimp only at hret hbacking hresult ⊢
    split
    · rename_i hneg
      rw [propext (iff_of_false (not_le.mpr hneg) (show ¬TcmuSts.wrErr = .ok by decide))] at hresult
      exact does_pure ⟨hbacking, Or.inr rfl, hresult⟩
    · rename_i hnonneg
      have hret' := hret (not_lt.mp hnonneg)
      have hzero : (length + 1 + 2 ^ 64 - ret.toNat) % 2 ^ 64 = 0 := by
        rw [hret', hlength, Int.toNat_natCast, Nat.add_sub_cancel_left]
        exact Nat.mod_self _
      rw [hzero]
      rw [propext (iff_of_true (not_lt.mp hnonneg) (rfl : TcmuSts.ok = .ok))] at hresult
      have hend : Does m (qcowIoLoop (qcowPwritev z) .wrErr length b'
          (tcmuSeekInIovec iov ret.toNat).1 0 (x + ret.toNat))
          (fun r k'' => r = (.ok, b') ∧ k'' = k') k' := by
        cases length with
        | zero => exact does_pure ⟨rfl, rfl⟩
        | succ length => exact does_pure ⟨rfl, rfl⟩
      refine Does.mono hend ?_
      rintro _ _ ⟨rfl, rfl⟩
      exact ⟨hbacking, Or.inl rfl, hresult⟩

/-- **What a write leaves alone** if no transfer falls short, whether allocations are refused or
not: other files, the memory, and what the image has of clusters without a byte of the request. If
it succeeds, the bytes of the request are in the image. -/
theorem qcow_write_frame (hs : Sound z hdr b.state (k.files b.state.fd)) (hx : 512 ∣ x)
    (htotal : 512 ∣ iovTotal iov) (hin : x + iovTotal iov ≤ b.state.size)
    (hlt : iovTotal iov < 2 ^ 63) :
    Does m (qcowWrite (qcowOps z back) b iov (iovTotal iov) x) (fun r k' =>
      Sound z hdr r.2.state (k'.files b.state.fd) ∧ k'.mem = k.mem ∧
      (∀ fd ≠ b.state.fd, k'.files fd = k.files fd) ∧
      (r.1 = .ok → ∀ i < iovTotal iov,
        imageLayer z r.2.state.toQcowTables (k'.files b.state.fd) (x + i) =
          some ((gather iov k.mem).getD i 0)) ∧
      ∀ y < b.state.size, ¬Layer.Touches b.state.clusterSize x (iovTotal iov) y →
        imageLayer z r.2.state.toQcowTables (k'.files b.state.fd) y =
          imageLayer z b.state.toQcowTables (k.files b.state.fd) y) k := by
  refine (does_qcowWrite hs hx htotal hin hlt).mono ?_
  rintro ⟨sts, b'⟩ k' ⟨-, -, ⟨file', rfl⟩, hsound, -, d, hd, -, hwritten, hend⟩
  dsimp only at hend ⊢
  have hlen : ((gather iov k.mem).take d).length = d := List.length_take_of_le hd
  rw [length_gather] at hd hend
  refine ⟨hsound, rfl, fun fd hfd => Kernel.files_write_of_ne hfd, fun hok i hi => ?_,
    fun y hy hno => ?_⟩
  · have hall : d = iovTotal iov := by
      rcases hend with ⟨hall, -⟩ | ⟨hnot, -⟩
      · exact hall
      · exact absurd hok hnot
    have htake : (gather iov k.mem).take d = gather iov k.mem :=
      List.take_of_length_le (by rw [length_gather, hall])
    rw [htake] at hwritten
    have hin' : x + i < x + (gather iov k.mem).length := by
      rw [length_gather]
      exact Nat.add_lt_add_left hi x
    rw [hwritten.layer (x + i) (by omega) fun _ _ => ⟨Nat.le_add_right x i, hin'⟩,
      Layer.put_of_mem (Nat.le_add_right x i) hin', Nat.add_sub_cancel_left]
  · have hno' : ¬Layer.Touches b.state.clusterSize x ((gather iov k.mem).take d).length y := by
      rw [hlen]
      rintro ⟨i, hi, heq⟩
      exact hno ⟨i, hi.trans_le hd, heq⟩
    rw [hwritten.layer y hy fun _ htouch => absurd htouch hno', Layer.put_of_not_touches hno']

theorem qcow_write_frame_small : Does ⟨true, true⟩
    (qcowWrite (qcowOps (fun _ _ => (false, [])) (bdevOps (fun _ _ => (false, [])) 0)) smallImage
      [⟨100, 512⟩, ⟨900, 512⟩] 1024 512)
    (fun r k' => k'.files 4 = List.replicate 32768 7 ∧ (r.1 = .ok → ∀ i < 1024,
      imageLayer (fun _ _ => (false, [])) r.2.state.toQcowTables (k'.files smallState.fd)
        (512 + i) = some ((gather [⟨100, 512⟩, ⟨900, 512⟩] smallFiles.mem).getD i 0)))
    smallFiles := by
  have hs : Sound (fun _ _ => (false, [])) 104 smallImage.state
      (smallFiles.files smallImage.state.fd) := (good_smallImage _).1
  have hin : 512 + 1024 ≤ smallImage.state.size := by
    change 512 + 1024 ≤ smallState.size
    rw [smallState_size]
    decide
  refine Does.mono (qcow_write_frame hs (by decide) (by decide) hin (by decide)) ?_
  rintro r k' ⟨-, -, hfiles, hok, -⟩
  refine ⟨hfiles 4 ?_, hok⟩
  change 4 ≠ smallState.fd
  rw [smallState_fd]
  decide

end Handler

end Tcmu

end LioProject
