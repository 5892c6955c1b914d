import LioProject.Tcmu.QcowWrite

/-!
# QCOW images: requests

A device serves one request after the other (`qcowServe`). What the initiator may rely on is said by
a store (`Serves`): a read that succeeds gives what the store has, and a write puts some first part
of its data into the store, and all of it if it succeeds.

An image without clusters of zeros serves requests as the layer does that it is (`qcow_serves`),
over whatever chain of backing images. An image without a backing image serves them as a disk does
(`bdev_serves_disk`). With room and reads that do not fail, every request succeeds if the image is
one of QCOW2.

All this is about requests whose transfers are not cut short (`QcowRequest.Proper`): after a
`pwritev` that has written less than it should, `qcow_pwritev` goes on as if it had written it all.
And it is about runs that come to their end: `qcowServe` has no result if a request ends in a fault.
-/

namespace LioProject

namespace Tcmu

/-! ### Requests and stores -/

/-- A request, with the memory as it is when it comes, and what the environment does with its
system calls. -/
structure QcowRequest where
  write : Bool
  iov : List Iovec
  offset : ℕ
  mem : Mem
  env : Prog.Env FileOp FileAns

/-- The status of a request, and the memory afterwards. -/
structure QcowReply where
  sts : TcmuSts
  mem : Mem

/-- A request is for whole sectors of the disk, and the system calls do what they should. -/
structure QcowRequest.Proper (m : Calls) (size : ℕ) (req : QcowRequest) : Prop where
  offset : 512 ∣ req.offset
  total : 512 ∣ iovTotal req.iov
  inside : req.offset + iovTotal req.iov ≤ size
  lt : iovTotal req.iov < 2 ^ 63
  env : ∀ n o, m.Full o (req.env n o)

section Serve

variable {γ : Type} (ops : BdevOps γ)

/-- The function that is called for a request. -/
def qcowHandle (b : γ) (req : QcowRequest) : QcowProg (TcmuSts × γ) :=
  if req.write = true then qcowWrite ops b req.iov (iovTotal req.iov) req.offset
  else qcowRead ops b req.iov (iovTotal req.iov) req.offset

/-- The requests are served one after the other, as long as no function goes wrong altogether. -/
def qcowServe : γ → Kernel → List QcowRequest → Option (List QcowReply × γ × Kernel)
  | b, k, [] => some ([], b, k)
  | b, k, req :: reqs =>
    match (qcowHandle ops b req).exec kernelInterp req.env { k with mem := req.mem } with
    | some (.ok (sts, b'), k') =>
      (qcowServe b' k' reqs).map fun r => (⟨sts, k'.mem⟩ :: r.1, r.2)
    | _ => none

end Serve

/-- The requests are served by a store: `look` says what is there, and `put` writes. -/
inductive Serves {σ : Type} (look : σ → ℕ → UInt8) (put : σ → ℕ → List UInt8 → σ) :
    σ → List QcowRequest → List QcowReply → σ → Prop
  | nil (s : σ) : Serves look put s [] [] s
  | read {s s' : σ} {req : QcowRequest} {reply : QcowReply} {reqs : List QcowRequest}
    {replies : List QcowReply} (hreq : req.write = false)
    (hreply : reply.sts = .ok → reply.mem =
      scatter req.mem req.iov (diskBytes (look s) req.offset (iovTotal req.iov)))
    (h : Serves look put s reqs replies s') :
    Serves look put s (req :: reqs) (reply :: replies) s'
  | write {s s' : σ} {req : QcowRequest} {reply : QcowReply} {reqs : List QcowRequest}
    {replies : List QcowReply} {d : ℕ} (hreq : req.write = true) (hd : d ≤ iovTotal req.iov)
    (hreply : reply.sts = .ok → d = iovTotal req.iov)
    (h : Serves look put (put s req.offset ((gather req.iov req.mem).take d)) reqs replies s') :
    Serves look put s (req :: reqs) (reply :: replies) s'

section Stores

variable {σ τ : Type} {look : σ → ℕ → UInt8} {put : σ → ℕ → List UInt8 → σ}
  {look' : τ → ℕ → UInt8} {put' : τ → ℕ → List UInt8 → τ} {R : σ → τ → Prop} {size : ℕ}
  {s s' : σ} {t : τ} {reqs : List QcowRequest} {replies : List QcowReply}

/-- **One store may stand for another** if they look the same and stay related. -/
theorem Serves.simulate (hlook : ∀ {s t}, R s t → ∀ x < size, look s x = look' t x)
    (hput : ∀ {s t x bs}, R s t → R (put s x bs) (put' t x bs))
    (h : Serves look put s reqs replies s')
    (hreqs : ∀ req ∈ reqs, req.offset + iovTotal req.iov ≤ size) (hR : R s t) :
    ∃ t', Serves look' put' t reqs replies t' ∧ R s' t' := by
  induction h generalizing t with
  | nil s => exact ⟨t, .nil t, hR⟩
  | @read s s' req reply reqs replies hreq hreply h ih =>
    obtain ⟨t', ht', hR'⟩ := ih (fun req hmem => hreqs req (List.mem_cons_of_mem _ hmem)) hR
    refine ⟨t', .read hreq (fun hok => ?_) ht', hR'⟩
    have hin := hreqs req (List.mem_cons_self ..)
    rw [hreply hok, diskBytes_congr fun i hi => hlook hR _ (by omega)]
  | write hreq hd hreply h ih =>
    obtain ⟨t', ht', hR'⟩ := ih (fun req hmem => hreqs req (List.mem_cons_of_mem _ hmem)) (hput hR)
    exact ⟨t', .write hreq hd hreply ht', hR'⟩

end Stores

/-! ### Images -/

section Images

variable {β : Type} {z : Inflate} {hdr : ℕ} {m : Calls} {back : BdevOps β} {v : ImageView β}
  {b b' : QcowImage β} {k k' : Kernel} {req : QcowRequest} {reqs : List QcowRequest}
  {replies : List QcowReply}

/-- No cluster of the disk is one of zeros. -/
def NoZeros (t : QcowTables) (file : List UInt8) : Prop := ∀ y < t.size, ¬InZeros t file y

/-- What holds of an image while requests are served. -/
structure Serving (z : Inflate) (hdr : ℕ) (v : ImageView β) (b : QcowImage β) (k : Kernel) :
    Prop where
  good : (qcowView z hdr v).good b k
  noZeros : NoZeros b.state.toQcowTables (k.files b.state.fd)

/-- What stays when a request is served. -/
structure SameImage (z : Inflate) (hdr : ℕ) (m : Calls) (v : ImageView β) (b : QcowImage β)
    (k : Kernel) (b' : QcowImage β) (k' : Kernel) : Prop where
  kept : ImageKept z hdr m (fun _ _ => False) b.state
    (k.files b.state.fd) b'.state (k'.files b.state.fd)
  back : v.backByte b'.backing k' = v.backByte b.backing k
  files : ∀ fd ≠ b.state.fd, k'.files fd = k.files fd

/-- The layer that an image is, as far as the disk goes. -/
def LayerIs (z : Inflate) (b : QcowImage β) (k : Kernel) (l : ℕ → Option UInt8) : Prop :=
  ∀ y < b.state.size, imageLayer z b.state.toQcowTables (k.files b.state.fd) y = l y

/-- What serving a request does to the layer, and what is replied. -/
def HandleEffect (z : Inflate) (v : ImageView β) (b : QcowImage β) (k : Kernel)
    (req : QcowRequest) (sts : TcmuSts) (b' : QcowImage β) (k' : Kernel) : Prop :=
  ∀ l, LayerIs z b k l →
    if req.write = true then
      ∃ d ≤ iovTotal req.iov, (sts = .ok → d = iovTotal req.iov) ∧ LayerIs z b' k'
        (Layer.put b.state.clusterSize 0 l req.offset ((gather req.iov req.mem).take d))
    else
      LayerIs z b' k' l ∧ (sts = .ok → k'.mem = scatter req.mem req.iov
        (diskBytes (Layer.seen l (v.backByte b.backing k)) req.offset (iovTotal req.iov)))

/-- What is known after a request has been served. -/
structure Handled (z : Inflate) (hdr : ℕ) (m : Calls) (v : ImageView β) (b : QcowImage β)
    (k : Kernel) (req : QcowRequest) (sts : TcmuSts) (b' : QcowImage β) (k' : Kernel) : Prop where
  serving : Serving z hdr v b' k'
  same : SameImage z hdr m v b k b' k'
  ok : m.reads = true → m.room = true → b.state.version = .qcow2 → sts = .ok
  effect : HandleEffect z v b k req sts b' k'

/-- Two tables that are the same are those of the same image, but for caches. -/
theorem ImageKept.of_toQcowTables {hdr : ℕ} {P : ℕ → ℕ → Prop} {s s' : QcowState}
    {file : List UInt8} (h : s'.toQcowTables = s.toQcowTables) :
    ImageKept z hdr m P s file s' file := by
  refine .of_tables ⟨s'.l2Cache, s'.clusterCache, s'.clusterCacheOffset, s'.rcCache,
    s'.firstFreeCluster, ?_⟩
  rw [← h]

/-- **A read is served** by the layer. -/
theorem does_handleRead (hv : ReadsAs m back v) (hs : Serving z hdr v b k)
    (hreq : req.Proper m b.state.size) (hread : req.write = false) :
    Does m (qcowHandle (qcowOps z back) b req)
      (fun r k' => Handled z hdr m v b k req r.1 r.2 k') { k with mem := req.mem } := by
  have hsame : (qcowView z hdr v).Same b k b { k with mem := req.mem } :=
    (qcow_readsAs hv).stable hs.good fun _ _ => rfl
  rw [qcowHandle, if_neg (by rw [hread]; exact Bool.noConfusion)]
  refine (does_qcowRead hv hsame.good hreq.offset hreq.total hreq.inside hreq.lt).mono ?_
  rintro ⟨sts, b'⟩ k' ⟨hfiles, hsame', hresult⟩
  have hboth := hsame.trans hsame'
  have htables : b'.state.toQcowTables = b.state.toQcowTables := (List.cons.inj hboth.tables).1
  have hfile : k'.files b'.state.fd = k.files b.state.fd := by
    rw [htables]
    exact congrFun hfiles _
  have hlayer : ∀ {l}, LayerIs z b k l → LayerIs z b' k' l := by
    intro l hl y hy
    rw [hfile, htables]
    rw [htables] at hy
    exact hl y hy
  refine ⟨⟨hboth.good, ?_⟩, ⟨?_, hboth.behind, fun fd _ => congrFun hfiles fd⟩,
    fun hreads _ _ => ?_, fun l hl => ?_⟩
  · rw [hfile, htables]
    exact hs.noZeros
  · rw [congrFun hfiles b.state.fd]
    exact .of_toQcowTables htables
  · rcases hresult with ⟨hok, -⟩ | ⟨-, hno, -⟩
    · exact hok
    · rw [hreads] at hno
      cases hno
  · rw [if_neg (by rw [hread]; exact Bool.noConfusion)]
    refine ⟨hlayer hl, fun hok => ?_⟩
    rcases hresult with ⟨-, hmem⟩ | ⟨herr, -, -⟩
    · rw [hmem]
      have hdisk : (qcowView z hdr v).byte b { k with mem := req.mem } =
          (qcowView z hdr v).byte b k :=
        hsame.byte
      rw [hdisk]
      refine congrArg _ (diskBytes_congr fun i hi => ?_).symm
      have hin := hreq.inside
      change _ = diskByte z b.state.toQcowTables (k.files b.state.fd) (v.backByte b.backing k) _
      rw [diskByte_eq_seen, Layer.seen, Layer.seen, hl _ (by omega)]
    · rw [herr] at hok
      cases hok

/-- The backing image does not notice a write. -/
theorem Serving.backing_same (hv : ReadsAs m back v) (hs : Serving z hdr v b k)
    (honly : k.Only b.state.fd k') {image : β} (h : b.backing = some image) :
    v.Same image k image k' := by
  obtain ⟨hgood, hother, -⟩ := hs.good.2 image h
  refine hv.stable hgood fun fd hfd => ?_
  obtain ⟨file', rfl⟩ := honly
  exact Kernel.files_write_of_ne fun heq => hother (heq ▸ hfd)

/-- **A write is served** by the layer. -/
theorem does_handleWrite (hv : ReadsAs m back v) (hs : Serving z hdr v b k)
    (hreq : req.Proper m b.state.size) (hwrite : req.write = true) :
    Does m (qcowHandle (qcowOps z back) b req)
      (fun r k' => Handled z hdr m v b k req r.1 r.2 k') { k with mem := req.mem } := by
  have hsame₀ : (qcowView z hdr v).Same b k b { k with mem := req.mem } :=
    (qcow_readsAs hv).stable hs.good fun _ _ => rfl
  have hs₀ : Serving z hdr v b { k with mem := req.mem } := ⟨hsame₀.good, hs.noZeros⟩
  rw [qcowHandle, if_pos hwrite]
  refine (does_qcowWrite hs₀.good.1 hreq.offset hreq.total hreq.inside hreq.lt).mono ?_
  rintro ⟨sts, ⟨s', backing'⟩⟩ k' ⟨hbacking, hsts, honly, hsound, hkept, d, hd, -, hwritten, hend⟩
  dsimp only at hbacking hsts honly hsound hkept hwritten hend
  subst hbacking
  have hgeom := hkept.geometry
  have hsame : ∀ {image}, b.backing = some image →
      v.Same image { k with mem := req.mem } image k' := fun h => hs₀.backing_same hv honly h
  rw [length_gather] at hd hend
  have hback : v.backByte b.backing k' = v.backByte b.backing k := by
    refine Eq.trans ?_ hsame₀.behind
    change v.backByte b.backing k' = v.backByte b.backing { k with mem := req.mem }
    cases hb : b.backing with
    | none => rfl
    | some image => exact (hsame hb).byte
  have hclean : ∀ {y}, y < b.state.size → ∀ {P : Prop},
      InZeros b.state.toQcowTables (k.files b.state.fd) y → P :=
    fun hy _ hz => (hs.noZeros _ hy hz).elim
  refine ⟨⟨⟨?_, fun image himage => ?_⟩, fun y hy hz => ?_⟩, ⟨hkept, hback, fun fd hfd => ?_⟩,
    fun _ hroom hv2 => ?_, fun l hl => ?_⟩
  · change Sound z hdr s' (k'.files s'.fd)
    rw [hgeom.fd]
    exact hsound
  · obtain ⟨-, hother, hsize⟩ := hs₀.good.2 image himage
    refine ⟨(hsame himage).good, ?_, ?_⟩
    · change ¬v.uses image s'.fd
      rw [hgeom.fd]
      exact hother
    · change s'.size ≤ _
      rw [(hsame himage).size, hgeom.size]
      exact hsize
  · change InZeros s'.toQcowTables (k'.files s'.fd) y at hz
    rw [hgeom.fd] at hz
    have hy' : y < b.state.size := hgeom.size ▸ hy
    exact hclean hy' (hwritten.zeros y hy' hz).1
  · obtain ⟨file', rfl⟩ := honly
    exact Kernel.files_write_of_ne hfd
  · rcases hend with ⟨-, hok⟩ | ⟨-, hdeclined⟩
    · exact hok
    · cases hv2.symm.trans (hdeclined hroom).1
  · rw [if_pos hwrite]
    refine ⟨d, hd, fun hok => ?_, fun y hy => ?_⟩
    · rcases hend with ⟨hall, -⟩ | ⟨hno, -⟩
      · exact hall
      · exact absurd hok hno
    · have hy' : y < b.state.size := hgeom.size ▸ hy
      change imageLayer z s'.toQcowTables (k'.files s'.fd) y = _
      rw [hgeom.fd, hwritten.layer y hy' fun hz => hclean hy' hz, Layer.put_congr (hl y hy')]

/-- **A request is served** by the layer. -/
theorem does_qcowHandle (hv : ReadsAs m back v) (hs : Serving z hdr v b k)
    (hreq : req.Proper m b.state.size) :
    Does m (qcowHandle (qcowOps z back) b req)
      (fun r k' => Handled z hdr m v b k req r.1 r.2 k') { k with mem := req.mem } := by
  cases hwrite : req.write with
  | false => exact does_handleRead hv hs hreq hwrite
  | true => exact does_handleWrite hv hs hreq hwrite

theorem SameImage.refl (z : Inflate) (hdr : ℕ) (m : Calls) (v : ImageView β) (b : QcowImage β)
    (k : Kernel) : SameImage z hdr m v b k b k :=
  ⟨.of_toQcowTables rfl, rfl, fun _ _ => rfl⟩

theorem SameImage.trans {b'' : QcowImage β} {k'' : Kernel} (h : SameImage z hdr m v b k b' k')
    (h' : SameImage z hdr m v b' k' b'' k'') : SameImage z hdr m v b k b'' k'' := by
  have hgeom := h.kept.geometry
  obtain ⟨hkept, hback, hfiles⟩ := h'
  rw [hgeom.fd] at hkept hfiles
  exact ⟨h.kept.trans hkept, hback.trans h.back, fun fd hfd =>
    (hfiles fd hfd).trans (h.files fd hfd)⟩

/-- What is known after a run of requests, if the layer was `l` before. -/
structure Served (z : Inflate) (hdr : ℕ) (m : Calls) (v : ImageView β) (b : QcowImage β)
    (k : Kernel) (l : ℕ → Option UInt8) (reqs : List QcowRequest) (replies : List QcowReply)
    (b' : QcowImage β) (k' : Kernel) : Prop where
  serving : Serving z hdr v b' k'
  same : SameImage z hdr m v b k b' k'
  ok : m.reads = true → m.room = true → b.state.version = .qcow2 →
    ∀ reply ∈ replies, reply.sts = .ok
  serves : ∃ l', LayerIs z b' k' l' ∧ Serves (Layer.seen · (v.backByte b.backing k))
    (Layer.put b.state.clusterSize 0) l reqs replies l'

/-- One more request, before the others. -/
theorem Served.cons {b'' : QcowImage β} {k'' : Kernel} {sts : TcmuSts} {l : ℕ → Option UInt8}
    (hl : LayerIs z b k l) (h : Handled z hdr m v b k req sts b' k')
    (hrest : ∀ l', LayerIs z b' k' l' → Served z hdr m v b' k' l' reqs replies b'' k'') :
    Served z hdr m v b k l (req :: reqs) (⟨sts, k'.mem⟩ :: replies) b'' k'' := by
  have hgeom := h.same.kept.geometry
  have heffect := h.effect l hl
  obtain ⟨l', hl', hcons⟩ : ∃ l', LayerIs z b' k' l' ∧ ∀ {l''},
      Serves (Layer.seen · (v.backByte b.backing k)) (Layer.put b.state.clusterSize 0) l' reqs
        replies l'' →
      Serves (Layer.seen · (v.backByte b.backing k)) (Layer.put b.state.clusterSize 0) l
        (req :: reqs) (⟨sts, k'.mem⟩ :: replies) l'' := by
    split at heffect
    · rename_i hwrite
      obtain ⟨d, hd, hall, hl'⟩ := heffect
      exact ⟨_, hl', fun hserves => .write hwrite hd hall hserves⟩
    · rename_i hread
      obtain ⟨hl', hall⟩ := heffect
      exact ⟨l, hl', fun hserves => .read (Bool.eq_false_iff.mpr hread) hall hserves⟩
  obtain ⟨hserving, hsame, hok, l'', hl'', hserves⟩ := hrest l' hl'
  rw [h.same.back, hgeom.clusterSize] at hserves
  refine ⟨hserving, h.same.trans hsame, fun hreads hroom hv2 reply hmem => ?_, l'', hl'',
    hcons hserves⟩
  rcases List.mem_cons.mp hmem with rfl | hmem
  · exact h.ok hreads hroom hv2
  · exact hok hreads hroom (hgeom.version.trans hv2) reply hmem

/-- **Every run of requests** is served as by the layer that the image is. -/
theorem qcow_serves (hv : ReadsAs m back v) (hs : Serving z hdr v b k)
    (hreqs : ∀ req ∈ reqs, req.Proper m b.state.size)
    (h : qcowServe (qcowOps z back) b k reqs = some (replies, b', k')) {l : ℕ → Option UInt8}
    (hl : LayerIs z b k l) : Served z hdr m v b k l reqs replies b' k' := by
  induction reqs generalizing b k l replies with
  | nil =>
    obtain ⟨rfl, rfl, rfl⟩ : [] = replies ∧ b = b' ∧ k = k' := by
      simpa [qcowServe] using h
    exact ⟨hs, .refl .., fun _ _ _ => nofun, l, hl, .nil l⟩
  | cons req reqs ih =>
    rw [qcowServe] at h
    split at h
    case h_2 => cases h
    rename_i sts b₁ k₁ hexec
    obtain ⟨⟨replies, b₂, k₂⟩, hrest, heq⟩ := Option.map_eq_some_iff.mp h
    obtain ⟨rfl, rfl, rfl⟩ : ⟨sts, k₁.mem⟩ :: replies = _ ∧ b₂ = b' ∧ k₂ = k' := by
      simpa using heq
    have hproper := hreqs req (List.mem_cons_self ..)
    have hhandled : Handled z hdr m v b k req sts b₁ k₁ := by
      rcases Prog.exec_of_wp (does_qcowHandle hv hs hproper) hproper.env hexec with
        ⟨r, hr, hhandled⟩ | ⟨e, he, -⟩
      · obtain rfl := Except.ok.inj hr
        exact hhandled
      · cases he
    have hreqs' : ∀ req ∈ reqs, req.Proper m b₁.state.size := fun req' hmem =>
      hhandled.same.kept.geometry.size.symm ▸ hreqs req' (List.mem_cons_of_mem _ hmem)
    exact .cons hl hhandled fun l' hl' => ih hhandled.serving hreqs' hrest hl'

/-- **Without a backing image** the layer is a disk. -/
theorem Served.disk {l : ℕ → Option UInt8} (h : Served z hdr m v b k l reqs replies b' k')
    (hl : LayerIs z b k l) (hnone : b.backing = none)
    (hreqs : ∀ req ∈ reqs, req.offset + iovTotal req.iov ≤ b.state.size) :
    ∃ disk, Serves id (Layer.overwrite 0) ((qcowView z hdr v).byte b k) reqs replies disk ∧
      ∀ y < b.state.size, (qcowView z hdr v).byte b' k' y = disk y := by
  have hback : v.backByte b.backing k = fun _ => 0 := by
    rw [hnone]
    rfl
  have hseen : ∀ y, (qcowView z hdr v).byte b k y =
      Layer.seen (imageLayer z b.state.toQcowTables (k.files b.state.fd)) (fun _ => 0) y := by
    intro y
    rw [← hback, ← diskByte_eq_seen]
    rfl
  obtain ⟨l', hl', hserves⟩ := h.serves
  rw [hback] at hserves
  have hsimulate : ∃ disk, Serves id (Layer.overwrite 0) ((qcowView z hdr v).byte b k) reqs
      replies disk ∧ ∀ y < b.state.size, Layer.seen l' (fun _ => 0) y = disk y := by
    refine hserves.simulate
      (R := fun l (disk : ℕ → UInt8) => ∀ y < b.state.size, Layer.seen l (fun _ => 0) y = disk y)
      (fun hR => hR) (fun hR y hy => ?_) hreqs fun y hy => ?_
    · rw [Layer.seen_put, Layer.overwrite, Layer.overwrite, hR y hy]
    · rw [hseen, Layer.seen, Layer.seen, hl y hy]
  obtain ⟨disk, hdisk, hR⟩ := hsimulate
  refine ⟨disk, hdisk, fun y hy => ?_⟩
  have hy' : y < b'.state.size := h.same.kept.geometry.size.symm ▸ hy
  rw [← hR y hy]
  change diskByte z b'.state.toQcowTables (k'.files b'.state.fd) (v.backByte b'.backing k') y = _
  rw [diskByte_eq_seen, h.same.back, hback, Layer.seen, Layer.seen, hl' y hy']

/-- Answers of an environment in which the calls do what they should. -/
def fullAnswer : (o : FileOp) → FileAns o
  | .pread _ n _ => some (List.replicate n 0)
  | .pwrite _ bytes _ => (bytes.length : ℤ)
  | .preadv _ iov _ => (iovTotal iov : ℤ)
  | .pwritev _ iov _ => (iovTotal iov : ℤ)
  | .seekEnd _ => some 0
  | .ftruncate .. | .zeroRange .. | .malloc => true
  | .memset .. | .memcpy .. => ()

theorem full_fullAnswer (m : Calls) (o : FileOp) : m.Full o (fullAnswer o) := by
  cases o with
  | pread fd n offset => exact ⟨_, rfl, List.length_replicate.ge⟩
  | pwrite | pwritev => exact le_refl _
  | preadv => exact fun _ => le_refl _
  | seekEnd => exact Option.some_ne_none _
  | ftruncate | zeroRange | malloc => exact fun _ => rfl
  | memset | memcpy => trivial

/-- A write of a sector, and a read of it and of the one before. -/
def smallRequests : List QcowRequest :=
  [⟨true, [⟨100, 512⟩], 512, fun _ => 1, fun _ => fullAnswer⟩,
    ⟨false, [⟨100, 512⟩, ⟨900, 512⟩], 0, fun _ => 0, fun _ => fullAnswer⟩]

theorem proper_smallRequests : ∀ req ∈ smallRequests, req.Proper ⟨true, true⟩ smallState.size := by
  rw [smallState_size]
  intro req hmem
  rcases List.mem_cons.mp hmem with rfl | hmem
  · exact ⟨by decide, by decide, by decide, by decide, fun _ => full_fullAnswer _⟩
  · obtain rfl := List.mem_singleton.mp hmem
    exact ⟨by decide, by decide, by decide, by decide, fun _ => full_fullAnswer _⟩

theorem noZeros_small : NoZeros smallState.toQcowTables smallFile := by
  intro y hy hz
  obtain ⟨-, hi⟩ := l1Index_eq tablesSound_small (hy.trans_le tablesSound_small.size_le)
  cases (mapping_smallFile hi).symm.trans hz

theorem noZeros_smallFiles :
    NoZeros smallState.toQcowTables (smallFiles.files smallState.fd) :=
  smallFiles_smallState ▸ noZeros_small

/-- **Every run of requests** is served as by the layer that the image is, over any chain of backing
images. -/
theorem bdev_serves (n : ℕ) (hdr : ℕ → ℕ) {b b' : QcowImage (Bdev n)}
    (hs : Serving z (hdr n) (bdevView z hdr n) b k)
    (hreqs : ∀ req ∈ reqs, req.Proper m b.state.size)
    (h : qcowServe (qcowOps z (bdevOps z n)) b k reqs = some (replies, b', k')) :
    Served z (hdr n) m (bdevView z hdr n) b k
      (imageLayer z b.state.toQcowTables (k.files b.state.fd)) reqs replies b' k' :=
  qcow_serves (bdev_readsAs z hdr m n) hs hreqs h fun _ _ => rfl

theorem bdev_serves_small : ∃ replies b' k',
    Served (fun _ _ => (false, [])) 104 ⟨true, true⟩
      (bdevView (fun _ _ => (false, [])) (fun _ => 104) 0) smallImage smallFiles
      (imageLayer (fun _ _ => (false, [])) smallState.toQcowTables
        (smallFiles.files smallState.fd)) smallRequests
      replies b' k' := by
  have hsome : (qcowServe (qcowOps (fun _ _ => (false, [])) (bdevOps (fun _ _ => (false, [])) 0))
      smallImage smallFiles smallRequests).isSome = true := by
    decide +kernel
  obtain ⟨⟨replies, b', k'⟩, h⟩ := Option.isSome_iff_exists.mp hsome
  have hs : Serving (fun _ _ => (false, [])) 104
      (bdevView (fun _ _ => (false, [])) (fun _ => 104) 0) smallImage smallFiles :=
    ⟨good_smallImage _, noZeros_smallFiles⟩
  exact ⟨replies, b', k', bdev_serves 0 (fun _ => 104) hs proper_smallRequests h⟩

/-- **An image without a backing image is a disk**, over every run of requests. -/
theorem bdev_serves_disk (n : ℕ) (hdr : ℕ → ℕ) {b b' : QcowImage (Bdev n)}
    (hs : Serving z (hdr n) (bdevView z hdr n) b k) (hnone : b.backing = none)
    (hreqs : ∀ req ∈ reqs, req.Proper m b.state.size)
    (h : qcowServe (qcowOps z (bdevOps z n)) b k reqs = some (replies, b', k')) :
    ∃ disk, Serves id (Layer.overwrite 0) ((qcowView z (hdr n) (bdevView z hdr n)).byte b k) reqs
        replies disk ∧
      ∀ y < b.state.size, (qcowView z (hdr n) (bdevView z hdr n)).byte b' k' y = disk y :=
  (qcow_serves (bdev_readsAs z hdr m n) hs hreqs h fun _ _ => rfl).disk (fun _ _ => rfl) hnone
    fun req hmem => (hreqs req hmem).inside

theorem bdev_serves_disk_small : ∃ replies disk,
    Serves id (Layer.overwrite 0) ((qcowView (fun _ _ => (false, [])) 104
      (bdevView (fun _ _ => (false, [])) (fun _ => 104) 0)).byte ⟨smallState, none⟩ smallFiles)
      smallRequests replies disk := by
  have hsome : (qcowServe (qcowOps (fun _ _ => (false, [])) (bdevOps (fun _ _ => (false, [])) 0))
      ⟨smallState, none⟩ smallFiles smallRequests).isSome = true := by
    decide +kernel
  obtain ⟨⟨replies, b', k'⟩, h⟩ := Option.isSome_iff_exists.mp hsome
  have hs : Serving (fun _ _ => (false, [])) 104
      (bdevView (fun _ _ => (false, [])) (fun _ => 104) 0) ⟨smallState, none⟩ smallFiles :=
    ⟨⟨smallFiles_smallState ▸ sound_small _, nofun⟩, noZeros_smallFiles⟩
  obtain ⟨disk, hserves, -⟩ := bdev_serves_disk 0 (fun _ => 104) hs rfl proper_smallRequests h
  exact ⟨replies, disk, hserves⟩

/-- **A write to a disk with a backing image** is one to a disk where all that comes into the image
with it, and is not written, was in the image or is zero in the backing image, and only there. -/
theorem bdev_write_disk_iff (n : ℕ) (hdr : ℕ → ℕ) {b : QcowImage (Bdev n)}
    (hs : Serving z (hdr n) (bdevView z hdr n) b k) (hreq : req.Proper m b.state.size)
    (hwrite : req.write = true) :
    Does m (qcowHandle (qcowOps z (bdevOps z n)) b req)
      (fun r k' => r.1 = .ok → ∀ y < b.state.size,
        ((qcowView z (hdr n) (bdevView z hdr n)).byte r.2 k' y =
            Layer.overwrite 0 ((qcowView z (hdr n) (bdevView z hdr n)).byte b k) req.offset
              (gather req.iov req.mem) y ↔
          (¬(req.offset ≤ y ∧ y < req.offset + iovTotal req.iov) →
            Layer.Touches b.state.clusterSize req.offset (iovTotal req.iov) y →
            imageLayer z b.state.toQcowTables (k.files b.state.fd) y = none →
            (bdevView z hdr n).backByte b.backing k y = 0))) { k with mem := req.mem } := by
  refine (does_qcowHandle (bdev_readsAs z hdr m n) hs hreq).mono ?_
  rintro ⟨sts, b'⟩ k' h hok y hy
  dsimp only at h hok ⊢
  have heffect := h.effect _ fun _ _ => rfl
  rw [if_pos hwrite] at heffect
  obtain ⟨d, -, hall, hl⟩ := heffect
  have hy' : y < b'.state.size := h.same.kept.geometry.size.symm ▸ hy
  have htake : (gather req.iov req.mem).take d = gather req.iov req.mem :=
    List.take_of_length_le (by rw [length_gather, hall hok])
  rw [htake] at hl
  have hiff : Layer.seen (Layer.put b.state.clusterSize 0 _ req.offset (gather req.iov req.mem))
      ((bdevView z hdr n).backByte b.backing k) y = Layer.overwrite 0 (Layer.seen
        (imageLayer z b.state.toQcowTables (k.files b.state.fd))
        ((bdevView z hdr n).backByte b.backing k))
        req.offset (gather req.iov req.mem) y ↔ _ := Layer.seen_put_iff
  rw [length_gather, ← diskByte_eq_seen] at hiff
  rw [← hiff]
  change diskByte z b'.state.toQcowTables (k'.files b'.state.fd)
      ((bdevView z hdr n).backByte b'.backing k') y = _ ↔
    _ = Layer.overwrite 0 (diskByte z b.state.toQcowTables _
      ((bdevView z hdr n).backByte b.backing k)) _ _ y
  rw [diskByte_eq_seen, h.same.back, Layer.seen, hl y hy', Layer.seen]
  exact Iff.rfl

/-- A sector is written to the smallest image, over a file of sevens. -/
theorem bdev_write_disk_iff_small : Does ⟨true, true⟩
    (qcowHandle (qcowOps (fun _ _ => (false, [])) (bdevOps (fun _ _ => (false, [])) 0)) smallImage
      ⟨true, [⟨100, 512⟩], 512, fun _ => 1, fun _ => fullAnswer⟩)
    (fun r k' => r.1 = .ok →
      (qcowView (fun _ _ => (false, [])) 104
        (bdevView (fun _ _ => (false, [])) (fun _ => 104) 0)).byte r.2 k' 600 =
        Layer.overwrite 0 ((qcowView (fun _ _ => (false, [])) 104
          (bdevView (fun _ _ => (false, [])) (fun _ => 104) 0)).byte smallImage smallFiles) 512
          (gather [⟨100, 512⟩] fun _ => 1) 600) { smallFiles with mem := fun _ => 1 } := by
  have hs : Serving (fun _ _ => (false, [])) 104
      (bdevView (fun _ _ => (false, [])) (fun _ => 104) 0) smallImage smallFiles :=
    ⟨good_smallImage _, noZeros_smallFiles⟩
  have hproper := proper_smallRequests _ (List.mem_cons_self ..)
  refine Does.mono (bdev_write_disk_iff 0 (fun _ => 104) hs hproper rfl) ?_
  intro r k' h hok
  have hin : 600 < smallImage.state.size := by
    change 600 < smallState.size
    rw [smallState_size]
    decide
  exact (h hok 600 hin).mpr fun hout => absurd ⟨by decide, by decide⟩ hout

end Images

end Tcmu

end LioProject
