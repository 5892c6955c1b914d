import LioProject.Tcmu.CawSeek
import LioProject.Tcmu.Transfer

/-!
# Write and verify

`handle_write_verify` writes the Data-Out buffer, reads the range back into a buffer of its own and
compares. The handler of the device may leave both scatter lists in any way: what the command would
find in `cmd->iovec` and in the list of the read afterwards need not describe anything. The
comparison uses a copy of the one and the address of the other, both taken down before the write.

There is one write and one read. `Request.VerifyUnder` says what is known while each of them is
under way, and `write_verify_verifies` what the status of the command then says.
-/

namespace LioProject

namespace Tcmu

/-! ### What a log says about verifying -/

/-- A write was called back with success. -/
def Happening.wroteOk : Happening → Bool
  | .back (.write ..) _ .ok => true
  | _ => false

/-- The offset passed to `tcmu_set_sense_info`. -/
def Happening.senseInfo? : Happening → Option ℕ
  | .senseInfo info => some info
  | _ => none

/-- A write has succeeded. -/
def wroteOk (l : List Happening) : Bool := l.any Happening.wroteOk

/-- The offsets that have been reported. -/
def senseInfos (l : List Happening) : List ℕ := l.filterMap Happening.senseInfo?

/-- Two buffers of `n` bytes differ at `i`, and not before. -/
def FirstDiff (n : ℕ) (xs ys : List UInt8) (i : ℕ) : Prop :=
  i < n ∧ xs.getD i 0 ≠ ys.getD i 0 ∧ ∀ k < i, xs.getD k 0 = ys.getD k 0

instance (n : ℕ) (xs ys : List UInt8) (i : ℕ) : Decidable (FirstDiff n xs ys i) :=
  inferInstanceAs (Decidable (_ ∧ _ ∧ ∀ k < i, _))

/-! ### Comparing -/

section Compare

variable {mem : Mem} {a n : ℕ} {iov : List Iovec}

/-- What is reported is the first difference. -/
theorem cmpOffset_compare_some {o : ℕ} (h : n ≤ iovTotal iov) (hn : n < 2 ^ 32)
    (ho : cmpOffset (tcmuCompareWithIovec mem a iov n) = some o) :
    FirstDiff n (mem.load a n) ((gather iov mem).take n) o := by
  rw [tcmuCompareWithIovec_eq h] at ho
  obtain ⟨i, hfind, hi⟩ := Option.bind_eq_some_iff.mp ho
  obtain ⟨hne, hmem, hbefore⟩ := List.find?_range_eq_some.mp hfind
  have hlt : i < n := List.mem_range.mp hmem
  rw [Nat.mod_eq_of_lt (by omega), if_neg (by omega), Option.some.injEq] at hi
  subst hi
  have hload : ∀ k < n, (mem.load a n).getD k 0 = mem (a + k) := by
    intro k hk
    simp [Mem.load, hk]
  have htake : ∀ k < n, ((gather iov mem).take n).getD k 0 = (gather iov mem).getD k 0 := by
    intro k hk
    simp [hk]
  refine ⟨hlt, ?_, fun k hk => ?_⟩
  · rw [hload i hlt, htake i hlt]
    simpa using hne
  · rw [hload k (hk.trans hlt), htake k (hk.trans hlt)]
    simpa using hbefore k hk

end Compare

/-! ### Accepted commands -/

/-- The number of bytes of a `WRITE VERIFY`. -/
def Request.verifyBytes (c : Request) : ℕ := xferLengthOf c.cdb * c.dev.geo.blockSize

/-- A `WRITE VERIFY` that passes its checks, and whose byte count does not wrap. -/
structure Request.VerifyAccepted (c : Request) : Prop where
  /-- `check_lba_and_length`. -/
  check : checkLbaAndLength c.dev.geo c.cmd c.cdb (xferLengthOf c.cdb) = .ok
  /-- The byte count fits in a `uint32_t`. -/
  fits : c.verifyBytes < 2 ^ 32
  /-- There is something to write with. -/
  write : c.dev.handler.write = true
  /-- There is something to read with. -/
  read : c.dev.handler.read = true

/-- The Data-Out bytes. -/
def Request.dataOut (c : Request) (mem : Mem) : List UInt8 :=
  (gather c.cmd.iov mem).take c.verifyBytes

/-- The write is one of the Data-Out buffer, and the read is of as many bytes, at the same place. -/
def Callout.Verifies (c : Request) (mem : Mem) (co : Callout) (data : List UInt8) : Prop :=
  (co = .write c.dev c.cmd.cdb c.cmd.iov c.verifyBytes
      (c.dev.geo.blockSize * lbaOf c.cdb % 2 ^ 64) ∧ data = gather c.cmd.iov mem) ∨
    ∃ iov, co = .read c.dev c.cmd.cdb iov c.verifyBytes
      (c.dev.geo.blockSize * lbaOf c.cdb % 2 ^ 64)

/-- All that is called for is the write and the read. -/
def Happening.Verifies (c : Request) (mem : Mem) : Happening → Prop
  | .call co data _ => co.Verifies c mem data
  | .back co data _ => co.Verifies c mem data
  | _ => True

/-- What the status of a command that has ended says. -/
structure Request.VerifyEnded (c : Request) (mem : Mem) (l : List Happening) (sts : TcmuSts) :
    Prop where
  /-- It has been completed once. -/
  completed : completions l = [sts]
  /-- Success: the write and the read have succeeded, and what was read is the Data-Out buffer. -/
  ok_iff : sts = .ok ↔ wroteOk l = true ∧ readBacks l = [c.dataOut mem]
  /-- Something else was read: the status says so, and where. -/
  differs : ∀ data, readBacks l = [data] → data ≠ c.dataOut mem → sts = .miscompare ∧
    ∃ i, senseInfos l = [i] ∧ FirstDiff c.verifyBytes data (c.dataOut mem) i
  /-- What was called for. -/
  calls : ∀ x ∈ l, x.Verifies c mem

/-- As long as nothing has been read the command has not been completed. -/
structure Request.VerifyGoing (c : Request) (mem : Mem) (l : List Happening) : Prop where
  /-- What was called for. -/
  calls : ∀ x ∈ l, x.Verifies c mem
  /-- The command has not been completed. -/
  open_ : completions l = []
  /-- Nothing has been read. -/
  unread : readBacks l = []
  /-- No offset has been reported. -/
  silent : senseInfos l = []

/-- What is known while the write, or the read after it, is under way. The buffer of the read is
apart from the Data-Out buffer, which is what it was. -/
def Request.VerifyUnder (c : Request) (mem : Mem) : Under := fun _ j m _ l =>
  ∃ buf, c.Fresh buf c.verifyBytes ∧ gather c.cmd.iov m = gather c.cmd.iov mem ∧
    c.VerifyGoing mem l ∧
      (j = .verifyWrite ⟨c.verifyBytes, c.cmd.iov, buf⟩ ∧ backs l = 0 ∨
        j = .verifyRead ⟨c.verifyBytes, c.cmd.iov, buf⟩ ∧ backs l = 1 ∧ wroteOk l = true)

section Steps

variable {c : Request} {mem : Mem} {l l' : List Happening} {x : Happening}

@[simp] theorem senseInfos_append : senseInfos (l ++ l') = senseInfos l ++ senseInfos l' :=
  List.filterMap_append

@[simp] theorem wroteOk_append : wroteOk (l ++ l') = (wroteOk l || wroteOk l') := List.any_append

theorem Request.verifyGoing_nil (c : Request) (mem : Mem) : c.VerifyGoing mem [] :=
  ⟨fun _ hx => absurd hx (by simp), rfl, rfl, rfl⟩

theorem forall_mem_concat {P : Happening → Prop} (hl : ∀ y ∈ l, P y) (hx : P x) :
    ∀ y ∈ l ++ [x], P y :=
  List.forall_mem_append.mpr ⟨hl, List.forall_mem_singleton.mpr hx⟩

/-- Something has happened that is neither the read nor the completion. -/
theorem Request.VerifyGoing.concat (h : c.VerifyGoing mem l) (hx : x.Verifies c mem)
    (hstatus : x.status? = none) (hread : x.readBack? = none) (hinfo : x.senseInfo? = none) :
    c.VerifyGoing mem (l ++ [x]) := by
  refine ⟨forall_mem_concat h.calls hx, ?_, ?_, ?_⟩
  · have hnil : completions [x] = [] := List.filterMap_cons_none hstatus
    rw [completions_append, h.open_, hnil]
    rfl
  · have hnil : readBacks [x] = [] := List.filterMap_cons_none hread
    rw [readBacks_append, h.unread, hnil]
    rfl
  · have hnil : senseInfos [x] = [] := List.filterMap_cons_none hinfo
    rw [senseInfos_append, h.silent, hnil]
    rfl

/-- A command that is completed before anything is read has failed. -/
theorem Request.VerifyGoing.fails (h : c.VerifyGoing mem l) {sts : TcmuSts} (hsts : sts ≠ .ok) :
    c.VerifyEnded mem (l ++ [.complete sts]) sts := by
  have hread : readBacks (l ++ [.complete sts]) = [] := by
    rw [readBacks_append, h.unread]
    rfl
  refine ⟨?_, ⟨fun h => absurd h hsts, fun h => ?_⟩, fun data h => ?_,
    forall_mem_concat h.calls trivial⟩
  · rw [completions_append, h.open_]
    rfl
  · exact absurd (hread.symm.trans h.2) (by simp)
  · exact absurd (hread.symm.trans h) (by simp)

/-- The checks have seen to it that there are enough Data-Out bytes. -/
theorem Request.VerifyAccepted.le (hc : c.VerifyAccepted) : c.verifyBytes ≤ iovTotal c.cmd.iov := by
  have hlen := checkIovecLength_ok.mp (checkLbaAndLength_ok hc.check).1
  have hfits : xferLengthOf c.cdb * c.dev.geo.blockSize < 2 ^ 32 := hc.fits
  rw [Nat.mod_eq_of_lt hfits] at hlen
  rw [Request.verifyBytes, ← hlen]
  exact Nat.mod_le _ _

theorem Request.VerifyAccepted.length_eq (hc : c.VerifyAccepted) :
    tcmuIovecLength c.cmd.iov = c.verifyBytes := by
  have hlen := checkIovecLength_ok.mp (checkLbaAndLength_ok hc.check).1
  have hfits : xferLengthOf c.cdb * c.dev.geo.blockSize < 2 ^ 32 := hc.fits
  rw [tcmuIovecLength_eq, hlen, Nat.mod_eq_of_lt hfits]
  rfl

/-- The call for the write. -/
theorem verifies_write (hc : c.VerifyAccepted) {m : Mem}
    (hm : gather c.cmd.iov m = gather c.cmd.iov mem) (st : WriteVerify) :
    ((Job.verifyWrite st).callout c).Verifies c mem
      (gather ((Job.verifyWrite st).callout c).iov m) := by
  refine Or.inl ⟨?_, hm⟩
  rw [Job.callout, hc.length_eq]

/-- The call for the read. -/
theorem verifies_read (buf : ℕ) (data : List UInt8) :
    ((Job.verifyRead ⟨c.verifyBytes, c.cmd.iov, buf⟩).callout c).Verifies c mem data :=
  Or.inr ⟨_, rfl⟩

end Steps

/-! ### Programs -/

section Programs

variable {c : Request} {mem : Mem} {s : Xfer} {buf : ℕ}

/-- The command has ended, with some status. -/
def Request.VerifyDone (c : Request) (mem : Mem) (_ : Formatting) (l : List Happening) : Prop :=
  ∃ sts, c.VerifyEnded mem l sts

/-- The command fails. -/
theorem wp_verifyFails {ret : TcmuSts} (hret : ret ≠ .ok) (hjobs : s.jobs = [])
    (h : c.VerifyGoing mem s.log) :
    Prog.wp (xferInterp c) (fun _ _ => True) (fun _ _ => False) (aioCommandFinish ret)
      (fun _ t => t.Stands (c.VerifyUnder mem) (c.VerifyDone mem)) s :=
  wp_aioCommandFinish (Or.inr ⟨hjobs, ret, h.fails hret⟩)

/-- The next sub-command. -/
theorem wp_verifyNext {j : Job} {R : TcmuSts → Xfer → Prop} (hjobs : s.jobs = [])
    (hjob : j.isUnmap = false) (hdefined : (j.callout c).defined = true)
    (hunder : c.VerifyUnder mem false j s.mem s.formatting s.log)
    (hcall : (j.callout c).Verifies c mem (gather (j.callout c).iov s.mem))
    (hok : ∀ t : Xfer, t.Stands (c.VerifyUnder mem) (c.VerifyDone mem) → R .asyncHandled t)
    (hfail : ∀ (sts : TcmuSts) (t : Xfer), sts ≠ .ok → sts ≠ .asyncHandled → t.jobs = [] →
      c.VerifyGoing mem t.log → R sts t) :
    Prog.wp (xferInterp c) (fun _ _ => True) (fun _ _ => False) (asyncHandleCmd c j) R s := by
  obtain ⟨buf, hfresh, hgather, hgoing, hj⟩ := hunder
  have hcalled : ∀ accepted, c.VerifyGoing mem
      (s.log ++ [.call (j.callout c) (gather (j.callout c).iov s.mem) accepted]) :=
    fun accepted => hgoing.concat hcall rfl rfl rfl
  refine wp_next (Q := c.VerifyUnder mem) (E := c.VerifyDone mem) hjobs hjob hdefined
    ⟨buf, hfresh, hgather, hgoing, hj⟩ ⟨buf, hfresh, hgather, hcalled true, ?_⟩ hok ?_
  · rw [backs_call, wroteOk_append]
    exact hj.imp_right (And.imp_right (And.imp_right fun h => by rw [h, Bool.true_or]))
  · intro sts x t hsts hasync hx ht _ _ hlog
    refine hfail sts t hsts hasync ht ?_
    rw [hlog]
    rcases hx with rfl | rfl
    · exact hgoing.concat trivial rfl rfl rfl
    · exact hcalled false

/-- What was read is compared with the Data-Out bytes, and this is the end. -/
theorem Request.VerifyGoing.ended (buf : ℕ) (hc : c.VerifyAccepted) {l : List Happening} {m : Mem}
    (hgather : gather c.cmd.iov m = gather c.cmd.iov mem) (hgoing : c.VerifyGoing mem l)
    (hwrote : wroteOk l = true) {x : Happening} (hx : x.Verifies c mem)
    (hread : x.readBack? = some (m.load buf c.verifyBytes)) (hinfo : x.senseInfo? = none)
    (hstatus : x.status? = none) :
    match cmpOffset (tcmuCompareWithIovec m buf c.cmd.iov c.verifyBytes) with
    | none => c.VerifyEnded mem (l ++ [x] ++ [.complete .ok]) .ok
    | some o => c.VerifyEnded mem (l ++ [x] ++ [.senseInfo o] ++ [.complete .miscompare])
        .miscompare := by
  have hreads : readBacks [x] = [m.load buf c.verifyBytes] := List.filterMap_cons_some hread
  have hinfos : senseInfos [x] = [] := List.filterMap_cons_none hinfo
  have hopen : completions [x] = [] := List.filterMap_cons_none hstatus
  have hequal : cmpOffset (tcmuCompareWithIovec m buf c.cmd.iov c.verifyBytes) = none ↔
      m.load buf c.verifyBytes = c.dataOut mem := by
    rw [cmpOffset_compare_none hc.le hc.fits, hgather]
    rfl
  cases hcmp : cmpOffset (tcmuCompareWithIovec m buf c.cmd.iov c.verifyBytes) with
  | none =>
    have hdata := hequal.mp hcmp
    have hreads' : readBacks (l ++ [x] ++ [.complete .ok]) = [c.dataOut mem] := by
      rw [readBacks_append, readBacks_append, hgoing.unread, hreads, hdata]
      rfl
    refine ⟨?_, ⟨fun _ => ⟨?_, hreads'⟩, fun _ => rfl⟩, fun data h hne => ?_,
      forall_mem_concat (forall_mem_concat hgoing.calls hx) trivial⟩
    · rw [completions_append, completions_append, hgoing.open_, hopen]
      rfl
    · rw [wroteOk_append, wroteOk_append, hwrote]
      rfl
    · rw [hreads', List.singleton_inj] at h
      exact absurd h.symm hne
  | some o =>
    have hdiff := cmpOffset_compare_some hc.le hc.fits hcmp
    rw [hgather] at hdiff
    have hreads' : readBacks (l ++ [x] ++ [.senseInfo o] ++ [.complete .miscompare]) =
        [m.load buf c.verifyBytes] := by
      rw [readBacks_append, readBacks_append, readBacks_append, hgoing.unread, hreads]
      rfl
    have hne : m.load buf c.verifyBytes ≠ c.dataOut mem := by
      rw [Ne, ← hequal, hcmp]
      simp
    refine ⟨?_, ⟨fun h => absurd h (by simp), fun h => ?_⟩, fun data h _ => ⟨rfl, o, ?_, ?_⟩,
      forall_mem_concat (forall_mem_concat (forall_mem_concat hgoing.calls hx) trivial) trivial⟩
    · rw [completions_append, completions_append, completions_append, hgoing.open_, hopen]
      rfl
    · rw [hreads', List.singleton_inj] at h
      exact absurd h.2 hne
    · rw [senseInfos_append, senseInfos_append, senseInfos_append, hgoing.silent, hinfos]
      rfl
    · rw [hreads', List.singleton_inj] at h
      rw [← h]
      exact hdiff

/-- **The callback of the read** compares and completes the command. -/
theorem wp_handleWriteVerifyReadCbk (hc : c.VerifyAccepted) {l : List Happening} {ret : TcmuSts}
    {data : List UInt8} (hjobs : s.jobs = [])
    (hgather : gather c.cmd.iov s.mem = gather c.cmd.iov mem) (hgoing : c.VerifyGoing mem l)
    (hwrote : wroteOk l = true) (hdata : data = s.mem.load buf c.verifyBytes)
    (hlog : s.log = l ++
      [.back ((Job.verifyRead ⟨c.verifyBytes, c.cmd.iov, buf⟩).callout c) data ret]) :
    Prog.wp (xferInterp c) (fun _ _ => True) (fun _ _ => False)
      (handleWriteVerifyReadCbk ⟨c.verifyBytes, c.cmd.iov, buf⟩ ret)
      (fun _ t => t.Stands (c.VerifyUnder mem) (c.VerifyDone mem)) s := by
  subst hdata
  rw [handleWriteVerifyReadCbk]
  by_cases hret : ret = .ok
  · subst hret
    rw [if_neg (by simp)]
    intro a _ r t ht
    obtain ⟨rfl, rfl⟩ := Prod.mk.inj (Option.some.inj ht)
    have hended := hgoing.ended buf hc hgather hwrote (x := .back _ _ .ok)
      (verifies_read buf _) rfl rfl rfl
    change Prog.wp _ _ _ (match cmpOffset (tcmuCompareWithIovec s.mem buf c.cmd.iov c.verifyBytes)
      with
      | none => aioCommandFinish .ok
      | some offset => do
        ask (.senseInfo offset)
        aioCommandFinish .miscompare) _ _
    cases hcmp : cmpOffset (tcmuCompareWithIovec s.mem buf c.cmd.iov c.verifyBytes) with
    | none =>
      rw [hcmp] at hended
      refine wp_aioCommandFinish (Or.inr ⟨hjobs, .ok, ?_⟩)
      rw [Xfer.note, hlog]
      exact hended
    | some o =>
      rw [hcmp] at hended
      intro a _ r t ht
      obtain ⟨-, rfl⟩ := Prod.mk.inj (Option.some.inj ht)
      refine wp_aioCommandFinish (Or.inr ⟨hjobs, .miscompare, ?_⟩)
      rw [Xfer.note, Xfer.note, hlog]
      exact hended
  · rw [if_pos hret]
    refine wp_verifyFails hret hjobs ?_
    rw [hlog]
    refine hgoing.concat (verifies_read buf _) rfl ?_ rfl
    cases ret with
    | ok => exact absurd rfl hret
    | _ => rfl

/-- **The callback of the write** goes on to the read. -/
theorem wp_handleWriteVerifyWriteCbk (hc : c.VerifyAccepted) {l : List Happening} {ret : TcmuSts}
    {data : List UInt8} (hjobs : s.jobs = []) (hfresh : c.Fresh buf c.verifyBytes)
    (hgather : gather c.cmd.iov s.mem = gather c.cmd.iov mem) (hgoing : c.VerifyGoing mem l)
    (hbacks : backs l = 0)
    (hback : ((Job.verifyWrite ⟨c.verifyBytes, c.cmd.iov, buf⟩).callout c).Verifies c mem data)
    (hlog : s.log = l ++
      [.back ((Job.verifyWrite ⟨c.verifyBytes, c.cmd.iov, buf⟩).callout c) data ret]) :
    Prog.wp (xferInterp c) (fun _ _ => True) (fun _ _ => False)
      (handleWriteVerifyWriteCbk c ⟨c.verifyBytes, c.cmd.iov, buf⟩ ret)
      (fun _ t => t.Stands (c.VerifyUnder mem) (c.VerifyDone mem)) s := by
  have hgoing' : c.VerifyGoing mem s.log := by
    rw [hlog]
    exact hgoing.concat hback rfl rfl rfl
  rw [handleWriteVerifyWriteCbk]
  by_cases hret : ret = .ok
  · subst hret
    rw [if_neg (by simp)]
    refine Prog.wp_bind.mpr (wp_verifyNext hjobs rfl hc.read
      ⟨buf, hfresh, hgather, hgoing', Or.inr ⟨rfl, ?_, ?_⟩⟩ (verifies_read buf _)
      (fun t ht => ht) ?_)
    · rw [hlog, backs_back, hbacks]
    · rw [hlog, wroteOk_append]
      exact Bool.or_true _
    · intro sts t hsts hasync ht hgoing
      rw [finishUnlessAsync, if_neg hasync]
      exact wp_verifyFails hsts ht hgoing
  · rw [if_pos hret]
    exact wp_verifyFails hret hjobs hgoing'

/-- The state of the command, or no memory for it. -/
theorem wp_writeVerifyInit {R : Option WriteVerify → Xfer → Prop} (n : ℕ) (hleft : s.left = none)
    (hok : ∀ b, c.Fresh b n → R (some ⟨n, c.cmd.iov, b⟩)
      { s with mem := s.mem.store b (List.replicate n 0), subIov := [⟨b, n⟩] })
    (hfail : ∀ t : Xfer, t.jobs = s.jobs → t.log = s.log ++ [.nomem] → R none t) :
    Prog.wp (xferInterp c) (fun _ _ => True) (fun _ _ => False) (writeVerifyInit n) R s := by
  -- nobody has been given the list of the kernel yet
  have hiov : s.left.getD c.cmd.iov = c.cmd.iov := by
    rw [hleft]
    rfl
  rw [writeVerifyInit]
  refine Prog.wp_bind.mpr (wp_alloc ?_ (hfail _ rfl rfl))
  rw [if_neg (by simp)]
  refine Prog.wp_bind.mpr (wp_allocIovec (fun b hfresh => ?_) (hfail _ rfl rfl))
  refine Prog.wp_bind.mpr (wp_alloc ?_ (hfail _ rfl rfl))
  rw [if_neg (by simp)]
  refine Prog.wp_bind.mpr (wp_subIov (Prog.wp_bind.mpr (wp_alloc ?_ (hfail _ rfl rfl))))
  rw [if_neg (by simp)]
  refine Prog.wp_bind.mpr (wp_cmdIov ?_)
  rw [hiov]
  exact hok b hfresh

/-- **The handler.** -/
theorem wp_handleWriteVerify (hc : c.VerifyAccepted) (mem : Mem) (f : Formatting) :
    Prog.wp (xferInterp c) (fun _ _ => True) (fun _ _ => False) (answer (handleWriteVerify c))
      (fun _ t => t.Stands (c.VerifyUnder mem) (c.VerifyDone mem)) (Xfer.init mem f) := by
  have hnil := c.verifyGoing_nil mem
  have hbytes : xferLengthOf c.cdb * c.dev.geo.blockSize % 2 ^ 32 = c.verifyBytes :=
    Nat.mod_eq_of_lt hc.fits
  refine wp_answer ?_
  rw [handleWriteVerify, if_neg (by simp [hc.check]), hbytes]
  refine Prog.wp_bind.mpr (wp_writeVerifyInit _ rfl (fun b hfresh => ?_) fun t ht hlog => ?_)
  · have hgather : gather c.cmd.iov (mem.store b (List.replicate c.verifyBytes 0)) =
        gather c.cmd.iov mem := by
      refine gather_store_of_disjoint fun v hv => ?_
      rw [List.length_replicate]
      exact hfresh v hv
    refine wp_verifyNext rfl rfl hc.write ⟨b, hfresh, hgather, hnil, Or.inl ⟨rfl, rfl⟩⟩
      (verifies_write hc hgather _) (fun t ht => ⟨fun _ => ht, fun h => absurd rfl h⟩) ?_
    intro sts t hsts hasync hjobs hgoing
    exact ⟨fun h => absurd h hasync, fun _ => Or.inr ⟨hjobs, sts, hgoing.fails hsts⟩⟩
  · refine ⟨fun h => absurd h (by simp), fun _ => Or.inr ⟨ht, .noResource, ?_⟩⟩
    rw [Xfer.note, hlog]
    exact (hnil.concat (x := .nomem) trivial rfl rfl rfl).fails (by simp)

/-- What the handler of the device stores is in the buffer of the read. -/
theorem Request.Fresh.of_takes {a n : ℕ} {m : Mem} {bs : List UInt8}
    (hfresh : c.Fresh buf n) (htakes : (Callout.read c.dev c.cmd.cdb [⟨buf, n⟩] n
      (c.dev.geo.blockSize * lbaOf c.cdb % 2 ^ 64)).takes a bs.length = true) :
    gather c.cmd.iov (m.store a bs) = gather c.cmd.iov m := by
  have hin : buf ≤ a ∧ a + bs.length ≤ buf + n := by simpa [Callout.takes] using htakes
  refine gather_store_of_disjoint fun v hv => ?_
  have hdisjoint := hfresh v hv
  omega

/-- **Whole commands**: the write, and then the read. -/
theorem oneByOne_handleWriteVerify (hc : c.VerifyAccepted) (mem : Mem) (f : Formatting) :
    OneByOne c (handleWriteVerify c) mem f (c.VerifyUnder mem) (c.VerifyDone mem) := by
  refine ⟨wp_handleWriteVerify hc mem f, ?_, ?_, ?_, ?_⟩
  · rintro j m _ l ⟨buf, hfresh, hgather, hgoing, ⟨rfl, hbacks⟩ | ⟨rfl, hbacks, hwrote⟩⟩
    · refine ⟨rfl, hc.write, buf, hfresh, hgather, ?_, Or.inl ⟨rfl, ?_⟩⟩
      · exact hgoing.concat (verifies_write hc hgather _) rfl rfl rfl
      · rw [backs_call, hbacks]
    · refine ⟨rfl, hc.read, buf, hfresh, hgather, ?_, Or.inr ⟨rfl, ?_, ?_⟩⟩
      · exact hgoing.concat (verifies_read buf _) rfl rfl rfl
      · rw [backs_call, hbacks]
      · rw [wroteOk_append, hwrote, Bool.true_or]
  · rintro j e s l hjobs ⟨buf, hfresh, hgather, hgoing, ⟨rfl, hbacks⟩ | ⟨rfl, hbacks, hwrote⟩⟩ hlog
    · have hgoing' : c.VerifyGoing mem s.log := by
        rw [hlog]
        exact hgoing.concat (verifies_write hc hgather _) rfl rfl rfl
      rw [Job.done, handleWriteVerifyWriteCbk, if_pos e.ne_ok]
      exact wp_verifyFails e.ne_ok hjobs hgoing'
    · have hgoing' : c.VerifyGoing mem s.log := by
        rw [hlog]
        exact hgoing.concat (verifies_read buf _) rfl rfl rfl
      rw [Job.done, handleWriteVerifyReadCbk, if_pos e.ne_ok]
      exact wp_verifyFails e.ne_ok hjobs hgoing'
  · rintro j m _ l a bs ⟨buf, hfresh, hgather, hgoing, ⟨rfl, hbacks⟩ | ⟨rfl, hbacks, hwrote⟩⟩ htakes
    · exact absurd htakes (by simp [Job.callout, Callout.takes])
    · exact ⟨buf, hfresh, (hfresh.of_takes htakes).trans hgather, hgoing,
        Or.inr ⟨rfl, hbacks, hwrote⟩⟩
  · rintro j ret s l hjobs ⟨buf, hfresh, hgather, hgoing, ⟨rfl, hbacks⟩ | ⟨rfl, hbacks, hwrote⟩⟩
      hlog
    · exact wp_handleWriteVerifyWriteCbk hc hjobs hfresh hgather hgoing hbacks
        (verifies_write hc hgather _) hlog
    · refine wp_handleWriteVerifyReadCbk hc hjobs hgather hgoing hwrote ?_ hlog
      rw [Job.callout, Callout.iov, gather_cons]
      exact List.append_nil _

end Programs

/-! ### Main result -/

/-- A `WRITE VERIFY` verifies what was written. -/
structure Request.Verified (c : Request) (mem : Mem) (s : Xfer) : Prop where
  /-- The daemon is up. -/
  up : s.fault = none
  /-- The write, which comes first, is given the Data-Out buffer as the kernel has described it. -/
  given : (∀ x ∈ s.log, x.accepts = false) → s.left = none
  /-- While a sub-command is under way the command is not completed. -/
  under : s.jobs ≠ [] → s.jobs.length = 1 ∧ completions s.log = []
  /-- As long as nothing has failed the command can come to an end. -/
  ends : Clear s.log → ∃ es t, run (xferStep c (handleWriteVerify c)) s es = some t ∧
    t.begun = true ∧ t.jobs = [] ∧ Clear t.log
  /-- When it has ended, its status says whether the bytes are what they should be. -/
  ended : s.begun = true → s.jobs = [] → ∃ sts, c.VerifyEnded mem s.log sts

/-- **`WRITE VERIFY` verifies what was written.** An accepted command whose byte count does not wrap
ends with success if and only if its write and its read succeed and the bytes read back are the
Data-Out bytes. If they are not, the status says so, and the offset of the first difference is
reported. -/
theorem write_verify_verifies {c : Request} {mem : Mem} {f : Formatting} {es : List XferEvent}
    {s : Xfer} (hc : c.VerifyAccepted)
    (hrun : run (xferStep c (handleWriteVerify c)) (Xfer.init mem f) es = some s) :
    c.Verified mem s := by
  have hone := oneByOne_handleWriteVerify hc mem f
  have hbound : ∀ {b j m g l}, c.VerifyUnder mem b j m g l → backs l < 2 := by
    rintro b j m g l ⟨buf, -, -, -, ⟨-, hbacks⟩ | ⟨-, hbacks, -⟩⟩
    · omega
    · omega
  have hgiven := left_eq_none_of_run hrun
  have hends := fun hclear => hone.ends_clear hbound (hone.run hrun) hclear
  rcases hone.run hrun with rfl | ⟨hfault, hbegun, hstands⟩
  · exact ⟨rfl, hgiven, fun h => absurd rfl h, hends, fun h => absurd h (by simp [Xfer.init])⟩
  · rcases hstands with ⟨b, j, hjobs, buf, -, -, hgoing, -⟩ | ⟨hjobs, hdone⟩
    · refine ⟨hfault, hgiven, fun _ => ⟨by rw [hjobs]; rfl, hgoing.open_⟩, hends, fun _ hnil => ?_⟩
      exact absurd (hjobs.symm.trans hnil) (by simp)
    · exact ⟨hfault, hgiven, fun h => absurd hjobs h, hends, fun _ _ => hdone⟩

/-- `WRITE VERIFY(10)` of one block. -/
def verifyOne : Request :=
  smallRequest allocHandler [0x2e, 0, 0, 0, 0, 1, 0, 0, 1, 0] ⟨0x2000, 512⟩

/-- The handler of the device consumes both scatter lists, and reads back a block of sevens. -/
def verifyOneRun : List XferEvent :=
  [.start fun _ => verifyOne.smooth, .work 0 fun _ => verifyOne.smooth, .touch 0 0 [] [⟨0x2200, 0⟩],
    .done 0 .ok fun _ => verifyOne.smooth, .work 0 fun _ => verifyOne.smooth,
    .touch 0 0x2200 (List.replicate 512 7) [⟨0x2400, 0⟩], .done 0 .ok fun _ => verifyOne.smooth]

/-- If sevens were to be written, the command ends with success, although neither of its scatter
lists describes a byte any more. -/
theorem write_verify_verifies_one : ∃ s,
    run (xferStep verifyOne (handleWriteVerify verifyOne)) (Xfer.init (fun _ => 7) ⟨false, 0⟩)
      verifyOneRun = some s ∧ s.begun = true ∧ s.jobs = [] ∧ completions s.log = [.ok] ∧
        s.left = some [⟨0x2200, 0⟩] ∧ s.subIov = [⟨0x2400, 0⟩] ∧
        verifyOne.Verified (fun _ => 7) s := by
  have hend : (run (xferStep verifyOne (handleWriteVerify verifyOne))
      (Xfer.init (fun _ => 7) ⟨false, 0⟩) verifyOneRun).map
        (fun s => (s.begun, s.jobs, completions s.log)) = some (true, [], [.ok]) := by
    decide +kernel
  have hiov : (run (xferStep verifyOne (handleWriteVerify verifyOne))
      (Xfer.init (fun _ => 7) ⟨false, 0⟩) verifyOneRun).map (fun s => (s.left, s.subIov)) =
        some (some [⟨0x2200, 0⟩], [⟨0x2400, 0⟩]) := by
    decide +kernel
  obtain ⟨s, hs, hproj⟩ := Option.map_eq_some_iff.mp hend
  obtain ⟨hbegun, hproj⟩ := Prod.mk.inj hproj
  obtain ⟨hjobs, hcompletions⟩ := Prod.mk.inj hproj
  rw [hs] at hiov
  obtain ⟨hleft, hsub⟩ := Prod.mk.inj (Option.some.inj hiov)
  exact ⟨s, hs, hbegun, hjobs, hcompletions, hleft, hsub,
    write_verify_verifies ⟨by decide, by decide, by decide, by decide⟩ hs⟩

end Tcmu

end LioProject
