import LioProject.Tcmu.Progress

/-!
# Offsets and lengths in bytes

The number of bytes of a transfer is computed in several places. `check_iovec_length` compares the
scatter list with a product of two `uint32_t`, the work functions pass on the length of the scatter
list, `handle_write_verify` computes the product once more, and `tcmur_writesame_work_fn` keeps it
in a `uint32_t`. All of them agree with one another, and they agree with the CDB as long as the
product fits into 32 bits (`byte_counts_exact_iff`).
-/

namespace LioProject

namespace Tcmu

/-! ### Write same by the handler -/

/-- `tcmur_writesame_work_fn`: the offset and the length that a handler's own function is given. -/
def tcmurWritesameWorkFn (c : Request) : ℕ × ℕ :=
  (c.dev.geo.blockSize * lbaOf c.cdb % 2 ^ 64, c.dev.geo.blockSize * xferLengthOf c.cdb % 2 ^ 32)

/-- `tcmur_handle_writesame`: a status, or the arguments of the function that is scheduled. -/
def tcmurHandleWritesame (c : Request) : Daemon (TcmuSts ⊕ ℕ × ℕ) := do
  let ret ← aluaCheckState c.dev.handler
  if ret ≠ .ok then pure (.inl ret)
  else if handleWritesameCheck c ≠ .ok then pure (.inl (handleWritesameCheck c))
  else if c.writesByUnmap then
    let ret ← handleUnmapInWritesame c
    pure (.inl ret)
  else pure (.inr (tcmurWritesameWorkFn c))

/-! ### Exact calls -/

/-- The offset and the length are those of the CDB, over the natural numbers, and lie inside the
device. -/
structure Request.ExactAt (c : Request) (offset length : ℕ) : Prop where
  /-- The offset. -/
  offset_eq : offset = lbaOf c.cdb * c.dev.geo.blockSize
  /-- The length. -/
  length_eq : length = xferLengthOf c.cdb * c.dev.geo.blockSize
  /-- The end. -/
  le : offset + length ≤ c.dev.geo.numLbas * c.dev.geo.blockSize

/-- What `read` and `write` are given is exact. -/
def Callout.Exact (c : Request) : Callout → Prop
  | .read _ _ _ length offset => c.ExactAt offset length
  | .write _ _ _ length offset => c.ExactAt offset length
  | _ => True

/-- The counts that a command hands to the handler are exact, whatever happens. -/
def Request.CountsExact (c : Request) : DataCmd → Prop
  | .writesame => ∀ env s off len s',
      (tcmurHandleWritesame c).exec lifeInterp env s = some (.ok (.inr (off, len)), s') →
        c.ExactAt off len
  | _ => ∀ es s, run (lifeStep c) Life.init es = some s → ∀ co ∈ s.calls, co.Exact c

/-- The command passes its checks, and there is a callout to hand it to. -/
def Request.Transfers (c : Request) : DataCmd → Prop
  | .read => checkLbaAndLength c.dev.geo c.cmd c.cdb (xferLengthOf c.cdb) = .ok ∧
      c.dev.handler.read = true
  | .write => checkLbaAndLength c.dev.geo c.cmd c.cdb (xferLengthOf c.cdb) = .ok ∧
      c.dev.handler.write = true
  | .writeVerify => checkLbaAndLength c.dev.geo c.cmd c.cdb (xferLengthOf c.cdb) = .ok ∧
      c.dev.handler.write = true
  | .writesame => handleWritesameCheck c = .ok ∧ c.writesByUnmap = false
  | _ => False

section Exact

variable {c : Request}

/-- A transfer that passes the range check and whose length fits into 32 bits is exact. -/
theorem exactAt_of_lt (hsize : c.dev.geo.numLbas * c.dev.geo.blockSize < 2 ^ 63)
    (hlbas : checkLbas c.dev.geo (lbaOf c.cdb) (xferLengthOf c.cdb) = .ok)
    (hlt : xferLengthOf c.cdb * c.dev.geo.blockSize < 2 ^ 32) :
    c.ExactAt (c.dev.geo.blockSize * lbaOf c.cdb % 2 ^ 64)
      (xferLengthOf c.cdb * c.dev.geo.blockSize % 2 ^ 32) := by
  have hle := checkLbas_ok (lbaOf_lt c.cdb) ((xferLengthOf_lt c.cdb).trans (by norm_num)) hlbas
  have hbytes := Nat.mul_le_mul_right c.dev.geo.blockSize hle
  rw [Nat.add_mul] at hbytes
  have hoffset : c.dev.geo.blockSize * lbaOf c.cdb % 2 ^ 64 =
      lbaOf c.cdb * c.dev.geo.blockSize := by
    rw [Nat.mul_comm, Nat.mod_eq_of_lt (by omega)]
  rw [hoffset, Nat.mod_eq_of_lt hlt]
  exact ⟨rfl, rfl, hbytes⟩

/-- A length in 32 bits that is exact fits into 32 bits. -/
theorem Request.ExactAt.lt {offset : ℕ}
    (h : c.ExactAt offset (xferLengthOf c.cdb * c.dev.geo.blockSize % 2 ^ 32)) :
    xferLengthOf c.cdb * c.dev.geo.blockSize < 2 ^ 32 := by
  rw [← h.length_eq]
  exact Nat.mod_lt _ (by norm_num)

/-- The scatter list of a transfer that passes its checks is as long as the product in 32 bits. -/
theorem tcmuIovecLength_of_check {sectors : ℕ}
    (h : checkLbaAndLength c.dev.geo c.cmd c.cdb sectors = .ok) :
    tcmuIovecLength c.cmd.iov = sectors * c.dev.geo.blockSize % 2 ^ 32 := by
  rw [tcmuIovecLength_eq]
  exact checkIovecLength_ok.mp (checkLbaAndLength_ok h).1

/-! ### Sub-commands -/

/-- Whatever becomes of the sub-command, the calls made for it are exact. -/
def Job.Exact (c : Request) : Job → Prop
  | .read => c.dev.handler.read = true → (Job.read.callout c).Exact c
  | .write => c.dev.handler.write = true → (Job.write.callout c).Exact c
  | .verifyWrite s => c.dev.handler.write = true →
      ((Job.verifyWrite s).callout c).Exact c ∧ ((Job.verifyRead s).callout c).Exact c
  | .verifyRead s => ((Job.verifyRead s).callout c).Exact c
  | _ => False

theorem Job.Exact.callout {j : Job} (h : j.Exact c) (hdefined : (j.callout c).defined = true) :
    (j.callout c).Exact c := by
  cases j with
  | read => exact h hdefined
  | write => exact h hdefined
  | verifyWrite => exact (h hdefined).1
  | verifyRead => exact h
  | _ => exact h.elim

/-- The operation hands on nothing but exact sub-commands. -/
def OpExact (c : Request) : Op → Prop
  | .io j co => j.Exact c ∧ co = j.callout c ∧ co.defined = true
  | .enqueue j => j.Exact c
  | _ => True

/-- The program hands on nothing but exact sub-commands. -/
def HandsExact {α : Type} (c : Request) (p : Daemon α) : Prop :=
  p.All (OpExact c) (fun _ => True) fun _ => True

section Hands

variable {α β : Type}

theorem handsExact_pure (a : α) : HandsExact c (pure a : Daemon α) := Prog.all_pure trivial

theorem handsExact_light {o : Op} {f : Ans o → Daemon β} (h : o.Light)
    (hf : ∀ a, HandsExact c (f a)) : HandsExact c (ask o >>= f) := by
  refine Prog.all_bind (Prog.all_ask (P := OpExact c) ?_) fun a _ => hf a
  cases o with
  | io => exact h.elim
  | enqueue => exact h.elim
  | _ => trivial

theorem Quiet.handsExact {F : Fault → Prop} {p : Daemon α} {Q : α → Prop} (h : Quiet c F p Q) :
    HandsExact c p := by
  refine Prog.all_mono h (fun o ho => ?_) (fun _ _ => trivial) fun _ _ => trivial
  cases o with
  | io => exact ho.elim
  | enqueue => exact ho.elim
  | _ => trivial

theorem HandsExact.bind {p : Daemon α} {f : α → Daemon β} (hp : HandsExact c p)
    (hf : ∀ a, HandsExact c (f a)) : HandsExact c (p >>= f) :=
  Prog.all_bind hp fun a _ => hf a

theorem handsExact_work {j : Job} (h : j.Exact c) : HandsExact c (j.work c) := by
  rw [Job.work]
  split
  · rename_i hdefined
    exact Prog.all_ask ⟨h, rfl, hdefined⟩
  · exact Prog.all_fail trivial

theorem handsExact_asyncHandleCmd {j : Job} (h : j.Exact c) :
    HandsExact c (asyncHandleCmd c j) := by
  rw [asyncHandleCmd]
  split
  · refine (handsExact_work h).bind fun r => ?_
    cases r with
    | queued now =>
      simp only
      split
      · exact Prog.all_fail trivial
      · exact handsExact_pure _
    | failed e => exact handsExact_pure _
  · refine handsExact_light trivial fun a => ?_
    split
    · exact Prog.all_bind (R := fun _ => True) ⟨h, fun _ => trivial⟩ fun _ _ => handsExact_pure _
    · exact handsExact_pure _

theorem handsExact_aioCommandFinish (ret : TcmuSts) : HandsExact c (aioCommandFinish ret) :=
  handsExact_light trivial fun _ =>
    handsExact_light (o := .trackFinish) trivial fun _ => handsExact_pure _

theorem handsExact_finishUnlessAsync (ret : TcmuSts) : HandsExact c (finishUnlessAsync ret) := by
  rw [finishUnlessAsync]
  split
  · exact handsExact_pure _
  · exact handsExact_aioCommandFinish _

/-- The callback of an exact sub-command. Only that of a write that is to be verified goes on. -/
theorem handsExact_done {j : Job} (h : j.Exact c) (hdefined : (j.callout c).defined = true)
    (ret : TcmuSts) : HandsExact c (j.done c ret) := by
  cases j with
  | read => exact handsExact_aioCommandFinish ret
  | write => exact handsExact_aioCommandFinish ret
  | verifyWrite s =>
    rw [Job.done, handleWriteVerifyWriteCbk]
    split
    · exact handsExact_aioCommandFinish _
    · exact (handsExact_asyncHandleCmd (j := .verifyRead s) (h hdefined).2).bind fun r =>
        handsExact_finishUnlessAsync r
  | verifyRead s =>
    rw [Job.done, handleWriteVerifyReadCbk]
    split
    · exact handsExact_aioCommandFinish _
    · refine handsExact_light trivial fun mem => ?_
      split
      · exact handsExact_aioCommandFinish _
      · exact handsExact_light trivial fun _ => handsExact_aioCommandFinish _
  | _ => exact h.elim

theorem handsExact_ioWork {j : Job} (h : j.Exact c) : HandsExact c (ioWork c j) := by
  rw [ioWork, Job.work]
  split
  · rename_i hdefined
    refine ⟨⟨h, rfl, hdefined⟩, fun r => ?_⟩
    cases r with
    | queued => exact handsExact_pure _
    | failed e => exact handsExact_done h hdefined _
  · exact Prog.all_fail trivial

/-! ### Commands -/

theorem handsExact_untrack (ret : TcmuSts) : HandsExact c (untrack ret) := by
  rw [untrack]
  dsimp only
  split
  · exact handsExact_light trivial fun _ => handsExact_pure _
  · exact handsExact_pure _

theorem handsExact_handleTryPassthrough : HandsExact c (handleTryPassthrough c) := by
  rw [handleTryPassthrough]
  split
  · exact handsExact_pure _
  · refine handsExact_light trivial fun _ => handsExact_light trivial fun r => ?_
    split
    · exact handsExact_untrack _
    · refine HandsExact.bind (Quiet.handsExact (F := fun _ => True) (quiet_control
        (Or.inr trivial))) fun r => handsExact_untrack _

/-- Processing a data command hands on what its handler does. -/
theorem handsExact_processCmd {d : DataCmd} (hd : dataCmd c.cdb = some d)
    (h : HandsExact c (d.handle c)) : HandsExact c (processCmd c) := by
  have hcmd : HandsExact c (tcmurCmdHandler c) := by
    refine handsExact_light trivial fun _ => handsExact_light trivial fun r => ?_
    split
    · exact handsExact_untrack _
    · rw [hd]
      refine HandsExact.bind (Quiet.handsExact (F := fun _ => True) quiet_aluaCheckState)
        fun ret => ?_
      split
      · exact handsExact_untrack _
      · exact h.bind fun ret => handsExact_untrack ret
  have hgeneric : HandsExact c (tcmurGenericHandleCmd c) := by
    refine HandsExact.bind (Quiet.handsExact (F := fun _ => True) quiet_handlePendingUa)
      fun ret => ?_
    split
    · exact handsExact_pure _
    · refine handsExact_light trivial fun r => ?_
      split
      · exact handsExact_light trivial fun _ => handsExact_pure _
      · refine handsExact_handleTryPassthrough.bind fun ret => ?_
        split
        · exact handsExact_pure _
        · rw [handleSyncCmd_of_dataCmd hd]
          exact hcmd
  refine hgeneric.bind fun ret => ?_
  split
  · exact handsExact_light (o := .complete _) trivial fun _ => handsExact_pure _
  · exact handsExact_pure _

end Hands

/-! ### Runs -/

section Runs

variable {s s' : Life}

/-- The sub-commands and the calls of a command are exact. -/
structure Life.Exact (c : Request) (s : Life) : Prop where
  /-- The sub-commands, of which those that are accepted have a callout. -/
  jobs : ∀ x ∈ s.jobs, x.2.Exact c ∧ (x.1 = true → (x.2.callout c).defined = true)
  /-- The calls. -/
  calls : ∀ co ∈ s.calls, co.Exact c

theorem Life.exact_init : Life.init.Exact c :=
  ⟨fun _ hx => absurd hx (by simp [Life.init]), fun _ hx => absurd hx (by simp [Life.init])⟩

theorem Life.Exact.add (h : s.Exact c) {b : Bool} {j : Job} (hj : j.Exact c)
    (hb : b = true → (j.callout c).defined = true) :
    { s with jobs := s.jobs ++ [(b, j)] : Life }.Exact c := by
  refine ⟨?_, h.calls⟩
  exact List.forall_mem_append.mpr ⟨h.jobs, List.forall_mem_singleton.mpr ⟨hj, hb⟩⟩

theorem Life.Exact.op {o : Op} {a r : Ans o} (h : s.Exact c) (ho : OpExact c o)
    (hop : lifeInterp s o a = some (r, s')) : s'.Exact c := by
  cases o with
  | io j co =>
    obtain ⟨hj, rfl, hdefined⟩ := ho
    have hcalled : { s with calls := s.calls ++ [j.callout c] : Life }.Exact c := by
      refine ⟨h.jobs, ?_⟩
      exact List.forall_mem_append.mpr
        ⟨h.calls, List.forall_mem_singleton.mpr (hj.callout hdefined)⟩
    obtain ⟨-, rfl⟩ := Prod.mk.inj (Option.some.inj hop)
    cases a with
    | queued now => exact hcalled.add hj fun _ => hdefined
    | failed e => exact ⟨hcalled.jobs, hcalled.calls⟩
  | enqueue j =>
    obtain ⟨-, rfl⟩ := Prod.mk.inj (Option.some.inj hop)
    exact h.add ho fun hf => absurd hf (by simp)
  | alloc =>
    obtain ⟨-, rfl⟩ := Prod.mk.inj (Option.some.inj hop)
    split
    · exact h
    · exact ⟨h.jobs, h.calls⟩
  | calloc =>
    obtain ⟨-, rfl⟩ := Prod.mk.inj (Option.some.inj hop)
    split
    · exact h
    · exact ⟨h.jobs, h.calls⟩
  | mutexInit =>
    obtain ⟨-, rfl⟩ := Prod.mk.inj (Option.some.inj hop)
    split
    · exact h
    · exact ⟨h.jobs, h.calls⟩
  | spawnLock =>
    obtain ⟨-, rfl⟩ := Prod.mk.inj (Option.some.inj hop)
    split
    · exact ⟨h.jobs, h.calls⟩
    · exact h
  | _ =>
    obtain ⟨-, rfl⟩ := Prod.mk.inj (Option.some.inj hop)
    exact ⟨h.jobs, h.calls⟩

/-- The program of an event hands on nothing but exact sub-commands. -/
theorem Life.Exact.prog {e : LifeEvent} {p : Daemon Unit} {u : Life} (h : s.Exact c)
    (hfits : s.Fits False c) (hprocess : HandsExact c (processCmd c))
    (hprog : e.prog c s = some (p, u)) : HandsExact c p ∧ u.Exact c := by
  have herase : ∀ i, { s with jobs := s.jobs.eraseIdx i : Life }.Exact c := fun i =>
    ⟨fun x hx => h.jobs x (List.mem_of_mem_eraseIdx hx), h.calls⟩
  cases e with
  | fetch env =>
    rw [LifeEvent.prog] at hprog
    split at hprog
    · exact absurd hprog (by simp)
    · obtain ⟨rfl, rfl⟩ := Prod.mk.inj (Option.some.inj hprog)
      exact ⟨hprocess, h⟩
  | work i env =>
    rw [LifeEvent.prog] at hprog
    split at hprog
    · rename_i j hj
      obtain ⟨rfl, rfl⟩ := Prod.mk.inj (Option.some.inj hprog)
      exact ⟨handsExact_ioWork (h.jobs _ (List.mem_of_getElem? hj)).1, herase i⟩
    · exact absurd hprog (by simp)
  | done i ret env =>
    rw [LifeEvent.prog] at hprog
    split at hprog
    · rename_i j hj
      obtain ⟨rfl, rfl⟩ := Prod.mk.inj (Option.some.inj hprog)
      obtain ⟨hjob, hdefined⟩ := h.jobs _ (List.mem_of_getElem? hj)
      exact ⟨handsExact_done hjob (hdefined rfl) ret, herase i⟩
    · exact absurd hprog (by simp)
  | lockThread env =>
    rw [LifeEvent.prog] at hprog
    split at hprog
    · exact absurd hprog (by simp)
    · rename_i hpos
      obtain ⟨rfl, rfl⟩ := Prod.mk.inj (Option.some.inj hprog)
      have hlock := hfits.lockThreads (Nat.pos_of_ne_zero hpos)
      exact ⟨Quiet.handsExact (F := fun _ => True) (quiet_aluaLockThreadFn hlock),
        ⟨h.jobs, h.calls⟩⟩

/-- One event keeps everything exact. -/
theorem Life.Exact.step {e : LifeEvent} (h : s.Exact c) (hfits : s.Fits False c)
    (hprocess : HandsExact c (processCmd c)) (hstep : lifeStep c s e = some s') : s'.Exact c := by
  obtain ⟨-, p, u, x, v, hprog, hexec, rfl⟩ := lifeStep_cases hstep
  obtain ⟨hp, hu⟩ := h.prog hfits hprocess hprog
  obtain ⟨hv, -⟩ := Prog.exec_of_all hp (fun o ho s a r s' hs hop => hs.op ho hop) hexec hu
  cases x with
  | ok => exact ⟨hv.jobs, hv.calls⟩
  | error => exact ⟨hv.jobs, hv.calls⟩

/-- **Every run** of a command whose handler hands on exact sub-commands is exact. -/
theorem exact_of_run {d : DataCmd} {es : List LifeEvent} (hd : dataCmd c.cdb = some d)
    (h : HandsExact c (d.handle c)) (hrun : run (lifeStep c) Life.init es = some s) :
    s.Exact c := by
  have hprocess := handsExact_processCmd hd h
  have hkeep : ∀ s e t, s.Exact c ∧ s.Fits False c → lifeStep c s e = some t →
      t.Exact c ∧ t.Fits False c :=
    fun s e t hs hstep => ⟨hs.1.step hs.2 hprocess hstep, hs.2.step False.elim hstep⟩
  exact (run_invariant hkeep ⟨Life.exact_init, Life.fits_init⟩ hrun).1

end Runs

/-! ### Transfers that fit into 32 bits -/

section Fits

variable (hsize : c.dev.geo.numLbas * c.dev.geo.blockSize < 2 ^ 63)
  (hlt : xferLengthOf c.cdb * c.dev.geo.blockSize < 2 ^ 32)

include hsize hlt

/-- The length of the scatter list is exact. -/
theorem exactAt_iovec
    (hcheck : checkLbaAndLength c.dev.geo c.cmd c.cdb (xferLengthOf c.cdb) = .ok) :
    c.ExactAt (c.dev.geo.blockSize * lbaOf c.cdb % 2 ^ 64) (tcmuIovecLength c.cmd.iov) := by
  rw [tcmuIovecLength_of_check hcheck]
  exact exactAt_of_lt hsize (checkLbaAndLength_ok hcheck).2 hlt

end Fits

theorem handsExact_handleRead (hsize : c.dev.geo.numLbas * c.dev.geo.blockSize < 2 ^ 63)
    (hlt : c.Transfers .read → xferLengthOf c.cdb * c.dev.geo.blockSize < 2 ^ 32) :
    HandsExact c (handleRead c) := by
  rw [handleRead]
  split
  · exact handsExact_pure _
  · rename_i hcheck
    have hcheck := not_not.mp hcheck
    exact handsExact_asyncHandleCmd (j := .read) fun hread =>
      exactAt_iovec hsize (hlt ⟨hcheck, hread⟩) hcheck

theorem handsExact_handleWrite (hsize : c.dev.geo.numLbas * c.dev.geo.blockSize < 2 ^ 63)
    (hlt : c.Transfers .write → xferLengthOf c.cdb * c.dev.geo.blockSize < 2 ^ 32) :
    HandsExact c (handleWrite c) := by
  rw [handleWrite]
  split
  · exact handsExact_pure _
  · rename_i hcheck
    have hcheck := not_not.mp hcheck
    exact handsExact_asyncHandleCmd (j := .write) fun hwrite =>
      exactAt_iovec hsize (hlt ⟨hcheck, hwrite⟩) hcheck

/-- `write_verify_init` keeps the length that it is given. -/
theorem all_writeVerifyInit {P : Op → Prop} (hP : ∀ o : Op, o.Light → P o) (length : ℕ) :
    (writeVerifyInit length).All P (fun _ => True) fun r =>
      ∀ s, r = some s → s.requested = length := by
  refine Prog.all_bind (Prog.all_ask (hP _ trivial)) fun a _ => ?_
  split
  · exact Prog.all_pure fun s h => absurd h (by simp)
  · refine Prog.all_bind (R := fun _ => True) ?_ fun buf _ => ?_
    · refine Prog.all_bind (Prog.all_ask (hP _ trivial)) fun a _ => ?_
      split
      · exact Prog.all_pure trivial
      · refine Prog.all_bind (Prog.all_ask (hP _ trivial)) fun a _ => ?_
        cases a with
        | none => exact Prog.all_pure trivial
        | some buf =>
          exact Prog.all_bind (Prog.all_ask (hP _ trivial)) fun _ _ => Prog.all_pure trivial
    · cases buf with
      | none => exact Prog.all_pure fun s h => absurd h (by simp)
      | some buf =>
        refine Prog.all_bind (Prog.all_ask (hP _ trivial)) fun a _ => ?_
        split
        · exact Prog.all_pure fun s h => absurd h (by simp)
        · refine Prog.all_bind (Prog.all_ask (hP _ trivial)) fun iov _ => ?_
          refine Prog.all_bind (Prog.all_ask (hP _ trivial)) fun a _ => ?_
          split
          · exact Prog.all_pure fun s h => absurd h (by simp)
          · refine Prog.all_bind (Prog.all_ask (hP _ trivial)) fun iov _ => ?_
            exact Prog.all_pure fun s h => by rw [← Option.some.inj h]

theorem handsExact_handleWriteVerify (hsize : c.dev.geo.numLbas * c.dev.geo.blockSize < 2 ^ 63)
    (hlt : c.Transfers .writeVerify → xferLengthOf c.cdb * c.dev.geo.blockSize < 2 ^ 32) :
    HandsExact c (handleWriteVerify c) := by
  rw [handleWriteVerify]
  split
  · exact handsExact_pure _
  · rename_i hcheck
    have hcheck := not_not.mp hcheck
    refine Prog.all_bind (all_writeVerifyInit (P := OpExact c) ?_ _) fun r hr => ?_
    · intro o ho
      cases o with
      | io => exact ho.elim
      | enqueue => exact ho.elim
      | _ => trivial
    · cases r with
      | none => exact handsExact_pure _
      | some s =>
        refine handsExact_asyncHandleCmd (j := .verifyWrite s) fun hwrite => ?_
        have hlt := hlt ⟨hcheck, hwrite⟩
        refine ⟨exactAt_iovec hsize hlt hcheck, ?_⟩
        have hexact := exactAt_of_lt hsize (checkLbaAndLength_ok hcheck).2 hlt
        rw [← hr s rfl] at hexact
        exact hexact

/-- `tcmur_handle_writesame` schedules the function with these arguments, after its checks. -/
theorem all_tcmurHandleWritesame :
    (tcmurHandleWritesame c).All (fun _ => True) (fun _ => True) fun r =>
      ∀ x, r = .inr x → x = tcmurWritesameWorkFn c ∧ c.Transfers .writesame := by
  refine Prog.all_bind (Prog.all_true _) fun ret _ => ?_
  split
  · exact Prog.all_pure fun x h => absurd h (by simp)
  · split
    · exact Prog.all_pure fun x h => absurd h (by simp)
    · rename_i hcheck
      split
      · exact Prog.all_bind (Prog.all_true _) fun ret _ =>
          Prog.all_pure fun x h => absurd h (by simp)
      · rename_i hunmap
        refine Prog.all_pure fun x h => ⟨(Sum.inr.inj h).symm, not_not.mp hcheck, ?_⟩
        simpa using hunmap

/-! ### Transfers that do not -/

/-- In calm surroundings the call for the first sub-command is made. -/
theorem call_of_exec {d : DataCmd} {j : Job} (hd : dataCmd c.cdb = some d)
    (hdefined : (j.callout c).defined = true)
    (h : ∀ s, ∃ b, (d.handle c).exec lifeInterp (calm fun _ => 0) s =
      some (.ok .asyncHandled, s.dispatched c j b)) :
    ∃ es s, run (lifeStep c) Life.init es = some s ∧ j.callout c ∈ s.calls := by
  obtain ⟨s, b, hstep, hs⟩ := on_of_fetch (fun _ => 0) hd h
  obtain ⟨es, t, hrun, ht⟩ := hs.accepted hdefined
  refine ⟨.fetch (calm fun _ => 0) :: es, t, ?_, ht.called rfl⟩
  rw [run_cons, hstep]
  exact hrun

theorem exec_handleRead (hcheck : c.Transfers .read) (s : Life) :
    ∃ b, (handleRead c).exec lifeInterp (calm fun _ => 0) s =
      some (.ok .asyncHandled, s.dispatched c .read b) := by
  rw [handleRead, if_neg (by simp [hcheck.1])]
  exact exec_asyncHandleCmd _ (c := c) (j := .read) hcheck.2 s

theorem exec_handleWrite (hcheck : c.Transfers .write) (s : Life) :
    ∃ b, (handleWrite c).exec lifeInterp (calm fun _ => 0) s =
      some (.ok .asyncHandled, s.dispatched c .write b) := by
  rw [handleWrite, if_neg (by simp [hcheck.1])]
  exact exec_asyncHandleCmd _ (c := c) (j := .write) hcheck.2 s

theorem exec_handleWriteVerify (hcheck : c.Transfers .writeVerify) : ∃ x, ∀ s : Life,
    ∃ b, (handleWriteVerify c).exec lifeInterp (calm fun _ => 0) s =
      some (.ok .asyncHandled, s.dispatched c (.verifyWrite x) b) := by
  refine ⟨⟨xferLengthOf c.cdb * c.dev.geo.blockSize % 2 ^ 32, [], 0⟩, fun s => ?_⟩
  rw [handleWriteVerify, if_neg (by simp [hcheck.1])]
  exact exec_asyncHandleCmd _ (j := .verifyWrite _) hcheck.2 s

theorem exec_tcmurHandleWritesame (h : c.Transfers .writesame) (s : Life) :
    (tcmurHandleWritesame c).exec lifeInterp (calm fun _ => 0) s =
      some (.ok (.inr (tcmurWritesameWorkFn c)), s) := by
  rw [tcmurHandleWritesame, exec_calm_bind _ _ (exec_aluaCheckState _ _ s), if_neg (by simp),
    if_neg (by simp [h.1]), if_neg (by simp [h.2])]
  rfl

/-! ### Main result -/

/-- **Byte counts.** Of every command that transfers data, the offsets and lengths that the handler
is given are those of the CDB if and only if the length fits into 32 bits, or the command does not
get that far. -/
theorem byte_counts_exact_iff {d : DataCmd} (hd : dataCmd c.cdb = some d)
    (hkind : d = .read ∨ d = .write ∨ d = .writeVerify ∨ d = .writesame)
    (hsize : c.dev.geo.numLbas * c.dev.geo.blockSize < 2 ^ 63) :
    c.CountsExact d ↔
      (c.Transfers d → xferLengthOf c.cdb * c.dev.geo.blockSize < 2 ^ 32) := by
  constructor
  · intro h htransfers
    rcases hkind with rfl | rfl | rfl | rfl
    · obtain ⟨es, s, hrun, hcall⟩ := call_of_exec (j := .read) hd htransfers.2
        (exec_handleRead htransfers)
      have hexact : c.ExactAt _ (tcmuIovecLength c.cmd.iov) := h es s hrun _ hcall
      rw [tcmuIovecLength_of_check htransfers.1] at hexact
      exact hexact.lt
    · obtain ⟨es, s, hrun, hcall⟩ := call_of_exec (j := .write) hd htransfers.2
        (exec_handleWrite htransfers)
      have hexact : c.ExactAt _ (tcmuIovecLength c.cmd.iov) := h es s hrun _ hcall
      rw [tcmuIovecLength_of_check htransfers.1] at hexact
      exact hexact.lt
    · obtain ⟨x, hx⟩ := exec_handleWriteVerify htransfers
      obtain ⟨es, s, hrun, hcall⟩ := call_of_exec (j := .verifyWrite x) hd htransfers.2 hx
      have hexact : c.ExactAt _ (tcmuIovecLength c.cmd.iov) := h es s hrun _ hcall
      rw [tcmuIovecLength_of_check htransfers.1] at hexact
      exact hexact.lt
    · have hexact := h _ Life.init _ _ _ (exec_tcmurHandleWritesame htransfers Life.init)
      rw [Nat.mul_comm c.dev.geo.blockSize (xferLengthOf c.cdb)] at hexact
      exact hexact.lt
  · intro hlt
    rcases hkind with rfl | rfl | rfl | rfl
    · exact fun es s hrun => (exact_of_run hd (handsExact_handleRead hsize hlt) hrun).calls
    · exact fun es s hrun => (exact_of_run hd (handsExact_handleWrite hsize hlt) hrun).calls
    · exact fun es s hrun => (exact_of_run hd (handsExact_handleWriteVerify hsize hlt) hrun).calls
    · intro env s off len s' hexec
      obtain ⟨hx, htransfers⟩ := Prog.value_of_all all_tcmurHandleWritesame hexec _ rfl
      obtain ⟨rfl, rfl⟩ := Prod.mk.inj hx
      rw [Nat.mul_comm c.dev.geo.blockSize (xferLengthOf c.cdb)]
      exact exactAt_of_lt hsize (handleWritesameCheck_ok htransfers.1).2 (hlt htransfers)

end Exact

/-- Reading one block hands the handler exact counts. -/
theorem byte_counts_exact_read : (readRequest allocHandler).CountsExact .read :=
  (byte_counts_exact_iff rfl (Or.inl rfl) (by decide)).mpr fun _ => by decide

/-- A device of 2^24 blocks. -/
def bigDev : TcmuDev := ⟨0, ⟨512, 2 ^ 24, 128, 128, 0⟩, allocHandler, none⟩

/-- `READ(16)` of 2^23 + 1 blocks into a buffer of one block. -/
def longRead : Request :=
  { dev := bigDev
    ctx := [bigDev]
    cmd := ⟨0, some [0x88, 0, 0, 0, 0, 0, 0, 0, 0, 0, 0, 0x80, 0, 1, 0, 0], [⟨0x2000, 512⟩], 1,
      List.replicate 96 0⟩
    cdb := [0x88, 0, 0, 0, 0, 0, 0, 0, 0, 0, 0, 0x80, 0, 1, 0, 0]
    hcdb := rfl }

/-- The product in 32 bits is that of one block, so that the checks pass and one block is read. -/
theorem long_read_shrinks :
    dataCmd longRead.cdb = some .read ∧
      longRead.dev.geo.numLbas * longRead.dev.geo.blockSize < 2 ^ 63 ∧
      xferLengthOf longRead.cdb = 2 ^ 23 + 1 ∧ ¬ longRead.CountsExact .read := by
  refine ⟨rfl, by decide, by decide, fun h => ?_⟩
  have hrun : ∃ s, run (lifeStep longRead) Life.init
      [.fetch (calm fun _ => 0), .work 0 (calm fun _ => 0)] = some s ∧
      s.calls = [Job.callout longRead .read] := ⟨_, rfl, rfl⟩
  obtain ⟨s, hrun, hcalls⟩ := hrun
  have hexact : longRead.ExactAt _ (tcmuIovecLength longRead.cmd.iov) :=
    h _ s hrun (Job.callout longRead .read) (by simp [hcalls])
  have hlength := hexact.length_eq
  exact absurd hlength (by decide)

end Tcmu

end LioProject
