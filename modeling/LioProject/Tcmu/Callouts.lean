import LioProject.Tcmu.Quiet

/-!
# The callouts that a command uses

Which callouts of a handler a command leads to, through its handler, its work functions and its
callbacks. A sub-command fits its command (`Job.Fits`) if the command can lead to it and the
callouts that its work function and its callback use are defined. A program is `Proper` if it hands
on nothing but sub-commands that fit and calls no `NULL` pointer. The work functions and the
callbacks of sub-commands that fit are proper (`proper_ioWork`, `proper_done`), and so are the
handlers that do not read a parameter list.

What the programs of a command leave behind fits it then as well (`Life.Fits`). `Equipped` carries
this through runs.
-/

namespace LioProject

namespace Tcmu

/-! ### Sub-commands that fit their command -/

/-- The sub-command belongs to the command and, in case of `K`, the callouts that its work function
and its callback lead to are defined. -/
def Job.Fits (K : Prop) (c : Request) : Job → Prop
  | .read => dataCmd c.cdb = some .read ∧ (K → c.dev.handler.read = true)
  | .write => dataCmd c.cdb = some .write ∧ (K → c.dev.handler.write = true)
  | .flush => dataCmd c.cdb = some .flush ∧ (K → c.dev.handler.flush = true)
  | .unmap .. => (dataCmd c.cdb = some .unmap ∨ dataCmd c.cdb = some .writesame) ∧
      (K → c.dev.handler.unmap = true)
  | .writesame _ => dataCmd c.cdb = some .writesame ∧ (K → c.dev.handler.write = true)
  | .verifyWrite _ => dataCmd c.cdb = some .writeVerify ∧
      (K → c.dev.handler.read = true ∧ c.dev.handler.write = true)
  | .verifyRead _ => dataCmd c.cdb = some .writeVerify ∧
      (K → c.dev.handler.read = true ∧ c.dev.handler.write = true)
  | .cawRead _ => dataCmd c.cdb = some .caw ∧
      (K → c.dev.handler.read = true ∧ c.dev.handler.write = true)
  | .cawWrite _ => dataCmd c.cdb = some .caw ∧
      (K → c.dev.handler.read = true ∧ c.dev.handler.write = true)
  | .xcopyRead s => dataCmd c.cdb = some .xcopy ∧
      (K → s.srcDev.handler.read = true ∧ s.dstDev.handler.write = true)
  | .xcopyWrite s => dataCmd c.cdb = some .xcopy ∧
      (K → s.srcDev.handler.read = true ∧ s.dstDev.handler.write = true)
  | .format _ => dataCmd c.cdb = some .format ∧ (K → c.dev.handler.write = true) ∧
      c.dev.geo.maxXferLen * c.dev.geo.blockSize % 2 ^ 32 ≠ 0

theorem Job.Fits.defined {K : Prop} {c : Request} {j : Job} (h : j.Fits K c) (hK : K) :
    (j.callout c).defined = true := by
  cases j with
  | read => exact h.2 hK
  | write => exact h.2 hK
  | flush => exact h.2 hK
  | unmap => exact h.2 hK
  | writesame => exact h.2 hK
  | verifyWrite => exact (h.2 hK).2
  | verifyRead => exact (h.2 hK).1
  | cawRead => exact (h.2 hK).1
  | cawWrite => exact (h.2 hK).2
  | xcopyRead => exact (h.2 hK).1
  | xcopyWrite => exact (h.2 hK).2
  | format => exact h.2.1 hK

/-- The CDB that a data callout is given with its command. -/
def Callout.cdb : Callout → Option (Option Cdb)
  | .read _ cdb .. => some cdb
  | .write _ cdb .. => some cdb
  | .flush _ cdb => some cdb
  | .unmap .. => none

/-- The command gets as far as writing to the device in order to format it. -/
structure Request.Formats (c : Request) : Prop where
  /-- It is a `FORMAT UNIT`. -/
  cmd : dataCmd c.cdb = some .format
  /-- There is a callout to write with. -/
  write : c.dev.handler.write = true
  /-- The length of a write can be computed. -/
  xfer : c.dev.geo.maxXferLen * c.dev.geo.blockSize % 2 ^ 32 ≠ 0

/-- Only the sub-commands of `FORMAT UNIT` have no CDB. -/
theorem Job.Fits.cdb_ne {K : Prop} {c : Request} {j : Job} (h : j.Fits K c)
    (hdefined : (j.callout c).defined = true) (hc : ¬ c.Formats) :
    (j.callout c).cdb ≠ some none := by
  have hcdb : some c.cmd.cdb ≠ some none := by
    rw [c.hcdb]
    simp
  cases j with
  | read => exact hcdb
  | write => exact hcdb
  | flush => exact hcdb
  | unmap => exact nofun
  | writesame => exact hcdb
  | verifyWrite => exact hcdb
  | verifyRead => exact hcdb
  | cawRead => exact hcdb
  | cawWrite => exact hcdb
  | xcopyRead => exact hcdb
  | xcopyWrite => exact hcdb
  | format => exact absurd ⟨h.1, hdefined, h.2.2⟩ hc

/-! ### Proper programs -/

/-- The operation hands on nothing but sub-commands that fit, and starts a thread for the lock only
if there is one. -/
def OpFits (K : Prop) (c : Request) : Op → Prop
  | .io j co => j.Fits K c ∧ co = j.callout c ∧ co.defined = true
  | .enqueue j => j.Fits K c
  | .spawnLock => c.dev.handler.lock = true
  | _ => True

/-- The program hands on nothing but sub-commands that fit and, in case of `K`, calls no `NULL`
pointer. -/
def Proper {α : Type} (K : Prop) (c : Request) (p : Daemon α) : Prop :=
  p.All (OpFits K c) (fun f => K → f ≠ .nullCallout) fun _ => True

section Proper

variable {α β : Type} {K : Prop} {c : Request}

theorem proper_pure (a : α) : Proper K c (pure a : Daemon α) := Prog.all_pure trivial

theorem proper_fail {f : Fault} (h : f ≠ .nullCallout) :
    Proper K c (Prog.fail f : Daemon α) := fun _ => h

theorem proper_ask {o : Op} (h : OpFits K c o) : Proper K c (ask o) := Prog.all_ask h

theorem Proper.bind {p : Daemon α} {f : α → Daemon β} (hp : Proper K c p)
    (hf : ∀ a, Proper K c (f a)) : Proper K c (p >>= f) :=
  Prog.all_bind hp fun a _ => hf a

theorem proper_ask_bind {o : Op} {f : Ans o → Daemon β} (h : OpFits K c o)
    (hf : ∀ a, Proper K c (f a)) : Proper K c (ask o >>= f) :=
  (proper_ask h).bind hf

theorem Op.Quiet.fits {o : Op} (h : o.Quiet c) : OpFits K c o := by
  cases o with
  | io => exact h.elim
  | enqueue => exact h.elim
  | spawnLock => exact h
  | _ => trivial

theorem Quiet.all {F : Fault → Prop} {p : Daemon α} {Q : α → Prop} (h : Quiet c F p Q) :
    p.All (OpFits K c) F Q :=
  Prog.all_mono h (fun _ ho => ho.fits) (fun _ hf => hf) fun _ ha => ha

theorem Quiet.proper {p : Daemon α} {Q : α → Prop}
    (h : Quiet c (fun f => K → f ≠ .nullCallout) p Q) : Proper K c p :=
  Prog.all_mono h.all (fun _ ho => ho) (fun _ hf => hf) fun _ _ => trivial

theorem proper_work {j : Job} (h : j.Fits K c) : Proper K c (j.work c) := by
  rw [Job.work]
  split
  · rename_i hdefined
    exact proper_ask ⟨h, rfl, hdefined⟩
  · rename_i hnot
    exact fun hK => absurd (h.defined hK) hnot

theorem proper_asyncHandleCmd {j : Job} (h : j.Fits K c) : Proper K c (asyncHandleCmd c j) := by
  rw [asyncHandleCmd]
  split
  · refine (proper_work h).bind fun r => ?_
    cases r with
    | queued now =>
      simp only
      split
      · exact proper_fail (by simp)
      · exact proper_pure _
    | failed e => exact proper_pure _
  · refine proper_ask_bind trivial fun a => ?_
    split
    · exact proper_ask_bind h fun _ => proper_pure _
    · exact proper_pure _

theorem proper_aioCommandFinish (ret : TcmuSts) : Proper K c (aioCommandFinish ret) :=
  proper_ask_bind trivial fun _ => proper_ask trivial

/-- Dispatch the next sub-command, and go on properly. -/
theorem proper_dispatch {j : Job} {f : TcmuSts → Daemon β} (h : j.Fits K c)
    (hf : ∀ r, Proper K c (f r)) : Proper K c (asyncHandleCmd c j >>= f) :=
  (proper_asyncHandleCmd h).bind hf

theorem proper_finishUnlessAsync (ret : TcmuSts) : Proper K c (finishUnlessAsync ret) := by
  rw [finishUnlessAsync]
  split
  · exact proper_pure _
  · exact proper_aioCommandFinish _

/-! ### Callbacks -/

theorem proper_handleUnmapCbk (ret : TcmuSts) : Proper K c (handleUnmapCbk ret) := by
  refine proper_ask_bind trivial fun s => ?_
  cases s with
  | none => exact proper_fail (by simp)
  | some s =>
    dsimp only
    generalize s.called ret = t
    split
    · exact proper_ask trivial
    · exact proper_ask_bind trivial fun _ => proper_aioCommandFinish _

theorem proper_handleWritesameCbk {s : WriteSame} (h : (Job.writesame s).Fits K c) (ret : TcmuSts) :
    Proper K c (handleWritesameCbk c s ret) := by
  rw [handleWritesameCbk]
  dsimp only
  split
  · exact proper_aioCommandFinish _
  · split
    · exact proper_aioCommandFinish _
    · refine proper_dispatch h fun rc => ?_
      split
      · exact proper_aioCommandFinish _
      · exact proper_pure _

theorem proper_handleWriteVerifyWriteCbk {s : WriteVerify} (h : (Job.verifyWrite s).Fits K c)
    (ret : TcmuSts) : Proper K c (handleWriteVerifyWriteCbk c s ret) := by
  rw [handleWriteVerifyWriteCbk]
  split
  · exact proper_aioCommandFinish _
  · exact proper_dispatch h fun r => proper_finishUnlessAsync r

theorem proper_handleWriteVerifyReadCbk (s : WriteVerify) (ret : TcmuSts) :
    Proper K c (handleWriteVerifyReadCbk s ret) := by
  rw [handleWriteVerifyReadCbk]
  split
  · exact proper_aioCommandFinish _
  · refine proper_ask_bind trivial fun mem => ?_
    split
    · exact proper_aioCommandFinish _
    · exact proper_ask_bind trivial fun _ => proper_aioCommandFinish _

theorem proper_cawFinish (ret : TcmuSts) : Proper K c (cawFinish ret) :=
  proper_ask_bind trivial fun _ => proper_aioCommandFinish ret

theorem proper_handleCawReadCbk {s : CawState} (h : (Job.cawRead s).Fits K c) (ret : TcmuSts) :
    Proper K c (handleCawReadCbk c s ret) := by
  rw [handleCawReadCbk]
  split
  · exact proper_cawFinish _
  · refine proper_ask_bind trivial fun mem => ?_
    split
    · exact proper_ask_bind trivial fun _ => proper_cawFinish _
    · refine proper_dispatch h fun r => ?_
      split
      · exact proper_cawFinish _
      · exact proper_pure _

theorem proper_handleXcopyReadCbk {s : Xcopy} (h : (Job.xcopyRead s).Fits K c) (ret : TcmuSts) :
    Proper K c (handleXcopyReadCbk c s ret) := by
  rw [handleXcopyReadCbk]
  split
  · exact proper_aioCommandFinish _
  · exact proper_dispatch h fun r => proper_finishUnlessAsync r

theorem proper_handleXcopyWriteCbk {s : Xcopy} (h : (Job.xcopyWrite s).Fits K c) (ret : TcmuSts) :
    Proper K c (handleXcopyWriteCbk c s ret) := by
  rw [handleXcopyWriteCbk]
  split
  · exact proper_aioCommandFinish _
  · split
    · exact proper_aioCommandFinish _
    · exact proper_dispatch h fun r => proper_finishUnlessAsync r

theorem proper_formatFinish (ret : TcmuSts) : Proper K c (formatFinish ret) :=
  (quiet_modifyRdev _).proper.bind fun _ => proper_aioCommandFinish ret

theorem proper_handleFormatUnitCbk {s : FormatUnit} (h : (Job.format s).Fits K c) (ret : TcmuSts) :
    Proper K c (handleFormatUnitCbk c s ret) := by
  rw [handleFormatUnitCbk]
  dsimp only
  split
  · exact proper_formatFinish _
  · split
    · refine (quiet_modifyRdev _).proper.bind fun _ => (quiet_allocIovec _).proper.bind fun a => ?_
      cases a with
      | none => exact proper_formatFinish _
      | some buf =>
        refine proper_dispatch h fun rc => ?_
        split
        · exact proper_formatFinish _
        · exact proper_pure _
    · exact proper_pure _

/-- The callback of a sub-command that fits is proper. -/
theorem proper_done {j : Job} (h : j.Fits K c) (ret : TcmuSts) : Proper K c (j.done c ret) := by
  cases j with
  | read => exact proper_aioCommandFinish ret
  | write => exact proper_aioCommandFinish ret
  | flush => exact proper_aioCommandFinish ret
  | unmap => exact proper_handleUnmapCbk ret
  | writesame => exact proper_handleWritesameCbk h ret
  | verifyWrite => exact proper_handleWriteVerifyWriteCbk h ret
  | verifyRead => exact proper_handleWriteVerifyReadCbk _ ret
  | cawRead => exact proper_handleCawReadCbk h ret
  | cawWrite => exact proper_cawFinish ret
  | xcopyRead => exact proper_handleXcopyReadCbk h ret
  | xcopyWrite => exact proper_handleXcopyWriteCbk h ret
  | format => exact proper_handleFormatUnitCbk h ret

theorem proper_ioWork {j : Job} (h : j.Fits K c) : Proper K c (ioWork c j) := by
  refine (proper_work h).bind fun r => ?_
  cases r with
  | queued => exact proper_pure _
  | failed e => exact proper_done h _

/-! ### Handlers -/

theorem proper_splitUnmap (h : ∀ offset length, (Job.unmap offset length).Fits K c) (fuel : ℕ) :
    ∀ lba nlbas lbas refcount ret, Proper K c (splitUnmap c fuel lba nlbas lbas refcount ret) := by
  induction fuel with
  | zero => exact fun _ _ _ _ _ => proper_fail (by simp)
  | succ fuel ih =>
    intro lba nlbas lbas refcount ret
    rw [splitUnmap]
    split
    · exact proper_pure _
    · refine proper_ask_bind trivial fun a => ?_
      split
      · exact proper_pure _
      · refine proper_ask_bind trivial fun a => ?_
        split
        · exact proper_pure _
        · refine proper_dispatch (h _ _) fun r => ?_
          split
          · exact proper_pure _
          · exact ih _ _ _ _ _

theorem proper_unmapDescs (h : ∀ offset length, (Job.unmap offset length).Fits K c) (mem : Mem)
    (n : ℕ) : ∀ a refcount ret, Proper K c (unmapDescs c mem n a refcount ret) := by
  induction n with
  | zero => exact fun _ _ _ => proper_pure _
  | succ n ih =>
    intro a refcount ret
    rw [unmapDescs]
    dsimp only
    split
    · exact proper_pure _
    · split
      · exact proper_pure _
      · split
        · exact ih _ _ _
        · refine Proper.bind (proper_splitUnmap h _ _ _ _ _ _) fun r => ?_
          split
          · exact proper_pure _
          · exact ih _ _ _

theorem proper_handleUnmapInternal (h : ∀ offset length, (Job.unmap offset length).Fits K c)
    (mem : Mem) (bddl par : ℕ) : Proper K c (handleUnmapInternal c mem bddl par) := by
  refine (proper_unmapDescs h _ _ _ _ _).bind fun r => ?_
  dsimp only
  split
  · exact proper_ask_bind trivial fun _ => proper_pure _
  · exact proper_ask_bind trivial fun _ => proper_pure _

theorem proper_handleUnmapInWritesame (h : ∀ offset length, (Job.unmap offset length).Fits K c) :
    Proper K c (handleUnmapInWritesame c) := by
  refine quiet_unmapStateAlloc.proper.bind fun a => ?_
  cases a with
  | some sts => exact proper_pure _
  | none =>
    refine Proper.bind (proper_splitUnmap h _ _ _ _ _ _) fun r => ?_
    dsimp only
    split
    · exact proper_ask_bind trivial fun _ => proper_pure _
    · exact proper_ask_bind trivial fun _ => proper_pure _

theorem proper_handleWritesame (hcmd : dataCmd c.cdb = some .writesame)
    (hwrite : c.writesByUnmap = false → K → c.dev.handler.write = true) :
    Proper K c (handleWritesame c) := by
  rw [handleWritesame]
  dsimp only
  split
  · exact proper_pure _
  · cases hunmap : c.writesByUnmap with
    | true =>
      rw [if_pos rfl]
      refine proper_handleUnmapInWritesame fun _ _ => ⟨Or.inr hcmd, ?_⟩
      rw [Request.writesByUnmap, Bool.and_eq_true] at hunmap
      exact fun _ => hunmap.1
    | false =>
      rw [if_neg (by simp)]
      refine proper_ask_bind trivial fun a => ?_
      split
      · exact proper_pure _
      · refine (quiet_roundUp (Or.inr fun _ => by simp)).proper.bind fun length =>
          proper_ask_bind trivial fun buf => ?_
        cases buf with
        | none => exact proper_pure _
        | some buf =>
          refine proper_ask_bind trivial fun mem => proper_ask_bind trivial fun _ => ?_
          exact proper_asyncHandleCmd ⟨hcmd, hwrite hunmap⟩

theorem proper_handleWriteVerify (hcmd : dataCmd c.cdb = some .writeVerify)
    (hK : K → c.dev.handler.read = true ∧ c.dev.handler.write = true) :
    Proper K c (handleWriteVerify c) := by
  rw [handleWriteVerify]
  split
  · exact proper_pure _
  · refine (quiet_writeVerifyInit _).proper.bind fun s => ?_
    cases s with
    | none => exact proper_pure _
    | some s => exact proper_asyncHandleCmd ⟨hcmd, hK⟩

theorem proper_handleCaw (hcmd : dataCmd c.cdb = some .caw)
    (hK : K → c.dev.handler.read = true ∧ c.dev.handler.write = true) :
    Proper K c (handleCaw c) := by
  rw [handleCaw]
  split
  · exact proper_pure _
  · refine (quiet_cawInitReadcmd _).proper.bind fun s => ?_
    cases s with
    | none => exact proper_pure _
    | some s =>
      refine proper_ask_bind trivial fun _ => proper_dispatch ⟨hcmd, hK⟩ fun r => ?_
      dsimp only
      split
      · exact proper_ask_bind trivial fun _ => proper_pure _
      · exact proper_pure _

theorem proper_handleFormatUnit (hcmd : dataCmd c.cdb = some .format)
    (hwrite : K → c.dev.handler.write = true) : Proper K c (handleFormatUnit c) := by
  refine proper_ask_bind trivial fun r => ?_
  split
  · exact proper_ask_bind trivial fun _ => proper_pure _
  · refine proper_ask_bind trivial fun _ => proper_ask_bind trivial fun a => ?_
    split
    · exact (quiet_modifyRdev _).proper.bind fun _ => proper_pure _
    · refine proper_ask_bind trivial fun a => ?_
      split
      · exact (quiet_modifyRdev _).proper.bind fun _ => proper_pure _
      · refine Prog.all_bind (quiet_roundUp (Or.inr fun _ => by simp)).all fun length hxfer =>
          (quiet_allocIovec _).proper.bind fun buf => ?_
        cases buf with
        | none => exact (quiet_modifyRdev _).proper.bind fun _ => proper_pure _
        | some buf =>
          refine proper_dispatch ⟨hcmd, hwrite, hxfer⟩ fun rc => ?_
          split
          · exact (quiet_modifyRdev _).proper.bind fun _ => proper_pure _
          · exact proper_pure _

/-! ### Commands -/

theorem proper_untrack (ret : TcmuSts) : Proper K c (untrack ret) := by
  rw [untrack]
  dsimp only
  split
  · exact proper_ask_bind trivial fun _ => proper_pure _
  · exact proper_pure _

theorem proper_handleTryPassthrough : Proper K c (handleTryPassthrough c) := by
  rw [handleTryPassthrough]
  split
  · exact proper_pure _
  · rename_i hcmd
    have hcmd : c.dev.handler.handleCmd = true := by simpa using hcmd
    refine proper_ask_bind trivial fun _ => proper_ask_bind trivial fun r => ?_
    split
    · exact proper_untrack _
    · exact (quiet_control (k := .handleCmd) (Or.inl hcmd)).proper.bind fun r => proper_untrack _

end Proper

/-! ### What a command leaves behind -/

section Fits

variable {K : Prop} {c : Request}

/-- What a command has left behind fits the command. -/
structure Life.Fits (K : Prop) (c : Request) (s : Life) : Prop where
  /-- Its sub-commands fit. -/
  jobs : ∀ x ∈ s.jobs, x.2.Fits K c
  /-- The calls were made for sub-commands that fit, and of callouts that are defined. -/
  calls : ∀ co ∈ s.calls, ∃ j : Job, j.Fits K c ∧ co = j.callout c ∧ co.defined = true
  /-- Threads for the lock were started only if there is one. -/
  lockThreads : 0 < s.lockThreads → c.dev.handler.lock = true
  /-- No `NULL` pointer was called. -/
  fault : K → s.fault ≠ some .nullCallout

theorem Life.fits_init : Life.init.Fits K c :=
  ⟨fun _ hx => absurd hx (by simp [Life.init]), fun _ hx => absurd hx (by simp [Life.init]),
    fun h => absurd h (by simp [Life.init]), fun _ => by simp [Life.init]⟩

theorem Life.Fits.fails {s : Life} (h : s.Fits K c) : s.fails.Fits K c := ⟨h.1, h.2, h.3, h.4⟩

theorem Life.Fits.add {s : Life} (h : s.Fits K c) {b : Bool} {j : Job} (hj : j.Fits K c) :
    { s with jobs := s.jobs ++ [(b, j)] : Life }.Fits K c := by
  refine ⟨?_, h.calls, h.lockThreads, h.fault⟩
  exact List.forall_mem_append.mpr ⟨h.jobs, List.forall_mem_singleton.mpr hj⟩

/-- Operations that fit keep what is left behind fitting. -/
theorem Life.Fits.op {s s' : Life} {o : Op} {a r : Ans o} (h : s.Fits K c) (ho : OpFits K c o)
    (hop : lifeInterp s o a = some (r, s')) : s'.Fits K c := by
  cases o with
  | io j co =>
    have hcalled : { s with calls := s.calls ++ [co] : Life }.Fits K c := by
      refine ⟨h.jobs, ?_, h.lockThreads, h.fault⟩
      exact List.forall_mem_append.mpr
        ⟨h.calls, List.forall_mem_singleton.mpr ⟨j, ho.1, ho.2.1, ho.2.2⟩⟩
    obtain ⟨-, rfl⟩ := Prod.mk.inj (Option.some.inj hop)
    cases a with
    | queued now => exact hcalled.add ho.1
    | failed e => exact hcalled.fails
  | enqueue j =>
    obtain ⟨-, rfl⟩ := Prod.mk.inj (Option.some.inj hop)
    exact h.add ho
  | spawnLock =>
    obtain ⟨-, rfl⟩ := Prod.mk.inj (Option.some.inj hop)
    split
    · exact ⟨h.jobs, h.calls, fun _ => ho, h.fault⟩
    · exact h
  | alloc =>
    obtain ⟨-, rfl⟩ := Prod.mk.inj (Option.some.inj hop)
    split
    · exact h
    · exact h.fails
  | calloc =>
    obtain ⟨-, rfl⟩ := Prod.mk.inj (Option.some.inj hop)
    split
    · exact h
    · exact h.fails
  | mutexInit =>
    obtain ⟨-, rfl⟩ := Prod.mk.inj (Option.some.inj hop)
    split
    · exact h
    · exact h.fails
  | _ =>
    obtain ⟨-, rfl⟩ := Prod.mk.inj (Option.some.inj hop)
    exact ⟨h.1, h.2, h.3, h.4⟩

end Fits

end Tcmu

end LioProject
