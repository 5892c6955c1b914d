import LioProject.Tcmu.Life

/-!
# Quiet programs

Much of what is done for a command has nothing to do with its sub-commands: memory is allocated, the
state of the device is looked at, locks are taken and released, and target port groups are set and
reported. Programs that do only such things are quiet. They hand on no sub-command, they neither
complete the command nor track it, and they leave `caw_lock` and the memory alone.

Of the values that quiet programs return it matters that a status is not a promise: a promise that
nobody has made is a command that is never completed.
-/

namespace LioProject

namespace Tcmu

/-- The operation does not concern the sub-commands of the command, nor its completion, and it
leaves `caw_lock` and the memory alone. -/
def Op.Quiet (c : Request) : Op → Prop
  | .store .. => False
  | .cawLock => False
  | .cawUnlock => False
  | .io .. => False
  | .enqueue _ => False
  | .putUnmap _ => False
  | .freeUnmap => False
  | .complete _ => False
  | .trackStart => False
  | .trackFinish => False
  | .spawnLock => c.dev.handler.lock = true
  | _ => True

/-- The program asks for quiet operations only, fails as in `F`, and ends with a value in `Q`. -/
def Quiet {α : Type} (c : Request) (F : Fault → Prop) (p : Daemon α) (Q : α → Prop) : Prop :=
  p.All (Op.Quiet c) F Q

section Quiet

variable {α β : Type} {c : Request} {F : Fault → Prop}

theorem quiet_pure {a : α} {Q : α → Prop} (h : Q a) : Quiet c F (pure a : Daemon α) Q :=
  Prog.all_pure h

theorem quiet_ask {o : Op} (h : o.Quiet c) : Quiet c F (ask o) fun _ => True := Prog.all_ask h

theorem Quiet.bind {p : Daemon α} {f : α → Daemon β} {R : α → Prop} {Q : β → Prop}
    (hp : Quiet c F p R) (hf : ∀ a, R a → Quiet c F (f a) Q) : Quiet c F (p >>= f) Q :=
  Prog.all_bind hp hf

theorem quiet_ask_bind {o : Op} {f : Ans o → Daemon β} {Q : β → Prop} (h : o.Quiet c)
    (hf : ∀ a, Quiet c F (f a) Q) : Quiet c F (ask o >>= f) Q :=
  (quiet_ask h).bind fun a _ => hf a

/-! ### Memory and the state of the device -/

theorem quiet_modifyRdev (f : TcmurDevice → TcmurDevice) :
    Quiet c F (modifyRdev f) fun _ => True :=
  quiet_ask_bind trivial fun _ => quiet_ask trivial

theorem quiet_allocIovec (length : ℕ) : Quiet c F (allocIovec length) fun _ => True := by
  refine quiet_ask_bind trivial fun a => ?_
  split
  · exact quiet_pure trivial
  · refine quiet_ask_bind trivial fun a => ?_
    cases a with
    | none => exact quiet_pure trivial
    | some buf => exact quiet_ask_bind trivial fun _ => quiet_pure trivial

theorem quiet_roundUp {a b : ℕ} (h : b ≠ 0 ∨ F .divByZero) :
    Quiet c F (roundUp a b) fun _ => b ≠ 0 := by
  rw [roundUp]
  split
  · rename_i hb
    exact Prog.all_fail (h.resolve_left (absurd hb))
  · rename_i hb
    exact quiet_pure hb

theorem quiet_unmapStateAlloc :
    Quiet c F unmapStateAlloc fun r => ∀ sts, r = some sts → sts ≠ .asyncHandled := by
  refine quiet_ask_bind trivial fun a => ?_
  split
  · exact quiet_pure fun sts h => by simp [← Option.some.inj h]
  · refine quiet_ask_bind trivial fun a => ?_
    split
    · exact quiet_pure fun sts h => by simp [← Option.some.inj h]
    · exact quiet_pure fun sts h => absurd h (by simp)

theorem quiet_writeVerifyInit (length : ℕ) :
    Quiet c F (writeVerifyInit length) fun _ => True := by
  refine quiet_ask_bind trivial fun a => ?_
  split
  · exact quiet_pure trivial
  · refine (quiet_allocIovec _).bind fun buf _ => ?_
    cases buf with
    | none => exact quiet_pure trivial
    | some buf =>
      refine quiet_ask_bind trivial fun a => ?_
      split
      · exact quiet_pure trivial
      · refine quiet_ask_bind trivial fun iov => quiet_ask_bind trivial fun a => ?_
        split
        · exact quiet_pure trivial
        · exact quiet_ask_bind trivial fun iov => quiet_pure trivial

theorem quiet_cawInitReadcmd (length : ℕ) :
    Quiet c F (cawInitReadcmd length) fun r => ∀ s, r = some s → s.requested = length := by
  refine quiet_ask_bind trivial fun a => ?_
  split
  · exact quiet_pure fun s h => absurd h (by simp)
  · refine quiet_ask_bind trivial fun a => ?_
    split
    · exact quiet_pure fun s h => absurd h (by simp)
    · refine (quiet_allocIovec _).bind fun buf _ => ?_
      cases buf with
      | none => exact quiet_pure fun s h => absurd h (by simp)
      | some buf => exact quiet_pure fun s h => by rw [← Option.some.inj h]

/-! ### The lock -/

theorem quiet_control {h : TcmurHandler} {k : Control} (hk : k.defined h = true ∨ F .nullCallout) :
    Quiet c F (control h k) fun _ => True := by
  rw [control]
  split
  · exact quiet_ask trivial
  · rename_i hnot
    exact Prog.all_fail (hk.resolve_left hnot)

theorem quiet_lockRetry {h : TcmurHandler} (hlock : h.lock = true) (tag retries : ℕ) :
    Quiet c F (lockRetry h tag retries) fun _ => True := by
  induction retries with
  | zero =>
    refine (quiet_control (k := .lock tag) (Or.inl hlock)).bind fun r _ => ?_
    dsimp only
    split
    · exact quiet_ask_bind trivial fun _ => quiet_pure trivial
    · exact quiet_pure trivial
  | succ retries ih =>
    refine (quiet_control (k := .lock tag) (Or.inl hlock)).bind fun r _ => ?_
    dsimp only
    split
    · refine quiet_ask_bind trivial fun a => ?_
      split
      · exact ih
      · exact quiet_ask_bind trivial fun _ => quiet_pure trivial
    · split
      · exact quiet_ask_bind trivial fun _ => quiet_pure trivial
      · exact quiet_pure trivial

theorem quiet_tcmuAcquireDevLock {h : TcmurHandler} (hlock : h.lock = true) (tag : ℕ) :
    Quiet c F (tcmuAcquireDevLock h tag) fun _ => True := by
  refine quiet_ask_bind trivial fun a => ?_
  dsimp only
  split
  · exact (quiet_lockRetry hlock tag 1).bind fun r _ =>
      (quiet_modifyRdev _).bind fun _ _ => quiet_pure trivial
  · exact (quiet_pure trivial : Quiet c F (pure _) fun _ => True).bind fun r _ =>
      (quiet_modifyRdev _).bind fun _ _ => quiet_pure trivial

theorem quiet_aluaLockThreadFn {h : TcmurHandler} (hlock : h.lock = true) :
    Quiet c F (aluaLockThreadFn h) fun _ => True :=
  (quiet_tcmuAcquireDevLock hlock _).bind fun _ _ => quiet_pure trivial

theorem quiet_lockTagRetry {h : TcmurHandler} (htag : h.getLockTag = true) (retries : ℕ) :
    Quiet c F (lockTagRetry h retries) fun r => r.1 ≠ .asyncHandled := by
  have hfound : ∀ {r : TcmuSts}, r = .ok ∨ r = .noLockHolders → r ≠ .asyncHandled := by
    rintro r (rfl | rfl)
    · simp
    · simp
  induction retries with
  | zero =>
    refine (quiet_control (k := .getLockTag) (Or.inl htag)).bind fun r _ => ?_
    dsimp only
    split
    · rename_i hr
      exact quiet_pure (hfound hr)
    · split
      · exact quiet_ask_bind trivial fun _ => quiet_ask_bind trivial fun _ => quiet_pure (by simp)
      · exact quiet_ask_bind trivial fun _ => quiet_pure (by simp)
  | succ retries ih =>
    refine (quiet_control (k := .getLockTag) (Or.inl htag)).bind fun r _ => ?_
    dsimp only
    split
    · rename_i hr
      exact quiet_pure (hfound hr)
    · split
      · refine quiet_ask_bind trivial fun a => ?_
        split
        · exact ih
        · exact quiet_ask_bind trivial fun _ => quiet_pure (by simp)
      · exact quiet_ask_bind trivial fun _ => quiet_pure (by simp)

theorem quiet_aluaCheckState :
    Quiet c F (aluaCheckState c.dev.handler) fun ret => ret ≠ .asyncHandled := by
  rw [aluaCheckState]
  split
  · exact quiet_pure (by simp)
  · rename_i hlock
    have hlock : c.dev.handler.lock = true := by simpa using hlock
    refine quiet_ask_bind trivial fun r => ?_
    split
    · split
      · exact quiet_pure (by simp)
      · exact quiet_pure (by simp)
    · refine quiet_ask_bind trivial fun r => ?_
      split
      · exact quiet_pure (by simp)
      · exact quiet_pure (by simp)
      · refine quiet_ask_bind trivial fun _ => quiet_ask_bind hlock fun a => ?_
        split
        · exact quiet_pure (by simp)
        · exact quiet_ask_bind trivial fun _ => quiet_pure (by simp)
    · exact quiet_pure (by simp)

/-! ### Target port groups -/

theorem quiet_aluaSetState (group : AluaGrp) (newState status : ℕ) :
    Quiet c F (aluaSetState group newState status) fun ret => ret ≠ .asyncHandled := by
  refine quiet_ask_bind trivial fun a => quiet_pure ?_
  split <;> simp

/-- Setting target port groups calls `lock`, which is checked, and for a group that goes to standby
`unlock`, which is not. -/
theorem quiet_tcmuExplicitTransition {h : TcmurHandler} {newState : ℕ}
    (hunlock : (h.lock = true → newState = 0x2 → h.unlock = true) ∨ F .nullCallout)
    (groups : List AluaGrp) (i : ℕ) (group : AluaGrp) :
    Quiet c F (tcmuExplicitTransition h groups i group newState) fun ret =>
      ret ≠ .asyncHandled := by
  unfold tcmuExplicitTransition
  split
  · exact quiet_pure (by simp)
  · split
    · split
      · exact quiet_aluaSetState _ _ _
      · rename_i hlock
        have hlock : h.lock = true := by simpa using hlock
        refine (quiet_tcmuAcquireDevLock hlock _).bind fun ret _ => ?_
        split
        · exact quiet_pure (by simp)
        · split
          · exact quiet_pure (by simp)
          · refine Quiet.bind (Prog.all_forM (fun other => ?_) _) fun _ _ =>
              quiet_aluaSetState _ _ _
            dsimp only
            split
            · exact (quiet_aluaSetState _ _ _).bind fun _ _ => quiet_pure trivial
            · exact quiet_pure trivial
    · dsimp only
      split
      · rename_i hlock
        refine Quiet.bind (R := fun _ => True) ?_ fun _ _ => quiet_aluaSetState _ _ _
        refine quiet_ask_bind trivial fun r => ?_
        split
        · exact quiet_pure trivial
        · exact (quiet_control (k := .unlock) (hunlock.imp_left fun h => h hlock rfl)).bind
            fun _ _ => quiet_modifyRdev _
      · exact quiet_aluaSetState _ _ _
    · exact quiet_pure (by simp)

/-- A descriptor of the parameter list at address `buf` asks for standby. -/
def AsksStandby (mem : Mem) (buf paramListLen : ℕ) : Prop :=
  ∃ k, 4 + 4 * k < paramListLen ∧ mem.byte (buf + (4 + 4 * k)) &&& 0x0f = 0x2

theorem quiet_setTgtPortGrps {h : TcmurHandler} {mem : Mem} {buf paramListLen : ℕ}
    (hunlock : (h.lock = true → AsksStandby mem buf paramListLen → h.unlock = true) ∨
      F .nullCallout) (groups : List AluaGrp) (enabled fuel : ℕ) :
    ∀ k, Quiet c F (setTgtPortGrps h groups enabled mem buf paramListLen fuel (4 + 4 * k))
      fun ret => ret ≠ .asyncHandled := by
  induction fuel with
  | zero => exact fun _ => quiet_pure (by simp)
  | succ fuel ih =>
    intro k
    rw [setTgtPortGrps]
    split
    · exact quiet_pure (by simp)
    · rename_i hoff
      split
      · exact quiet_pure (by simp)
      · split
        · exact quiet_pure (by simp)
        · split
          · exact quiet_pure (by simp)
          · have hstate : (h.lock = true → mem.byte (buf + (4 + 4 * k)) &&& 0x0f = 0x2 →
                h.unlock = true) ∨ F .nullCallout :=
              hunlock.imp_left fun h hlock hstandby =>
                h hlock ⟨k, Nat.not_le.mp hoff, hstandby⟩
            refine (quiet_tcmuExplicitTransition hstate _ _ _).bind fun ret hret => ?_
            split
            · exact quiet_pure hret
            · exact ih (k + 1)

theorem quiet_handleStpg
    (hunlock : (c.dev.handler.lock = true → c.dev.handler.unlock = true) ∨ F .nullCallout) :
    Quiet c F (handleStpg c) fun ret => ret ≠ .asyncHandled := by
  refine quiet_ask_bind trivial fun groups => ?_
  cases groups with
  | none => exact quiet_pure (by simp)
  | some groups =>
    dsimp only
    rw [tcmuEmulateSetTgtPortGrps]
    split
    · exact quiet_pure (by simp)
    · dsimp only
      split
      · exact quiet_pure (by simp)
      · refine quiet_ask_bind trivial fun buf => ?_
        cases buf with
        | none => exact quiet_pure (by simp)
        | some buf =>
          dsimp only
          split
          · exact quiet_pure (by simp)
          · exact quiet_ask_bind trivial fun mem =>
              quiet_setTgtPortGrps (hunlock.imp_left fun h hlock _ => h hlock) _ _ _ 0

theorem quiet_syncGroup (aoGroupId enabledGroupId : ℕ) (group : AluaGrp) :
    Quiet c F (syncGroup aoGroupId enabledGroupId group) fun _ => True := by
  have hdrop : Quiet c F (dropLostLock aoGroupId enabledGroupId group) fun _ => True := by
    rw [dropLostLock]
    split
    · exact quiet_modifyRdev _
    · exact quiet_pure trivial
  refine hdrop.bind fun _ _ => ?_
  by_cases hstate : (if aoGroupId = group.id then 0x0 else 0x2) = group.state
  · simp only [hstate, if_true]
    exact quiet_pure trivial
  · simp only [hstate, if_false]
    exact (quiet_aluaSetState _ _ _).bind fun _ _ => quiet_pure trivial

/-- Reporting target port groups calls `get_lock_tag`, which is checked. -/
theorem quiet_aluaSyncState (h : TcmurHandler) (groups : List AluaGrp) (enabledGroupId : ℕ) :
    Quiet c F (aluaSyncState h groups enabledGroupId) fun ret => ret ≠ .asyncHandled := by
  refine quiet_ask_bind trivial fun r => ?_
  split
  · exact quiet_pure (by simp)
  · rename_i hnot
    have htag : h.getLockTag = true := by simpa using (not_or.mp hnot).2
    have hget : Quiet c F (tcmuGetLockTag h) fun r => r.1 ≠ .asyncHandled := by
      refine quiet_ask_bind trivial fun r => ?_
      split
      · exact quiet_pure (by simp)
      · exact quiet_lockTagRetry htag 1
    refine hget.bind fun r hr => ?_
    dsimp only
    split
    · exact Quiet.bind (Prog.all_forM (quiet_syncGroup _ _) _) fun _ _ => quiet_pure (by simp)
    · split
      · exact quiet_pure hr
      · exact Quiet.bind (Prog.all_forM (quiet_syncGroup _ _) _) fun _ _ => quiet_pure (by simp)

theorem quiet_handleRtpg : Quiet c F (handleRtpg c) fun ret => ret ≠ .asyncHandled := by
  refine quiet_ask_bind trivial fun groups => ?_
  cases groups with
  | none => exact quiet_pure (by simp)
  | some groups =>
    dsimp only
    rw [tcmuEmulateReportTgtPortGrps]
    split
    · exact quiet_pure (by simp)
    · split
      · exact quiet_pure (by simp)
      · refine quiet_ask_bind trivial fun buf => ?_
        cases buf with
        | none => exact quiet_pure (by simp)
        | some buf => exact quiet_aluaSyncState _ _ _

/-! ### Commands that are answered at once -/

theorem quiet_handleSyncCmd
    (hunlock : (opcode c.cdb = .maintenanceOut → byteAt c.cdb 1 = 0x0a →
      c.dev.handler.lock = true → c.dev.handler.unlock = true) ∨ F .nullCallout) :
    Quiet c F (handleSyncCmd c) fun ret => ret ≠ .asyncHandled := by
  have hemulate : ∀ o, Quiet c F (do pure (← ask (.emulate o)).val) fun ret =>
      ret ≠ .asyncHandled :=
    fun o => quiet_ask_bind trivial fun a => quiet_pure a.property
  rw [handleSyncCmd]
  split
  any_goals exact hemulate _
  · split
    · exact hemulate _
    · exact quiet_pure (by simp)
  · split
    · exact quiet_pure (by simp)
    · exact hemulate _
  · split
    · exact hemulate _
    · exact quiet_pure (by simp)
  · rename_i hop
    split
    · rename_i haction
      exact quiet_handleStpg (hunlock.imp_left fun h => h hop haction)
    · exact quiet_pure (by simp)
  · split
    · exact quiet_handleRtpg
    · exact quiet_pure (by simp)
  · exact quiet_pure (by simp)

theorem quiet_handlePendingUa :
    Quiet c F (handlePendingUa c) fun ret => ret ≠ .asyncHandled ∧ ret ≠ .ok := by
  rw [handlePendingUa]
  split
  · exact quiet_pure (by simp)
  · refine quiet_ask_bind trivial fun r => ?_
    split
    · exact quiet_pure (by simp)
    · refine quiet_ask_bind trivial fun _ => quiet_pure ?_
      split <;> simp

/-- Data commands are not answered at once. -/
theorem handleSyncCmd_of_dataCmd {d : DataCmd} (h : dataCmd c.cdb = some d) :
    handleSyncCmd c = pure .notHandled := by
  rw [dataCmd] at h
  rw [handleSyncCmd]
  cases hop : opcode c.cdb <;> rw [hop] at h <;> first | rfl | exact absurd h (by simp)

end Quiet

/-! ### The checks -/

theorem checkLbas_ne_async (dev : Device) (lba n : ℕ) : checkLbas dev lba n ≠ .asyncHandled := by
  rw [checkLbas]
  split <;> simp

theorem checkIovecLength_ne_async (dev : Device) (cmd : TcmulibCmd) (n : ℕ) :
    checkIovecLength dev cmd n ≠ .asyncHandled := by
  rw [checkIovecLength]
  split <;> simp

theorem checkLbaAndLength_ne_async (dev : Device) (cmd : TcmulibCmd) (cdb : Cdb) (n : ℕ) :
    checkLbaAndLength dev cmd cdb n ≠ .asyncHandled := by
  rw [checkLbaAndLength]
  split
  · exact checkIovecLength_ne_async dev cmd n
  · exact checkLbas_ne_async dev _ n

theorem handleCawCheck_ne_async (c : Request) : handleCawCheck c ≠ .asyncHandled := by
  rw [handleCawCheck]
  split
  · exact checkIovecLength_ne_async _ _ _
  · exact checkLbas_ne_async _ _ _

theorem handleWritesameCheck_ne_async (c : Request) : handleWritesameCheck c ≠ .asyncHandled := by
  rw [handleWritesameCheck]
  repeat' split
  · simp
  · simp
  · simp
  · exact checkLbas_ne_async _ _ _

/-- A `WRITE SAME` that passes its checks has some blocks, which the device has too. -/
theorem handleWritesameCheck_ok {c : Request} (h : handleWritesameCheck c = .ok) :
    xferLengthOf c.cdb ≠ 0 ∧ checkLbas c.dev.geo (lbaOf c.cdb) (xferLengthOf c.cdb) = .ok := by
  rw [handleWritesameCheck] at h
  repeat' split at h
  · exact absurd h (by simp)
  · exact absurd h (by simp)
  · exact absurd h (by simp)
  · rename_i hzero _
    exact ⟨hzero, h⟩

/-! ### What quiet programs leave alone -/

/-- The state is the same as far as the sub-commands and the completion of the command go. -/
structure Life.Kept (s s' : Life) : Prop where
  /-- Whether the command has been processed. -/
  begun : s'.begun = s.begun
  /-- Its sub-commands. -/
  jobs : s'.jobs = s.jobs
  /-- The `struct unmap_state`. -/
  unmap : s'.unmap = s.unmap
  /-- The completions. -/
  completions : s'.completions = s.completions
  /-- How often it has been tracked. -/
  starts : s'.starts = s.starts
  /-- How often that has been finished. -/
  finishes : s'.finishes = s.finishes
  /-- What has brought the daemon down. -/
  fault : s'.fault = s.fault
  /-- What has failed remains so. -/
  torn : s.torn = true → s'.torn = true

theorem Life.Kept.refl (s : Life) : s.Kept s := ⟨rfl, rfl, rfl, rfl, rfl, rfl, rfl, id⟩

theorem Life.Kept.trans {s t u : Life} (h : s.Kept t) (h' : t.Kept u) : s.Kept u :=
  ⟨h'.1.trans h.1, h'.2.trans h.2, h'.3.trans h.3, h'.4.trans h.4, h'.5.trans h.5, h'.6.trans h.6,
    h'.7.trans h.7, fun hs => h'.8 (h.8 hs)⟩

theorem Life.Kept.fails (s : Life) : s.Kept s.fails :=
  ⟨rfl, rfl, rfl, rfl, rfl, rfl, rfl, fun h => by simp [Life.fails, h]⟩

theorem Op.Quiet.kept {c : Request} {s s' : Life} {o : Op} {a r : Ans o} (h : o.Quiet c)
    (hop : lifeInterp s o a = some (r, s')) : s.Kept s' := by
  cases o with
  | alloc =>
    obtain ⟨-, rfl⟩ := Prod.mk.inj (Option.some.inj hop)
    split
    · exact Life.Kept.refl s
    · exact Life.Kept.fails s
  | calloc =>
    obtain ⟨-, rfl⟩ := Prod.mk.inj (Option.some.inj hop)
    split
    · exact Life.Kept.refl s
    · exact Life.Kept.fails s
  | mutexInit =>
    obtain ⟨-, rfl⟩ := Prod.mk.inj (Option.some.inj hop)
    split
    · exact Life.Kept.refl s
    · exact Life.Kept.fails s
  | spawnLock =>
    obtain ⟨-, rfl⟩ := Prod.mk.inj (Option.some.inj hop)
    split
    · exact ⟨rfl, rfl, rfl, rfl, rfl, rfl, rfl, id⟩
    · exact Life.Kept.refl s
  | store => exact h.elim
  | cawLock => exact h.elim
  | cawUnlock => exact h.elim
  | io => exact h.elim
  | enqueue => exact h.elim
  | putUnmap => exact h.elim
  | freeUnmap => exact h.elim
  | complete => exact h.elim
  | trackStart => exact h.elim
  | trackFinish => exact h.elim
  | _ =>
    obtain ⟨-, rfl⟩ := Prod.mk.inj (Option.some.inj hop)
    exact Life.Kept.refl s

section Wp

variable {α β : Type} {c : Request} {A : (o : Op) → Ans o → Prop} {E : Fault → Life → Prop}
  {s : Life}

/-- **The rule for quiet programs.** -/
theorem wp_of_quiet {F : Fault → Prop} {p : Daemon α} {Q : α → Prop} {R : α → Life → Prop}
    (h : Quiet c F p Q) (hE : ∀ e u, F e → s.Kept u → E e u)
    (hR : ∀ a u, Q a → s.Kept u → R a u) : Prog.wp lifeInterp A E p R s :=
  Prog.wp_mono
    (Prog.wp_of_all h (fun _ ho _ _ _ _ hs hop => hs.trans (ho.kept hop)) hE (Life.Kept.refl s))
    fun a u hu => hR a u hu.1 hu.2

theorem wp_quiet {F : Fault → Prop} {p : Daemon α} {f : α → Daemon β} {Q : α → Prop}
    {R : β → Life → Prop} (h : Quiet c F p Q) (hE : ∀ e u, F e → s.Kept u → E e u)
    (hf : ∀ a u, Q a → s.Kept u → Prog.wp lifeInterp A E (f a) R u) :
    Prog.wp lifeInterp A E (p >>= f) R s :=
  Prog.wp_bind.mpr (wp_of_quiet h hE hf)

theorem wp_quiet_ask {o : Op} {f : Ans o → Daemon β} {R : β → Life → Prop} (h : o.Quiet c)
    (hf : ∀ a u, s.Kept u → Prog.wp lifeInterp A E (f a) R u) :
    Prog.wp lifeInterp A E (ask o >>= f) R s :=
  wp_quiet (quiet_ask h : Quiet c (fun _ => False) _ _) (fun _ _ hF => hF.elim)
    fun a u _ hu => hf a u hu

end Wp

end Tcmu

end LioProject
