import LioProject.Tcmu.Equipped

/-!
# Commands are completed once

A command that has been fetched is completed once when all its callbacks have run, and tracking it
has been finished as often as it has been started (`completed_once`). Whoever is in charge of the
command knows what is left to do: it is owed a completion and has no sub-command (`Owed`), it is
busy with sub-commands of which the last one will complete it (`Busy`), or it is settled
(`Settled`). A callback finds the command owed, and leaves it busy or settled.

There is one exception. When a `WRITE SAME` is carried out by unmapping and something fails after
the first sub-command has been dispatched, `handle_unmap_in_writesame` returns the error, which
completes the command, and the callbacks of the sub-commands complete it once more. Such a command
is torn (`Life.Torn`).

## Counting sub-commands

Unmaps share one `struct unmap_state`, and the last of them to be called back frees it and completes
the command. Which one is the last is told by `refcount`, an `unsigned int`: it is the number of
sub-commands modulo `2 ^ 32`, and a `WRITE SAME(16)` may be split into that many. Then the count is
zero again after the last dispatch, and the state is freed with all callbacks still to come. So a
sound command has fewer pieces (`DataCmd.Bounded`, `Device.pieceCount`), and only then is the count
what `Life.Charged` and `Life.Unmapping` say. For `UNMAP` this need not be asked for: there are four
descriptors at most, and each of them has at most 32M blocks (`Life.Splitting.unmapDescs`).

## Main definitions

* `Request.Sound`: what has to be true of a command and its device.
* `Polite`: what has to be true of the surroundings.
* `Life.Owed`, `Life.Busy`, `Life.Settled`, `Life.Torn`: how a command stands.
* `Pre`: what is true after a program, from a state on, in polite surroundings.

## Main results

Each handler and each callback has a lemma of its own, from a command that is owed to one that is
busy, settled or torn. They are put together in `pre_processCmd`, `Life.Whole.prog` and
`Life.Whole.step`, one event at a time, and `whole_of_run` goes over all events.

* `completed_once`: exactly-once completion, in every run.
* `writesame_completed_twice`: a write that is torn.
-/

namespace LioProject

namespace Tcmu

/-! ### Sound commands -/

/-- How many pieces `nlbas` blocks are split into: one of `lbas` blocks, and as many of `gran`
blocks as it takes. -/
def pieceCount (gran nlbas lbas : ℕ) : ℕ :=
  if nlbas = 0 then 0 else 1 + (nlbas - lbas + gran - 1) / gran

/-- The length of the first piece. -/
def Device.firstPiece (d : Device) (lba nlbas : ℕ) : ℕ :=
  min (sub64 d.optUnmapGran (lba &&& sub64 d.unmapGranAlign 1)) nlbas

/-- The number of pieces of a range. -/
def Device.pieceCount (d : Device) (lba nlbas : ℕ) : ℕ :=
  Tcmu.pieceCount d.optUnmapGran nlbas (d.firstPiece lba nlbas)

/-- The geometry of the device is such that loops end, nothing is divided by zero, and the pieces
can be counted in 32 bits. -/
def DataCmd.Bounded (c : Request) : DataCmd → Prop
  | .unmap => 0 < c.dev.geo.optUnmapGran
  | .writesame =>
    if c.writesByUnmap then (0 < c.dev.geo.optUnmapGran ∨ 0 < lbaOf c.cdb) ∧
      c.dev.geo.pieceCount (lbaOf c.cdb) (xferLengthOf c.cdb) < 2 ^ 32
    else c.dev.geo.maxXferLen * c.dev.geo.blockSize % 2 ^ 32 ≠ 0
  | .format => c.dev.geo.maxXferLen * c.dev.geo.blockSize % 2 ^ 32 ≠ 0
  | _ => True

/-- What has to be true of a command and its device. -/
structure Request.Sound (c : Request) : Prop where
  /-- The callouts that are used are defined. -/
  equipped : c.Equipped
  /-- Commands are not passed through to the handler. -/
  handleCmd : c.dev.handler.handleCmd = false
  /-- The device has been added by `dev_added`. -/
  added : ∃ size, c.dev.geo.Added size
  /-- The command is refused, or its loops end. -/
  bounded : ∀ d, dataCmd c.cdb = some d → d.Refused c ∨ d.Bounded c

/-- What has to be true of the surroundings: a handler without work threads does not call `done` for
an unmap before it returns, and one of the devices of a copy is the one the command was sent to. -/
def Polite (c : Request) : (o : Op) → Ans o → Prop
  | .io j _, a => c.dev.handler.nrThreads = 0 → j.isUnmap = true → ∀ now, a = .queued now →
      now = false
  | .mem, mem => dataCmd c.cdb = some .xcopy → ∀ par x, xcopyParseList c.dev c.ctx
      (copyParam mem par (xferLengthOf c.cdb) c.cmd.iov) par (xferLengthOf c.cdb) = .ok x →
      x.srcDev.isSome = true ∨ x.dstDev.isSome = true
  | _, _ => True

/-- A `WRITE SAME` that is split into unmaps. -/
def Request.SplitsWrite (c : Request) : Prop :=
  dataCmd c.cdb = some .writesame ∧ c.writesByUnmap = true

/-! ### States of a command -/

/-- The write of a `FORMAT UNIT` stays within the device. -/
def Job.Sane (c : Request) : Job → Prop
  | .format s => s.doneBlocks + s.length / c.dev.geo.blockSize ≤ c.dev.geo.numLbas
  | _ => True

namespace Life

/-- The command is neither tracked nor completed. -/
structure Open (s : Life) : Prop where
  /-- No sub-command is under way. -/
  jobs : s.jobs = []
  /-- The command has not been completed. -/
  completions : s.completions = []
  /-- Tracking it has been finished. -/
  finishes : s.finishes = s.starts
  /-- It has been tracked once at most. -/
  starts : s.starts ≤ 1
  /-- The daemon is up. -/
  fault : s.fault = none

/-- The command has still to be completed, and there is no sub-command that would do it. -/
structure Owed (s : Life) : Prop where
  /-- No sub-command is under way. -/
  jobs : s.jobs = []
  /-- The command has not been completed. -/
  completions : s.completions = []
  /-- It is tracked. -/
  starts : s.starts = 1
  /-- Tracking it has not been finished. -/
  finishes : s.finishes = 0
  /-- The daemon is up. -/
  fault : s.fault = none

/-- The command has been completed. -/
structure Settled (s : Life) : Prop where
  /-- No sub-command is under way. -/
  jobs : s.jobs = []
  /-- The command has been completed once. -/
  completions : s.completions.length = 1
  /-- Tracking it has been finished. -/
  finishes : s.finishes = s.starts
  /-- It has been tracked once at most. -/
  starts : s.starts ≤ 1
  /-- The daemon is up. -/
  fault : s.fault = none

/-- There are sub-commands, and the last of them to be called back goes on with the command. -/
def Charged (c : Request) (s : Life) : Prop :=
  (∃ x, s.jobs = [x] ∧ x.2.isUnmap = false ∧ x.2.Sane c) ∨
    s.jobs ≠ [] ∧ (∀ x ∈ s.jobs, x.2.isUnmap = true) ∧ s.jobs.length < 2 ^ 32 ∧
      s.unmap.map UnmapState.refcount = some s.jobs.length

/-- The command has still to be completed, and its sub-commands see to it. -/
structure Busy (c : Request) (s : Life) : Prop where
  /-- There are sub-commands to see to it. -/
  charged : s.Charged c
  /-- The command has not been completed. -/
  completions : s.completions = []
  /-- It is tracked. -/
  starts : s.starts = 1
  /-- Tracking it has not been finished. -/
  finishes : s.finishes = 0
  /-- The daemon is up. -/
  fault : s.fault = none

/-- The command is being split into unmaps, and `n` of them have been dispatched. -/
structure Splitting (n : ℕ) (s : Life) : Prop where
  /-- The command is being processed. -/
  begun : s.begun = false
  /-- The sub-commands are unmaps. -/
  unmaps : ∀ x ∈ s.jobs, x.2.isUnmap = true
  /-- There are `n` of them. -/
  length : s.jobs.length = n
  /-- The command has not been completed. -/
  completions : s.completions = []
  /-- It is tracked. -/
  starts : s.starts = 1
  /-- Tracking it has not been finished. -/
  finishes : s.finishes = 0
  /-- The daemon is up. -/
  fault : s.fault = none

/-- The command is about to be told of the end of one of its unmaps, which has been taken out. -/
structure Unmapping (s : Life) : Prop where
  /-- The other sub-commands are unmaps. -/
  unmaps : ∀ x ∈ s.jobs, x.2.isUnmap = true
  /-- All of them can be counted. -/
  fits : s.jobs.length + 1 < 2 ^ 32
  /-- The count is that of the other sub-commands and the one. -/
  refcount : s.unmap.map UnmapState.refcount = some (s.jobs.length + 1)
  /-- The command has not been completed. -/
  completions : s.completions = []
  /-- It is tracked. -/
  starts : s.starts = 1
  /-- Tracking it has not been finished. -/
  finishes : s.finishes = 0
  /-- The daemon is up. -/
  fault : s.fault = none

/-- A write that is split into unmaps has been torn: it has been completed, and it has sub-commands
that will complete it again. -/
def Torn (c : Request) (s : Life) : Prop := c.SplitsWrite ∧ s.torn = true

section Kept

variable {s u : Life} {n : ℕ}

theorem Open.kept (h : s.Open) (hu : s.Kept u) : u.Open :=
  ⟨hu.jobs.trans h.jobs, hu.completions.trans h.completions,
    hu.finishes.trans (h.finishes.trans hu.starts.symm), hu.starts.symm ▸ h.starts,
    hu.fault.trans h.fault⟩

theorem Owed.kept (h : s.Owed) (hu : s.Kept u) : u.Owed :=
  ⟨hu.jobs.trans h.jobs, hu.completions.trans h.completions, hu.starts.trans h.starts,
    hu.finishes.trans h.finishes, hu.fault.trans h.fault⟩

theorem Splitting.kept (h : s.Splitting n) (hu : s.Kept u) : u.Splitting n :=
  ⟨hu.begun.trans h.begun, hu.jobs.symm ▸ h.unmaps, hu.jobs.symm ▸ h.length,
    hu.completions.trans h.completions, hu.starts.trans h.starts, hu.finishes.trans h.finishes,
    hu.fault.trans h.fault⟩

theorem Owed.splitting (h : s.Owed) (hbegun : s.begun = false) : s.Splitting 0 :=
  ⟨hbegun, by simp [h.jobs], by simp [h.jobs], h.completions, h.starts, h.finishes, h.fault⟩

theorem Splitting.owed (h : s.Splitting 0) : s.Owed :=
  ⟨List.length_eq_zero_iff.mp h.length, h.completions, h.starts, h.finishes, h.fault⟩

/-- When the number of sub-commands has been written down, they see to the command. -/
theorem Splitting.busy {c : Request} (h : s.Splitting n) (hn : n ≠ 0) (hfits : n < 2 ^ 32)
    (error : Bool) (status : TcmuSts) :
    { s with unmap := some ⟨n, error, status⟩ : Life }.Busy c := by
  refine ⟨Or.inr ⟨fun hnil => hn ?_, h.unmaps, h.length.symm ▸ hfits, congrArg some h.length.symm⟩,
    h.completions, h.starts, h.finishes, h.fault⟩
  rw [← h.length, hnil, List.length_nil]

end Kept

end Life

/-! ### Programs on these states -/

section Pre

variable {α β : Type} {c : Request} {s : Life}

/-- The precondition in polite surroundings. Calling a `NULL` pointer is another matter, and nothing
is said about torn commands. -/
abbrev Pre (c : Request) (p : Daemon α) (Q : α → Life → Prop) (s : Life) : Prop :=
  Prog.wp lifeInterp (Polite c) (fun f u => f = .nullCallout ∨ u.Torn c) p Q s

theorem pre_quiet {p : Daemon α} {f : α → Daemon β} {Q : α → Prop} {R : β → Life → Prop}
    (h : Quiet c (fun f => f = .nullCallout) p Q)
    (hf : ∀ a u, Q a → s.Kept u → Pre c (f a) R u) : Pre c (p >>= f) R s :=
  wp_quiet h (fun _ _ hfault _ => Or.inl hfault) hf

/-- An operation that does nothing to the state of the command. -/
theorem pre_same {o : Op} {f : Ans o → Daemon β} {R : β → Life → Prop}
    (h : ∀ a r u, lifeInterp s o a = some (r, u) → u = s) (hf : ∀ r, Pre c (f r) R s) :
    Pre c (ask o >>= f) R s := by
  refine Prog.wp_ask_bind.mpr fun a _ r u hu => ?_
  rw [h a r u hu]
  exact hf r

theorem same_of_store {a : ℕ} {bs : List UInt8} (x r : Ans (.store a bs)) (u : Life)
    (h : lifeInterp s (.store a bs) x = some (r, u)) : u = s :=
  (Prod.mk.inj (Option.some.inj h)).2.symm

theorem same_of_cawLock (x r : Ans .cawLock) (u : Life)
    (h : lifeInterp s .cawLock x = some (r, u)) : u = s :=
  (Prod.mk.inj (Option.some.inj h)).2.symm

theorem same_of_cawUnlock (x r : Ans .cawUnlock) (u : Life)
    (h : lifeInterp s .cawUnlock x = some (r, u)) : u = s :=
  (Prod.mk.inj (Option.some.inj h)).2.symm

theorem torn_op {u : Life} {o : Op} {a r : Ans o} (h : s.torn = true)
    (hop : lifeInterp s o a = some (r, u)) : u.torn = true := by
  cases o with
  | io j co =>
    obtain ⟨-, rfl⟩ := Prod.mk.inj (Option.some.inj hop)
    cases a with
    | queued now => exact h
    | failed e => simp [Life.called, Life.fails, h]
  | alloc =>
    obtain ⟨-, rfl⟩ := Prod.mk.inj (Option.some.inj hop)
    split <;> simp [Life.fails, h]
  | calloc =>
    obtain ⟨-, rfl⟩ := Prod.mk.inj (Option.some.inj hop)
    split <;> simp [Life.fails, h]
  | mutexInit =>
    obtain ⟨-, rfl⟩ := Prod.mk.inj (Option.some.inj hop)
    split <;> simp [Life.fails, h]
  | spawnLock =>
    obtain ⟨-, rfl⟩ := Prod.mk.inj (Option.some.inj hop)
    split <;> exact h
  | _ =>
    obtain ⟨-, rfl⟩ := Prod.mk.inj (Option.some.inj hop)
    exact h

/-- A torn command remains torn, whatever is done. -/
theorem Life.Torn.pre (h : s.Torn c) (p : Daemon α) : Pre c p (fun _ u => u.Torn c) s :=
  Prog.wp_mono
    (Prog.wp_of_all (Prog.all_true p) (fun _ _ _ _ _ _ hs hop => ⟨hs.1, torn_op hs.2 hop⟩)
      (fun _ _ _ hu => Or.inr hu) h)
    fun _ _ hu => hu.2

/-! ### Dispatching and finishing -/

/-- What a function leaves behind that hands on sub-commands or returns a status: sub-commands see
to the command if it has promised so, and it is still owed a completion if not. -/
def Handed (c : Request) (ret : TcmuSts) (u : Life) : Prop :=
  ret = .asyncHandled ∧ u.Busy c ∨ ret ≠ .asyncHandled ∧ u.Owed ∨ u.Torn c

/-- What a callback leaves behind. -/
def Went (c : Request) (u : Life) : Prop := u.Settled ∨ u.Busy c ∨ u.Torn c

/-- The work function of a sub-command. -/
theorem pre_work (j : Job) : Pre c (j.work c) (fun r u => u = s.called j (j.callout c) r ∧
    (c.dev.handler.nrThreads = 0 → j.isUnmap = true → ∀ now, r = .queued now → now = false)) s := by
  rw [Job.work]
  split
  · intro a ha r u hu
    obtain ⟨rfl, rfl⟩ := Prod.mk.inj (Option.some.inj hu)
    cases a with
    | queued now => exact ⟨rfl, ha⟩
    | failed e => exact ⟨rfl, ha⟩
  · exact Or.inl rfl

theorem Life.Owed.busy {x : Bool × Job} {cs : List Callout} (h : s.Owed)
    (hjob : x.2.isUnmap = false) (hsane : x.2.Sane c) :
    { s with jobs := s.jobs ++ [x], calls := cs : Life }.Busy c :=
  ⟨Or.inl ⟨x, by simp [h.jobs], hjob, hsane⟩, h.completions, h.starts, h.finishes, h.fault⟩

/-- Dispatching a sub-command. -/
theorem Life.Owed.dispatch {j : Job} (h : s.Owed) (hjob : j.isUnmap = false) (hsane : j.Sane c) :
    Pre c (asyncHandleCmd c j) (Handed c) s := by
  rw [asyncHandleCmd]
  split
  · refine Prog.wp_seq (pre_work j) fun r u hu => ?_
    obtain ⟨rfl, -⟩ := hu
    cases r with
    | queued now =>
      dsimp only
      rw [if_neg (by simp [hjob])]
      exact Or.inl ⟨rfl, h.busy hjob hsane⟩
    | failed e => exact Or.inr (Or.inl ⟨e.ne_async, ⟨h.1, h.2, h.3, h.4, h.5⟩⟩)
  · refine pre_quiet (quiet_ask trivial) fun a u _ hu => ?_
    have hu := h.kept hu
    split
    · intro a _ r v hv
      obtain ⟨-, rfl⟩ := Prod.mk.inj (Option.some.inj hv)
      exact Or.inl ⟨rfl, hu.busy hjob hsane⟩
    · exact Or.inr (Or.inl ⟨by simp, hu⟩)

theorem Life.Owed.finish (h : s.Owed) (ret : TcmuSts) :
    Pre c (aioCommandFinish ret) (fun _ => Went c) s := by
  intro a _ r u hu
  obtain ⟨-, rfl⟩ := Prod.mk.inj (Option.some.inj hu)
  intro a _ r v hv
  obtain ⟨-, rfl⟩ := Prod.mk.inj (Option.some.inj hv)
  refine Or.inl ⟨h.jobs, ?_, ?_, ?_, h.fault⟩
  · change (s.completions ++ [ret]).length = 1
    rw [h.completions]
    rfl
  · change s.finishes + 1 = s.starts
    rw [h.finishes, h.starts]
  · exact h.starts.le

/-- Dispatch the next sub-command, and finish the command somehow if that fails. -/
theorem Life.Owed.next {j : Job} {f : TcmuSts → Daemon Unit} (h : s.Owed)
    (hjob : j.isUnmap = false) (hsane : j.Sane c) (hasync : f .asyncHandled = pure ())
    (hf : ∀ r u, r ≠ .asyncHandled → u.Owed → Pre c (f r) (fun _ => Went c) u) :
    Pre c (asyncHandleCmd c j >>= f) (fun _ => Went c) s := by
  refine Prog.wp_seq (h.dispatch hjob hsane) fun r u hu => ?_
  rcases hu with ⟨rfl, hu⟩ | ⟨hr, hu⟩ | hu
  · rw [hasync]
    exact Or.inr (Or.inl hu)
  · exact hf r u hr hu
  · exact Prog.wp_mono (hu.pre _) fun _ _ hv => Or.inr (Or.inr hv)

/-! ### Callbacks -/

theorem Life.Owed.handleWritesameCbk (h : s.Owed) (x : WriteSame) (ret : TcmuSts) :
    Pre c (handleWritesameCbk c x ret) (fun _ => Went c) s := by
  rw [Tcmu.handleWritesameCbk]
  dsimp only
  split
  · exact h.finish ret
  · split
    · exact h.finish ret
    · refine h.next rfl trivial (if_neg (by simp)) fun r u hr hu => ?_
      rw [if_pos hr]
      exact hu.finish _

theorem pre_finishUnlessAsync {r : TcmuSts} (hr : r ≠ .asyncHandled) (h : s.Owed) :
    Pre c (finishUnlessAsync r) (fun _ => Went c) s := by
  rw [finishUnlessAsync, if_neg hr]
  exact h.finish r

theorem Life.Owed.handleWriteVerifyWriteCbk (h : s.Owed) (x : WriteVerify) (ret : TcmuSts) :
    Pre c (handleWriteVerifyWriteCbk c x ret) (fun _ => Went c) s := by
  rw [Tcmu.handleWriteVerifyWriteCbk]
  split
  · exact h.finish ret
  · exact h.next rfl trivial rfl fun _ _ hr hu => pre_finishUnlessAsync hr hu

theorem Life.Owed.handleWriteVerifyReadCbk (h : s.Owed) (x : WriteVerify) (ret : TcmuSts) :
    Pre c (handleWriteVerifyReadCbk x ret) (fun _ => Went c) s := by
  rw [Tcmu.handleWriteVerifyReadCbk]
  split
  · exact h.finish ret
  · refine pre_quiet (quiet_ask trivial) fun mem u _ hu => ?_
    have hu := h.kept hu
    split
    · exact hu.finish _
    · exact pre_quiet (quiet_ask trivial) fun _ v _ hv => (hu.kept hv).finish _

theorem Life.Owed.cawFinish (h : s.Owed) (ret : TcmuSts) :
    Pre c (cawFinish ret) (fun _ => Went c) s :=
  pre_same same_of_cawUnlock fun _ => h.finish ret

theorem Life.Owed.handleCawReadCbk (h : s.Owed) (x : CawState) (ret : TcmuSts) :
    Pre c (handleCawReadCbk c x ret) (fun _ => Went c) s := by
  rw [Tcmu.handleCawReadCbk]
  split
  · exact h.cawFinish ret
  · refine pre_quiet (quiet_ask trivial) fun mem u _ hu => ?_
    have hu := h.kept hu
    split
    · exact pre_quiet (quiet_ask trivial) fun _ v _ hv => (hu.kept hv).cawFinish _
    · refine hu.next rfl trivial (if_neg (by simp)) fun r v hr hv => ?_
      rw [if_pos hr]
      exact hv.cawFinish _

theorem Life.Owed.handleXcopyReadCbk (h : s.Owed) (x : Xcopy) (ret : TcmuSts) :
    Pre c (handleXcopyReadCbk c x ret) (fun _ => Went c) s := by
  rw [Tcmu.handleXcopyReadCbk]
  split
  · exact h.finish ret
  · exact h.next rfl trivial rfl fun _ _ hr hu => pre_finishUnlessAsync hr hu

theorem Life.Owed.handleXcopyWriteCbk (h : s.Owed) (x : Xcopy) (ret : TcmuSts) :
    Pre c (handleXcopyWriteCbk c x ret) (fun _ => Went c) s := by
  rw [Tcmu.handleXcopyWriteCbk]
  split
  · exact h.finish ret
  · split
    · exact h.finish ret
    · exact h.next rfl trivial rfl fun _ _ hr hu => pre_finishUnlessAsync hr hu

theorem Life.Owed.formatFinish (h : s.Owed) (ret : TcmuSts) :
    Pre c (formatFinish ret) (fun _ => Went c) s :=
  pre_quiet (quiet_modifyRdev _) fun _ _ _ hu => (h.kept hu).finish ret

theorem add_div_le {n d b l : ℕ} (hd : d ≤ n) (hl : l ≤ (n - d) * b) : d + l / b ≤ n :=
  Nat.add_le_of_le_sub' hd (Nat.div_le_of_le_mul (by rwa [Nat.mul_comm]))

/-- The blocks done never exceed the blocks there are, so that the callback of a write has always
something to do: the next write, or the completion. -/
theorem Life.Owed.handleFormatUnitCbk (h : s.Owed) {x : FormatUnit} (hsane : (Job.format x).Sane c)
    (ret : TcmuSts) : Pre c (handleFormatUnitCbk c x ret) (fun _ => Went c) s := by
  have hdone : (x.doneBlocks + x.length / c.dev.geo.blockSize) % 2 ^ 32 ≤ c.dev.geo.numLbas :=
    (Nat.mod_le _ _).trans hsane
  rw [Tcmu.handleFormatUnitCbk]
  dsimp only
  split
  · exact h.formatFinish ret
  · rename_i hne
    rw [if_pos (lt_of_le_of_ne hdone hne)]
    refine pre_quiet (quiet_modifyRdev _) fun _ u _ hu => ?_
    refine pre_quiet (quiet_allocIovec _) fun buf v _ hv => ?_
    have hv := (h.kept hu).kept hv
    cases buf with
    | none => exact hv.formatFinish _
    | some buf =>
      refine hv.next rfl ?_ (if_neg (by simp)) fun r w hr hw => ?_
      · refine add_div_le hdone (le_trans ?_ (Nat.mod_le _ (2 ^ 64)))
        split
        · exact le_rfl
        · rename_i hlong
          exact not_lt.mp hlong
      · rw [if_pos hr]
        exact hw.formatFinish _

/-- **The callbacks**, of sub-commands that are alone. -/
theorem Life.Owed.done {j : Job} (h : s.Owed) (hjob : j.isUnmap = false) (hsane : j.Sane c)
    (ret : TcmuSts) : Pre c (j.done c ret) (fun _ => Went c) s := by
  cases j with
  | read => exact h.finish ret
  | write => exact h.finish ret
  | flush => exact h.finish ret
  | unmap => exact absurd hjob (by simp [Job.isUnmap])
  | writesame x => exact h.handleWritesameCbk x ret
  | verifyWrite x => exact h.handleWriteVerifyWriteCbk x ret
  | verifyRead x => exact h.handleWriteVerifyReadCbk x ret
  | cawRead x => exact h.handleCawReadCbk x ret
  | cawWrite iov => exact h.cawFinish ret
  | xcopyRead x => exact h.handleXcopyReadCbk x ret
  | xcopyWrite x => exact h.handleXcopyWriteCbk x ret
  | format x => exact h.handleFormatUnitCbk hsane ret

/-- The callback of one of several unmaps. The last of them finishes the command. -/
theorem Life.Unmapping.handleUnmapCbk (h : s.Unmapping) (ret : TcmuSts) :
    Pre c (handleUnmapCbk ret) (fun _ => Went c) s := by
  obtain ⟨x, hx, hcount⟩ := Option.map_eq_some_iff.mp h.refcount
  have hrefcount : (x.called ret).refcount = s.jobs.length := by
    change sub32 x.refcount 1 = _
    rw [hcount, sub32_eq (Nat.le_add_left _ _) h.fits, Nat.add_sub_cancel]
  refine Prog.wp_ask_bind.mpr fun a _ r u hu => ?_
  obtain ⟨rfl, rfl⟩ := Prod.mk.inj (Option.some.inj hu)
  rw [hx]
  dsimp only
  generalize x.called ret = y at hrefcount ⊢
  split
  · rename_i hpos
    intro a _ r v hv
    obtain ⟨-, rfl⟩ := Prod.mk.inj (Option.some.inj hv)
    have hfits : s.jobs.length < 2 ^ 32 := (Nat.lt_succ_self _).trans h.fits
    refine Or.inr (Or.inl ⟨Or.inr ⟨?_, h.unmaps, hfits, congrArg some hrefcount⟩, h.completions,
      h.starts, h.finishes, h.fault⟩)
    rw [hrefcount] at hpos
    exact List.ne_nil_of_length_pos hpos
  · rename_i hzero
    rw [hrefcount, not_lt, Nat.le_zero] at hzero
    intro a _ r v hv
    obtain ⟨-, rfl⟩ := Prod.mk.inj (Option.some.inj hv)
    have howed : { s with unmap := none : Life }.Owed :=
      ⟨List.length_eq_zero_iff.mp hzero, h.completions, h.starts, h.finishes, h.fault⟩
    exact howed.finish _

/-- What a work thread does with one of several unmaps. -/
theorem Life.Unmapping.ioWork {offset length : ℕ} (h : s.Unmapping) :
    Pre c (ioWork c (.unmap offset length)) (fun _ => Went c) s := by
  refine Prog.wp_seq (pre_work _) fun r u hu => ?_
  obtain ⟨rfl, -⟩ := hu
  cases r with
  | queued now =>
    have hlength : (s.called (.unmap offset length) (Job.callout c (.unmap offset length))
        (.queued now)).jobs.length = s.jobs.length + 1 := List.length_append
    refine Or.inr (Or.inl ⟨Or.inr ⟨?_, ?_, hlength ▸ h.fits, hlength ▸ h.refcount⟩, h.completions,
      h.starts, h.finishes, h.fault⟩)
    · simp [Life.called]
    · exact List.forall_mem_append.mpr ⟨h.unmaps, List.forall_mem_singleton.mpr rfl⟩
  | failed e =>
    have hcalled : (s.called (.unmap offset length) (Job.callout c (.unmap offset length))
        (.failed e)).Unmapping := ⟨h.1, h.2, h.3, h.4, h.5, h.6, h.7⟩
    exact hcalled.handleUnmapCbk e.sts

/-- What a work thread does with a sub-command that is alone. -/
theorem Life.Owed.ioWork {j : Job} (h : s.Owed) (hjob : j.isUnmap = false) (hsane : j.Sane c) :
    Pre c (ioWork c j) (fun _ => Went c) s := by
  refine Prog.wp_seq (pre_work j) fun r u hu => ?_
  obtain ⟨rfl, -⟩ := hu
  cases r with
  | queued now => exact Or.inr (Or.inl (h.busy hjob hsane))
  | failed e =>
    have howed : (s.called j (j.callout c) (.failed e)).Owed := ⟨h.1, h.2, h.3, h.4, h.5⟩
    exact howed.done hjob hsane e.sts

/-! ### Splitting into unmaps -/

theorem Life.Splitting.add {n : ℕ} {x : Bool × Job} {cs : List Callout} (h : s.Splitting n)
    (hx : x.2.isUnmap = true) :
    { s with jobs := s.jobs ++ [x], calls := cs : Life }.Splitting (n + 1) := by
  refine ⟨h.begun, ?_, by simp [h.length], h.completions, h.starts, h.finishes, h.fault⟩
  exact List.forall_mem_append.mpr ⟨h.unmaps, List.forall_mem_singleton.mpr hx⟩

/-- After a failure the number of sub-commands is the same, and if there are any the command is
torn. -/
theorem Life.Splitting.fails {n : ℕ} (h : s.Splitting n) :
    s.fails.Splitting n ∧ (0 < n → s.fails.torn = true) := by
  refine ⟨⟨h.1, h.2, h.3, h.4, h.5, h.6, h.7⟩, fun hn => ?_⟩
  have hjobs : s.jobs ≠ [] := List.ne_nil_of_length_pos (h.length.symm ▸ hn)
  simp [Life.fails, h.begun, hjobs]

/-- What the loops leave behind: `n` sub-commands, and a promise only if there are any. A failure
tears the command. -/
def Split (ret : TcmuSts) (n : ℕ) (u : Life) : Prop :=
  u.Splitting n ∧ (ret = .asyncHandled ∧ 0 < n ∨
    ret ≠ .asyncHandled ∧ (0 < n → u.torn = true))

theorem Life.Splitting.alloc {n : ℕ} {f : Bool → Daemon β} {Q : β → Life → Prop}
    (h : s.Splitting n) (htrue : ∀ u, u.Splitting n → Pre c (f true) Q u)
    (hfalse : ∀ u, Split .noResource n u → Pre c (f false) Q u) :
    Pre c (ask .alloc >>= f) Q s := by
  intro a _ r u hu
  obtain ⟨rfl, rfl⟩ := Prod.mk.inj (Option.some.inj hu)
  cases a with
  | true => exact htrue s h
  | false => exact hfalse s.fails ⟨h.fails.1, Or.inr ⟨by simp, h.fails.2⟩⟩

/-- Dispatching one of several unmaps. -/
theorem Life.Splitting.dispatch {n : ℕ} {j : Job} (h : s.Splitting n) (hjob : j.isUnmap = true)
    (hdev : j.dev c = c.dev) :
    Pre c (asyncHandleCmd c j) (fun ret u => ret = .asyncHandled ∧ u.Splitting (n + 1) ∨
      ret ≠ .asyncHandled ∧ Split ret n u) s := by
  rw [asyncHandleCmd, hdev]
  split
  · rename_i hthreads
    refine Prog.wp_seq (pre_work j) fun r u hu => ?_
    obtain ⟨rfl, hnow⟩ := hu
    cases r with
    | queued now =>
      obtain rfl := hnow hthreads hjob now rfl
      exact Or.inl ⟨rfl, h.add hjob⟩
    | failed e =>
      have hcalled : { s with calls := s.calls ++ [j.callout c] : Life }.Splitting n :=
        ⟨h.1, h.2, h.3, h.4, h.5, h.6, h.7⟩
      exact Or.inr ⟨e.ne_async, hcalled.fails.1, Or.inr ⟨e.ne_async, hcalled.fails.2⟩⟩
  · refine h.alloc (fun u hu => ?_) fun u hu => Or.inr ⟨by simp, hu⟩
    intro a _ r v hv
    obtain ⟨-, rfl⟩ := Prod.mk.inj (Option.some.inj hv)
    exact Or.inl ⟨rfl, hu.add hjob⟩

/-- After the first piece, one piece of `gran` blocks or less follows the other. -/
theorem pieceCount_step {gran nlbas lbas : ℕ} (hne : nlbas ≠ 0) (hgran : 0 < gran ∨ nlbas ≤ lbas) :
    pieceCount gran nlbas lbas =
      1 + pieceCount gran (nlbas - lbas) (min gran (nlbas - lbas)) := by
  rw [pieceCount, pieceCount, if_neg hne]
  congr 1
  rcases Nat.eq_zero_or_pos (nlbas - lbas) with hzero | hpos
  · rw [if_pos hzero, hzero]
    rcases Nat.eq_zero_or_pos gran with rfl | hgran
    · rfl
    · exact Nat.div_eq_of_lt (by omega)
  · have hgran : 0 < gran := hgran.resolve_right (by omega)
    rw [if_neg hpos.ne']
    rcases Nat.le_total gran (nlbas - lbas) with hle | hle
    · have hsum : nlbas - lbas + gran - 1 = nlbas - lbas - gran + gran - 1 + gran := by omega
      rw [min_eq_left hle, hsum, Nat.add_div_right _ hgran, Nat.add_comm]
    · have hone : nlbas - lbas + gran - 1 = nlbas - lbas - 1 + gran := by omega
      rw [min_eq_right hle, Nat.sub_self, hone, Nat.add_div_right _ hgran,
        Nat.div_eq_of_lt (by omega), Nat.div_eq_of_lt (by omega)]

/-- There is a piece for every block at most, and one that may be empty. -/
theorem pieceCount_le {gran nlbas lbas : ℕ} (hgran : 0 < gran) :
    pieceCount gran nlbas lbas ≤ nlbas + 1 := by
  rw [pieceCount]
  split
  · exact Nat.zero_le _
  · have hmul : nlbas ≤ nlbas * gran := Nat.le_mul_of_pos_right _ hgran
    have hlt : (nlbas - lbas + gran - 1) / gran < nlbas + 1 := by
      rw [Nat.div_lt_iff_lt_mul hgran, Nat.add_mul, Nat.one_mul]
      omega
    omega

/-- **The loop of `align_and_split_unmap`.** It ends because every piece but the first has at least
one block. As long as there are `N` pieces at most, they are counted. -/
theorem Life.Splitting.splitUnmap {N : ℕ} (hN : N < 2 ^ 32) (fuel : ℕ) :
    ∀ {s : Life} {lba nlbas lbas n : ℕ} {ret : TcmuSts},
    s.Splitting n → nlbas < fuel → (nlbas = 0 ∨ 0 < lbas ∨ nlbas + 1 < fuel) →
    (0 < c.dev.geo.optUnmapGran ∨ nlbas ≤ lbas) →
    n + pieceCount c.dev.geo.optUnmapGran nlbas lbas ≤ N →
    (nlbas = 0 → ret = .asyncHandled ∧ 0 < n) →
    Pre c (splitUnmap c fuel lba nlbas lbas n ret)
      (fun r u => Split r.1 r.2 u ∧
        r.2 ≤ n + pieceCount c.dev.geo.optUnmapGran nlbas lbas) s := by
  induction fuel with
  | zero => exact fun _ hfuel => absurd hfuel (by simp)
  | succ fuel ih =>
    intro s lba nlbas lbas n ret h hfuel hpiece hgran hcount hret
    rw [Tcmu.splitUnmap]
    split
    · rename_i hzero
      exact ⟨⟨h, Or.inl (hret hzero)⟩, Nat.le_add_right _ _⟩
    · rename_i hpos
      have hstep := pieceCount_step hpos hgran
      refine h.alloc (fun u hu => ?_) fun u hu => ⟨hu, Nat.le_add_right _ _⟩
      refine hu.alloc (fun v hv => ?_) fun v hv => ⟨hv, Nat.le_add_right _ _⟩
      refine Prog.wp_seq (hv.dispatch rfl rfl) fun r w hw => ?_
      rcases hw with ⟨rfl, hw⟩ | ⟨hr, hw⟩
      · have hmod : (n + 1) % 2 ^ 32 = n + 1 := Nat.mod_eq_of_lt (by omega)
        rw [if_neg (by simp), hmod]
        refine Prog.wp_mono (ih hw ?_ ?_ ?_ ?_ fun _ => ⟨rfl, Nat.succ_pos n⟩) fun r x hx => ?_
        · omega
        · omega
        · omega
        · omega
        · exact ⟨hx.1, by omega⟩
      · rw [if_pos hr]
        exact ⟨hw, Nat.le_add_right _ _⟩

theorem Life.Splitting.alignAndSplitUnmap {n N lba nlbas : ℕ} (h : s.Splitting n)
    (hnlbas : nlbas ≠ 0) (hgran : 0 < c.dev.geo.optUnmapGran ∨
      nlbas ≤ sub64 c.dev.geo.optUnmapGran (lba &&& sub64 c.dev.geo.unmapGranAlign 1))
    (hN : N < 2 ^ 32) (hcount : n + c.dev.geo.pieceCount lba nlbas ≤ N) :
    Pre c (alignAndSplitUnmap c lba nlbas n)
      (fun r u => Split r.1 r.2 u ∧ r.2 ≤ n + c.dev.geo.pieceCount lba nlbas) s := by
  refine h.splitUnmap hN _ (by omega) (by omega) ?_ hcount fun hzero => absurd hzero hnlbas
  exact hgran.imp_right fun hle => le_min hle le_rfl

/-- The loop over the block descriptors. Each of them has 2^25 blocks at most. -/
theorem Life.Splitting.unmapDescs {N : ℕ} (hN : N < 2 ^ 32) (hgran : 0 < c.dev.geo.optUnmapGran)
    (mem : Mem) (k : ℕ) : ∀ {s : Life} {a n : ℕ} {ret : TcmuSts}, s.Splitting n →
    n + k * (2 ^ 25 + 1) ≤ N → (ret = .asyncHandled → 0 < n) →
    Pre c (unmapDescs c mem k a n ret)
      (fun r u => u.Splitting r.2 ∧ r.2 ≤ N ∧ (r.1 = .asyncHandled → 0 < r.2)) s := by
  induction k with
  | zero => exact fun h hle hret => ⟨h, by omega, hret⟩
  | succ k ih =>
    intro s a n ret h hle _
    have hn : n ≤ N := (Nat.le_add_right _ _).trans hle
    rw [Nat.succ_mul] at hle
    rw [Tcmu.unmapDescs]
    dsimp only
    split
    · exact ⟨h, hn, fun hr => absurd hr (by simp)⟩
    · rename_i hmax
      split
      · exact ⟨h, hn, fun hr => absurd hr (checkLbas_ne_async _ _ _)⟩
      · split
        · exact ih h ((Nat.add_le_add_left (Nat.le_add_right _ _) _).trans hle)
            fun hr => absurd hr (by simp)
        · rename_i hnlbas
          have hpieces := @pieceCount_le _ (mem.be (a + 8) 4)
            (c.dev.geo.firstPiece (mem.be a 8) (mem.be (a + 8) 4)) hgran
          have hcount : n + c.dev.geo.pieceCount (mem.be a 8) (mem.be (a + 8) 4) ≤ N := by
            rw [Device.pieceCount]
            omega
          refine Prog.wp_seq (h.alignAndSplitUnmap hnlbas (Or.inl hgran) hN hcount)
            fun r u hu => ?_
          obtain ⟨hsplit, hgrown⟩ := hu
          rw [Device.pieceCount] at hgrown
          split
          · rename_i hr
            exact ⟨hsplit.1, by omega, fun hasync => absurd hasync hr⟩
          · refine ih hsplit.1 (by omega) fun _ => ?_
            rcases hsplit.2 with ⟨-, hpos⟩ | ⟨hr, -⟩
            · exact hpos
            · rename_i hasync
              exact absurd hasync hr

/-! ### Handlers -/

theorem Life.Owed.handleUnmapInternal (h : s.Owed) (hbegun : s.begun = false)
    (hgran : 0 < c.dev.geo.optUnmapGran) (mem : Mem) {bddl : ℕ} (hbddl : bddl / 16 ≤ 4)
    (par : ℕ) : Pre c (handleUnmapInternal c mem bddl par) (Handed c) s := by
  have hfour : 0 + bddl / 16 * (2 ^ 25 + 1) ≤ 4 * (2 ^ 25 + 1) := by
    rw [Nat.zero_add]
    exact Nat.mul_le_mul_right _ hbddl
  refine Prog.wp_seq ((h.splitting hbegun).unmapDescs (by norm_num) hgran mem _ hfour
    fun hr => absurd hr (by simp)) fun r u hu => ?_
  obtain ⟨hsplit, hcount, hasync⟩ := hu
  dsimp only
  split
  · rename_i hpos
    intro a _ r' v hv
    obtain ⟨-, rfl⟩ := Prod.mk.inj (Option.some.inj hv)
    exact Or.inl ⟨rfl, hsplit.busy hpos (by omega) _ _⟩
  · rename_i hzero
    have hzero : r.2 = 0 := by simpa using hzero
    intro a _ r' v hv
    obtain ⟨-, rfl⟩ := Prod.mk.inj (Option.some.inj hv)
    have howed := (hzero ▸ hsplit : u.Splitting 0).owed
    refine Or.inr (Or.inl ⟨fun hr => ?_, howed.1, howed.2, howed.3, howed.4, howed.5⟩)
    exact absurd (hasync hr) (by simp [hzero])

theorem Life.Owed.handleUnmap (h : s.Owed) (hbegun : s.begun = false)
    (hgran : 0 < c.dev.geo.optUnmapGran) : Pre c (handleUnmap c) (Handed c) s := by
  rw [Tcmu.handleUnmap]
  dsimp only
  split
  · exact Or.inr (Or.inl ⟨by simp, h⟩)
  · split
    · exact Or.inr (Or.inl ⟨by simp, h⟩)
    · split
      · exact Or.inr (Or.inl ⟨by simp, h⟩)
      · refine pre_quiet (quiet_ask trivial) fun par u _ hu => ?_
        cases par with
        | none => exact Or.inr (Or.inl ⟨by simp, h.kept hu⟩)
        | some par =>
          dsimp only
          split
          · exact Or.inr (Or.inl ⟨by simp, h.kept hu⟩)
          · refine pre_quiet (quiet_ask trivial) fun mem v _ hv => ?_
            have hv := hu.trans hv
            split
            · exact Or.inr (Or.inl ⟨by simp, h.kept hv⟩)
            · split
              · exact Or.inr (Or.inl ⟨by simp, h.kept hv⟩)
              · rename_i hbddl
                refine pre_quiet quiet_unmapStateAlloc fun r w hr hw => ?_
                have hw := hv.trans hw
                cases r with
                | some sts => exact Or.inr (Or.inl ⟨hr sts rfl, h.kept hw⟩)
                | none =>
                  exact (h.kept hw).handleUnmapInternal (hw.begun.trans hbegun) hgran _
                    (not_lt.mp hbddl) _

/-- Without a granularity everything behind block 0 is one piece, because the length of the first
piece wraps around. -/
theorem le_sub64_of_pos {d : Device} {size lba nlbas : ℕ} (hd : d.Added size) (hpos : 0 < lba)
    (hlba : lba < 2 ^ 64) (hnlbas : nlbas < 2 ^ 32) (hgran : d.optUnmapGran = 0)
    (hcheck : checkLbas d lba nlbas = .ok) :
    nlbas ≤ sub64 d.optUnmapGran (lba &&& sub64 d.unmapGranAlign 1) := by
  have hmask : sub64 d.unmapGranAlign 1 = 2 ^ 64 - 1 := by
    rw [hd.unmapGranAlign_eq]
    decide
  have hle := checkLbas_ok hlba (hnlbas.trans (by norm_num)) hcheck
  have hlbas : d.numLbas ≤ size := hd.numLbas_eq ▸ Nat.div_le_self _ _
  have hsize := hd.size_lt
  rw [hmask, Nat.and_two_pow_sub_one_eq_mod, Nat.mod_eq_of_lt hlba, hgran, sub64]
  omega

/-- **The torn write.** A failure after the first sub-command is returned, and the sub-commands see
to the command as well. -/
theorem Life.Owed.handleUnmapInWritesame (h : s.Owed) (hbegun : s.begun = false)
    (hsplits : c.SplitsWrite) (hnlbas : xferLengthOf c.cdb ≠ 0)
    (hgran : 0 < c.dev.geo.optUnmapGran ∨ xferLengthOf c.cdb ≤
      sub64 c.dev.geo.optUnmapGran (lbaOf c.cdb &&& sub64 c.dev.geo.unmapGranAlign 1))
    (hcount : c.dev.geo.pieceCount (lbaOf c.cdb) (xferLengthOf c.cdb) < 2 ^ 32) :
    Pre c (handleUnmapInWritesame c) (Handed c) s := by
  refine pre_quiet quiet_unmapStateAlloc fun r u hr hu => ?_
  cases r with
  | some sts => exact Or.inr (Or.inl ⟨hr sts rfl, h.kept hu⟩)
  | none =>
    have hsplitting := (h.kept hu).splitting (hu.begun.trans hbegun)
    refine Prog.wp_seq
      (hsplitting.alignAndSplitUnmap hnlbas hgran hcount (Nat.zero_add _).le) fun r v hv => ?_
    obtain ⟨⟨hsplit, hret⟩, hle⟩ := hv
    dsimp only
    split
    · rename_i hpos
      intro a _ r' w hw
      obtain ⟨-, rfl⟩ := Prod.mk.inj (Option.some.inj hw)
      rcases hret with ⟨hasync, -⟩ | ⟨-, htorn⟩
      · exact Or.inl ⟨hasync, hsplit.busy hpos (by omega) _ _⟩
      · exact Or.inr (Or.inr ⟨hsplits, htorn (Nat.pos_of_ne_zero hpos)⟩)
    · rename_i hzero
      have hzero : r.2 = 0 := by simpa using hzero
      rcases hret with ⟨-, hpos⟩ | ⟨hr, -⟩
      · exact absurd hpos (by simp [hzero])
      · intro a _ r' w hw
        obtain ⟨-, rfl⟩ := Prod.mk.inj (Option.some.inj hw)
        have howed := (hzero ▸ hsplit : v.Splitting 0).owed
        exact Or.inr (Or.inl ⟨hr, howed.1, howed.2, howed.3, howed.4, howed.5⟩)

theorem Life.Owed.handleWritesame {size : ℕ} (h : s.Owed) (hbegun : s.begun = false)
    (hcmd : dataCmd c.cdb = some .writesame) (hadded : c.dev.geo.Added size)
    (hcheck : handleWritesameCheck c = .ok) (hbounded : DataCmd.writesame.Bounded c) :
    Pre c (handleWritesame c) (Handed c) s := by
  obtain ⟨hnlbas, hlbas⟩ := handleWritesameCheck_ok hcheck
  rw [Tcmu.handleWritesame]
  dsimp only
  rw [if_neg (by simp [hcheck])]
  rw [DataCmd.Bounded] at hbounded
  split
  · rename_i hunmap
    rw [if_pos hunmap] at hbounded
    refine h.handleUnmapInWritesame hbegun ⟨hcmd, hunmap⟩ hnlbas ?_ hbounded.2
    rcases Nat.eq_zero_or_pos c.dev.geo.optUnmapGran with hgran | hgran
    · exact Or.inr (le_sub64_of_pos hadded (hbounded.1.resolve_left (by simp [hgran]))
        (lbaOf_lt _) (xferLengthOf_lt _) hgran hlbas)
    · exact Or.inl hgran
  · rename_i hunmap
    rw [if_neg hunmap] at hbounded
    refine pre_quiet (quiet_ask trivial) fun a u _ hu => ?_
    have hu := h.kept hu
    split
    · exact Or.inr (Or.inl ⟨by simp, hu⟩)
    · refine pre_quiet (quiet_roundUp (Or.inl hbounded)) fun length v _ hv => ?_
      refine pre_quiet (quiet_ask trivial) fun buf w _ hw => ?_
      have hw := (hu.kept hv).kept hw
      cases buf with
      | none => exact Or.inr (Or.inl ⟨by simp, hw⟩)
      | some buf =>
        refine pre_quiet (quiet_ask trivial) fun mem x _ hx => ?_
        exact pre_same same_of_store fun _ => (hw.kept hx).dispatch rfl trivial

theorem Life.Owed.handleWriteVerify (h : s.Owed) : Pre c (handleWriteVerify c) (Handed c) s := by
  rw [Tcmu.handleWriteVerify]
  split
  · exact Or.inr (Or.inl ⟨checkLbaAndLength_ne_async _ _ _ _, h⟩)
  · refine pre_quiet (quiet_writeVerifyInit _) fun x u _ hu => ?_
    cases x with
    | none => exact Or.inr (Or.inl ⟨by simp, h.kept hu⟩)
    | some x => exact (h.kept hu).dispatch rfl trivial

theorem Life.Owed.handleCaw (h : s.Owed) : Pre c (handleCaw c) (Handed c) s := by
  rw [Tcmu.handleCaw]
  split
  · exact Or.inr (Or.inl ⟨handleCawCheck_ne_async c, h⟩)
  · refine pre_quiet (quiet_cawInitReadcmd _) fun x u _ hu => ?_
    cases x with
    | none => exact Or.inr (Or.inl ⟨by simp, h.kept hu⟩)
    | some x =>
      refine pre_same same_of_cawLock fun _ => ?_
      refine Prog.wp_seq ((h.kept hu).dispatch rfl trivial) fun r w hw => ?_
      dsimp only
      split
      · exact pre_same same_of_cawUnlock fun _ => hw
      · exact hw

theorem Life.Owed.handleFormatUnit (h : s.Owed)
    (hxfer : c.dev.geo.maxXferLen * c.dev.geo.blockSize % 2 ^ 32 ≠ 0) :
    Pre c (handleFormatUnit c) (Handed c) s := by
  have hfail : ∀ u : Life, s.Kept u →
      Pre c (do clearFormat; pure .noResource) (Handed c) u := by
    intro u hu
    exact pre_quiet (quiet_modifyRdev _) fun _ v _ hv =>
      Or.inr (Or.inl ⟨by simp, h.kept (hu.trans hv)⟩)
  refine pre_quiet (quiet_ask trivial) fun r u _ hu => ?_
  split
  · exact pre_quiet (quiet_ask trivial) fun _ v _ hv =>
      Or.inr (Or.inl ⟨by simp, h.kept (hu.trans hv)⟩)
  · refine pre_quiet (quiet_ask trivial) fun _ v _ hv => ?_
    refine pre_quiet (quiet_ask trivial) fun a w _ hw => ?_
    have hw := (hu.trans hv).trans hw
    split
    · exact hfail w hw
    · refine pre_quiet (quiet_ask trivial) fun a x _ hx => ?_
      have hx := hw.trans hx
      split
      · exact hfail x hx
      · refine pre_quiet (quiet_roundUp (Or.inl hxfer)) fun length y _ hy => ?_
        refine pre_quiet (quiet_allocIovec _) fun buf z _ hz => ?_
        have hz := (hx.trans hy).trans hz
        cases buf with
        | none => exact hfail z hz
        | some buf =>
          refine Prog.wp_seq ((h.kept hz).dispatch rfl ?_) fun ret t ht => ?_
          · refine add_div_le (Nat.zero_le _) (le_trans ?_ (Nat.mod_le _ (2 ^ 64)))
            split
            · exact le_rfl
            · rename_i hlong
              exact not_lt.mp hlong
          · split
            · rename_i hret
              refine pre_quiet (quiet_modifyRdev _) fun _ t' _ ht' => ?_
              rcases ht with ⟨hasync, -⟩ | ⟨-, ht⟩ | ht
              · exact absurd hasync hret
              · exact Or.inr (Or.inl ⟨by simp, ht.kept ht'⟩)
              · exact Or.inr (Or.inr ⟨ht.1, ht'.torn ht.2⟩)
            · rename_i hret
              rw [not_not] at hret
              exact hret ▸ ht

/-- In polite surroundings the parser finds both devices or fails. -/
theorem pre_xcopyParseParameterList (hcmd : dataCmd c.cdb = some .xcopy) :
    Pre c (xcopyParseParameterList c)
      (fun r u => s.Kept u ∧ ∀ sts, r = .error sts → sts ≠ .asyncHandled) s := by
  refine pre_quiet (quiet_ask trivial) fun par u _ hu => ?_
  cases par with
  | none => exact ⟨hu, fun sts h => by simp [← Except.error.inj h]⟩
  | some par =>
    refine Prog.wp_ask_bind.mpr fun mem hmem r v hv => ?_
    obtain ⟨rfl, rfl⟩ := Prod.mk.inj (Option.some.inj hv)
    split
    · rename_i sts hsts
      exact ⟨hu, fun sts' h => Except.error.inj h ▸ parseList_ne_async hsts⟩
    · rename_i x hx
      obtain ⟨-, hboth⟩ := known_parseList hx
      have hlocal := hmem hcmd par x hx
      have hsrc : x.srcDev.isSome = true := hlocal.elim id hboth.mpr
      obtain ⟨src, hsrc'⟩ := Option.isSome_iff_exists.mp hsrc
      obtain ⟨dst, hdst'⟩ := Option.isSome_iff_exists.mp (hboth.mp hsrc)
      rw [hsrc', hdst']
      dsimp only
      repeat' split
      · exact ⟨hu, fun sts h => by simp [← Except.error.inj h]⟩
      · exact ⟨hu, fun sts h => by simp [← Except.error.inj h]⟩
      · exact ⟨hu, fun sts h => by simp [← Except.error.inj h]⟩
      · exact ⟨hu, fun sts h => absurd h (by simp)⟩

theorem Life.Owed.handleXcopy (h : s.Owed) (hcmd : dataCmd c.cdb = some .xcopy) :
    Pre c (handleXcopy c) (Handed c) s := by
  rw [Tcmu.handleXcopy]
  dsimp only
  split
  · exact Or.inr (Or.inl ⟨by simp, h⟩)
  · split
    · exact Or.inr (Or.inl ⟨by simp, h⟩)
    · refine pre_quiet (quiet_ask trivial) fun a u _ hu => ?_
      have hu := h.kept hu
      split
      · exact Or.inr (Or.inl ⟨by simp, hu⟩)
      · refine Prog.wp_seq (pre_xcopyParseParameterList hcmd) fun r v hv => ?_
        obtain ⟨hkept, herror⟩ := hv
        have hv := hu.kept hkept
        rcases r with sts | ⟨src, dst, x⟩
        · exact Or.inr (Or.inl ⟨herror sts rfl, hv⟩)
        · dsimp only
          split
          · exact Or.inr (Or.inl ⟨by simp, hv⟩)
          · refine pre_quiet (quiet_ask trivial) fun buf w _ hw => ?_
            cases buf with
            | none => exact Or.inr (Or.inl ⟨by simp, hv.kept hw⟩)
            | some buf => exact (hv.kept hw).dispatch rfl trivial

/-- **The handlers.** -/
theorem Life.Owed.handle {d : DataCmd} (h : s.Owed) (hbegun : s.begun = false) (hc : c.Sound)
    (hcmd : dataCmd c.cdb = some d) : Pre c (d.handle c) (Handed c) s := by
  by_cases hrefused : d.Refused c
  · exact wp_of_quiet (quiet_handle_of_refused hrefused) (fun _ _ hfault _ => Or.inl hfault)
      fun r u hr hu => Or.inr (Or.inl ⟨hr.1, h.kept hu⟩)
  · have hbounded := (hc.bounded d hcmd).resolve_left hrefused
    obtain ⟨size, hadded⟩ := hc.added
    cases d with
    | read =>
      rw [DataCmd.Refused] at hrefused
      rw [DataCmd.handle, handleRead, if_neg hrefused]
      exact h.dispatch rfl trivial
    | write =>
      rw [DataCmd.Refused] at hrefused
      rw [DataCmd.handle, handleWrite, if_neg hrefused]
      exact h.dispatch rfl trivial
    | unmap => exact h.handleUnmap hbegun hbounded
    | flush =>
      rw [DataCmd.handle]
      split
      · exact h.dispatch rfl trivial
      · exact Or.inr (Or.inl ⟨by simp, h⟩)
    | xcopy => exact h.handleXcopy hcmd
    | caw => exact h.handleCaw
    | writeVerify => exact h.handleWriteVerify
    | writesame =>
      rw [DataCmd.Refused, not_not] at hrefused
      exact h.handleWritesame hbegun hcmd hadded hrefused hbounded
    | format => exact h.handleFormatUnit hbounded

/-! ### Processing a command -/

/-- What is left behind by the functions above the handlers. -/
def Answered (c : Request) (ret : TcmuSts) (u : Life) : Prop :=
  ret = .asyncHandled ∧ u.Busy c ∨ ret ≠ .asyncHandled ∧ u.Open ∨ u.Torn c

theorem pre_untrack {ret : TcmuSts} (h : Handed c ret s) :
    Pre c (untrack ret) (Answered c) s := by
  rw [untrack]
  dsimp only
  split
  · rename_i hret
    intro a _ r u hu
    obtain ⟨-, rfl⟩ := Prod.mk.inj (Option.some.inj hu)
    rcases h with ⟨hasync, -⟩ | ⟨-, h⟩ | h
    · exact absurd hasync hret
    · refine Or.inr (Or.inl ⟨hret, h.jobs, h.completions, ?_, h.starts.le, h.fault⟩)
      change s.finishes + 1 = s.starts
      rw [h.finishes, h.starts]
    · exact Or.inr (Or.inr h)
  · rename_i hret
    rcases h with ⟨hasync, h⟩ | ⟨hret', -⟩ | h
    · exact Or.inl ⟨hasync, h⟩
    · exact absurd hret' hret
    · exact Or.inr (Or.inr h)

theorem pre_tcmurCmdHandler (hc : c.Sound) (h : s.Open) (hstarts : s.starts = 0)
    (hbegun : s.begun = false) : Pre c (tcmurCmdHandler c) (Answered c) s := by
  refine Prog.wp_ask_bind.mpr fun a _ r u hu => ?_
  obtain ⟨-, rfl⟩ := Prod.mk.inj (Option.some.inj hu)
  have howed : { s with starts := s.starts + 1 : Life }.Owed := by
    refine ⟨h.jobs, h.completions, ?_, h.finishes.trans hstarts, h.fault⟩
    change s.starts + 1 = 1
    rw [hstarts]
  refine pre_quiet (quiet_ask trivial) fun r u _ hu => ?_
  have howed := howed.kept hu
  split
  · exact pre_untrack (Or.inr (Or.inl ⟨by simp, howed⟩))
  · split
    · exact pre_untrack (Or.inr (Or.inl ⟨by simp, howed⟩))
    · rename_i d hd
      refine pre_quiet quiet_aluaCheckState fun ret v hret hv => ?_
      have hbegun : v.begun = false := (hv.begun.trans hu.begun).trans hbegun
      have howed := howed.kept hv
      split
      · exact pre_untrack (Or.inr (Or.inl ⟨hret, howed⟩))
      · exact Prog.wp_seq (howed.handle hbegun hc hd) fun ret w hw => pre_untrack hw

theorem pre_tcmurGenericHandleCmd (hc : c.Sound) (h : s.Open) (hstarts : s.starts = 0)
    (hbegun : s.begun = false) : Pre c (tcmurGenericHandleCmd c) (Answered c) s := by
  refine pre_quiet quiet_handlePendingUa fun ret u hret hu => ?_
  split
  · exact Or.inr (Or.inl ⟨hret.1, h.kept hu⟩)
  · refine pre_quiet (quiet_ask trivial) fun r v _ hv => ?_
    have hv := hu.trans hv
    split
    · exact pre_quiet (quiet_ask trivial) fun _ w _ hw =>
        Or.inr (Or.inl ⟨by simp, h.kept (hv.trans hw)⟩)
    · rw [handleTryPassthrough, if_pos (by simp [hc.handleCmd])]
      refine pre_quiet (quiet_pure rfl : Quiet c _ _ fun r => r = .notHandled) fun r w hr hw => ?_
      have hw := hv.trans hw
      rw [if_neg (by simp [hr])]
      refine pre_quiet (quiet_handleSyncCmd (Or.inl hc.equipped.unlock)) fun ret x hret hx => ?_
      have hx := hw.trans hx
      split
      · exact Or.inr (Or.inl ⟨hret, h.kept hx⟩)
      · exact pre_tcmurCmdHandler hc (h.kept hx) (hx.starts.trans hstarts) (hx.begun.trans hbegun)

/-- **Processing a command.** -/
theorem pre_processCmd (hc : c.Sound) (h : s.Open) (hstarts : s.starts = 0)
    (hbegun : s.begun = false) : Pre c (processCmd c) (fun _ => Went c) s := by
  refine Prog.wp_seq (pre_tcmurGenericHandleCmd hc h hstarts hbegun) fun ret u hu => ?_
  split
  · rename_i hret
    intro a _ r v hv
    obtain ⟨-, rfl⟩ := Prod.mk.inj (Option.some.inj hv)
    rcases hu with ⟨hasync, -⟩ | ⟨-, hu⟩ | hu
    · exact absurd hasync hret
    · refine Or.inl ⟨hu.jobs, ?_, hu.finishes, hu.starts, hu.fault⟩
      change (u.completions ++ [ret]).length = 1
      rw [hu.completions]
      rfl
    · exact Or.inr (Or.inr hu)
  · rename_i hret
    rcases hu with ⟨-, hu⟩ | ⟨hret', -⟩ | hu
    · exact Or.inr (Or.inl hu)
    · exact absurd hret' hret
    · exact Or.inr (Or.inr hu)

end Pre

/-! ### Runs -/

section Runs

variable {c : Request} {s : Life}

/-- A sub-command of a busy command is alone, or one of several unmaps. -/
theorem Life.Busy.erase {i : ℕ} {x : Bool × Job} (h : s.Busy c) (hx : s.jobs[i]? = some x) :
    x.2.isUnmap = false ∧ x.2.Sane c ∧ { s with jobs := s.jobs.eraseIdx i : Life }.Owed ∨
      x.2.isUnmap = true ∧ { s with jobs := s.jobs.eraseIdx i : Life }.Unmapping := by
  obtain ⟨hi, hget⟩ := List.getElem?_eq_some_iff.mp hx
  rcases h.charged with ⟨y, hy, hunmap, hsane⟩ | ⟨-, hunmaps, hfits, hcount⟩
  · have hzero : i = 0 := by
      rw [hy, List.length_singleton] at hi
      omega
    subst hzero
    obtain rfl : y = x := by simpa [hy] using hx
    exact Or.inl ⟨hunmap, hsane, by simp [hy], h.completions, h.starts, h.finishes, h.fault⟩
  · have hlength : (s.jobs.eraseIdx i).length + 1 = s.jobs.length := by
      rw [List.length_eraseIdx_of_lt hi]
      omega
    refine Or.inr ⟨hunmaps x (List.mem_of_getElem? hx), fun y hy => ?_, hlength ▸ hfits,
      hcount.trans (congrArg some hlength.symm), h.completions, h.starts, h.finishes, h.fault⟩
    exact hunmaps y (List.mem_of_mem_eraseIdx hy)

theorem Went.kept {u : Life} (h : Went c s) (hu : s.Kept u) : Went c u := by
  rcases h with h | h | h
  · exact Or.inl ⟨hu.jobs.trans h.jobs, hu.completions.symm ▸ h.completions,
      hu.finishes.trans (h.finishes.trans hu.starts.symm), hu.starts.symm ▸ h.starts,
      hu.fault.trans h.fault⟩
  · refine Or.inr (Or.inl ⟨?_, hu.completions.trans h.completions, hu.starts.trans h.starts,
      hu.finishes.trans h.finishes, hu.fault.trans h.fault⟩)
    have hcharged := h.charged
    rw [Life.Charged] at hcharged ⊢
    rwa [hu.jobs, hu.unmap]
  · exact Or.inr (Or.inr ⟨h.1, hu.torn h.2⟩)

/-- The invariant: a `NULL` pointer has been called, the command has not been fetched, or it goes
on as it should. -/
def Life.Whole (c : Request) (s : Life) : Prop :=
  s.fault = some .nullCallout ∨ (s.begun = false ∧ s.starts = 0 ∧ s.lockThreads = 0 ∧ s.Open) ∨
    s.begun = true ∧ Went c s

/-- The program of an event leaves the command going on as it should. -/
theorem Life.Whole.prog {u : Life} {e : LifeEvent} {p : Daemon Unit} (h : s.Whole c)
    (hc : c.Sound) (hfits : s.Fits True c) (hup : s.fault = none)
    (hprog : e.prog c s = some (p, u)) : Pre c p (fun _ => Went c) u := by
  have hnull : s.fault ≠ some .nullCallout := by simp [hup]
  have htorn : ∀ {p : Daemon Unit} {u : Life}, u.Torn c → Pre c p (fun _ => Went c) u :=
    fun hu => Prog.wp_mono (hu.pre _) fun _ _ hv => Or.inr (Or.inr hv)
  cases e with
  | fetch env =>
    rw [LifeEvent.prog] at hprog
    split at hprog
    · exact absurd hprog (by simp)
    · rename_i hbegun
      obtain ⟨rfl, rfl⟩ := Prod.mk.inj (Option.some.inj hprog)
      rcases h.resolve_left hnull with ⟨hfresh, hstarts, -, hopen⟩ | ⟨hdone, -⟩
      · exact pre_processCmd hc hopen hstarts hfresh
      · exact absurd hdone hbegun
  | work i env =>
    rw [LifeEvent.prog] at hprog
    split at hprog
    · rename_i j hj
      obtain ⟨rfl, rfl⟩ := Prod.mk.inj (Option.some.inj hprog)
      rcases h.resolve_left hnull with ⟨-, -, -, hopen⟩ | ⟨-, hsettled | hbusy | hs⟩
      · exact absurd hj (by simp [hopen.jobs])
      · exact absurd hj (by simp [hsettled.jobs])
      · rcases hbusy.erase hj with ⟨hjob, hsane, howed⟩ | ⟨hjob, hunmapping⟩
        · exact howed.ioWork hjob hsane
        · cases j with
          | unmap offset length => exact hunmapping.ioWork
          | _ => exact absurd hjob (by simp [Job.isUnmap])
      · exact htorn hs
    · exact absurd hprog (by simp)
  | done i ret env =>
    rw [LifeEvent.prog] at hprog
    split at hprog
    · rename_i j hj
      obtain ⟨rfl, rfl⟩ := Prod.mk.inj (Option.some.inj hprog)
      rcases h.resolve_left hnull with ⟨-, -, -, hopen⟩ | ⟨-, hsettled | hbusy | hs⟩
      · exact absurd hj (by simp [hopen.jobs])
      · exact absurd hj (by simp [hsettled.jobs])
      · rcases hbusy.erase hj with ⟨hjob, hsane, howed⟩ | ⟨hjob, hunmapping⟩
        · exact howed.done hjob hsane ret
        · cases j with
          | unmap offset length => exact hunmapping.handleUnmapCbk ret
          | _ => exact absurd hjob (by simp [Job.isUnmap])
      · exact htorn hs
    · exact absurd hprog (by simp)
  | lockThread env =>
    rw [LifeEvent.prog] at hprog
    split at hprog
    · exact absurd hprog (by simp)
    · rename_i hthreads
      obtain ⟨rfl, rfl⟩ := Prod.mk.inj (Option.some.inj hprog)
      have hlock := hfits.lockThreads (Nat.pos_of_ne_zero hthreads)
      rcases h.resolve_left hnull with ⟨-, -, hnone, -⟩ | ⟨-, hwent⟩
      · exact absurd hnone hthreads
      · have hkept : s.Kept { s with lockThreads := s.lockThreads - 1 } :=
          ⟨rfl, rfl, rfl, rfl, rfl, rfl, rfl, id⟩
        exact wp_of_quiet (quiet_aluaLockThreadFn (c := c) hlock)
          (fun _ _ hfault _ => Or.inl hfault) fun _ v _ hv => hwent.kept (hkept.trans hv)

/-- One event keeps the invariant. -/
theorem Life.Whole.step {s' : Life} {e : LifeEvent} (h : s.Whole c) (hc : c.Sound)
    (hfits : s.Fits True c) (henv : ∀ n o, Polite c o (e.env n o))
    (hstep : lifeStep c s e = some s') : s'.Whole c := by
  obtain ⟨hup, p, u, x, v, hprog, hexec, rfl⟩ := lifeStep_cases hstep
  rcases Prog.exec_of_wp (h.prog hc hfits hup hprog) henv hexec with ⟨_, rfl, hv⟩ | ⟨f, rfl, hv⟩
  · refine Or.inr (Or.inr ⟨rfl, ?_⟩)
    rcases hv with hv | hv | hv
    · exact Or.inl ⟨hv.1, hv.2, hv.3, hv.4, hv.5⟩
    · exact Or.inr (Or.inl ⟨hv.1, hv.2, hv.3, hv.4, hv.5⟩)
    · exact Or.inr (Or.inr hv)
  · rcases hv with rfl | hv
    · exact Or.inl rfl
    · exact Or.inr (Or.inr ⟨rfl, Or.inr (Or.inr hv)⟩)

theorem whole_of_run {es : List LifeEvent} (hc : c.Sound)
    (hes : ∀ e ∈ es, ∀ n o, Polite c o (e.env n o))
    (hrun : run (lifeStep c) Life.init es = some s) : s.Whole c := by
  have hinit : Life.init.Whole c :=
    Or.inr (Or.inl ⟨rfl, rfl, rfl, rfl, rfl, rfl, Nat.zero_le _, rfl⟩)
  have hkeep : ∀ t e t', (∀ n o, Polite c o (e.env n o)) → t.Fits True c ∧ t.Whole c →
      lifeStep c t e = some t' → t'.Fits True c ∧ t'.Whole c :=
    fun t e t' he ht hstep => ⟨ht.1.step (fun _ => hc.equipped.supplies e) hstep,
      ht.2.step hc ht.1 he hstep⟩
  exact (run_invariant_of hkeep hes ⟨Life.fits_init, hinit⟩ hrun).2

/-- **Exactly-once completion.** In every run of a sound command, in polite surroundings, that does
not tear a write, the daemon stays up and the command is completed at most once. When it has been
processed and no sub-command is left, it has been completed exactly once, and tracking it has been
finished as often as it has been started. -/
theorem completed_once {es : List LifeEvent} (hc : c.Sound)
    (hes : ∀ e ∈ es, ∀ n o, Polite c o (e.env n o))
    (hrun : run (lifeStep c) Life.init es = some s) (htorn : c.SplitsWrite → s.torn = false) :
    s.fault = none ∧ s.completions.length ≤ 1 ∧ s.starts ≤ 1 ∧ s.finishes ≤ s.starts ∧
      (s.begun = true → s.jobs = [] → s.completions.length = 1 ∧ s.finishes = s.starts) := by
  have hnull := (fits_of_run (K := True) (fun _ e _ => hc.equipped.supplies e) hrun).fault trivial
  rcases (whole_of_run hc hes hrun).resolve_left hnull with ⟨hfresh, -, -, hopen⟩ | ⟨-, h⟩
  · refine ⟨hopen.fault, by simp [hopen.completions], hopen.starts, hopen.finishes.le, ?_⟩
    exact fun hbegun => absurd hbegun (by simp [hfresh])
  · rcases h with h | h | h
    · exact ⟨h.fault, h.completions.le, h.starts, h.finishes.le, fun _ _ =>
        ⟨h.completions, h.finishes⟩⟩
    · refine ⟨h.fault, by simp [h.completions], h.starts.le, by simp [h.finishes], ?_⟩
      intro _ hjobs
      rcases h.charged with ⟨x, hx, -⟩ | ⟨hne, -⟩
      · exact absurd hjobs (by simp [hx])
      · exact absurd hjobs hne
    · exact absurd h.2 (by simp [htorn h.1])

/-- A handler that can unmap. -/
def unmapHandler : TcmurHandler := { allocHandler with unmap := true }

/-- What an `UNMAP` of one block leaves behind in the end. -/
def unmapLife : Life :=
  { Life.init with
    begun := true
    calls := [.unmap (smallDev unmapHandler) 0 512]
    completions := [.ok]
    starts := 1
    finishes := 1 }

theorem polite_calm (hcmd : dataCmd c.cdb ≠ some .xcopy) (mem : Mem) (n : ℕ) (o : Op) :
    Polite c o (calm mem n o) := by
  cases o with
  | io j co => exact fun _ _ now hnow => by simpa [calm] using hnow.symm
  | mem => exact fun h => absurd h hcmd
  | _ => trivial

/-- The `UNMAP` of one block is completed once. -/
theorem completed_once_unmap :
    run (lifeStep (unmapRequest unmapHandler)) Life.init
      [.fetch (calm unmapParam), .work 0 (calm unmapParam), .done 0 .ok (calm unmapParam)] =
      some unmapLife ∧
    unmapLife.completions.length = 1 ∧ unmapLife.finishes = unmapLife.starts := by
  have hrun : run (lifeStep (unmapRequest unmapHandler)) Life.init
      [.fetch (calm unmapParam), .work 0 (calm unmapParam), .done 0 .ok (calm unmapParam)] =
      some unmapLife := by decide +kernel
  have hcmd : dataCmd (unmapRequest unmapHandler).cdb = some .unmap := by decide
  have hsound : (unmapRequest unmapHandler).Sound := by
    refine ⟨⟨fun d hd => ?_, fun hop => absurd hop (by decide)⟩, rfl, ⟨4096, ?_⟩, fun d hd => ?_⟩
    · obtain rfl := Option.some.inj (hcmd.symm.trans hd)
      exact Or.inr rfl
    · exact ⟨by decide, by decide, by decide, by decide, by decide, rfl, rfl⟩
    · obtain rfl := Option.some.inj (hcmd.symm.trans hd)
      exact Or.inr (by decide : 0 < 128)
  refine ⟨hrun, (completed_once hsound (fun e he n o => ?_) hrun fun _ => rfl).2.2.2.2 rfl rfl⟩
  have henv : e.env = calm unmapParam := by
    simp only [List.mem_cons, List.not_mem_nil, or_false] at he
    rcases he with rfl | rfl | rfl <;> rfl
  rw [henv]
  exact polite_calm (by simp [hcmd]) unmapParam n o

/-- `WRITE SAME(10)` of two blocks, with the bit that asks for unmapping, on a device on which every
block is unmapped by itself. -/
def writesameRequest : Request :=
  { smallRequest unmapHandler [0x41, 0x08, 0, 0, 0, 0, 0, 0, 2, 0] ⟨0x2000, 512⟩ with
    dev := ⟨0, ⟨512, 8, 1, 1, 0⟩, unmapHandler, none⟩ }

/-- Surroundings in which an allocation fails. -/
def failingAlloc (k : ℕ) (env : Prog.Env Op Ans) : Prog.Env Op Ans := fun n o =>
  match o with
  | .alloc => n != k
  | o => env n o

/-- The allocation for the second block fails, and the command is completed with an error. When the
first block has been unmapped it is completed again, and tracking it is finished again. -/
theorem writesame_completed_twice :
    (run (lifeStep writesameRequest) Life.init
      [.fetch (failingAlloc 10 (calm fun _ => 0)), .work 0 (calm fun _ => 0),
        .done 0 .ok (calm fun _ => 0)]).map
      (fun s => (s.jobs, s.completions, s.starts, s.finishes)) =
    some ([], [.noResource, .ok], 1, 2) := by
  decide +kernel

end Runs

end Tcmu

end LioProject
