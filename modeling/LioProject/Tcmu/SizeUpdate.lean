import LioProject.Lib.Run
import LioProject.Tcmu.Equipped

/-!
# Changing the size of a device

A handler that finds its storage grown calls `tcmur_dev_update_size`. The number of blocks is
changed, the kernel is told, and if that fails, the old size is restored by the same function that
has set the new one. This function refuses a size of 0. So a device without blocks, which
`dev_added` accepts and a size below one block makes, keeps the new number of blocks when the
update fails (`size_update_iff`).

That the size has changed is reported to the initiator by the next command but `INQUIRY` and
`REQUEST SENSE`. A handler that takes all commands as they are never gets to report it.
-/

namespace LioProject

namespace Tcmu

/-! ### The functions -/

/-- `tcmu_update_num_lbas`. -/
def tcmuUpdateNumLbas (d : Device) (newSize : ℕ) : ℤ × Device :=
  if newSize = 0 then (-22, d) else (0, { d with numLbas := newSize / d.blockSize })

/-- `tcmur_set_pending_ua`. -/
def tcmurSetPendingUa (ua : ℕ) (r : TcmurDevice) : TcmurDevice :=
  { r with pendingUas := r.pendingUas ||| 1 <<< ua }

/-- `TCMUR_UA_DEV_SIZE_CHANGED`. -/
def uaDevSizeChanged : ℕ := 0

/-- `tcmur_dev_update_size`, where `setRet` is what `tcmu_set_dev_size` returns. -/
def tcmurDevUpdateSize (d : Device) (r : TcmurDevice) (newSize : ℕ) (setRet : ℤ) :
    ℤ × Device × TcmurDevice :=
  let oldSize := d.numLbas * d.blockSize % 2 ^ 64
  let (ret, d) := tcmuUpdateNumLbas d newSize
  if ret ≠ 0 then (ret, d, r)
  else if setRet ≠ 0 then (setRet, (tcmuUpdateNumLbas d oldSize).2, r)
  else (0, d, tcmurSetPendingUa uaDevSizeChanged r)

/-- `tcmur_handler_is_passthrough_only`. -/
def tcmurHandlerIsPassthroughOnly (h : TcmurHandler) : Bool := !(h.write || h.read || h.flush)

/-- What the operations do, as far as the `struct tcmur_device` goes. -/
def rdevInterp : Prog.Interp Op Ans TcmurDevice := fun r o =>
  match o with
  | .getRdev => fun _ => some (r, r)
  | .putRdev r' => fun a => some (a, r')
  | _ => fun a => some (a, r)

/-! ### The system -/

/-- What happens to a device. -/
inductive SizeEvent where
  /-- Its handler calls `tcmur_dev_update_size`, and `tcmu_set_dev_size` returns `setRet`. -/
  | update (newSize : UInt64) (setRet : ℤ)
  /-- A command comes. In the meantime the other fields of the `struct tcmur_device` have become
  `others`. -/
  | cmd (c : Request) (env : Prog.Env Op Ans) (others : TcmurDevice)

/-- What has come of it. -/
inductive Outcome where
  /-- An update: what it has returned, and `num_lbas` and `pending_uas` before and after it. -/
  | updated (newSize : ℕ) (ret : ℤ) (before after : ℕ × ℕ)
  /-- A command: what `handle_pending_ua` has returned. If it is `TCMU_STS_NOT_HANDLED`, or has not
  been called, the command is executed. -/
  | answered (o : Opcode) (sts : TcmuSts)

/-- The update has been successful. -/
def Outcome.succeeds : Outcome → Bool
  | .updated _ ret _ _ => ret = 0
  | _ => false

/-- The command is one that reports what is pending. -/
def Outcome.counts : Outcome → Bool
  | .answered o _ => o ≠ .inquiry ∧ o ≠ .requestSense
  | _ => false

/-- The command has reported a new size instead of being executed. -/
def Outcome.reports : Outcome → Bool
  | .answered _ sts => sts = .capacityChanged
  | _ => false

/-- A device, and what has happened to it. -/
structure SizeSys where
  /-- Its geometry. -/
  dev : Device
  /-- Its handler. -/
  handler : TcmurHandler
  /-- `rdev`. -/
  rdev : TcmurDevice
  /-- What has happened. -/
  log : List Outcome

/-- One event. -/
def SizeSys.step (s : SizeSys) : SizeEvent → Option SizeSys
  | .update newSize setRet =>
    let (ret, dev, rdev) := tcmurDevUpdateSize s.dev s.rdev newSize.toNat setRet
    some { s with
      dev := dev
      rdev := rdev
      log := s.log ++ [.updated newSize.toNat ret (s.dev.numLbas, s.rdev.pendingUas)
        (dev.numLbas, rdev.pendingUas)] }
  | .cmd c env others =>
    let rdev := { others with pendingUas := s.rdev.pendingUas }
    if tcmurHandlerIsPassthroughOnly s.handler then
      some { s with rdev := rdev, log := s.log ++ [.answered (opcode c.cdb) .notHandled] }
    else
      match (handlePendingUa c).exec rdevInterp env rdev with
      | some (.ok sts, rdev) =>
        some { s with rdev := rdev, log := s.log ++ [.answered (opcode c.cdb) sts] }
      | _ => none

/-- A device that has just been added: `rdev` has been allocated with `calloc`. -/
def SizeSys.added (d : Device) (h : TcmurHandler) (rdev : TcmurDevice) : SizeSys :=
  ⟨d, h, { rdev with pendingUas := 0 }, []⟩

/-! ### What is to be shown -/

/-- The number of blocks that the last successful update has set. -/
def lastSize (blockSize init : ℕ) (l : List Outcome) : ℕ :=
  l.foldl (fun n y =>
    match y with
    | .updated newSize ret _ _ => if ret = 0 then newSize / blockSize else n
    | .answered .. => n) init

/-- After the last successful update there has been no command that could have reported it. -/
def Owed (l : List Outcome) : Prop :=
  ∃ l₁ u l₂, l = l₁ ++ u :: l₂ ∧ u.succeeds = true ∧ ∀ z ∈ l₂, z.counts = false

/-- The device has the size of the last successful update, failed updates have changed nothing, and
a command has reported a new size if and only if it was to do so. -/
structure SizeSys.Atomic (d : Device) (s : SizeSys) : Prop where
  /-- The size is that of the last successful update. -/
  size : s.dev.numLbas = lastSize d.blockSize d.numLbas s.log
  /-- Failed updates have changed nothing. -/
  failed : ∀ newSize ret before after, .updated newSize ret before after ∈ s.log → ret ≠ 0 →
    after = before
  /-- A new size has been reported once, and before anything else. -/
  reported : ∀ l y l', s.log = l ++ y :: l' → (y.reports = true ↔ y.counts = true ∧ Owed l)

/-- If the update fails in the kernel, the old size can be restored. If a size is to be reported,
commands get to report it. -/
def SizeSys.Safe (s : SizeSys) : SizeEvent → Prop
  | .update newSize setRet => s.dev.numLbas = 0 → s.dev.blockSize ≤ newSize.toNat → setRet = 0
  | .cmd c _ _ => tcmurHandlerIsPassthroughOnly s.handler = true → s.rdev.pendingUas ≠ 0 →
    opcode c.cdb = .inquiry ∨ opcode c.cdb = .requestSense

/-! ### The log -/

section Log

variable {l : List Outcome} {y : Outcome}

theorem lastSize_concat (blockSize init : ℕ) (l : List Outcome) (y : Outcome) :
    lastSize blockSize init (l ++ [y]) =
      match y with
      | .updated newSize ret _ _ =>
        if ret = 0 then newSize / blockSize else lastSize blockSize init l
      | .answered .. => lastSize blockSize init l := by
  rw [lastSize, List.foldl_append]
  rfl

theorem not_owed_nil : ¬ Owed [] := by
  rintro ⟨l₁, u, l₂, h, -, -⟩
  exact absurd h (by simp)

/-- The last thing that has happened decides, unless it has nothing to do with it. -/
theorem owed_concat : Owed (l ++ [y]) ↔ y.succeeds = true ∨ Owed l ∧ y.counts = false := by
  constructor
  · rintro ⟨l₁, u, l₂, h, hu, hl₂⟩
    rcases List.eq_nil_or_concat l₂ with rfl | ⟨l₂, z, rfl⟩
    · obtain ⟨-, hy⟩ := List.append_inj' h rfl
      obtain rfl := List.singleton_inj.mp hy
      exact Or.inl hu
    · rw [List.concat_eq_append, ← List.cons_append, ← List.append_assoc] at h
      obtain ⟨rfl, hy⟩ := List.append_inj' h rfl
      obtain rfl := List.singleton_inj.mp hy
      rw [List.concat_eq_append] at hl₂
      exact Or.inr ⟨⟨l₁, u, l₂, rfl, hu, fun z hz => hl₂ z (List.mem_append_left _ hz)⟩,
        hl₂ y (List.mem_append_right _ (List.mem_singleton_self y))⟩
  · rintro (hy | ⟨⟨l₁, u, l₂, rfl, hu, hl₂⟩, hy⟩)
    · exact ⟨l, y, [], rfl, hy, fun z hz => absurd hz List.not_mem_nil⟩
    · refine ⟨l₁, u, l₂ ++ [y], by simp, hu, ?_⟩
      exact List.forall_mem_append.mpr ⟨hl₂, List.forall_mem_singleton.mpr hy⟩

/-- Where something that has happened stands, when one more thing has. -/
theorem concat_eq_split {l₁ l₂ : List Outcome} {z : Outcome} (h : l ++ [z] = l₁ ++ y :: l₂) :
    (l = l₁ ∧ z = y) ∨ ∃ l₃, l = l₁ ++ y :: l₃ := by
  rcases List.eq_nil_or_concat l₂ with rfl | ⟨l₃, x, rfl⟩
  · obtain ⟨hl, hz⟩ := List.append_inj' h rfl
    exact Or.inl ⟨hl, List.singleton_inj.mp hz⟩
  · rw [List.concat_eq_append, ← List.cons_append, ← List.append_assoc] at h
    exact Or.inr ⟨l₃, (List.append_inj' h rfl).1⟩

end Log

/-! ### One event -/

section Steps

variable {d : Device} {s t : SizeSys}

/-- **What `handle_pending_ua` does**, with at most one unit attention. -/
theorem exec_handlePendingUa_rdev (c : Request) (env : Prog.Env Op Ans) {r : TcmurDevice}
    (hr : r.pendingUas ≤ 1) :
    (handlePendingUa c).exec rdevInterp env r =
      if opcode c.cdb = .inquiry ∨ opcode c.cdb = .requestSense ∨ r.pendingUas = 0 then
        some (.ok .notHandled, r)
      else some (.ok .capacityChanged, { r with pendingUas := 0 }) := by
  rw [handlePendingUa]
  by_cases hop : opcode c.cdb = .inquiry ∨ opcode c.cdb = .requestSense
  · rw [if_pos hop, if_pos (by rw [← or_assoc]; exact Or.inl hop)]
    rfl
  · have hget : rdevInterp r .getRdev (env 0 .getRdev) = some (r, r) := rfl
    rw [if_neg hop, Prog.exec_ask_bind hget]
    by_cases hzero : r.pendingUas = 0
    · rw [if_pos hzero, if_pos (Or.inr (Or.inr hzero))]
      rfl
    · have hnot : ¬ (opcode c.cdb = .inquiry ∨ opcode c.cdb = .requestSense ∨
          r.pendingUas = 0) := by
        rw [← or_assoc]
        exact not_or.mpr ⟨hop, hzero⟩
      have hone : r.pendingUas = 1 := by omega
      rw [if_neg hzero, if_neg hnot, hone]
      rfl

/-- Restoring the old size, and when it fails. -/
theorem tcmuUpdateNumLbas_old {n : ℕ} (hpos : 0 < d.blockSize)
    (hlt : d.numLbas * d.blockSize < 2 ^ 64) (hzero : d.numLbas = 0 → n = 0) :
    (tcmuUpdateNumLbas { d with numLbas := n } (d.numLbas * d.blockSize % 2 ^ 64)).2 = d := by
  rw [Nat.mod_eq_of_lt hlt, tcmuUpdateNumLbas]
  split
  · rename_i h
    have hnum : d.numLbas = 0 := by
      rcases Nat.mul_eq_zero.mp h with h | h
      · exact h
      · omega
    cases d
    subst hnum
    rw [hzero rfl]
  · dsimp only
    rw [Nat.mul_div_cancel _ hpos]

/-- What is known of a device while all is well. -/
structure SizeSys.Inv (d : Device) (s : SizeSys) : Prop where
  /-- All is well. -/
  atomic : s.Atomic d
  /-- Blocks keep their size. -/
  blockSize_eq : s.dev.blockSize = d.blockSize
  /-- They are not empty. -/
  blockSize_pos : 0 < d.blockSize
  /-- The size in bytes is an `unsigned long`. -/
  size_lt : s.dev.numLbas * s.dev.blockSize < 2 ^ 64
  /-- The only unit attention is pending if it is to be reported. -/
  pending : (s.rdev.pendingUas = 0 ∧ ¬ Owed s.log) ∨ (s.rdev.pendingUas = 1 ∧ Owed s.log)

theorem SizeSys.Atomic.concat (h : s.Atomic d) {y : Outcome} (hlog : t.log = s.log ++ [y])
    (hsize : t.dev.numLbas = lastSize d.blockSize d.numLbas (s.log ++ [y]))
    (hfailed : ∀ newSize ret before after, y = .updated newSize ret before after → ret ≠ 0 →
      after = before)
    (hreported : y.reports = true ↔ y.counts = true ∧ Owed s.log) : t.Atomic d := by
  refine ⟨by rw [hsize, hlog], ?_, ?_⟩
  · intro newSize ret before after hmem
    rw [hlog] at hmem
    rcases List.mem_append.mp hmem with hmem | hmem
    · exact h.failed newSize ret before after hmem
    · exact hfailed newSize ret before after (List.mem_singleton.mp hmem).symm
  · intro l z l' hl
    rw [hlog] at hl
    rcases concat_eq_split hl with ⟨rfl, rfl⟩ | ⟨l₃, hl⟩
    · exact hreported
    · exact h.reported l z l₃ hl

/-- A device that has been added. -/
theorem SizeSys.inv_added {a : DevAttrs} (h : devAdded a = some d) (handler : TcmurHandler)
    (rdev : TcmurDevice) : (SizeSys.added d handler rdev).Inv d := by
  have hadded := Device.added_of_devAdded h
  refine ⟨⟨rfl, fun _ _ _ _ hmem => absurd hmem List.not_mem_nil, fun l y l' hl => ?_⟩, rfl,
    hadded.blockSize_pos, ?_, Or.inl ⟨rfl, not_owed_nil⟩⟩
  · exact absurd hl (by simp [SizeSys.added])
  · have hle := hadded.blocks_le
    have hlt := hadded.size_lt
    change d.numLbas * d.blockSize < 2 ^ 64
    omega

/-- **What an update does**, where the old size can be restored. -/
theorem tcmurDevUpdateSize_cases {r : TcmurDevice} {newSize : ℕ} {setRet : ℤ}
    (hpos : 0 < d.blockSize) (hlt : d.numLbas * d.blockSize < 2 ^ 64)
    (hsafe : d.numLbas = 0 → d.blockSize ≤ newSize → setRet = 0) :
    (∃ ret, ret ≠ 0 ∧ tcmurDevUpdateSize d r newSize setRet = (ret, d, r)) ∨
      tcmurDevUpdateSize d r newSize setRet =
        (0, { d with numLbas := newSize / d.blockSize }, tcmurSetPendingUa uaDevSizeChanged r) := by
  by_cases hzero : newSize = 0
  · refine Or.inl ⟨-22, by simp, ?_⟩
    rw [tcmurDevUpdateSize, tcmuUpdateNumLbas, if_pos hzero]
    rfl
  · have hnew : tcmuUpdateNumLbas d newSize =
        (0, { d with numLbas := newSize / d.blockSize }) := by
      rw [tcmuUpdateNumLbas, if_neg hzero]
    rw [tcmurDevUpdateSize, hnew]
    dsimp only
    by_cases hset : setRet = 0
    · rw [if_neg (by simp), if_neg (by simp [hset])]
      exact Or.inr rfl
    · refine Or.inl ⟨setRet, hset, ?_⟩
      have hback := tcmuUpdateNumLbas_old (n := newSize / d.blockSize) hpos hlt fun hd =>
        Nat.div_eq_of_lt (Nat.lt_of_not_le fun hle => hset (hsafe hd hle))
      rw [if_neg (by simp), if_pos hset, hback]

theorem SizeSys.Inv.update (h : s.Inv d) {newSize : UInt64} {setRet : ℤ}
    (hsafe : s.Safe (.update newSize setRet)) (hstep : s.step (.update newSize setRet) = some t) :
    t.Inv d := by
  have hpos := h.blockSize_eq ▸ h.blockSize_pos
  rw [SizeSys.step] at hstep
  rcases tcmurDevUpdateSize_cases (r := s.rdev) hpos h.size_lt hsafe with ⟨ret, hret, heq⟩ | heq
  · rw [heq] at hstep
    obtain rfl := (Option.some.inj hstep).symm
    refine ⟨h.atomic.concat rfl ?_ ?_ ?_, h.blockSize_eq, h.blockSize_pos, h.size_lt, ?_⟩
    · rw [lastSize_concat]
      dsimp only
      rw [if_neg hret]
      exact h.atomic.size
    · intro _ _ _ _ hy _
      cases hy
      rfl
    · exact ⟨fun hy => absurd hy (by simp [Outcome.reports]),
        fun hy => absurd hy.1 (by simp [Outcome.counts])⟩
    · rw [owed_concat]
      simpa [Outcome.succeeds, Outcome.counts, hret] using h.pending
  · rw [heq] at hstep
    obtain rfl := (Option.some.inj hstep).symm
    refine ⟨h.atomic.concat rfl ?_ ?_ ?_, h.blockSize_eq, h.blockSize_pos, ?_, Or.inr ⟨?_, ?_⟩⟩
    · rw [lastSize_concat, ← h.blockSize_eq]
      rfl
    · intro _ _ _ _ hy hret
      cases hy
      exact absurd rfl hret
    · exact ⟨fun hy => absurd hy (by simp [Outcome.reports]),
        fun hy => absurd hy.1 (by simp [Outcome.counts])⟩
    · have hle := Nat.div_mul_le_self newSize.toNat s.dev.blockSize
      have hlt := newSize.toNat_lt
      dsimp only
      omega
    · rcases h.pending with ⟨hzero, -⟩ | ⟨hone, -⟩
      · dsimp only [tcmurSetPendingUa]
        rw [hzero]
        rfl
      · dsimp only [tcmurSetPendingUa]
        rw [hone]
        rfl
    · exact owed_concat.mpr (Or.inl rfl)

/-- **What becomes of a command.** -/
theorem SizeSys.step_cmd (hle : s.rdev.pendingUas ≤ 1) (c : Request) (env : Prog.Env Op Ans)
    (others : TcmurDevice) :
    ∃ sts rdev, s.step (.cmd c env others) =
        some { s with rdev := rdev, log := s.log ++ [.answered (opcode c.cdb) sts] } ∧
      ((sts = .notHandled ∧ rdev.pendingUas = s.rdev.pendingUas ∧
          (tcmurHandlerIsPassthroughOnly s.handler = true ∨ opcode c.cdb = .inquiry ∨
            opcode c.cdb = .requestSense ∨ s.rdev.pendingUas = 0)) ∨
        (sts = .capacityChanged ∧ rdev.pendingUas = 0 ∧ s.rdev.pendingUas ≠ 0 ∧
          opcode c.cdb ≠ .inquiry ∧ opcode c.cdb ≠ .requestSense)) := by
  rw [SizeSys.step]
  by_cases honly : tcmurHandlerIsPassthroughOnly s.handler = true
  · rw [if_pos honly]
    exact ⟨_, _, rfl, Or.inl ⟨rfl, rfl, Or.inl honly⟩⟩
  · have hexec := exec_handlePendingUa_rdev c env
      (show { others with pendingUas := s.rdev.pendingUas }.pendingUas ≤ 1 from hle)
    rw [if_neg honly, hexec]
    by_cases hexempt : opcode c.cdb = .inquiry ∨ opcode c.cdb = .requestSense ∨
        s.rdev.pendingUas = 0
    · rw [if_pos hexempt]
      exact ⟨_, _, rfl, Or.inl ⟨rfl, rfl, Or.inr hexempt⟩⟩
    · rw [if_neg hexempt]
      rw [not_or, not_or] at hexempt
      exact ⟨_, _, rfl, Or.inr ⟨rfl, rfl, hexempt.2.2, hexempt.1, hexempt.2.1⟩⟩

theorem SizeSys.Inv.cmd (h : s.Inv d) {c : Request} {env : Prog.Env Op Ans} {others : TcmurDevice}
    (hsafe : s.Safe (.cmd c env others)) (hstep : s.step (.cmd c env others) = some t) :
    t.Inv d := by
  have hle : s.rdev.pendingUas ≤ 1 := by
    rcases h.pending with ⟨h, -⟩ | ⟨h, -⟩ <;> omega
  obtain ⟨sts, rdev, heq, hcases⟩ := SizeSys.step_cmd hle c env others
  obtain rfl := Option.some.inj (heq.symm.trans hstep)
  have hsize : s.dev.numLbas = lastSize d.blockSize d.numLbas
      (s.log ++ [.answered (opcode c.cdb) sts]) := by
    rw [lastSize_concat]
    exact h.atomic.size
  rcases hcases with ⟨rfl, hrdev, hwhy⟩ | ⟨rfl, hrdev, hzero, hop⟩
  · -- nothing is pending, or this command does not report it
    have hwhy : s.rdev.pendingUas = 0 ∨ opcode c.cdb = .inquiry ∨ opcode c.cdb = .requestSense := by
      by_cases hzero : s.rdev.pendingUas = 0
      · exact Or.inl hzero
      · rcases hwhy with honly | hinq | hsense | h
        · exact Or.inr (hsafe honly hzero)
        · exact Or.inr (Or.inl hinq)
        · exact Or.inr (Or.inr hsense)
        · exact absurd h hzero
    have hnot : ¬ ((Outcome.answered (opcode c.cdb) .notHandled).counts = true ∧ Owed s.log) := by
      rintro ⟨hcounts, howed⟩
      rw [Outcome.counts, decide_eq_true_eq] at hcounts
      rcases h.pending with ⟨-, hnot⟩ | ⟨hone, -⟩
      · exact hnot howed
      · rcases hwhy with hzero | hinq | hsense
        · omega
        · exact hcounts.1 hinq
        · exact hcounts.2 hsense
    refine ⟨h.atomic.concat rfl hsize (fun _ _ _ _ hy => absurd hy (by simp)) ?_, h.blockSize_eq,
      h.blockSize_pos, h.size_lt, ?_⟩
    · exact ⟨fun hy => absurd hy (by simp [Outcome.reports]), fun hy => absurd hy hnot⟩
    · rcases h.pending with ⟨hzero, howed⟩ | ⟨hone, howed⟩
      · refine Or.inl ⟨hrdev.trans hzero, fun hy => ?_⟩
        rcases owed_concat.mp hy with hy | ⟨hy, -⟩
        · exact absurd hy (by simp [Outcome.succeeds])
        · exact howed hy
      · refine Or.inr ⟨hrdev.trans hone, owed_concat.mpr (Or.inr ⟨howed, ?_⟩)⟩
        rw [← Bool.not_eq_true]
        exact fun hcounts => hnot ⟨hcounts, howed⟩
  · have hcounts : (Outcome.answered (opcode c.cdb) .capacityChanged).counts = true :=
      decide_eq_true hop
    have howed : Owed s.log := by
      rcases h.pending with ⟨h, -⟩ | ⟨-, h⟩
      · exact absurd h hzero
      · exact h
    refine ⟨h.atomic.concat rfl hsize (fun _ _ _ _ hy => absurd hy (by simp)) ?_, h.blockSize_eq,
      h.blockSize_pos, h.size_lt, Or.inl ⟨hrdev, fun hy => ?_⟩⟩
    · exact iff_of_true rfl ⟨hcounts, howed⟩
    · rcases owed_concat.mp hy with hy | ⟨-, hy⟩
      · exact absurd hy (by simp [Outcome.succeeds])
      · exact absurd hcounts (by rw [hy]; simp)

/-- Where the condition is not met, the next state is not as it should be. -/
theorem SizeSys.Inv.not_atomic (h : s.Inv d) {e : SizeEvent} (hsafe : ¬ s.Safe e) :
    ∃ t, s.step e = some t ∧ ¬ t.Atomic d := by
  cases e with
  | update newSize setRet =>
    rw [SizeSys.Safe, not_forall, not_forall] at hsafe
    obtain ⟨hnum, hle, hset⟩ := hsafe
    have hpos := h.blockSize_eq ▸ h.blockSize_pos
    have hnew : newSize.toNat ≠ 0 := by omega
    have hupdate : tcmurDevUpdateSize s.dev s.rdev newSize.toNat setRet =
        (setRet, { s.dev with numLbas := newSize.toNat / s.dev.blockSize }, s.rdev) := by
      rw [tcmurDevUpdateSize, tcmuUpdateNumLbas, if_neg hnew, hnum, Nat.zero_mul]
      dsimp only
      rw [if_neg (by simp), if_pos hset]
      rfl
    have hstep : s.step (.update newSize setRet) = some { s with
        dev := { s.dev with numLbas := newSize.toNat / s.dev.blockSize }
        log := s.log ++ [.updated newSize.toNat setRet (s.dev.numLbas, s.rdev.pendingUas)
          (newSize.toNat / s.dev.blockSize, s.rdev.pendingUas)] } := by
      rw [SizeSys.step, hupdate]
    refine ⟨_, hstep, fun hatomic => ?_⟩
    have hsize := hatomic.size
    rw [lastSize_concat] at hsize
    dsimp only at hsize
    rw [if_neg hset, ← h.atomic.size, hnum] at hsize
    exact absurd hsize (Nat.div_pos hle hpos).ne'
  | cmd c env others =>
    rw [SizeSys.Safe, not_forall, not_forall] at hsafe
    obtain ⟨honly, hzero, hop⟩ := hsafe
    have howed : Owed s.log := by
      rcases h.pending with ⟨h, -⟩ | ⟨-, h⟩
      · exact absurd h hzero
      · exact h
    refine ⟨{ s with
        rdev := { others with pendingUas := s.rdev.pendingUas }
        log := s.log ++ [.answered (opcode c.cdb) .notHandled] }, ?_, fun hatomic => ?_⟩
    · rw [SizeSys.step, if_pos honly]
    · have hreports := (hatomic.reported s.log _ [] rfl).mpr
        ⟨decide_eq_true (not_or.mp hop), howed⟩
      exact absurd hreports (by simp [Outcome.reports])

end Steps

/-! ### Main result -/

/-- **Changing the size.** In every run of a device that has been added, the size is always that of
the last successful update, failed updates change nothing, and a new size is reported by the next
command that can report it and by no other, if and only if no update of a device without blocks to
at least one block fails in the kernel, and no handler that takes all commands as they are is given
a command that should have reported a new size. -/
theorem size_update_iff {a : DevAttrs} {d : Device} (ha : devAdded a = some d)
    (handler : TcmurHandler) (rdev : TcmurDevice) (es : List SizeEvent) :
    (∀ fs t, fs <+: es → run SizeSys.step (SizeSys.added d handler rdev) fs = some t →
        t.Atomic d) ↔
      Meets SizeSys.step SizeSys.Safe (SizeSys.added d handler rdev) es := by
  have hgood : ∀ s : SizeSys, s.Inv d → s.Atomic d := fun _ h => h.atomic
  refine run_good_iff_meets hgood ?_ (fun _ _ h hsafe => h.not_atomic hsafe)
    (SizeSys.inv_added ha handler rdev)
  intro s e t hsafe h hstep
  cases e with
  | update newSize setRet => exact h.update hsafe hstep
  | cmd c env others => exact h.cmd hsafe hstep

theorem tiny_block : (512 : ℤ) < 2 ^ 31 := by decide

theorem tiny_size : (100 : ℤ) < 2 ^ 63 := by decide

theorem tiny_sectors : (128 : ℤ) < 2 ^ 31 := by decide

/-- A device of `100` bytes, in blocks of `512`. -/
def tinyAttrs : DevAttrs := ⟨512, 100, 128, tiny_block, tiny_size, tiny_sectors⟩

/-- Its geometry: there is no block. -/
def tinyDev : Device := ⟨512, 0, 128, 128, 0⟩

/-- A handler that reads and writes. -/
def plainHandler : TcmurHandler := ⟨true, true, false, false, false, false, false, false, 0⟩

/-- Its `rdev`. -/
def plainRdev : TcmurDevice := ⟨false, false, .allActive, .unlocked, 0, 0⟩

/-- A command comes to the device. -/
def tinyCmd (cdb : Cdb) : SizeEvent :=
  .cmd (smallRequest plainHandler cdb ⟨0x2000, 512⟩) (calm fun _ => 0) plainRdev

/-- A successful update, an `INQUIRY`, and two times `READ(6)`. -/
def grownRun : List SizeEvent :=
  [.update 8192 0, tinyCmd [0x12, 0, 0, 0, 36, 0], tinyCmd [0x08, 0, 0, 0, 1, 0],
    tinyCmd [0x08, 0, 0, 0, 1, 0]]

/-- The first `READ(6)` reports the new size. -/
theorem size_update_grown : devAdded tinyAttrs = some tinyDev ∧ ∃ t,
    run SizeSys.step (SizeSys.added tinyDev plainHandler plainRdev) grownRun = some t ∧
      t.log = [.updated 8192 0 (0, 0) (16, 1), .answered .inquiry .notHandled,
        .answered .read6 .capacityChanged, .answered .read6 .notHandled] ∧ t.Atomic tinyDev := by
  have hadded : devAdded tinyAttrs = some tinyDev := rfl
  have hreports : ∀ {p : Prop}, tcmurHandlerIsPassthroughOnly plainHandler = true → p :=
    fun h => absurd h (by decide)
  refine ⟨hadded, _, rfl, rfl, ?_⟩
  refine (size_update_iff hadded plainHandler plainRdev grownRun).mpr ?_ _ _ List.prefix_rfl rfl
  refine ⟨fun _ _ => rfl, ?_⟩
  rintro _ ⟨⟩
  refine ⟨hreports, ?_⟩
  rintro _ ⟨⟩
  refine ⟨hreports, ?_⟩
  rintro _ ⟨⟩
  exact ⟨hreports, fun _ _ => trivial⟩

/-- The update fails, and the device has the new size all the same. -/
theorem size_update_kept : devAdded tinyAttrs = some tinyDev ∧ ∃ t,
    run SizeSys.step (SizeSys.added tinyDev plainHandler plainRdev) [.update 8192 (-22)] = some t ∧
      t.dev.numLbas = 16 ∧ ¬ t.Atomic tinyDev :=
  ⟨rfl, _, rfl, rfl, fun h => absurd h.size (by decide)⟩

end Tcmu

end LioProject
