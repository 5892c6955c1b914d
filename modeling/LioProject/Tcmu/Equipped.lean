import LioProject.Tcmu.Callouts
import LioProject.Tcmu.Reads

/-!
# Equipped commands

Few of the handlers in `tcmur_cmd_handler.c` look whether a callout is there before they call it. A
`READ` calls `read` in any case. With three commands it depends on the parameter list: an `UNMAP` of
which no descriptor is dispatched does not call `unmap`, an `EXTENDED COPY` calls `read` and `write`
of the two devices that it names, and `SET TARGET PORT GROUPS` calls `unlock` only for a group that
is to go to standby.

The list is found in memory, and what is found there is an answer of the surroundings. A command is
supplied by a memory if the callouts are defined that it uses with the list in that memory. The
programs that read a list are `Fitting`: in all surroundings whose memory supplies the command, they
hand on sub-commands that fit, and call no `NULL` pointer. All other programs are so because they
are `Proper`.

## Main definitions

* `Request.Equipped`: the callouts that the command uses are defined, whatever its list says.
* `Request.Supplied`: those that it uses with the list in a memory are defined.
* `DataCmd.Refused`: the command is refused before it uses any.
* `Fitting`: a precondition of the programs that read the list.

## Main results

* `fits_of_run`: in every run, what a command leaves behind fits.
* `callouts_have_cdb`: in every run, the data callouts are given a CDB, except by `FORMAT UNIT`.
* `callouts_defined`: in every run of a command that is supplied, no `NULL` pointer is called.
-/

namespace LioProject

namespace Tcmu

/-! ### Descriptors that are not dispatched -/

/-- A status that ends the dispatching loop. -/
def TcmuSts.IsError (sts : TcmuSts) : Prop := sts ≠ .ok ∧ sts ≠ .asyncHandled

/-- The block descriptor at address `a` passes the checks on its range. -/
def DescOk (c : Request) (mem : Mem) (a : ℕ) : Prop :=
  mem.be (a + 8) 4 ≤ 32 * 1024 * 1024 ∧
    checkLbas c.dev.geo (mem.be a 8) (mem.be (a + 8) 4) = .ok

/-- The number of descriptors that a parameter list announces. -/
def descCount (mem : Mem) (par : ℕ) : ℕ := mem.be (par + 2) 2 / 16

/-- The number of blocks of the descriptor with index `i`. -/
def descLbas (mem : Mem) (par i : ℕ) : ℕ := mem.be (par + 8 + 16 * i + 8) 4

/-- No descriptor is dispatched before one is refused. -/
def NoneDispatched (c : Request) (mem : Mem) (par : ℕ) : Prop :=
  ∀ j < descCount mem par, (∀ i ≤ j, DescOk c mem (par + 8 + 16 * i)) → descLbas mem par j = 0

section Descriptors

variable {c : Request} {mem : Mem} {par : ℕ}

/-- **The loop dispatches nothing** if every descriptor before one that is refused is empty. -/
theorem unmapDescs_eq_pure {n : ℕ} : ∀ {a refcount : ℕ} {ret : TcmuSts},
    (∀ j < n, (∀ i ≤ j, DescOk c mem (a + 16 * i)) → mem.be (a + 16 * j + 8) 4 = 0) →
    ∃ sts, unmapDescs c mem n a refcount ret = pure (sts, refcount) ∧
      ((sts = .ok ∨ sts = ret) ∧ (∀ i < n, DescOk c mem (a + 16 * i)) ∨
        sts.IsError ∧ ∃ i < n, ¬ DescOk c mem (a + 16 * i)) := by
  induction n with
  | zero =>
    intro a refcount ret _
    exact ⟨ret, rfl, Or.inl ⟨Or.inr rfl, fun i hi => absurd hi (Nat.not_lt_zero i)⟩⟩
  | succ n ih =>
    intro a refcount ret hnone
    rw [unmapDescs]
    dsimp only
    split
    · rename_i hmax
      exact ⟨_, rfl, Or.inr ⟨⟨by simp, by simp⟩, 0, Nat.succ_pos n, fun hok =>
        absurd hok.1 (Nat.not_le.mpr hmax)⟩⟩
    · rename_i hmax
      split
      · rename_i hcheck
        exact ⟨_, rfl, Or.inr ⟨⟨hcheck, checkLbas_ne_async _ _ _⟩, 0, Nat.succ_pos n, fun hok =>
          hcheck hok.2⟩⟩
      · rename_i hcheck
        have hfirst : DescOk c mem a := ⟨Nat.not_lt.mp hmax, not_not.mp hcheck⟩
        have haddr : ∀ i, a + 16 + 16 * i = a + 16 * (i + 1) := fun i => by omega
        have hgood : ∀ j, (∀ i ≤ j, DescOk c mem (a + 16 + 16 * i)) →
            ∀ i ≤ j + 1, DescOk c mem (a + 16 * i) := by
          intro j h i hi
          cases i with
          | zero => exact hfirst
          | succ i =>
            rw [← haddr]
            exact h i (by omega)
        have hempty : mem.be (a + 8) 4 = 0 := hnone 0 (Nat.succ_pos n) fun i hi => by
          rw [Nat.le_zero.mp hi]
          exact hfirst
        rw [if_pos hempty]
        have hrest : ∀ j < n, (∀ i ≤ j, DescOk c mem (a + 16 + 16 * i)) →
            mem.be (a + 16 + 16 * j + 8) 4 = 0 := by
          intro j hj h
          rw [haddr]
          exact hnone (j + 1) (by omega) (hgood j h)
        obtain ⟨sts, heq, ⟨hsts, hall⟩ | ⟨herr, i, hi, hbad⟩⟩ := ih hrest
        · refine ⟨sts, heq, Or.inl ⟨Or.inl (hsts.elim id id), fun i hi => ?_⟩⟩
          cases i with
          | zero => exact hfirst
          | succ i =>
            rw [← haddr]
            exact hall i (by omega)
        · exact ⟨sts, heq, Or.inr ⟨herr, i + 1, by omega, by rw [← haddr]; exact hbad⟩⟩

/-- The loop of a list of which nothing is dispatched. -/
theorem NoneDispatched.unmapDescs_eq (h : NoneDispatched c mem par) :
    ∃ sts, unmapDescs c mem (descCount mem par) (par + 8) 0 .ok = pure (sts, 0) ∧
      (sts = .ok ∧ (∀ i < descCount mem par, DescOk c mem (par + 8 + 16 * i)) ∨
        sts.IsError ∧ ∃ i < descCount mem par, ¬ DescOk c mem (par + 8 + 16 * i)) := by
  obtain ⟨sts, heq, ⟨hsts, hall⟩ | hbad⟩ := unmapDescs_eq_pure h
  · exact ⟨sts, heq, Or.inl ⟨hsts.elim id id, hall⟩⟩
  · exact ⟨sts, heq, Or.inr hbad⟩

end Descriptors

/-! ### Equipped commands -/

/-- The callouts that a command uses are defined. A copy may use any two devices. -/
def DataCmd.Equipped (c : Request) : DataCmd → Prop
  | .read => c.dev.handler.read = true
  | .write => c.dev.handler.write = true
  | .unmap => c.dev.handler.unmap = true
  | .flush => c.dev.handler.flush = true
  | .xcopy => ∀ d ∈ c.dev :: c.ctx, d.handler.read = true ∧ d.handler.write = true
  | .caw => c.dev.handler.read = true ∧ c.dev.handler.write = true
  | .writeVerify => c.dev.handler.read = true ∧ c.dev.handler.write = true
  | .writesame => c.writesByUnmap = false → c.dev.handler.write = true
  | .format => c.dev.handler.write = true

/-- The command is finished by the checks on its CDB and its scatter list. -/
def DataCmd.Refused (c : Request) : DataCmd → Prop
  | .read => checkLbaAndLength c.dev.geo c.cmd c.cdb (xferLengthOf c.cdb) ≠ .ok
  | .write => checkLbaAndLength c.dev.geo c.cmd c.cdb (xferLengthOf c.cdb) ≠ .ok
  | .writeVerify => checkLbaAndLength c.dev.geo c.cmd c.cdb (xferLengthOf c.cdb) ≠ .ok
  | .caw => handleCawCheck c ≠ .ok
  | .writesame => handleWritesameCheck c ≠ .ok
  | .unmap => byteAt c.cdb 1 &&& 0x01 ≠ 0 ∨ xferLengthOf c.cdb < 8 ∨
      copiedParam (xferLengthOf c.cdb) c.cmd.iov ≠ xferLengthOf c.cdb
  | .xcopy => xferLengthOf c.cdb < 16
  | .flush => False
  | .format => False

/-- The command has an empty parameter list, with which there is nothing to do. -/
def DataCmd.Idle (c : Request) : DataCmd → Prop
  | .unmap => xferLengthOf c.cdb = 0
  | .xcopy => xferLengthOf c.cdb = 0
  | _ => False

instance (c : Request) (d : DataCmd) : Decidable (d.Equipped c) := by
  cases d <;> unfold DataCmd.Equipped <;> infer_instance

instance (c : Request) (d : DataCmd) : Decidable (d.Refused c) := by
  cases d <;> unfold DataCmd.Refused <;> infer_instance

/-- The parameter list in `mem`, copied to address `par`, is accepted, and blocks are to be copied
from `src` to `dst`. -/
def Request.Copies (c : Request) (mem : Mem) (par : ℕ) (src dst : TcmuDev) : Prop :=
  ∃ x, xcopyParseList c.dev c.ctx (c.paramMem mem par) par (xferLengthOf c.cdb) = .ok x ∧
    x.srcDev = some src ∧ x.dstDev = some dst ∧ src.geo.blockSize = dst.geo.blockSize ∧
    (x.srcLba + x.lbaCnt) % 2 ^ 64 ≤ src.geo.numLbas ∧
    (x.dstLba + x.lbaCnt) % 2 ^ 64 ≤ dst.geo.numLbas ∧ x.lbaCnt ≠ 0

/-- The callouts that a command uses with the parameter list in `mem` are defined, wherever the list
is copied to. -/
def DataCmd.Supplied (c : Request) (mem : Mem) : DataCmd → Prop
  | .unmap => c.dev.handler.unmap = true ∨
      ∀ par, 4 < descCount (c.paramMem mem par) par ∨ NoneDispatched c (c.paramMem mem par) par
  | .xcopy => ∀ par src dst, c.Copies mem par src dst →
      src.handler.read = true ∧ dst.handler.write = true
  | d => d.Equipped c

/-- What the callouts of a command have to be for none of them to be called without being
defined. -/
structure Request.Equipped (c : Request) : Prop where
  /-- A data command is refused, or the callouts that it uses are defined. -/
  data : ∀ d, dataCmd c.cdb = some d → d.Refused c ∨ d.Equipped c
  /-- For setting target port groups, a handler that has `lock` has `unlock`. -/
  unlock : opcode c.cdb = .maintenanceOut → byteAt c.cdb 1 = 0x0a →
    c.dev.handler.lock = true → c.dev.handler.unlock = true

/-- The same for the callouts that are used with the parameter list in `mem`. -/
structure Request.Supplied (c : Request) (mem : Mem) : Prop where
  /-- A data command is refused, or the callouts that it uses are defined. -/
  data : ∀ d, dataCmd c.cdb = some d → d.Refused c ∨ d.Supplied c mem
  /-- For setting target port groups, a handler that has `lock` has `unlock`, or no group is to go
  to standby. -/
  unlock : opcode c.cdb = .maintenanceOut → byteAt c.cdb 1 = 0x0a →
    c.dev.handler.lock = true → c.dev.handler.unlock = true ∨
      ∀ par, ¬ AsksStandby (c.paramMem mem par) par (xferLengthOf c.cdb)

section Commands

variable {α β : Type} {K : Prop} {c : Request} {d : DataCmd} {mem : Mem} {par : ℕ}

theorem DataCmd.Equipped.supplied (h : d.Equipped c) : d.Supplied c mem := by
  cases d with
  | unmap => exact Or.inl h
  | xcopy =>
    rintro par src dst ⟨x, hx, hsrc, hdst, -⟩
    obtain ⟨⟨hsrcs, hdsts⟩, -⟩ := known_parseList hx
    exact ⟨(h src (hsrcs src hsrc)).1, (h dst (hdsts dst hdst)).2⟩
  | _ => exact h

/-- An equipped command is supplied, whatever its parameter list says. -/
theorem Request.Equipped.supplied (h : c.Equipped) (mem : Mem) : c.Supplied mem :=
  ⟨fun d hd => (h.data d hd).imp_right DataCmd.Equipped.supplied,
    fun hop haction hlock => Or.inl (h.unlock hop haction hlock)⟩

/-! ### Fitting programs -/

/-- What is found in memory supplies the command, in case of `K`. -/
def SuppliedBy (K : Prop) (c : Request) : (o : Op) → Ans o → Prop
  | .mem, mem => K → c.Supplied mem
  | _, _ => True

/-- In surroundings whose memory supplies the command, the program keeps what the command leaves
behind fitting. It ends with a value in `Q`, or it fails and, in case of `K`, not because it calls a
`NULL` pointer. -/
def Fitting (K : Prop) (c : Request) (p : Daemon α) (Q : α → Prop) : Prop :=
  ∀ s : Life, s.Fits K c → Prog.wp lifeInterp (SuppliedBy K c)
    (fun f t => (K → f ≠ .nullCallout) ∧ t.Fits K c) p (fun a t => Q a ∧ t.Fits K c) s

theorem fitting_of_all {p : Daemon α} {Q : α → Prop}
    (h : p.All (OpFits K c) (fun f => K → f ≠ .nullCallout) Q) : Fitting K c p Q := fun _ hs =>
  Prog.wp_of_all h (fun _ ho _ _ _ _ hs hop => hs.op ho hop) (fun _ _ hf ht => ⟨hf, ht⟩) hs

theorem Proper.fitting {p : Daemon α} (h : Proper K c p) : Fitting K c p fun _ => True :=
  fitting_of_all h

theorem fitting_pure (a : α) : Fitting K c (pure a : Daemon α) fun _ => True :=
  (proper_pure a).fitting

theorem Fitting.bind {p : Daemon α} {f : α → Daemon β} {R : α → Prop} {Q : β → Prop}
    (hp : Fitting K c p R) (hf : ∀ a, R a → Fitting K c (f a) Q) : Fitting K c (p >>= f) Q :=
  fun s hs => Prog.wp_seq (hp s hs) fun a t ht => hf a ht.1 t ht.2

theorem Proper.fitting_bind {p : Daemon α} {f : α → Daemon β} {Q : β → Prop} (hp : Proper K c p)
    (hf : ∀ a, Fitting K c (f a) Q) : Fitting K c (p >>= f) Q :=
  hp.fitting.bind fun a _ => hf a

theorem fitting_ask_bind {o : Op} {f : Ans o → Daemon β} {Q : β → Prop} (h : OpFits K c o)
    (hf : ∀ a, Fitting K c (f a) Q) : Fitting K c (ask o >>= f) Q :=
  (proper_ask h).fitting_bind hf

/-- **The rule for memory**: what is found there supplies the command. -/
theorem fitting_mem_bind {f : Mem → Daemon β} {Q : β → Prop}
    (hf : ∀ mem, (K → c.Supplied mem) → Fitting K c (f mem) Q) :
    Fitting K c (ask .mem >>= f) Q := by
  intro s hs
  refine Prog.wp_ask_bind.mpr fun mem hmem r t hop => ?_
  obtain ⟨rfl, rfl⟩ := Prod.mk.inj (Option.some.inj hop)
  exact hf _ hmem _ hs

/-! ### Commands with a parameter list -/

/-- If no descriptor is dispatched, nothing is handed on. -/
theorem NoneDispatched.proper (h : NoneDispatched c mem par) {bddl : ℕ}
    (hbddl : bddl / 16 = descCount mem par) : Proper K c (handleUnmapInternal c mem bddl par) := by
  obtain ⟨sts, heq, -⟩ := h.unmapDescs_eq
  rw [handleUnmapInternal, hbddl, heq]
  exact proper_ask_bind trivial fun _ => proper_pure _

theorem fitting_handleUnmap (hcmd : dataCmd c.cdb = some .unmap)
    (hsup : ∀ mem, c.Supplied mem → DataCmd.unmap.Supplied c mem) :
    Fitting K c (handleUnmap c) fun _ => True := by
  rw [handleUnmap]
  dsimp only
  split
  · exact fitting_pure _
  · split
    · exact fitting_pure _
    · split
      · exact fitting_pure _
      · refine fitting_ask_bind trivial fun par => ?_
        cases par with
        | none => exact fitting_pure _
        | some par =>
          dsimp only
          split
          · exact fitting_pure _
          · refine fitting_mem_bind fun mem hmem => ?_
            split
            · exact fitting_pure _
            · rename_i hfew
              split
              · exact fitting_pure _
              · rename_i hfew
                refine quiet_unmapStateAlloc.proper.fitting_bind fun a => ?_
                cases a with
                | some sts => exact fitting_pure _
                | none =>
                  refine Proper.fitting ?_
                  by_cases hunmap : K → c.dev.handler.unmap = true
                  · exact proper_handleUnmapInternal (fun _ _ => ⟨Or.inl hcmd, hunmap⟩) _ _ _
                  · obtain ⟨hK, hnot⟩ := Classical.not_imp.mp hunmap
                    have hcount : (c.paramMem mem par).be (par + 2) 2 / 16 * 16 / 16 =
                        descCount (c.paramMem mem par) par := Nat.mul_div_cancel _ (by norm_num)
                    have hlist := (hsup mem (hmem hK)).resolve_left hnot par
                    refine (hlist.resolve_left fun hlt => hfew ?_).proper hcount
                    exact hlt.trans_eq hcount.symm

/-- A list that is accepted names devices whose callouts are defined. -/
theorem fitting_xcopyParseParameterList
    (hsup : ∀ mem, c.Supplied mem → DataCmd.xcopy.Supplied c mem) :
    Fitting K c (xcopyParseParameterList c) fun r => ∀ src dst x, r = .ok (src, dst, x) →
      x.lbaCnt ≠ 0 → K → src.handler.read = true ∧ dst.handler.write = true := by
  have herror : ∀ sts, Fitting K c
      (pure (.error sts) : Daemon (Except TcmuSts (TcmuDev × TcmuDev × XcopyList))) fun r =>
        ∀ src dst x, r = .ok (src, dst, x) → x.lbaCnt ≠ 0 → K →
          src.handler.read = true ∧ dst.handler.write = true :=
    fun sts => fitting_of_all (Prog.all_pure fun _ _ _ heq => absurd heq (by simp))
  refine fitting_ask_bind trivial fun par => ?_
  cases par with
  | none => exact herror _
  | some par =>
    refine fitting_mem_bind fun mem hmem => ?_
    split
    · exact herror _
    · rename_i x hx
      split
      · rename_i src dst hsrc hdst
        split
        · exact herror _
        · rename_i hsize
          split
          · exact herror _
          · rename_i hread
            split
            · exact herror _
            · rename_i hwrite
              refine fitting_of_all (Prog.all_pure ?_)
              rintro s d y heq hcnt hK
              obtain ⟨rfl, rfl, rfl⟩ : src = s ∧ dst = d ∧ x = y := by simpa using heq
              exact hsup mem (hmem hK) par src dst ⟨x, hx, hsrc, hdst, not_not.mp hsize,
                Nat.not_lt.mp hread, Nat.not_lt.mp hwrite, hcnt⟩
      · exact fitting_of_all (Prog.all_fail fun _ => by simp)

theorem fitting_handleXcopy (hcmd : dataCmd c.cdb = some .xcopy)
    (hsup : ∀ mem, c.Supplied mem → DataCmd.xcopy.Supplied c mem) :
    Fitting K c (handleXcopy c) fun _ => True := by
  rw [handleXcopy]
  dsimp only
  split
  · exact fitting_pure _
  · split
    · exact fitting_pure _
    · refine fitting_ask_bind trivial fun a => ?_
      split
      · exact fitting_pure _
      · refine (fitting_xcopyParseParameterList hsup).bind fun r hr => ?_
        match r with
        | .error sts => exact fitting_pure _
        | .ok (src, dst, x) =>
          dsimp only
          split
          · exact fitting_pure _
          · rename_i hcnt
            refine fitting_ask_bind trivial fun buf => ?_
            cases buf with
            | none => exact fitting_pure _
            | some buf => exact Proper.fitting (proper_asyncHandleCmd ⟨hcmd, hr src dst x rfl hcnt⟩)

theorem fitting_handleStpg (hop : opcode c.cdb = .maintenanceOut)
    (haction : byteAt c.cdb 1 = 0x0a) : Fitting K c (handleStpg c) fun _ => True := by
  refine fitting_ask_bind trivial fun groups => ?_
  cases groups with
  | none => exact fitting_pure _
  | some groups =>
    dsimp only
    rw [tcmuEmulateSetTgtPortGrps]
    split
    · exact fitting_pure _
    · dsimp only
      split
      · exact fitting_pure _
      · refine fitting_ask_bind trivial fun buf => ?_
        cases buf with
        | none => exact fitting_pure _
        | some buf =>
          dsimp only
          split
          · exact fitting_pure _
          · refine fitting_mem_bind fun mem hmem => ?_
            refine (Quiet.proper (quiet_setTgtPortGrps ?_ _ _ _ 0)).fitting
            by_cases hK : K
            · refine Or.inl fun hlock hstandby => ?_
              exact ((hmem hK).unlock hop haction hlock).resolve_right fun h => h buf hstandby
            · exact Or.inr fun hk => absurd hk hK

/-! ### Commands -/

/-- A command that is refused is answered at once, and fails unless it is idle. -/
theorem quiet_handle_of_refused {F : Fault → Prop} (h : d.Refused c) :
    Quiet c F (d.handle c) fun ret => ret ≠ .asyncHandled ∧ (ret = .ok → d.Idle c) := by
  cases d with
  | read =>
    rw [DataCmd.Refused] at h
    rw [DataCmd.handle, handleRead, if_pos h]
    exact quiet_pure ⟨checkLbaAndLength_ne_async _ _ _ _, fun heq => absurd heq h⟩
  | write =>
    rw [DataCmd.Refused] at h
    rw [DataCmd.handle, handleWrite, if_pos h]
    exact quiet_pure ⟨checkLbaAndLength_ne_async _ _ _ _, fun heq => absurd heq h⟩
  | writeVerify =>
    rw [DataCmd.Refused] at h
    rw [DataCmd.handle, handleWriteVerify, if_pos h]
    exact quiet_pure ⟨checkLbaAndLength_ne_async _ _ _ _, fun heq => absurd heq h⟩
  | caw =>
    rw [DataCmd.Refused] at h
    rw [DataCmd.handle, handleCaw, if_pos h]
    exact quiet_pure ⟨handleCawCheck_ne_async c, fun heq => absurd heq h⟩
  | writesame =>
    rw [DataCmd.Refused] at h
    rw [DataCmd.handle, handleWritesame]
    dsimp only
    rw [if_pos h]
    exact quiet_pure ⟨handleWritesameCheck_ne_async c, fun heq => absurd heq h⟩
  | unmap =>
    rw [DataCmd.Refused] at h
    rw [DataCmd.handle, handleUnmap]
    dsimp only
    split
    · exact quiet_pure (by simp)
    · split
      · rename_i hzero
        exact quiet_pure ⟨by simp, fun _ => hzero⟩
      · split
        · exact quiet_pure (by simp)
        · rename_i hanchor hzero hshort
          have hcopied := (h.resolve_left hanchor).resolve_left hshort
          refine quiet_ask_bind trivial fun par => ?_
          cases par with
          | none => exact quiet_pure (by simp)
          | some par =>
            dsimp only
            rw [if_pos hcopied]
            exact quiet_pure (by simp)
  | xcopy =>
    rw [DataCmd.Refused] at h
    rw [DataCmd.handle, handleXcopy]
    dsimp only
    split
    · rename_i hzero
      exact quiet_pure ⟨by simp, fun _ => hzero⟩
    · exact quiet_pure (by simp)
  | flush => exact h.elim
  | format => exact h.elim

/-- What is done for a data command fits, if its parameter list supplies it. Of a command without
one it is enough that some memory would. -/
theorem fitting_handle (hcmd : dataCmd c.cdb = some d) (hK : K → ∃ mem, c.Supplied mem) :
    Fitting K c (d.handle c) fun _ => True := by
  by_cases hrefused : d.Refused c
  · exact (quiet_handle_of_refused hrefused).proper.fitting
  · have hsup : ∀ mem, c.Supplied mem → d.Supplied c mem := fun mem h =>
      (h.data d hcmd).resolve_left hrefused
    have hsome : K → ∃ mem, d.Supplied c mem := fun hk => (hK hk).imp hsup
    cases d with
    | read =>
      rw [DataCmd.Refused] at hrefused
      rw [DataCmd.handle, handleRead, if_neg hrefused]
      exact Proper.fitting (proper_asyncHandleCmd ⟨hcmd, fun hk => (hsome hk).choose_spec⟩)
    | write =>
      rw [DataCmd.Refused] at hrefused
      rw [DataCmd.handle, handleWrite, if_neg hrefused]
      exact Proper.fitting (proper_asyncHandleCmd ⟨hcmd, fun hk => (hsome hk).choose_spec⟩)
    | unmap => exact fitting_handleUnmap hcmd hsup
    | flush =>
      rw [DataCmd.handle]
      split
      · rename_i hflush
        exact Proper.fitting (proper_asyncHandleCmd ⟨hcmd, fun _ => hflush⟩)
      · exact fitting_pure _
    | xcopy => exact fitting_handleXcopy hcmd hsup
    | caw => exact (proper_handleCaw hcmd fun hk => (hsome hk).choose_spec).fitting
    | writeVerify => exact (proper_handleWriteVerify hcmd fun hk => (hsome hk).choose_spec).fitting
    | writesame =>
      exact (proper_handleWritesame hcmd fun hunmap hk => (hsome hk).choose_spec hunmap).fitting
    | format => exact (proper_handleFormatUnit hcmd fun hk => (hsome hk).choose_spec).fitting

theorem fitting_handleSyncCmd : Fitting K c (handleSyncCmd c) fun _ => True := by
  by_cases h : opcode c.cdb = .maintenanceOut ∧ byteAt c.cdb 1 = 0x0a
  · rw [handleSyncCmd]
    simp only [h.1, h.2, if_true]
    exact fitting_handleStpg h.1 h.2
  · have hnot : opcode c.cdb = .maintenanceOut → byteAt c.cdb 1 = 0x0a →
        c.dev.handler.lock = true → c.dev.handler.unlock = true :=
      fun hop haction => absurd ⟨hop, haction⟩ h
    exact (Quiet.proper (quiet_handleSyncCmd (Or.inl hnot))).fitting

theorem fitting_tcmurCmdHandler (hK : K → ∃ mem, c.Supplied mem) :
    Fitting K c (tcmurCmdHandler c) fun _ => True := by
  refine fitting_ask_bind trivial fun _ => fitting_ask_bind trivial fun r => ?_
  split
  · exact (proper_untrack _).fitting
  · split
    · exact (proper_untrack _).fitting
    · rename_i d hd
      refine quiet_aluaCheckState.proper.fitting_bind fun ret => ?_
      split
      · exact (proper_untrack _).fitting
      · exact (fitting_handle hd hK).bind fun ret _ => (proper_untrack ret).fitting

/-- Processing a command that its memory supplies is fitting. -/
theorem fitting_processCmd (hK : K → ∃ mem, c.Supplied mem) :
    Fitting K c (processCmd c) fun _ => True := by
  have hgeneric : Fitting K c (tcmurGenericHandleCmd c) fun _ => True := by
    refine quiet_handlePendingUa.proper.fitting_bind fun ret => ?_
    split
    · exact fitting_pure _
    · refine fitting_ask_bind trivial fun r => ?_
      split
      · exact fitting_ask_bind trivial fun _ => fitting_pure _
      · refine proper_handleTryPassthrough.fitting_bind fun ret => ?_
        split
        · exact fitting_pure _
        · refine fitting_handleSyncCmd.bind fun ret _ => ?_
          split
          · exact fitting_pure _
          · exact fitting_tcmurCmdHandler hK
  refine hgeneric.bind fun ret _ => ?_
  split
  · exact Proper.fitting (proper_ask trivial)
  · exact fitting_pure _

end Commands

/-! ### Runs -/

section Runs

variable {K : Prop} {c : Request}

/-- The memory that the command is fetched with supplies it. -/
def LifeEvent.Supplies (c : Request) (e : LifeEvent) : Prop :=
  ∀ env, e = .fetch env → ∀ n, c.Supplied (env n .mem)

theorem Request.Equipped.supplies (h : c.Equipped) (e : LifeEvent) : e.Supplies c :=
  fun _ _ _ => h.supplied _

/-- The program of an event is to process the command, or it is proper and what it begins with
fits. -/
theorem Life.Fits.prog {s u : Life} {e : LifeEvent} {p : Daemon Unit} (h : s.Fits K c)
    (hprog : e.prog c s = some (p, u)) :
    (∃ env, e = .fetch env ∧ p = processCmd c ∧ u = s) ∨ Proper K c p ∧ u.Fits K c := by
  have herase : ∀ i, { s with jobs := s.jobs.eraseIdx i : Life }.Fits K c := fun i =>
    ⟨fun x hx => h.jobs x (List.mem_of_mem_eraseIdx hx), h.calls, h.lockThreads, h.fault⟩
  cases e with
  | fetch env =>
    rw [LifeEvent.prog] at hprog
    split at hprog
    · exact absurd hprog (by simp)
    · obtain ⟨rfl, rfl⟩ := Prod.mk.inj (Option.some.inj hprog)
      exact Or.inl ⟨env, rfl, rfl, rfl⟩
  | work i env =>
    rw [LifeEvent.prog] at hprog
    split at hprog
    · rename_i j hj
      obtain ⟨rfl, rfl⟩ := Prod.mk.inj (Option.some.inj hprog)
      exact Or.inr ⟨proper_ioWork (h.jobs _ (List.mem_of_getElem? hj)), herase i⟩
    · exact absurd hprog (by simp)
  | done i ret env =>
    rw [LifeEvent.prog] at hprog
    split at hprog
    · rename_i j hj
      obtain ⟨rfl, rfl⟩ := Prod.mk.inj (Option.some.inj hprog)
      exact Or.inr ⟨proper_done (h.jobs _ (List.mem_of_getElem? hj)) ret, herase i⟩
    · exact absurd hprog (by simp)
  | lockThread env =>
    rw [LifeEvent.prog] at hprog
    split at hprog
    · exact absurd hprog (by simp)
    · rename_i hpos
      obtain ⟨rfl, rfl⟩ := Prod.mk.inj (Option.some.inj hprog)
      have hlock := h.lockThreads (Nat.pos_of_ne_zero hpos)
      exact Or.inr ⟨(quiet_aluaLockThreadFn hlock).proper,
        ⟨h.jobs, h.calls, fun _ => hlock, h.fault⟩⟩

/-- One event keeps what is left behind fitting. -/
theorem Life.Fits.step {s s' : Life} {e : LifeEvent} (h : s.Fits K c) (hK : K → e.Supplies c)
    (hstep : lifeStep c s e = some s') : s'.Fits K c := by
  obtain ⟨-, p, u, x, v, hprog, hexec, rfl⟩ := lifeStep_cases hstep
  have hend : v.Fits K c ∧ ∀ f, x = .error f → K → f ≠ .nullCallout := by
    rcases h.prog hprog with ⟨env, rfl, rfl, rfl⟩ | ⟨hp, hu⟩
    · have henv : ∀ n o, SuppliedBy K c o (env n o) := by
        intro n o
        cases o with
        | mem => exact fun hk => hK hk env rfl n
        | _ => trivial
      have hsome : K → ∃ mem, c.Supplied mem := fun hk => ⟨_, hK hk env rfl 0⟩
      rcases Prog.exec_of_wp (fitting_processCmd hsome _ h) henv hexec with
        ⟨a, rfl, hv⟩ | ⟨f, rfl, hv⟩
      · exact ⟨hv.2, nofun⟩
      · exact ⟨hv.2, fun f' heq => Except.error.inj heq ▸ hv.1⟩
    · obtain ⟨hv, hx⟩ := Prog.exec_of_all hp (fun o ho s a r s' hs hop => hs.op ho hop) hexec hu
      refine ⟨hv, fun f hf => ?_⟩
      rcases hx with ⟨a, rfl, -⟩ | ⟨f', rfl, hnull⟩
      · exact absurd hf (by simp)
      · exact Except.error.inj hf ▸ hnull
  cases x with
  | ok a => exact ⟨hend.1.jobs, hend.1.calls, hend.1.lockThreads, hend.1.fault⟩
  | error f =>
    exact ⟨hend.1.jobs, hend.1.calls, hend.1.lockThreads,
      fun hk heq => hend.2 f rfl hk (Option.some.inj heq)⟩

/-- In every run, what is left behind fits. -/
theorem fits_of_run {s : Life} {es : List LifeEvent} (hK : K → ∀ e ∈ es, e.Supplies c)
    (hrun : run (lifeStep c) Life.init es = some s) : s.Fits K c := by
  have hes : ∀ e ∈ es, K → e.Supplies c := fun e he hk => hK hk e he
  exact run_invariant_of (fun _ _ _ he h hstep => h.step he hstep) hes Life.fits_init hrun

end Runs

/-! ### Refused commands -/

section Refused

variable {c : Request} {d : DataCmd}

/-- `handle_cmd` leaves the command to the runner. -/
def LeavesAlone : (o : Op) → Ans o → Prop
  | .control .handleCmd, a => a.1 = .notHandled
  | _, _ => True

/-- Nothing has been done for the command. -/
structure Life.Blank (s : Life) : Prop where
  /-- No sub-command has been dispatched. -/
  jobs : s.jobs = []
  /-- The command has not been completed. -/
  completions : s.completions = []
  /-- The daemon is up. -/
  fault : s.fault = none

/-- The command has been answered with an error, and that is all. -/
structure Life.Failed (s : Life) : Prop where
  /-- No sub-command has been dispatched. -/
  jobs : s.jobs = []
  /-- The command has been completed once, and not with success. -/
  completions : ∃ sts, s.completions = [sts] ∧ sts ≠ .ok
  /-- The daemon is up. -/
  fault : s.fault = none

theorem Life.Blank.kept {s u : Life} (h : s.Blank) (hu : s.Kept u) : u.Blank :=
  ⟨hu.jobs.trans h.jobs, hu.completions.trans h.completions, hu.fault.trans h.fault⟩

/-- The program of this section ends, and its precondition is the given one. -/
abbrev Precond {α : Type} (p : Daemon α) (Q : α → Life → Prop) (s : Life) : Prop :=
  Prog.wp lifeInterp LeavesAlone (fun _ _ => False) p Q s

theorem Life.Blank.untrack {s : Life} {ret : TcmuSts} (h : s.Blank) (hok : ret ≠ .ok)
    (hasync : ret ≠ .asyncHandled) :
    Precond (untrack ret) (fun r u => u.Blank ∧ r ≠ .ok ∧ r ≠ .asyncHandled) s := by
  rw [Tcmu.untrack]
  dsimp only
  rw [if_pos hasync]
  intro a _ r u hu
  obtain ⟨-, rfl⟩ := Prod.mk.inj (Option.some.inj hu)
  exact ⟨⟨h.1, h.2, h.3⟩, hok, hasync⟩

/-- Whatever `handle_cmd` is, it does nothing for the command, or the device is in recovery. -/
theorem Life.Blank.handleTryPassthrough {s : Life} (h : s.Blank) :
    Precond (handleTryPassthrough c) (fun r u => u.Blank ∧ r ≠ .ok ∧ r ≠ .asyncHandled) s := by
  rw [Tcmu.handleTryPassthrough]
  split
  · exact ⟨h, by simp, by simp⟩
  · rename_i hcmd
    intro a _ r u hu
    obtain ⟨-, rfl⟩ := Prod.mk.inj (Option.some.inj hu)
    have hstart : { s with starts := s.starts + 1 : Life }.Blank := ⟨h.1, h.2, h.3⟩
    refine wp_quiet_ask (c := c) trivial fun r u hu => ?_
    split
    · exact (hstart.kept hu).untrack (by simp) (by simp)
    · rw [control, if_pos (by simpa [Control.defined] using hcmd)]
      intro a ha r v hv
      obtain ⟨rfl, rfl⟩ := Prod.mk.inj (Option.some.inj hv)
      have ha : a.1 = .notHandled := ha
      exact (hstart.kept hu).untrack (by simp [ha]) (by simp [ha])

theorem Life.Blank.tcmurCmdHandler {s : Life} (h : s.Blank) (hd : dataCmd c.cdb = some d)
    (hrefused : d.Refused c) (hidle : ¬ d.Idle c) :
    Precond (tcmurCmdHandler c) (fun r u => u.Blank ∧ r ≠ .ok ∧ r ≠ .asyncHandled) s := by
  intro a _ r u hu
  obtain ⟨-, rfl⟩ := Prod.mk.inj (Option.some.inj hu)
  have hstart : { s with starts := s.starts + 1 : Life }.Blank := ⟨h.1, h.2, h.3⟩
  refine wp_quiet_ask (c := c) trivial fun r u hu => ?_
  have hu := hstart.kept hu
  split
  · exact hu.untrack (by simp) (by simp)
  · rw [hd]
    refine wp_quiet (F := fun _ => False) quiet_aluaCheckState (fun _ _ hF => hF.elim)
      fun ret v hret hv => ?_
    have hv := hu.kept hv
    split
    · rename_i hok
      exact hv.untrack hok hret
    · refine wp_quiet (F := fun _ => False) (quiet_handle_of_refused hrefused)
        (fun _ _ hF => hF.elim) fun ret w hret hw => ?_
      exact (hv.kept hw).untrack (fun hok => hidle (hret.2 hok)) hret.1

/-- A refused command is answered with an error while it is processed. -/
theorem Life.Blank.processCmd {s : Life} (h : s.Blank) (hd : dataCmd c.cdb = some d)
    (hrefused : d.Refused c) (hidle : ¬ d.Idle c) :
    Precond (processCmd c) (fun _ u => u.Failed) s := by
  have hgeneric : Precond (tcmurGenericHandleCmd c)
      (fun r u => u.Blank ∧ r ≠ .ok ∧ r ≠ .asyncHandled) s := by
    refine wp_quiet (F := fun _ => False) quiet_handlePendingUa (fun _ _ hF => hF.elim)
      fun ret u hret hu => ?_
    have hu := h.kept hu
    split
    · exact ⟨hu, hret.2, hret.1⟩
    · refine wp_quiet_ask (c := c) trivial fun r v hv => ?_
      have hv := hu.kept hv
      split
      · refine wp_quiet_ask (c := c) trivial fun _ w hw => ?_
        exact ⟨hv.kept hw, by simp, by simp⟩
      · refine Prog.wp_seq hv.handleTryPassthrough fun ret w hw => ?_
        split
        · exact hw
        · rw [handleSyncCmd_of_dataCmd hd]
          exact hw.1.tcmurCmdHandler hd hrefused hidle
  refine Prog.wp_seq hgeneric fun ret u hu => ?_
  rw [if_pos hu.2.2]
  intro a _ r v hv
  obtain ⟨-, rfl⟩ := Prod.mk.inj (Option.some.inj hv)
  refine ⟨hu.1.jobs, ⟨ret, ?_, hu.2.1⟩, hu.1.fault⟩
  change u.completions ++ [ret] = [ret]
  rw [hu.1.completions, List.nil_append]

/-- A refused command has not been processed, or it has been answered with an error. -/
def Life.Refused (s : Life) : Prop :=
  s.Blank ∧ s.begun = false ∧ s.lockThreads = 0 ∨ s.Failed ∧ s.begun = true

theorem Life.Refused.step {s s' : Life} {e : LifeEvent} (h : s.Refused)
    (hd : dataCmd c.cdb = some d) (hrefused : d.Refused c) (hidle : ¬ d.Idle c)
    (hfits : s.Fits False c) (henv : ∀ n o, LeavesAlone o (e.env n o))
    (hstep : lifeStep c s e = some s') : s'.Refused := by
  have hjobs : s.jobs = [] := h.elim (fun h => h.1.jobs) fun h => h.1.jobs
  obtain ⟨-, p, u, x, v, hprog, hexec, rfl⟩ := lifeStep_cases hstep
  have hdone : Precond p (fun _ v => v.Failed) u → (settle (x, v)).Refused := by
    intro hp
    rcases Prog.exec_of_wp hp henv hexec with ⟨_, rfl, hv⟩ | ⟨_, -, hv⟩
    · exact Or.inr ⟨⟨hv.1, hv.2, hv.3⟩, rfl⟩
    · exact hv.elim
  cases e with
  | fetch env =>
    rw [LifeEvent.prog] at hprog
    split at hprog
    · exact absurd hprog (by simp)
    · rename_i hbegun
      obtain ⟨rfl, rfl⟩ := Prod.mk.inj (Option.some.inj hprog)
      rcases h with ⟨hblank, -⟩ | ⟨-, hdone⟩
      · exact hdone (hblank.processCmd hd hrefused hidle)
      · exact absurd hdone hbegun
  | work i env =>
    rw [LifeEvent.prog, hjobs] at hprog
    exact absurd hprog (by simp)
  | done i ret env =>
    rw [LifeEvent.prog, hjobs] at hprog
    exact absurd hprog (by simp)
  | lockThread env =>
    rw [LifeEvent.prog] at hprog
    split at hprog
    · exact absurd hprog (by simp)
    · rename_i hthreads
      obtain ⟨rfl, rfl⟩ := Prod.mk.inj (Option.some.inj hprog)
      have hlock := hfits.lockThreads (Nat.pos_of_ne_zero hthreads)
      rcases h with ⟨-, -, hnone⟩ | ⟨hfailed, -⟩
      · exact absurd hnone hthreads
      · refine hdone (wp_quiet (c := c) (F := fun _ => False) (quiet_tcmuAcquireDevLock hlock _)
          (fun _ _ hF => hF.elim) fun _ w _ hw => ?_)
        obtain ⟨sts, hsts, hne⟩ := hfailed.completions
        exact ⟨hw.jobs.trans hfailed.jobs, ⟨sts, hw.completions.trans hsts, hne⟩,
          hw.fault.trans hfailed.fault⟩

end Refused

/-! ### Concrete commands -/

/-- Surroundings in which nothing fails and nobody else is about. Handlers accept what they are
given, and `handle_cmd` leaves commands alone. -/
def calm (mem : Mem) : Prog.Env Op Ans := fun _ o =>
  match o with
  | .getRdev => ⟨false, false, .allActive, .unlocked, 0, 0⟩
  | .alloc => true
  | .calloc _ => some 0x1000
  | .mutexInit => true
  | .mem => mem
  | .cmdIov => []
  | .subIov => []
  | .putSubIov _ => ()
  | .io .. => .queued false
  | .control _ => (.notHandled, 0)
  | .getUnmap => none
  | .spawnLock => true
  | .waitEmpty => true
  | .reopen => true
  | .aluaGrps => some []
  | .setAlua .. => true
  | .emulate _ => ⟨.ok, by simp⟩
  | .putRdev _ => ()
  | .store .. => ()
  | .enqueue _ => ()
  | .putUnmap _ => ()
  | .freeUnmap => ()
  | .cawLock => ()
  | .cawUnlock => ()
  | .senseInfo _ => ()
  | .senseKeySpecific _ => ()
  | .connLost => ()
  | .complete _ => ()
  | .trackStart => ()
  | .trackFinish => ()

/-- `alloc_handler`, as far as command handling looks at it. -/
def allocHandler : TcmurHandler :=
  { read := true, write := true, flush := true, unmap := false, lock := false, unlock := false
    getLockTag := false, handleCmd := false, nrThreads := 1 }

/-- A device of eight blocks. -/
def smallDev (h : TcmurHandler) : TcmuDev := ⟨0, ⟨512, 8, 128, 128, 0⟩, h, none⟩

/-- A command for it, with one entry in its scatter list. -/
def smallRequest (h : TcmurHandler) (cdb : Cdb) (v : Iovec) : Request :=
  { dev := smallDev h
    ctx := [smallDev h]
    cmd := ⟨0, some cdb, [v], 1, List.replicate 96 0⟩
    cdb := cdb
    hcdb := rfl }

/-- `READ(6)` of one block. -/
def readRequest (h : TcmurHandler) : Request :=
  smallRequest h [0x08, 0, 0, 0, 1, 0] ⟨0x2000, 512⟩

/-- What it has left behind when `alloc_handler` has accepted it. -/
def readLife : Life :=
  { Life.init with
    begun := true
    jobs := [(true, .read)]
    calls := [Job.callout (readRequest allocHandler) .read]
    starts := 1 }

/-- `WRITE AND VERIFY(10)` of one block. -/
def verifyRequest (h : TcmurHandler) : Request :=
  smallRequest h [0x2e, 0, 0, 0, 0, 1, 0, 0, 1, 0] ⟨0x2000, 512⟩

/-- It is fetched, it is written, and what has been written is read. -/
def verifyEvents : List LifeEvent :=
  [.fetch (calm fun _ => 0), .work 0 (calm fun _ => 0), .done 0 .ok (calm fun _ => 0),
    .work 0 (calm fun _ => 0)]

/-- `FORMAT UNIT`. -/
def formatRequest (h : TcmurHandler) : Request := smallRequest h [0x04, 0, 0, 0, 0, 0] ⟨0x2000, 0⟩

/-- `UNMAP`, with a parameter list of 24 bytes. -/
def unmapRequest (h : TcmurHandler) : Request :=
  smallRequest h [0x42, 0, 0, 0, 0, 0, 0, 0, 24, 0] ⟨0x2000, 24⟩

/-- A parameter list with one descriptor, of block 0. -/
def unmapParam : Mem :=
  Mem.store (fun _ => 0) 0x2000 [0, 22, 0, 16, 0, 0, 0, 0, 0, 0, 0, 0, 0, 0, 0, 0, 0, 0, 0, 1]

/-- Memory that is all zero holds no descriptor for an unmap. -/
theorem supplied_unmap_zero : (unmapRequest allocHandler).Supplied fun _ => 0 := by
  have hzero : ∀ par, (unmapRequest allocHandler).paramMem (fun _ => 0) par = fun _ => 0 := by
    intro par
    have hstore : ∀ n, Mem.store (fun _ => 0) par (List.replicate n 0) = fun _ => 0 := by
      intro n
      funext x
      rw [Mem.store, List.getD_eq_getElem?_getD, List.getElem?_replicate]
      repeat' split
      all_goals rfl
    exact (congrArg (Mem.store · par (List.replicate 24 0)) (hstore 24)).trans (hstore 24)
  refine ⟨fun d hd => Or.inr ?_, fun hop => absurd hop (by decide)⟩
  obtain rfl : DataCmd.unmap = d := Option.some.inj hd
  refine Or.inr fun par => Or.inr ?_
  have hnone : descCount (fun _ => 0) par = 0 := by
    have hload : Mem.load (fun _ => 0) (par + 2) 2 = [0, 0] := rfl
    rw [descCount, Mem.be, hload]
    rfl
  rw [hzero]
  exact fun j hj => absurd (hnone ▸ hj) (Nat.not_lt_zero j)

/-! ### Main results -/

section Main

variable {c : Request} {s : Life} {es : List LifeEvent}

/-- **Sub-commands with a CDB.** In every run, whatever is handed to `read`, `write` or `flush` for
a command that does not format the device carries a CDB. -/
theorem callouts_have_cdb (h : ¬ c.Formats)
    (hrun : run (lifeStep c) Life.init es = some s) : ∀ co ∈ s.calls, co.cdb ≠ some none := by
  intro co hco
  obtain ⟨j, hj, rfl, hdefined⟩ := (fits_of_run (K := False) (fun hk => hk.elim) hrun).calls co hco
  exact hj.cdb_ne hdefined h

/-- Its CDB is handed to `write` with the command and to `read` with the sub-command. -/
theorem callouts_have_cdb_verify : ∃ s,
    run (lifeStep (verifyRequest allocHandler)) Life.init verifyEvents = some s ∧
      s.calls.map Callout.cdb = List.replicate 2 (some (some (verifyRequest allocHandler).cdb)) ∧
      ∀ co ∈ s.calls, co.cdb ≠ some none := by
  have hend : ∃ s, run (lifeStep (verifyRequest allocHandler)) Life.init verifyEvents = some s ∧
      s.calls.map Callout.cdb = List.replicate 2 (some (some (verifyRequest allocHandler).cdb)) :=
    ⟨_, rfl, rfl⟩
  obtain ⟨s, hrun, hcdb⟩ := hend
  exact ⟨s, hrun, hcdb, callouts_have_cdb (fun h => absurd h.cmd (by decide)) hrun⟩

/-- Formatting hands a command without a CDB to `write`. -/
theorem format_writes_without_cdb : ∃ s, run (lifeStep (formatRequest allocHandler)) Life.init
      [.fetch (calm fun _ => 0), .work 0 (calm fun _ => 0)] = some s ∧
    ∃ co ∈ s.calls, co.cdb = some none :=
  ⟨_, rfl, _, List.mem_singleton.mpr rfl, rfl⟩

/-- **Defined callouts.** In every run of a command that is supplied by the memory it is fetched
with, no `NULL` pointer is called. If the command is refused, or a callout that it needs is missing,
it has been completed with an error once it has been processed. -/
theorem callouts_defined (h : ∀ e ∈ es, e.Supplies c)
    (hrun : run (lifeStep c) Life.init es = some s) :
    s.fault ≠ some .nullCallout ∧ (∀ co ∈ s.calls, co.defined = true) ∧
      ∀ d, dataCmd c.cdb = some d →
        (d.Refused c ∨ ∃ env, .fetch env ∈ es ∧ ∃ n, ¬ d.Supplied c (env n .mem)) → ¬ d.Idle c →
        (∀ e ∈ es, ∀ n o, LeavesAlone o (e.env n o)) → s.begun = true →
        ∃ sts, s.completions = [sts] ∧ sts ≠ .ok := by
  have hfits := fits_of_run (K := True) (fun _ => h) hrun
  refine ⟨hfits.fault trivial, fun co hco => ?_, fun d hd hmissing hidle henv hbegun => ?_⟩
  · obtain ⟨j, -, -, hdefined⟩ := hfits.calls co hco
    exact hdefined
  · have hrefused : d.Refused c := by
      rcases hmissing with hrefused | ⟨env, he, n, hnot⟩
      · exact hrefused
      · exact ((h _ he env rfl n).data d hd).resolve_right hnot
    have hinit : Life.init.Refused := Or.inl ⟨⟨rfl, rfl, rfl⟩, rfl, rfl⟩
    have hkeep : ∀ t e t', (∀ n o, LeavesAlone o (e.env n o)) → t.Fits False c ∧ t.Refused →
        lifeStep c t e = some t' → t'.Fits False c ∧ t'.Refused :=
      fun t e t' he ht hstep => ⟨ht.1.step (fun hk => hk.elim) hstep,
        ht.2.step hd hrefused hidle ht.1 he hstep⟩
    have hinv := run_invariant_of hkeep henv ⟨Life.fits_init, hinit⟩ hrun
    rcases hinv.2 with ⟨-, hnot, -⟩ | ⟨hfailed, -⟩
    · exact absurd hbegun (by simp [hnot])
    · exact hfailed.completions

/-- Reading calls a callout that is there, and unmapping nothing does not call the one that is
missing. -/
theorem callouts_defined_alloc :
    (run (lifeStep (readRequest allocHandler)) Life.init
        [.fetch (calm fun _ => 0), .work 0 (calm fun _ => 0)] = some readLife ∧
      readLife.fault ≠ some .nullCallout) ∧
    ∃ s, run (lifeStep (unmapRequest allocHandler)) Life.init [.fetch (calm fun _ => 0)] = some s ∧
      s.completions = [.ok] ∧ s.fault ≠ some .nullCallout := by
  have hread : run (lifeStep (readRequest allocHandler)) Life.init
      [.fetch (calm fun _ => 0), .work 0 (calm fun _ => 0)] = some readLife := rfl
  have hequipped : (readRequest allocHandler).Equipped := by
    refine ⟨fun d hd => Or.inr ?_, fun hop => absurd hop (by decide)⟩
    obtain rfl : DataCmd.read = d := Option.some.inj hd
    rfl
  have hunmap : ∃ s, run (lifeStep (unmapRequest allocHandler)) Life.init
      [.fetch (calm fun _ => 0)] = some s ∧ s.completions = [.ok] := ⟨_, rfl, rfl⟩
  have hsupplies : ∀ e ∈ [LifeEvent.fetch (calm fun _ => 0)],
      e.Supplies (unmapRequest allocHandler) := by
    intro e he env heq n
    rw [List.mem_singleton.mp he] at heq
    rw [← LifeEvent.fetch.inj heq]
    exact supplied_unmap_zero
  obtain ⟨s, hs, hok⟩ := hunmap
  exact ⟨⟨hread, (callouts_defined (fun e _ => hequipped.supplies e) hread).1⟩,
    s, hs, hok, (callouts_defined hsupplies hs).1⟩

/-- `alloc_handler` has no `unmap`, and unmapping a block of its device calls it. -/
theorem unmap_calls_null_pointer :
    (run (lifeStep (unmapRequest allocHandler)) Life.init
      [.fetch (calm unmapParam), .work 0 (calm unmapParam)]).map Life.fault =
    some (some .nullCallout) := by
  decide +kernel

end Main

end Tcmu

end LioProject
