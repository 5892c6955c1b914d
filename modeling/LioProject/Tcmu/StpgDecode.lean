import LioProject.Tcmu.AluaStates
import LioProject.Tcmu.Reads

/-!
# What `SET TARGET PORT GROUPS` looks at

`tcmu_emulate_set_tgt_port_grps` with every read of its parameter list spelled out:
`readSetTgtPortGrps`. With the answers put in it is `tcmuEmulateSetTgtPortGrps` again, as long as
`off`, a `uint32_t`, does not wrap (`blind_readSetTgtPortGrps`).

The list has a header of four bytes and descriptors of four bytes each. The loop goes on as long as
there is one byte left, and reads four. If the length of the list is not a multiple of four, it
runs out of the buffer and acts on what it finds there, unless one of the descriptors before has
failed: `stpg_decodes_iff`.
-/

namespace LioProject

namespace Tcmu

/-! ### Descriptors -/

/-- Act on one descriptor. -/
def setTgtPortGrp (h : TcmurHandler) (groups : List AluaGrp) (enabled newState id : ℕ) :
    Daemon TcmuSts :=
  match groups.findIdx? fun g => g.id = id with
  | none => pure .explTransitionErr
  | some i =>
    if i ≠ enabled then pure .hwErr
    else
      match groups[i]? with
      | none => pure .explTransitionErr
      | some group => tcmuExplicitTransition h groups i group newState

/-- The complete descriptors in what follows the header of a list: the state that each asks for, and
the group. -/
def stpgDescriptors : List UInt8 → List (ℕ × ℕ)
  | state :: _ :: hi :: lo :: rest =>
    (state.toNat &&& 0x0f, beAt [hi, lo] 0 2) :: stpgDescriptors rest
  | _ => []

/-- Act on descriptors, until one fails. -/
def setDescriptors (h : TcmurHandler) (groups : List AluaGrp) (enabled : ℕ) :
    List (ℕ × ℕ) → Daemon TcmuSts
  | [] => pure .ok
  | d :: ds => do
    let ret ← setTgtPortGrp h groups enabled d.1 d.2
    if ret ≠ .ok then pure ret else setDescriptors h groups enabled ds

/-- The descriptor is for the group of the enabled port, and asks for a state that the group has and
that is supported: it fails only if the environment lets it. -/
def Acceptable (groups : List AluaGrp) (enabled : ℕ) (d : ℕ × ℕ) : Prop :=
  (groups.findIdx? fun g => g.id = d.2) = some enabled ∧
    ∃ group, groups[enabled]? = some group ∧
      aluaCheckSupState d.1 group.supportedStates = true ∧ (d.1 = 0x0 ∨ d.1 = 0x2)

/-! ### The function with its reads -/

/-- The loop of `tcmu_emulate_set_tgt_port_grps`. -/
def readTgtPortGrps (h : TcmurHandler) (groups : List AluaGrp) (enabled : ℕ) (mem : Mem)
    (buf paramListLen : ℕ) : ℕ → ℕ → ReadingDaemon TcmuSts
  | 0, _ => .fail .endless
  | fuel + 1, off =>
    if paramListLen ≤ off then pure .ok
    else do
      let newState ← lookBe mem (buf + off) 1
      let id ← lookBe mem (buf + (off + 2) % 2 ^ 32) 2
      let ret ← (setTgtPortGrp h groups enabled (newState &&& 0x0f) id).lift
      if ret ≠ .ok then pure ret
      else readTgtPortGrps h groups enabled mem buf paramListLen fuel ((off + 4) % 2 ^ 32)

/-- `tcmu_emulate_set_tgt_port_grps`. -/
def readSetTgtPortGrps (c : Request) (groups : List AluaGrp) : ReadingDaemon TcmuSts :=
  match tcmuGetEnabledPort groups with
  | none => pure .invalidCmd
  | some enabled =>
    let paramListLen := xferLengthOf c.cdb
    if paramListLen = 0 then pure .ok
    else do
      match ← askLifted (.calloc paramListLen) with
      | none => pure .noResource
      | some buf =>
        if copiedParam paramListLen c.cmd.iov ≠ paramListLen then pure .invalidParamListLen
        else
          let mem ← askLifted .mem
          readTgtPortGrps c.dev.handler groups enabled (c.paramMem mem buf) buf paramListLen
            paramListLen 4

/-- The parameter list of a command. -/
def Request.paramList (c : Request) (mem : Mem) : List UInt8 :=
  (gather c.cmd.iov mem).take (xferLengthOf c.cdb)

/-- What a `SET TARGET PORT GROUPS` should do: act on the complete descriptors of its list. -/
def setParamList (c : Request) (groups : List AluaGrp) : Daemon TcmuSts :=
  match tcmuGetEnabledPort groups with
  | none => pure .invalidCmd
  | some enabled =>
    if xferLengthOf c.cdb = 0 then pure .ok
    else do
      match ← ask (.calloc (xferLengthOf c.cdb)) with
      | none => pure .noResource
      | some _ =>
        if copiedParam (xferLengthOf c.cdb) c.cmd.iov ≠ xferLengthOf c.cdb then
          pure .invalidParamListLen
        else
          let mem ← ask .mem
          setDescriptors c.dev.handler groups enabled (stpgDescriptors ((c.paramList mem).drop 4))

section Loop

variable {h : TcmurHandler} {groups : List AluaGrp} {enabled : ℕ} {mem : Mem} {buf n : ℕ}

/-- A descriptor that is not acceptable fails, and nothing is done. -/
theorem setTgtPortGrp_of_not_acceptable {d : ℕ × ℕ} (hnot : ¬ Acceptable groups enabled d) :
    ∃ sts, sts ≠ .ok ∧ setTgtPortGrp h groups enabled d.1 d.2 = pure sts := by
  rw [setTgtPortGrp]
  split
  · exact ⟨_, by decide, rfl⟩
  · rename_i i hfind
    split
    · exact ⟨_, by decide, rfl⟩
    · rename_i hi
      obtain rfl := not_not.mp hi
      split
      · exact ⟨_, by decide, rfl⟩
      · rename_i group hgroup
        unfold tcmuExplicitTransition
        split
        · exact ⟨_, by decide, rfl⟩
        · rename_i hsup
          have hsup' : aluaCheckSupState d.1 group.supportedStates = true := by simpa using hsup
          split
          · rename_i hstate
            exact absurd ⟨hfind, group, hgroup, hsup', Or.inl hstate⟩ hnot
          · rename_i hstate
            exact absurd ⟨hfind, group, hgroup, hsup', Or.inr hstate⟩ hnot
          · exact ⟨_, by decide, rfl⟩

/-- The bytes of a descriptor. -/
theorem load_descriptor {a k : ℕ} {state reserved hi lo : UInt8} {rest : List UInt8}
    (hload : mem.load a (4 + k) = state :: reserved :: hi :: lo :: rest) :
    mem.be a 1 = state.toNat ∧ mem.be (a + 2) 2 = beAt [hi, lo] 0 2 ∧
      mem.load (a + 4) k = rest := by
  rw [Mem.load_add] at hload
  have hfour : mem.load a 4 = [mem a, mem (a + 1), mem (a + 2), mem (a + 3)] := rfl
  rw [hfour] at hload
  simp only [List.cons_append, List.nil_append, List.cons.injEq] at hload
  obtain ⟨rfl, -, rfl, rfl, rfl⟩ := hload
  exact ⟨Mem.be_one mem a, rfl, rfl⟩

theorem exists_of_four_le {bs : List UInt8} (hle : 4 ≤ bs.length) :
    ∃ state reserved hi lo rest, bs = state :: reserved :: hi :: lo :: rest := by
  match bs with
  | state :: reserved :: hi :: lo :: rest => exact ⟨state, reserved, hi, lo, rest, rfl⟩

theorem stpgDescriptors_of_short {bs : List UInt8} (hlt : bs.length < 4) :
    stpgDescriptors bs = [] := by
  match bs with
  | [] | [_] | [_, _] | [_, _, _] => rfl

/-- One turn of the loop, with the answers put in. -/
theorem blind_readTgtPortGrps_succ (fuel off : ℕ) :
    (readTgtPortGrps h groups enabled mem buf n (fuel + 1) off).blind lookIn =
      if n ≤ off then pure .ok
      else
        setTgtPortGrp h groups enabled (mem.be (buf + off) 1 &&& 0x0f)
            (mem.be (buf + (off + 2) % 2 ^ 32) 2) >>= fun ret =>
          if ret ≠ .ok then pure ret
          else (readTgtPortGrps h groups enabled mem buf n fuel
            ((off + 4) % 2 ^ 32)).blind lookIn := by
  rw [readTgtPortGrps]
  split
  · rfl
  · rw [blind_lookBe_bind, blind_lookBe_bind, Prog.blind_bind, Prog.blind_lift]
    refine congrArg _ (funext fun ret => ?_)
    split
    · rfl
    · rfl

/-- The loop over what is left of the list, `bs`, acts on the complete descriptors, unless there are
bytes behind the last of them and it gets there. -/
theorem blind_readTgtPortGrps (h32 : n < 2 ^ 32) {fuel : ℕ} : ∀ {off : ℕ} {bs : List UInt8},
    4 ∣ off → mem.load (buf + off) (n - off) = bs → bs.length < 4 * fuel →
    (4 ∣ bs.length ∨ ∃ d ∈ stpgDescriptors bs, ¬ Acceptable groups enabled d) →
    (readTgtPortGrps h groups enabled mem buf n fuel off).blind lookIn =
      setDescriptors h groups enabled (stpgDescriptors bs) := by
  induction fuel with
  | zero => exact fun _ _ hfuel => absurd hfuel (by omega)
  | succ fuel ih =>
    intro off bs hoff hload hfuel hcond
    have hlength : bs.length = n - off := by rw [← hload, Mem.length_load]
    rw [blind_readTgtPortGrps_succ]
    by_cases hlt : bs.length < 4
    · have hnil := stpgDescriptors_of_short hlt
      rw [hnil] at hcond ⊢
      have hdvd : 4 ∣ bs.length := hcond.resolve_right (by simp)
      rw [if_pos (by omega), setDescriptors]
    · obtain ⟨state, reserved, hi, lo, rest, rfl⟩ := exists_of_four_le (Nat.le_of_not_lt hlt)
      rw [List.length_cons, List.length_cons, List.length_cons, List.length_cons] at hlength hfuel
      rw [show n - off = 4 + (n - (off + 4)) by omega] at hload
      obtain ⟨hstate, hid, hrest⟩ := load_descriptor hload
      rw [if_neg (by omega), Nat.mod_eq_of_lt (show off + 2 < 2 ^ 32 by omega),
        Nat.mod_eq_of_lt (show off + 4 < 2 ^ 32 by omega), ← Nat.add_assoc, hstate, hid,
        stpgDescriptors, setDescriptors]
      by_cases hd : Acceptable groups enabled (state.toNat &&& 0x0f, beAt [hi, lo] 0 2)
      · have htail : 4 ∣ rest.length ∨
            ∃ d ∈ stpgDescriptors rest, ¬ Acceptable groups enabled d := by
          rcases hcond with hdvd | ⟨d, hmem, hnot⟩
          · rw [List.length_cons, List.length_cons, List.length_cons, List.length_cons] at hdvd
            exact Or.inl (by omega)
          · rcases List.mem_cons.mp hmem with rfl | hmem
            · exact absurd hd hnot
            · exact Or.inr ⟨d, hmem, hnot⟩
        rw [Nat.add_assoc] at hrest
        rw [ih (by omega) hrest (by omega) htail]
      · obtain ⟨sts, hsts, hpure⟩ := setTgtPortGrp_of_not_acceptable (h := h) hd
        rw [hpure]
        change (if sts ≠ .ok then pure sts else _) = (if sts ≠ .ok then pure sts else _)
        rw [if_pos hsts, if_pos hsts]

end Loop

/-! ### The same without its reads -/

/-- The loop is that of `tcmuEmulateSetTgtPortGrps`. -/
theorem blind_readTgtPortGrps_eq {h : TcmurHandler} {groups : List AluaGrp} {enabled : ℕ}
    {mem : Mem} {buf n : ℕ} (h32 : n + 3 < 2 ^ 32) {fuel : ℕ} (hpos : 0 < fuel) : ∀ {off : ℕ},
    4 ∣ off → n + 4 ≤ off + 4 * fuel →
    (readTgtPortGrps h groups enabled mem buf n fuel off).blind lookIn =
      setTgtPortGrps h groups enabled mem buf n fuel off := by
  induction fuel with
  | zero => exact absurd hpos (by decide)
  | succ fuel ih =>
    intro off hoff hfuel
    rw [blind_readTgtPortGrps_succ, setTgtPortGrps]
    split
    · rfl
    · rename_i hlt
      rw [Nat.mod_eq_of_lt (show off + 2 < 2 ^ 32 by omega),
        Nat.mod_eq_of_lt (show off + 4 < 2 ^ 32 by omega), ← Nat.add_assoc, Mem.be_one,
        ih (by omega) (by omega) (by omega), setTgtPortGrp]
      cases groups.findIdx? fun g => g.id = mem.be (buf + off + 2) 2 with
      | none => rfl
      | some i =>
        dsimp only
        split
        · rfl
        · cases groups[i]? with
          | none => rfl
          | some group => rfl

/-- **With the answers put in, the function is what it was.** -/
theorem blind_readSetTgtPortGrps {c : Request} (groups : List AluaGrp)
    (h32 : xferLengthOf c.cdb + 3 < 2 ^ 32) :
    (readSetTgtPortGrps c groups).blind lookIn = tcmuEmulateSetTgtPortGrps c groups := by
  rw [readSetTgtPortGrps, tcmuEmulateSetTgtPortGrps]
  cases tcmuGetEnabledPort groups with
  | none => rfl
  | some enabled =>
    dsimp only
    split
    · rfl
    · rename_i hne
      rw [Prog.blind_bind, Prog.blind_lift]
      refine congrArg _ (funext fun r => ?_)
      cases r with
      | none => rfl
      | some buf =>
        dsimp only
        split
        · rfl
        · rw [Prog.blind_bind, Prog.blind_lift]
          refine congrArg _ (funext fun mem => ?_)
          exact blind_readTgtPortGrps_eq h32 (by omega) (by decide) (by omega)

/-! ### Runs -/

/-- Every operation is answered as the environment says, and written down. -/
def tapeInterp : Prog.Interp Op Ans (List Op) := fun s o a => some (a, s ++ [o])

section Runs

variable {h : TcmurHandler} {groups : List AluaGrp} {enabled : ℕ} {mem : Mem} {buf n : ℕ}
  {env : Prog.Env Op Ans} {s s' : List Op} {l : List (Mem × Read)}

theorem watch_pure {x : Except Fault TcmuSts} {sts : TcmuSts}
    (hwatch : (pure sts : ReadingDaemon TcmuSts).watch tapeInterp lookIn env s = some (x, s', l)) :
    x = .ok sts ∧ l = [] := by
  obtain ⟨rfl, -, rfl⟩ : .ok sts = x ∧ s = s' ∧ [] = l := by
    simpa [Prog.watch, pure] using hwatch
  exact ⟨rfl, rfl⟩

/-- One turn of a run of the loop: the two reads, and the end or the next turn. -/
theorem watch_readTgtPortGrps_succ {fuel off : ℕ} (hlt : off < n) {x : Except Fault TcmuSts}
    (hwatch : (readTgtPortGrps h groups enabled mem buf n (fuel + 1) off).watch tapeInterp lookIn
      env s = some (x, s', l)) :
    ∃ l', l = (mem, buf + off, 1) :: (mem, buf + (off + 2) % 2 ^ 32, 2) :: l' ∧
      (l' = [] ∧ (∀ t, (setTgtPortGrp h groups enabled (mem.be (buf + off) 1 &&& 0x0f)
          (mem.be (buf + (off + 2) % 2 ^ 32) 2)).exec tapeInterp env s ≠ some (.ok .ok, t)) ∨
        ∃ t m, (setTgtPortGrp h groups enabled (mem.be (buf + off) 1 &&& 0x0f)
            (mem.be (buf + (off + 2) % 2 ^ 32) 2)).exec tapeInterp env s = some (.ok .ok, t) ∧
          (readTgtPortGrps h groups enabled mem buf n fuel ((off + 4) % 2 ^ 32)).watch tapeInterp
            lookIn (fun k => env (k + m)) t = some (x, s', l')) := by
  rw [readTgtPortGrps, if_neg (by omega)] at hwatch
  obtain ⟨l₁, rfl, hwatch₁⟩ := watch_lookBe_bind hwatch
  obtain ⟨l₂, rfl, hwatch₂⟩ := watch_lookBe_bind hwatch₁
  refine ⟨l₂, rfl, ?_⟩
  rcases watch_lift_cases hwatch₂ with ⟨e, hexec, rfl, rfl⟩ | ⟨ret, t, m, hexec, hrest⟩
  · refine Or.inl ⟨rfl, fun t ht => ?_⟩
    rw [hexec] at ht
    exact absurd ht (by simp)
  · by_cases hret : ret = .ok
    · rw [if_neg (not_not.mpr hret)] at hrest
      subst hret
      exact Or.inr ⟨t, m, hexec, hrest⟩
    · rw [if_pos hret] at hrest
      obtain ⟨-, rfl⟩ := watch_pure hrest
      refine Or.inl ⟨rfl, fun t ht => ?_⟩
      rw [hexec] at ht
      exact absurd ht (by simpa using fun h => absurd h hret)

/-- A descriptor that is acted on with success is acceptable. -/
theorem acceptable_of_exec {d : ℕ × ℕ}
    (hexec : (setTgtPortGrp h groups enabled d.1 d.2).exec tapeInterp env s =
      some (.ok .ok, s')) : Acceptable groups enabled d := by
  by_contra hnot
  obtain ⟨sts, hsts, hpure⟩ := setTgtPortGrp_of_not_acceptable (h := h) hnot
  rw [hpure] at hexec
  obtain ⟨heq, -⟩ : sts = .ok ∧ s = s' := by simpa [Prog.exec, pure] using hexec
  exact hsts heq

/-- **The loop reads inside the list**, under the same condition. -/
theorem inside_readTgtPortGrps (h32 : n < 2 ^ 32) {fuel : ℕ} :
    ∀ {off : ℕ} {bs : List UInt8} {env : Prog.Env Op Ans} {s s' : List Op}
      {x : Except Fault TcmuSts} {l : List (Mem × Read)},
      4 ∣ off → mem.load (buf + off) (n - off) = bs →
      (4 ∣ bs.length ∨ ∃ d ∈ stpgDescriptors bs, ¬ Acceptable groups enabled d) →
      (readTgtPortGrps h groups enabled mem buf n fuel off).watch tapeInterp lookIn env s =
        some (x, s', l) → Inside buf (buf + n) (l.map Prod.snd) := by
  induction fuel with
  | zero =>
    intro off bs env s s' x l _ _ _ hwatch
    obtain ⟨-, -, rfl⟩ : .error Fault.endless = x ∧ s = s' ∧ [] = l := by
      simpa [readTgtPortGrps, Prog.watch] using hwatch
    exact inside_nil
  | succ fuel ih =>
    intro off bs env s s' x l hoff hload hcond hwatch
    have hlength : bs.length = n - off := by rw [← hload, Mem.length_load]
    rcases Nat.lt_or_ge off n with hlt | hge
    · by_cases hshort : bs.length < 4
      · rw [stpgDescriptors_of_short hshort] at hcond
        have hdvd : 4 ∣ bs.length := hcond.resolve_right (by simp)
        omega
      · obtain ⟨state, reserved, hi, lo, rest, rfl⟩ := exists_of_four_le (Nat.le_of_not_lt hshort)
        simp only [List.length_cons] at hlength hcond
        rw [show n - off = 4 + (n - (off + 4)) by omega] at hload
        obtain ⟨hstate, hid, hrest⟩ := load_descriptor hload
        obtain ⟨l', rfl, hcases⟩ := watch_readTgtPortGrps_succ hlt hwatch
        rw [Nat.mod_eq_of_lt (show off + 2 < 2 ^ 32 by omega),
          Nat.mod_eq_of_lt (show off + 4 < 2 ^ 32 by omega), ← Nat.add_assoc, hstate,
          hid] at hcases
        rw [Nat.mod_eq_of_lt (show off + 2 < 2 ^ 32 by omega)]
        refine inside_cons.mpr ⟨by omega, inside_cons.mpr ⟨by omega, ?_⟩⟩
        rcases hcases with ⟨rfl, -⟩ | ⟨t, m, hexec, hnext⟩
        · exact inside_nil
        · rw [Nat.add_assoc] at hrest
          refine ih (by omega) hrest ?_ hnext
          rcases hcond with hdvd | ⟨d, hmem, hnot⟩
          · exact Or.inl (by omega)
          · rcases List.mem_cons.mp hmem with rfl | hmem
            · exact absurd (acceptable_of_exec hexec) hnot
            · exact Or.inr ⟨d, hmem, hnot⟩
    · rw [readTgtPortGrps, if_pos hge] at hwatch
      obtain ⟨-, rfl⟩ := watch_pure hwatch
      exact inside_nil

end Runs

/-! ### A run in which nothing fails -/

section Granted

variable {h : TcmurHandler} {groups : List AluaGrp} {enabled : ℕ} {mem : Mem}

/-- The program returns `a` if nothing fails. -/
def Granted {α : Type} (mem : Mem) (p : Daemon α) (a : α) : Prop :=
  ∀ s, ∃ s', p.exec tapeInterp (lockGranted mem) s = some (.ok a, s')

variable {α β : Type}

theorem granted_pure (a : α) : Granted mem (pure a) a := fun s => ⟨s, rfl⟩

theorem granted_ask (o : Op) : Granted mem (ask o) (lockGranted mem 0 o) := fun _ => ⟨_, rfl⟩

theorem Granted.bind {p : Daemon α} {f : α → Daemon β} {a : α} {b : β} (hp : Granted mem p a)
    (hf : Granted mem (f a) b) : Granted mem (p >>= f) b := by
  intro s
  obtain ⟨t, ht⟩ := hp s
  obtain ⟨u, hu⟩ := hf t
  refine ⟨u, ?_⟩
  have hbind := Prog.exec_bind_const tapeInterp (lockGranted mem 0) p f s
  rw [show (fun _ => lockGranted mem 0) = lockGranted mem from rfl, ht] at hbind
  exact hbind.trans hu

theorem granted_aluaSetState (group : AluaGrp) (newState status : ℕ) :
    Granted mem (aluaSetState group newState status) .ok :=
  (granted_ask _).bind (granted_pure _)

theorem granted_modifyRdev (f : TcmurDevice → TcmurDevice) : Granted mem (modifyRdev f) () :=
  (granted_ask _).bind (granted_ask _)

theorem granted_lockRetry (hlock : h.lock = true) (tag retries : ℕ) :
    Granted mem (lockRetry h tag retries) .ok := by
  have hcontrol : Granted mem (control h (.lock tag)) (.ok, 1) := by
    rw [control, if_pos (show Control.defined h (.lock tag) = true from hlock)]
    exact granted_ask _
  cases retries with
  | zero => exact hcontrol.bind ((granted_pure _).bind (granted_pure _))
  | succ retries => exact hcontrol.bind ((granted_pure _).bind (granted_pure _))

theorem granted_tcmuAcquireDevLock (hlock : h.lock = true) (tag : ℕ) :
    Granted mem (tcmuAcquireDevLock h tag) .ok :=
  (granted_ask _).bind ((granted_lockRetry hlock tag 1).bind
    ((granted_modifyRdev _).bind (granted_pure _)))

theorem granted_tcmuReleaseDevLock : Granted mem (tcmuReleaseDevLock h) () :=
  (granted_ask _).bind (granted_pure _)

theorem granted_forM {γ : Type} {f : γ → Daemon PUnit} (hf : ∀ x, Granted mem (f x) ⟨⟩)
    (xs : List γ) : Granted mem (xs.forM f) ⟨⟩ := by
  induction xs with
  | nil => exact granted_pure _
  | cons x xs ih => exact (hf x).bind ih

/-- An acceptable descriptor is acted on with success. -/
theorem Acceptable.granted {d : ℕ × ℕ} (hd : Acceptable groups enabled d) (mem : Mem)
    (h : TcmurHandler) :
    Granted mem (setTgtPortGrp h groups enabled d.1 d.2) .ok := by
  obtain ⟨hfind, group, hgroup, hsup, hstate⟩ := hd
  rw [setTgtPortGrp, hfind]
  dsimp only
  rw [if_neg (not_not.mpr rfl), hgroup]
  dsimp only
  unfold tcmuExplicitTransition
  rw [hsup, if_neg (by decide)]
  split
  · split
    · exact granted_aluaSetState _ _ _
    · rename_i hlock
      refine (granted_tcmuAcquireDevLock (by simpa using hlock) _).bind ?_
      rw [if_neg (by decide), if_neg (by decide)]
      refine (granted_forM (fun x => ?_) _).bind (granted_aluaSetState _ _ _)
      dsimp only
      split
      · exact (granted_aluaSetState _ _ _).bind (granted_pure _)
      · exact granted_pure _
  · split
    · exact granted_tcmuReleaseDevLock.bind (granted_aluaSetState _ _ _)
    · exact granted_aluaSetState _ _ _
  · rename_i hzero htwo
    rcases hstate with hstate | hstate
    · exact absurd hstate hzero
    · exact absurd hstate htwo

end Granted

/-- **Where the loop runs out of the list**: nothing fails, all complete descriptors are acceptable,
and there are bytes behind the last of them. -/
theorem outside_readTgtPortGrps {h : TcmurHandler} {groups : List AluaGrp} {enabled : ℕ}
    {mem mem' : Mem} {buf n : ℕ} (h32 : n < 2 ^ 32) {fuel : ℕ} :
    ∀ {off : ℕ} {bs : List UInt8} {s s' : List Op} {x : Except Fault TcmuSts}
      {l : List (Mem × Read)}, 4 ∣ off → mem.load (buf + off) (n - off) = bs →
      bs.length < 4 * fuel → ¬ 4 ∣ bs.length →
      (∀ d ∈ stpgDescriptors bs, Acceptable groups enabled d) →
      (readTgtPortGrps h groups enabled mem buf n fuel off).watch tapeInterp lookIn
        (lockGranted mem') s = some (x, s', l) → ¬ Inside buf (buf + n) (l.map Prod.snd) := by
  induction fuel with
  | zero => exact fun _ _ hfuel => absurd hfuel (by omega)
  | succ fuel ih =>
    intro off bs s s' x l hoff hload hfuel hdvd hall hwatch
    have hlength : bs.length = n - off := by rw [← hload, Mem.length_load]
    have hlt : off < n := by
      by_contra hge
      exact hdvd (by omega)
    obtain ⟨l', rfl, hcases⟩ := watch_readTgtPortGrps_succ hlt hwatch
    intro hinside
    have hreads := (inside_cons.mp (inside_cons.mp hinside).2).1.2
    rw [Nat.mod_eq_of_lt (show off + 2 < 2 ^ 32 by omega)] at hreads hcases
    obtain ⟨state, reserved, hi, lo, rest, rfl⟩ :=
      exists_of_four_le (show 4 ≤ bs.length by omega)
    simp only [List.length_cons] at hlength hfuel hdvd
    rw [show n - off = 4 + (n - (off + 4)) by omega] at hload
    obtain ⟨hstate, hid, hrest⟩ := load_descriptor hload
    rw [Nat.mod_eq_of_lt (show off + 4 < 2 ^ 32 by omega), ← Nat.add_assoc, hstate,
      hid] at hcases
    obtain ⟨hd, hrests⟩ := List.forall_mem_cons.mp hall
    rcases hcases with ⟨-, hfails⟩ | ⟨t, m, -, hnext⟩
    · obtain ⟨t, ht⟩ := hd.granted mem' h s
      exact hfails t ht
    · rw [Nat.add_assoc] at hrest
      exact ih (by omega) hrest (by omega) (by omega) hrests hnext
        (inside_cons.mp (inside_cons.mp hinside).2).2

/-! ### The main result -/

/-- **The list of a command is decoded as it should**, in every run that finds the list in memory
`mem`. The same operations are asked for, with the same result, as by acting on the complete
descriptors until one fails; and bytes of the buffer only are read. -/
def StpgDecodes (c : Request) (groups : List AluaGrp) (mem : Mem) : Prop :=
  ∀ (env : Prog.Env Op Ans) x s l, env 1 .mem = mem →
    (readSetTgtPortGrps c groups).watch tapeInterp lookIn env [] = some (x, s, l) →
    (setParamList c groups).exec tapeInterp env [] = some (x, s) ∧
      (l = [] ∨ ∃ buf, env 0 (.calloc (xferLengthOf c.cdb)) = some buf ∧
        Inside buf (buf + xferLengthOf c.cdb) (l.map Prod.snd))

/-- The list has a whole number of descriptors, or is not looked at, or has a descriptor that cannot
be accepted. -/
def StpgFits (c : Request) (groups : List AluaGrp) (mem : Mem) : Prop :=
  copiedParam (xferLengthOf c.cdb) c.cmd.iov ≠ xferLengthOf c.cdb ∨ xferLengthOf c.cdb ≤ 4 ∨
    4 ∣ xferLengthOf c.cdb ∨ ∀ enabled, tcmuGetEnabledPort groups = some enabled →
      ∃ d ∈ stpgDescriptors ((c.paramList mem).drop 4), ¬ Acceptable groups enabled d

section Command

variable {c : Request} {groups : List AluaGrp} {mem : Mem} {env : Prog.Env Op Ans} {s : List Op}
  {x : Except Fault TcmuSts} {l : List (Mem × Read)}

/-- The list in its buffer, behind the header. -/
theorem load_paramMem (hn : xferLengthOf c.cdb ≤ iovTotal c.cmd.iov) (mem : Mem) (buf : ℕ) :
    (c.paramMem mem buf).load (buf + 4) (xferLengthOf c.cdb - 4) = (c.paramList mem).drop 4 := by
  have hlen : (c.paramList mem).length = xferLengthOf c.cdb := by
    rw [Request.paramList, List.length_take, length_gather]
    omega
  rw [← Mem.load_drop]
  exact congrArg (List.drop 4) (Mem.load_store _ buf hlen)

/-- The command ends before the loop, as it should, or it gets to the loop. -/
theorem watch_readSetTgtPortGrps (hmem : env 1 .mem = mem)
    (hwatch : (readSetTgtPortGrps c groups).watch tapeInterp lookIn env [] = some (x, s, l)) :
    (l = [] ∧ (setParamList c groups).exec tapeInterp env [] = some (x, s) ∧
        (StpgFits c groups mem ∨ env 0 (.calloc (xferLengthOf c.cdb)) = none)) ∨
      ∃ enabled buf s₀, tcmuGetEnabledPort groups = some enabled ∧
        env 0 (.calloc (xferLengthOf c.cdb)) = some buf ∧
        xferLengthOf c.cdb ≠ 0 ∧ xferLengthOf c.cdb ≤ iovTotal c.cmd.iov ∧
        (setParamList c groups).exec tapeInterp env [] =
          (setDescriptors c.dev.handler groups enabled
            (stpgDescriptors ((c.paramList mem).drop 4))).exec tapeInterp
              (fun k => env (k + 2)) s₀ ∧
        (readTgtPortGrps c.dev.handler groups enabled (c.paramMem mem buf) buf
          (xferLengthOf c.cdb) (xferLengthOf c.cdb) 4).watch tapeInterp lookIn
            (fun k => env (k + 2)) s₀ = some (x, s, l) := by
  rw [readSetTgtPortGrps] at hwatch
  rw [setParamList]
  cases henabled : tcmuGetEnabledPort groups with
  | none =>
    rw [henabled] at hwatch
    obtain ⟨rfl, rfl, rfl⟩ : .ok .invalidCmd = x ∧ [] = s ∧ [] = l := by
      simpa [Prog.watch, pure] using hwatch
    exact Or.inl ⟨rfl, rfl, Or.inl (Or.inr (Or.inr (Or.inr fun _ h =>
      absurd (henabled.symm.trans h) (by simp))))⟩
  | some enabled =>
    rw [henabled] at hwatch
    dsimp only at hwatch ⊢
    split at hwatch
    · rename_i hzero
      obtain ⟨rfl, rfl, rfl⟩ : .ok .ok = x ∧ [] = s ∧ [] = l := by
        simpa [Prog.watch, pure] using hwatch
      rw [if_pos hzero]
      exact Or.inl ⟨rfl, rfl, Or.inl (Or.inr (Or.inl (by omega)))⟩
    · rename_i hne
      rw [Prog.watch_ask_bind rfl] at hwatch
      rw [if_neg hne, Prog.exec_ask_bind rfl]
      cases hbuf : env 0 (.calloc (xferLengthOf c.cdb)) with
      | none =>
        rw [hbuf] at hwatch
        obtain ⟨rfl, rfl, rfl⟩ : .ok .noResource = x ∧ _ = s ∧ [] = l := by
          simpa [Prog.watch, pure] using hwatch
        exact Or.inl ⟨rfl, rfl, Or.inr rfl⟩
      | some buf =>
        rw [hbuf] at hwatch
        dsimp only at hwatch ⊢
        split at hwatch
        · rename_i hshort
          obtain ⟨rfl, rfl, rfl⟩ : .ok .invalidParamListLen = x ∧ _ = s ∧ [] = l := by
            simpa [Prog.watch, pure] using hwatch
          rw [if_pos hshort]
          exact Or.inl ⟨rfl, rfl, Or.inl (Or.inl hshort)⟩
        · rename_i hcopied
          rw [Prog.watch_ask_bind rfl] at hwatch
          rw [if_neg hcopied, Prog.exec_ask_bind rfl]
          refine Or.inr ⟨enabled, buf, _, rfl, rfl, hne, ?_, by rw [hmem],
            by rw [← hmem]; exact hwatch⟩
          rw [not_not, copiedParam] at hcopied
          omega

/-- **Where a `SET TARGET PORT GROUPS` is decoded as it should**: its list has a whole number of
descriptors, or is not looked at, or has a descriptor that cannot be accepted. -/
theorem stpg_decodes_iff (c : Request) (groups : List AluaGrp) (mem : Mem) :
    StpgDecodes c groups mem ↔ StpgFits c groups mem := by
  have h32 := xferLengthOf_lt c.cdb
  constructor
  · intro hdecodes
    have htotal : ∀ (s : List Op) o a, ∃ x, tapeInterp s o a = some x := fun s o a => ⟨_, rfl⟩
    obtain ⟨y, hexec⟩ := Prog.exec_total htotal ((readSetTgtPortGrps c groups).blind lookIn)
      (lockGranted mem) []
    rw [Prog.exec_blind] at hexec
    obtain ⟨⟨x, s, l⟩, hwatch, -⟩ := Option.map_eq_some_iff.mp hexec
    have hmem : lockGranted mem 1 .mem = mem := rfl
    obtain ⟨-, hinside⟩ := hdecodes _ x s l hmem hwatch
    rcases watch_readSetTgtPortGrps hmem hwatch with ⟨-, -, hfits | hnone⟩ |
      ⟨enabled, buf, s₀, henabled, hbuf, -, hn, -, hloop⟩
    · exact hfits
    · exact absurd hnone (by simp [lockGranted, calm])
    · by_contra hnot
      obtain ⟨-, hlong, hdvd, hall⟩ : _ ∧ _ ∧ _ ∧ _ := by
        rwa [StpgFits, not_or, not_or, not_or] at hnot
      have hacceptable : ∀ d ∈ stpgDescriptors ((c.paramList mem).drop 4),
          Acceptable groups enabled d := by
        intro d hd
        by_contra hbad
        refine hall fun enabled' henabled' => ⟨d, hd, ?_⟩
        rwa [Option.some.inj (henabled'.symm.trans henabled)]
      have hload := load_paramMem hn mem buf
      have hlength : ((c.paramList mem).drop 4).length = xferLengthOf c.cdb - 4 := by
        rw [← hload, Mem.length_load]
      have houtside := outside_readTgtPortGrps h32 (by decide) hload (by omega) (by omega)
        hacceptable hloop
      rcases hinside with rfl | ⟨buf', hbuf', hinside⟩
      · exact houtside inside_nil
      · obtain rfl := Option.some.inj (hbuf.symm.trans hbuf')
        exact houtside hinside
  · intro hfits env x s l hmem hwatch
    rcases watch_readSetTgtPortGrps hmem hwatch with ⟨rfl, hexec, -⟩ |
      ⟨enabled, buf, s₀, henabled, hbuf, hne, hn, hexec, hloop⟩
    · exact ⟨hexec, Or.inl rfl⟩
    · have hload := load_paramMem hn mem buf
      have hlength : ((c.paramList mem).drop 4).length = xferLengthOf c.cdb - 4 := by
        rw [← hload, Mem.length_load]
      have hcond : 4 ∣ ((c.paramList mem).drop 4).length ∨
          ∃ d ∈ stpgDescriptors ((c.paramList mem).drop 4), ¬ Acceptable groups enabled d := by
        rcases hfits with hshort | hle | hdvd | hbad
        · exact absurd (by rw [copiedParam]; omega) hshort
        · exact Or.inl (by omega)
        · exact Or.inl (by omega)
        · exact Or.inr (hbad enabled henabled)
      have hblind : (readTgtPortGrps c.dev.handler groups enabled (c.paramMem mem buf) buf
          (xferLengthOf c.cdb) (xferLengthOf c.cdb) 4).blind lookIn = _ :=
        blind_readTgtPortGrps h32 (by decide) hload (by omega) hcond
      refine ⟨?_, Or.inr ⟨buf, hbuf, inside_readTgtPortGrps h32 (by decide) hload hcond hloop⟩⟩
      rw [hexec, ← hblind, Prog.exec_blind, hloop]
      rfl

end Command

/-- A `SET TARGET PORT GROUPS` for group 1 with a list of 9 bytes: one descriptor, and one byte. -/
def longStpg : Request :=
  smallRequest lockHandler [0xa4, 0x0a, 0, 0, 0, 0, 0, 0, 0, 9, 0, 0] ⟨0x2000, 9⟩

/-- Its list. Behind the buffer of 9 bytes, the heap happens to hold a `1`. -/
def longParam : Mem :=
  (Mem.store (fun _ => 0) 0x2000 [0, 0, 0, 0, 0, 0, 0, 1, 2]).store 0x100a [0, 1]

/-- The descriptor sets group 1 to active/optimized. The byte behind it and what lies behind the
buffer are then taken for another descriptor, which sets it to standby. -/
theorem stpg_reads_beyond : ∃ x s l,
    (readSetTgtPortGrps longStpg twoGroups).watch tapeInterp lookIn (lockGranted longParam) [] =
        some (x, s, l) ∧
      l.map Prod.snd = [(0x1004, 1), (0x1006, 2), (0x1008, 1), (0x100a, 2)] ∧
      x = .ok .ok ∧ ¬ StpgDecodes longStpg twoGroups longParam := by
  have hreads : ((readSetTgtPortGrps longStpg twoGroups).watch tapeInterp lookIn
      (lockGranted longParam) []).map (fun y => (y.1, y.2.2.map Prod.snd)) =
        some (.ok .ok, [(0x1004, 1), (0x1006, 2), (0x1008, 1), (0x100a, 2)]) := by decide +kernel
  obtain ⟨⟨x, s, l⟩, hwatch, heq⟩ := Option.map_eq_some_iff.mp hreads
  obtain ⟨hx, hl⟩ := Prod.mk.inj heq
  refine ⟨x, s, l, hwatch, hl, hx, fun hdecodes => ?_⟩
  rcases (hdecodes _ x s l rfl hwatch).2 with rfl | ⟨buf, hbuf, hinside⟩
  · exact absurd hl (by simp)
  · obtain rfl : 0x1000 = buf := Option.some.inj hbuf
    change l.map Prod.snd = _ at hl
    rw [hl] at hinside
    exact absurd hinside (by decide)

end Tcmu

end LioProject
