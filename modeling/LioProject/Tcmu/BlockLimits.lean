import LioProject.Tcmu.UnmapDecode

/-!
# The Block Limits page

`tcmu_emulate_evpd_inquiry` tells the initiator how many blocks it may compare and write, unmap or
write with one command. The commands are checked elsewhere. The check of `COMPARE AND WRITE` does
not know of the limit. The descriptors of `UNMAP` are checked one after the other, and those before
the one that is too large have been dispatched by then. And without an `unmap` callout the page
says that nothing can be unmapped, but nothing else does. `limits_enforced_iff` says for which
commands this makes no difference.
-/

namespace LioProject

namespace Tcmu

/-! ### The page -/

/-- The Block Limits VPD page, as `tcmu_emulate_evpd_inquiry` makes it. -/
def blockLimitsPage (d : TcmuDev) : List UInt8 :=
  let data := (List.replicate 64 0).set 1 0xb0
  let data := putBe data 2 0x3c 2
  -- WSNZ
  let data := data.set 4 0x01
  let data := data.set 5 0x01
  let data := putBe data 8 d.geo.maxXferLen 4
  let data := putBe data 12 d.geo.maxXferLen 4
  let data :=
    if d.handler.unmap then
      let data := putBe data 20 (32 * 1024 * 1024) 4
      let data := putBe data 24 4 4
      let data := putBe data 28 d.geo.optUnmapGran 4
      let data := putBe data 32 d.geo.unmapGranAlign 4
      -- UGAVALID
      data.set 32 (data.getD 32 0 ||| 0x80)
    else data
  putBe data 36 0xffffffff 8

/-- What an initiator finds in the page. -/
structure BlockLimits where
  /-- MAXIMUM COMPARE AND WRITE LENGTH. -/
  maxCaw : ℕ
  /-- MAXIMUM UNMAP LBA COUNT. -/
  maxUnmapLbas : ℕ
  /-- MAXIMUM UNMAP BLOCK DESCRIPTOR COUNT. -/
  maxUnmapDescs : ℕ
  /-- MAXIMUM WRITE SAME LENGTH. -/
  maxWriteSame : ℕ
  deriving DecidableEq, Repr

/-- The limits that a device advertises. -/
def TcmuDev.limits (d : TcmuDev) : BlockLimits :=
  let page := blockLimitsPage d
  ⟨byteAt page 5, beAt page 20 4, beAt page 24 4, beAt page 36 8⟩

/-- The fields of the page before those that depend on the handler. -/
theorem blockLimits_head (n : ℕ) :
    let data := putBe (putBe
      ((((putBe ((List.replicate 64 0).set 1 0xb0) 2 0x3c 2).set 4 0x01)).set 5 0x01) 8 n 4) 12 n 4
    data.length = 64 ∧ byteAt data 5 = 1 ∧ beAt data 20 4 = 0 ∧ beAt data 24 4 = 0 := by
  intro data
  refine ⟨?_, ?_, ?_, ?_⟩
  · simp [data]
  · rw [byteAt_putBe_of_outside _ _ (by decide), byteAt_putBe_of_outside _ _ (by decide),
      byteAt_set_self (by simp)]
    rfl
  · rw [beAt_putBe_of_outside _ _ (by decide), beAt_putBe_of_outside _ _ (by decide)]
    rfl
  · rw [beAt_putBe_of_outside _ _ (by decide), beAt_putBe_of_outside _ _ (by decide)]
    rfl

/-- **The limits** do not depend on the size of the device. -/
theorem limits_eq (d : TcmuDev) : d.limits =
    ⟨1, if d.handler.unmap then 32 * 1024 * 1024 else 0, if d.handler.unmap then 4 else 0,
      2 ^ 32 - 1⟩ := by
  obtain ⟨hlen, hcaw, hlbas, hdescs⟩ := blockLimits_head d.geo.maxXferLen
  rw [TcmuDev.limits, blockLimitsPage]
  dsimp only at hlen hcaw hlbas hdescs ⊢
  generalize putBe _ 12 d.geo.maxXferLen 4 = data at hlen hcaw hlbas hdescs ⊢
  cases d.handler.unmap with
  | false =>
    rw [if_neg (by simp), if_neg (by simp), if_neg (by simp), BlockLimits.mk.injEq]
    refine ⟨?_, ?_, ?_, beAt_putBe (by omega) (by decide)⟩
    · rw [byteAt_putBe_of_outside _ _ (by decide), hcaw]
    · rw [beAt_putBe_of_outside _ _ (by decide), hlbas]
    · rw [beAt_putBe_of_outside _ _ (by decide), hdescs]
  | true =>
    rw [if_pos rfl, if_pos rfl, if_pos rfl, BlockLimits.mk.injEq]
    refine ⟨?_, ?_, ?_, beAt_putBe ?_ (by decide)⟩
    · rw [byteAt_putBe_of_outside _ _ (by decide), byteAt_set_of_ne _ _ (by decide),
        byteAt_putBe_of_outside _ _ (by decide), byteAt_putBe_of_outside _ _ (by decide),
        byteAt_putBe_of_outside _ _ (by decide), byteAt_putBe_of_outside _ _ (by decide), hcaw]
    · rw [beAt_putBe_of_outside _ _ (by decide), beAt_set_of_outside _ _ (by decide),
        beAt_putBe_of_outside _ _ (by decide), beAt_putBe_of_outside _ _ (by decide),
        beAt_putBe_of_outside _ _ (by decide)]
      exact beAt_putBe (by omega) (by decide)
    · rw [beAt_putBe_of_outside _ _ (by decide), beAt_set_of_outside _ _ (by decide),
        beAt_putBe_of_outside _ _ (by decide), beAt_putBe_of_outside _ _ (by decide)]
      exact beAt_putBe (by rw [length_putBe]; omega) (by decide)
    · rw [List.length_set, length_putBe, length_putBe, length_putBe, length_putBe]
      omega

/-! ### Commands within the limits -/

/-- The command writes or unmaps. -/
def Callout.changes : Callout → Bool
  | .write .. => true
  | .unmap .. => true
  | _ => false

/-- A sub-command that writes or unmaps has been handed to the handler, or waits for it. -/
def Life.Touched (c : Request) (s : Life) : Prop :=
  (∃ x ∈ s.jobs, (x.2.callout c).changes = true) ∨ ∃ co ∈ s.calls, co.changes = true

/-- The command has been completed with an error, or it will be because of one that has been found
before. -/
def EndsInError (x : Except Fault TcmuSts) (s : Life) : Prop :=
  ∃ sts, x = .ok sts ∧ (sts.IsError ∨
    sts = .asyncHandled ∧ ∃ u, s.unmap = some u ∧ u.status.IsError)

/-- The command keeps to the limits that its device advertises. The parameter list of an unmap is in
memory `mem` and is copied to address `par`. -/
def WithinLimits (c : Request) (mem : Mem) (par : ℕ) : DataCmd → Prop
  | .caw => byteAt c.cdb 13 ≤ c.dev.limits.maxCaw
  | .unmap => 8 ≤ xferLengthOf c.cdb →
    descCount (c.paramMem mem par) par ≤ c.dev.limits.maxUnmapDescs ∧
      ∀ i < wholeDescs (c.paramMem mem par) par (xferLengthOf c.cdb),
        descLbas (c.paramMem mem par) par i ≤ c.dev.limits.maxUnmapLbas
  | .writesame => 1 ≤ xferLengthOf c.cdb ∧ xferLengthOf c.cdb ≤ c.dev.limits.maxWriteSame
  | _ => True

/-- The environment in which the list of a command is found in memory `mem` and copied to address
`par`. -/
def FindsList (c : Request) (mem : Mem) (par : ℕ) (env : Prog.Env Op Ans) : Prop :=
  env 0 (.calloc (xferLengthOf c.cdb)) = some par ∧ env 1 .mem = mem

/-- **The limits are enforced.** If the command is not completed with an error, it keeps to the
limits. If it does not keep to them, no run of it touches a block. -/
structure LimitsEnforced (c : Request) (mem : Mem) (par : ℕ) (d : DataCmd) : Prop where
  /-- Commands that are accepted keep to the limits. -/
  accepted : ∀ env x s, FindsList c mem par env →
    (d.handle c).exec lifeInterp env Life.init = some (x, s) → ¬ EndsInError x s →
    WithinLimits c mem par d
  /-- Commands that do not keep to the limits leave the blocks alone. -/
  exceeding : ¬ WithinLimits c mem par d → ∀ env x s es t, FindsList c mem par env →
    (d.handle c).exec lifeInterp env Life.init = some (x, s) →
    run (lifeStep c) { s with begun := true } es = some t → ¬ t.Touched c

/-- Where the limits are enforced. -/
def LimitsKept (c : Request) (mem : Mem) (par : ℕ) : DataCmd → Prop
  | .caw => byteAt c.cdb 13 ≤ 1 ∨ handleCawCheck c ≠ .ok
  | .unmap => RefusedEarly c ∨ 4 < descCount (c.paramMem mem par) par ∨
    WithinLimits c mem par .unmap ∨
    ((∃ i < descCount (c.paramMem mem par) par,
        ¬ DescOk c (c.paramMem mem par) (par + 8 + 16 * i)) ∧
      NoneDispatched c (c.paramMem mem par) par)
  | _ => True

/-! ### Commands that are refused -/

section Refusing

variable {c : Request} {mem : Mem} {par : ℕ} {d : DataCmd} {env : Prog.Env Op Ans} {s t u : Life}
  {es : List LifeEvent}

/-- Nothing has been dispatched. -/
structure Life.Idle (s : Life) : Prop where
  /-- There are no sub-commands. -/
  jobs : s.jobs = []
  /-- Nothing has been called. -/
  calls : s.calls = []
  /-- No thread is to acquire the lock. -/
  lockThreads : s.lockThreads = 0

theorem Life.idle_init : Life.init.Idle := ⟨rfl, rfl, rfl⟩

theorem Life.Idle.not_touched (h : s.Idle)
    (hrun : run (lifeStep c) { s with begun := true } es = some t) : ¬ t.Touched c := by
  obtain ⟨-, rfl⟩ := run_of_idle (s := { s with begun := true }) rfl h.jobs h.lockThreads hrun
  rintro (⟨x, hx, -⟩ | ⟨co, hco, -⟩)
  · exact absurd (h.jobs ▸ hx) List.not_mem_nil
  · exact absurd (h.calls ▸ hco) List.not_mem_nil

/-- A command that is completed with an error before anything has been dispatched. -/
theorem limitsEnforced_of_idle
    (h : ∀ env x s, FindsList c mem par env →
      (d.handle c).exec lifeInterp env Life.init = some (x, s) → EndsInError x s ∧ s.Idle) :
    LimitsEnforced c mem par d :=
  ⟨fun env x s hfinds hexec hnot => absurd (h env x s hfinds hexec).1 hnot,
    fun _ env x s _ _ hfinds hexec hrun => (h env x s hfinds hexec).2.not_touched hrun⟩

/-- A command that is refused at once. -/
theorem limitsEnforced_of_pure {sts : TcmuSts} (hsts : sts.IsError) (h : d.handle c = pure sts) :
    LimitsEnforced c mem par d := by
  refine limitsEnforced_of_idle fun env x s _ hexec => ?_
  rw [h] at hexec
  obtain ⟨rfl, rfl⟩ := Prod.mk.inj (Option.some.inj hexec)
  exact ⟨⟨sts, rfl, Or.inl hsts⟩, Life.idle_init⟩

/-- A command that keeps to the limits. -/
theorem limitsEnforced_of_within (h : WithinLimits c mem par d) : LimitsEnforced c mem par d :=
  ⟨fun _ _ _ _ _ _ => h, fun hnot => absurd h hnot⟩

/-- **`WRITE SAME`.** -/
theorem limitsEnforced_writesame (c : Request) (mem : Mem) (par : ℕ) :
    LimitsEnforced c mem par .writesame := by
  by_cases hok : handleWritesameCheck c = .ok
  · obtain ⟨hzero, -⟩ := handleWritesameCheck_ok hok
    refine limitsEnforced_of_within ⟨Nat.one_le_iff_ne_zero.mpr hzero, ?_⟩
    have hlt := xferLengthOf_lt c.cdb
    rw [limits_eq]
    dsimp only
    omega
  · refine limitsEnforced_of_pure ⟨hok, handleWritesameCheck_ne_async c⟩ ?_
    rw [DataCmd.handle, handleWritesame]
    exact if_pos hok

/-- A command of which a sub-command has been dispatched, with nothing wrong so far. -/
theorem no_error_of_async (h : s.unmap = none) : ¬ EndsInError (.ok .asyncHandled) s := by
  rintro ⟨sts, hsts, herr⟩
  obtain rfl := Except.ok.inj hsts
  rcases herr with herr | ⟨-, u, hu, -⟩
  · exact herr.2 rfl
  · exact absurd (hu.symm.trans h) (by simp)

theorem no_error_of_error (f : Fault) : ¬ EndsInError (.error f) s :=
  fun ⟨_, hsts, _⟩ => absurd hsts (by simp)

/-- `COMPARE AND WRITE` in surroundings in which nothing fails. -/
theorem exec_handleCaw (hok : handleCawCheck c = .ok) :
    ∃ x s, (handleCaw c).exec lifeInterp (listEnv par mem) Life.init = some (x, s) ∧
      ¬ EndsInError x s := by
  have hexec : (handleCaw c).exec lifeInterp (listEnv par mem) Life.init =
      (asyncHandleCmd c (.cawRead ⟨tcmuIovecLength c.cmd.iov / 2, par⟩) >>= fun ret => do
        if ret ≠ .asyncHandled then ask .cawUnlock
        pure ret).exec lifeInterp (listEnv par mem) Life.init := by
    rw [handleCaw, if_neg (not_not.mpr hok)]
    rfl
  rw [hexec, asyncHandleCmd]
  split
  · rw [Job.work]
    split
    · exact ⟨_, _, rfl, no_error_of_async rfl⟩
    · exact ⟨_, _, rfl, no_error_of_error _⟩
  · exact ⟨_, _, rfl, no_error_of_async rfl⟩

theorem listEnv_finds (c : Request) (mem : Mem) (par : ℕ) : FindsList c mem par (listEnv par mem) :=
  ⟨rfl, rfl⟩

/-- **`COMPARE AND WRITE`.** -/
theorem limitsEnforced_caw (c : Request) (mem : Mem) (par : ℕ) :
    LimitsEnforced c mem par .caw ↔ LimitsKept c mem par .caw := by
  constructor
  · intro h
    by_cases hok : handleCawCheck c = .ok
    · obtain ⟨x, s, hexec, hnot⟩ : ∃ x s, (handleCaw c).exec lifeInterp (listEnv par mem)
          Life.init = some (x, s) ∧ ¬ EndsInError x s := exec_handleCaw hok
      have hwithin : byteAt c.cdb 13 ≤ c.dev.limits.maxCaw :=
        h.accepted _ x s (listEnv_finds c mem par) hexec hnot
      rw [limits_eq] at hwithin
      exact Or.inl hwithin
    · exact Or.inr hok
  · rintro (hone | hnot)
    · refine limitsEnforced_of_within ?_
      rw [WithinLimits, limits_eq]
      exact hone
    · refine limitsEnforced_of_pure ⟨hnot, handleCawCheck_ne_async c⟩ ?_
      rw [DataCmd.handle, handleCaw, if_pos hnot]

end Refusing

/-! ### Unmapping -/

section Unmapping

variable {c : Request} {mem : Mem} {par n a refcount : ℕ} {ret : TcmuSts} {env : Prog.Env Op Ans}
  {s t u : Life}

/-- Sub-commands do not go away while a program runs. -/
theorem Life.Touched.interp (h : s.Touched c) {o : Op} {r r' : Ans o}
    (hop : lifeInterp s o r = some (r', t)) : t.Touched c := by
  have hmono : ∀ v : Life, s.jobs <+: v.jobs → s.calls <+: v.calls → v.Touched c := by
    intro v hjobs hcalls
    rcases h with ⟨x, hx, hchanges⟩ | ⟨co, hco, hchanges⟩
    · exact Or.inl ⟨x, hjobs.subset hx, hchanges⟩
    · exact Or.inr ⟨co, hcalls.subset hco, hchanges⟩
  cases o with
  | alloc =>
    obtain ⟨-, rfl⟩ := Prod.mk.inj (Option.some.inj hop)
    split
    · exact h
    · exact hmono _ (List.prefix_refl _) (List.prefix_refl _)
  | calloc size =>
    obtain ⟨-, rfl⟩ := Prod.mk.inj (Option.some.inj hop)
    split
    · exact h
    · exact hmono _ (List.prefix_refl _) (List.prefix_refl _)
  | mutexInit =>
    obtain ⟨-, rfl⟩ := Prod.mk.inj (Option.some.inj hop)
    split
    · exact h
    · exact hmono _ (List.prefix_refl _) (List.prefix_refl _)
  | io j co =>
    obtain ⟨-, rfl⟩ := Prod.mk.inj (Option.some.inj hop)
    cases r with
    | queued now => exact hmono _ (List.prefix_append _ _) (List.prefix_append _ _)
    | failed e => exact hmono _ (List.prefix_refl _) (List.prefix_append _ _)
  | enqueue j =>
    obtain ⟨-, rfl⟩ := Prod.mk.inj (Option.some.inj hop)
    exact hmono _ (List.prefix_append _ _) (List.prefix_refl _)
  | spawnLock =>
    obtain ⟨-, rfl⟩ := Prod.mk.inj (Option.some.inj hop)
    split
    · exact hmono _ (List.prefix_refl _) (List.prefix_refl _)
    · exact h
  | _ =>
    obtain ⟨-, rfl⟩ := Prod.mk.inj (Option.some.inj hop)
    exact hmono _ (List.prefix_refl _) (List.prefix_refl _)

theorem Life.Touched.wp {α : Type} (h : s.Touched c) (p : Daemon α) {E : Fault → Life → Prop}
    (hE : ∀ f v, v.Touched c → E f v) :
    Prog.wp lifeInterp Accepts E p (fun _ t => t.Touched c) s :=
  Prog.wp_mono (Prog.wp_of_all (Prog.all_true p) (fun _ _ _ _ _ _ hv hop => hv.interp hop)
    (fun f v _ hv => hE f v hv) h) fun _ _ hv => hv.2

/-- The only thing that can keep an unmap from being dispatched is that there is no callout. -/
def TouchesOr (c : Request) (f : Fault) (s : Life) : Prop := s.Touched c ∨ f = .nullCallout

theorem wp_dispatch_touches (offset length : ℕ) (s : Life) :
    Prog.wp lifeInterp Accepts (TouchesOr c) (asyncHandleCmd c (.unmap offset length))
      (fun _ t => t.Touched c) s := by
  have hchanges : ((Job.unmap offset length).callout c).changes = true := rfl
  rw [asyncHandleCmd]
  split
  · rw [Job.work]
    split
    · intro r hr r' v hv
      obtain rfl : r = .queued false := hr
      obtain ⟨rfl, rfl⟩ := Prod.mk.inj (Option.some.inj hv)
      exact Or.inl ⟨_, List.mem_append_right _ (List.mem_singleton_self _), hchanges⟩
    · exact Or.inr rfl
  · intro r hr r' v hv
    obtain rfl : r = true := hr
    obtain ⟨rfl, rfl⟩ := Prod.mk.inj (Option.some.inj hv)
    intro r _ r' v hv
    obtain ⟨-, rfl⟩ := Prod.mk.inj (Option.some.inj hv)
    exact Or.inl ⟨_, List.mem_append_right _ (List.mem_singleton_self _), hchanges⟩

/-- The first piece of a range is dispatched. -/
theorem wp_alignAndSplitUnmap_touches {lba nlbas : ℕ} (hne : nlbas ≠ 0) (s : Life) :
    Prog.wp lifeInterp Accepts (TouchesOr c) (alignAndSplitUnmap c lba nlbas refcount)
      (fun _ t => t.Touched c) s := by
  rw [alignAndSplitUnmap, splitUnmap, if_neg hne]
  refine Prog.wp_ask_bind.mpr fun r hr r' v hv => ?_
  obtain rfl : r = true := hr
  obtain ⟨rfl, rfl⟩ := Prod.mk.inj (Option.some.inj hv)
  refine Prog.wp_ask_bind.mpr fun r hr r' v hv => ?_
  obtain rfl : r = true := hr
  obtain ⟨rfl, rfl⟩ := Prod.mk.inj (Option.some.inj hv)
  refine Prog.wp_seq (wp_dispatch_touches _ _ s) fun ret v hv => ?_
  exact hv.wp _ fun _ _ h => Or.inl h

/-- **The loop dispatches something** if a descriptor that is not empty comes before all those that
are refused. -/
theorem wp_unmapDescs_touches {n : ℕ} : ∀ {a refcount : ℕ} {ret : TcmuSts} {s : Life},
    (∃ j < n, (∀ i ≤ j, DescOk c mem (a + 16 * i)) ∧ mem.be (a + 16 * j + 8) 4 ≠ 0) →
    Prog.wp lifeInterp Accepts (TouchesOr c) (unmapDescs c mem n a refcount ret)
      (fun _ t => t.Touched c) s := by
  induction n with
  | zero =>
    rintro a refcount ret s ⟨j, hj, -⟩
    exact absurd hj (Nat.not_lt_zero j)
  | succ n ih =>
    rintro a refcount ret s ⟨j, hj, hgood, hne⟩
    have hfirst : DescOk c mem a := hgood 0 (Nat.zero_le j)
    rw [unmapDescs]
    dsimp only
    rw [if_neg (Nat.not_lt.mpr hfirst.1), if_neg (not_not.mpr hfirst.2)]
    split
    · rename_i hzero
      refine ih ?_
      cases j with
      | zero => exact absurd hzero hne
      | succ j =>
        have haddr : ∀ i, a + 16 + 16 * i = a + 16 * (i + 1) := fun i => by omega
        refine ⟨j, by omega, fun i hi => ?_, ?_⟩
        · rw [haddr]
          exact hgood (i + 1) (by omega)
        · rw [haddr]
          exact hne
    · rename_i hempty
      refine Prog.wp_seq (wp_alignAndSplitUnmap_touches hempty s) fun r v hv => ?_
      exact hv.wp _ fun _ _ h => Or.inl h

/-- What comes after the loop. -/
theorem exec_handleUnmapInternal {bddl : ℕ} {x : Except Fault TcmuSts}
    (h : (handleUnmapInternal c mem bddl par).exec lifeInterp env s = some (x, t)) :
    (∃ e, (unmapDescs c mem (bddl / 16) (par + 8) 0 .ok).exec lifeInterp env s =
        some (.error e, t) ∧ x = .error e) ∨
      ∃ ret refcount u, (unmapDescs c mem (bddl / 16) (par + 8) 0 .ok).exec lifeInterp env s =
          some (.ok (ret, refcount), u) ∧
        if refcount = 0 then x = .ok ret ∧ t = { u with unmap := none }
        else x = .ok .asyncHandled ∧
          t = { u with unmap := some ⟨refcount, ret ≠ .asyncHandled, ret⟩ } := by
  rw [handleUnmapInternal] at h
  rcases Prog.exec_bind_cases h with ⟨e, he, rfl⟩ | ⟨⟨ret, refcount⟩, u, m, hloop, hrest⟩
  · exact Or.inl ⟨e, he, rfl⟩
  · refine Or.inr ⟨ret, refcount, u, hloop, ?_⟩
    dsimp only at hrest
    by_cases hzero : refcount = 0
    · rw [if_neg (not_not.mpr hzero)] at hrest
      rw [if_pos hzero]
      obtain ⟨rfl, rfl⟩ := Prod.mk.inj (Option.some.inj hrest)
      exact ⟨rfl, rfl⟩
    · rw [if_pos hzero] at hrest
      rw [if_neg hzero]
      obtain ⟨rfl, rfl⟩ := Prod.mk.inj (Option.some.inj hrest)
      exact ⟨rfl, rfl⟩

/-- The state of an unmap, or an error. -/
theorem exec_unmapStateAlloc_init {r : Except Fault (Option TcmuSts)}
    (h : unmapStateAlloc.exec lifeInterp env Life.init = some (r, t)) :
    t = Life.init ∧ (r = .ok none ∨ ∃ sts, r = .ok (some sts) ∧ sts.IsError) := by
  rw [unmapStateAlloc, Prog.exec_ask_bind rfl] at h
  cases halloc : env 0 .alloc with
  | false =>
    rw [halloc] at h
    obtain ⟨rfl, rfl⟩ := Prod.mk.inj (Option.some.inj h)
    exact ⟨rfl, Or.inr ⟨_, rfl, by simp, by simp⟩⟩
  | true =>
    rw [halloc, if_neg (by simp), Prog.exec_ask_bind rfl] at h
    cases hmutex : env (0 + 1) .mutexInit with
    | false =>
      rw [hmutex] at h
      obtain ⟨rfl, rfl⟩ := Prod.mk.inj (Option.some.inj h)
      exact ⟨rfl, Or.inr ⟨_, rfl, by simp, by simp⟩⟩
    | true =>
      rw [hmutex] at h
      obtain ⟨rfl, rfl⟩ := Prod.mk.inj (Option.some.inj h)
      exact ⟨rfl, Or.inl rfl⟩

/-- **What comes before the loop.** -/
theorem exec_handleUnmap_cases {x : Except Fault TcmuSts} (hfinds : FindsList c mem par env)
    (hlen : 8 ≤ xferLengthOf c.cdb)
    (h : (handleUnmap c).exec lifeInterp env Life.init = some (x, s)) :
    (EndsInError x s ∧ s.Idle) ∨
      ¬ RefusedEarly c ∧ descCount (c.paramMem mem par) par ≤ 4 ∧
        (descCount (c.paramMem mem par) par = 0 ∨ ∃ env' : Prog.Env Op Ans,
          (handleUnmapInternal c (c.paramMem mem par) (descCount (c.paramMem mem par) par * 16)
            par).exec lifeInterp env' Life.init = some (x, s)) := by
  have hret : ∀ {sts : TcmuSts}, sts.IsError →
      some (Except.ok sts, Life.init) = some (x, s) → EndsInError x s ∧ s.Idle := by
    intro sts herr heq
    obtain ⟨rfl, rfl⟩ := Prod.mk.inj (Option.some.inj heq)
    exact ⟨⟨sts, rfl, Or.inl herr⟩, Life.idle_init⟩
  obtain ⟨hpar, hmem⟩ := hfinds
  rw [handleUnmap] at h
  dsimp only at h
  by_cases hanchor : byteAt c.cdb 1 &&& 0x01 ≠ 0
  · rw [if_pos hanchor] at h
    exact Or.inl (hret ⟨by simp, by simp⟩ h)
  · rw [if_neg hanchor, if_neg (by omega), if_neg (by omega), Prog.exec_ask_bind rfl, hpar] at h
    dsimp only at h
    by_cases hcopied : copiedParam (xferLengthOf c.cdb) c.cmd.iov ≠ xferLengthOf c.cdb
    · rw [if_pos hcopied] at h
      exact Or.inl (hret ⟨by simp, by simp⟩ h)
    · rw [if_neg hcopied, Prog.exec_ask_bind rfl] at h
      have hnot : ¬ RefusedEarly c := by
        rintro (hne | hlt | hne)
        · exact hanchor hne
        · omega
        · exact hcopied hne
      have hmem' : env (0 + 1) .mem = mem := hmem
      rw [hmem', Nat.mul_div_cancel _ (by decide)] at h
      change Prog.exec _ (if descCount (c.paramMem mem par) par * 16 = 0 then _ else
        if descCount (c.paramMem mem par) par > 4 then _ else _) _ _ = _ at h
      by_cases hzero : descCount (c.paramMem mem par) par = 0
      · exact Or.inr ⟨hnot, by omega, Or.inl hzero⟩
      · rw [if_neg (by omega)] at h
        by_cases hmany : descCount (c.paramMem mem par) par > 4
        · rw [if_pos hmany] at h
          exact Or.inl (hret ⟨by simp, by simp⟩ h)
        · rw [if_neg hmany] at h
          rcases Prog.exec_bind_cases h with ⟨e, he, -⟩ | ⟨r, u, m, halloc, hrest⟩
          · rcases exec_unmapStateAlloc_init he with ⟨-, he | ⟨sts, he, -⟩⟩
            · exact absurd he (by simp)
            · exact absurd he (by simp)
          · rcases exec_unmapStateAlloc_init halloc with ⟨rfl, hr | ⟨sts, hr, herr⟩⟩
            · obtain rfl := Except.ok.inj hr
              exact Or.inr ⟨hnot, by omega, Or.inr ⟨_, hrest⟩⟩
            · obtain rfl := Except.ok.inj hr
              exact Or.inl (hret herr hrest)

/-- In surroundings in which nothing fails the loop is reached. -/
theorem exec_handleUnmap_listEnv (hnot : ¬ RefusedEarly c)
    (hzero : descCount (c.paramMem mem par) par ≠ 0)
    (hfew : descCount (c.paramMem mem par) par ≤ 4) :
    (handleUnmap c).exec lifeInterp (listEnv par mem) Life.init =
      (handleUnmapInternal c (c.paramMem mem par) (descCount (c.paramMem mem par) par * 16)
        par).exec lifeInterp (listEnv par mem) Life.init := by
  rw [RefusedEarly, not_or, not_or] at hnot
  obtain ⟨hanchor, hlen, hcopied⟩ := hnot
  rw [handleUnmap]
  dsimp only
  rw [if_neg hanchor, if_neg (by omega), if_neg hlen, Prog.exec_ask_bind rfl]
  change Prog.exec _ (if copiedParam (xferLengthOf c.cdb) c.cmd.iov ≠ xferLengthOf c.cdb then _
    else _) _ Life.init = _
  rw [if_neg hcopied, Prog.exec_ask_bind rfl, Nat.mul_div_cancel _ (by decide)]
  change Prog.exec _ (if descCount (c.paramMem mem par) par * 16 = 0 then _ else
    if descCount (c.paramMem mem par) par > 4 then _ else _) _ _ = _
  rw [if_neg (by omega), if_neg (by omega)]
  rfl

/-- The same state with another `struct unmap_state`. -/
theorem Life.Touched.congr (h : s.Touched c) (hjobs : t.jobs = s.jobs)
    (hcalls : t.calls = s.calls) : t.Touched c := by
  rw [Life.Touched, hjobs, hcalls]
  exact h

/-- If something has been dispatched, a command beyond the limits is not handled as it should be. -/
theorem LimitsEnforced.noneDispatched (h : LimitsEnforced c mem par .unmap)
    (hnot : ¬ WithinLimits c mem par .unmap) (hearly : ¬ RefusedEarly c)
    (hzero : descCount (c.paramMem mem par) par ≠ 0)
    (hfew : descCount (c.paramMem mem par) par ≤ 4) :
    NoneDispatched c (c.paramMem mem par) par := by
  intro j hj hgood
  by_contra hne
  have hloop : Prog.wp lifeInterp Accepts (TouchesOr c)
      (unmapDescs c (c.paramMem mem par) (descCount (c.paramMem mem par) par) (par + 8) 0 .ok)
      (fun _ t => t.Touched c) Life.init := wp_unmapDescs_touches ⟨j, hj, hgood, hne⟩
  have haccepts : ∀ n o, Accepts o (listEnv par mem n o) := by
    intro n o
    cases o with
    | calloc => trivial
    | _ => exact calm_accepts mem n _
  obtain ⟨⟨x, s⟩, hexec⟩ := exec_lifeInterp (handleUnmap c) (listEnv par mem) Life.init
  have hfinds := listEnv_finds c mem par
  have huntouched : ¬ s.Touched c := fun htouched =>
    h.exceeding hnot _ x s [] _ hfinds hexec rfl (htouched.congr rfl rfl)
  have hinternal := hexec
  rw [exec_handleUnmap_listEnv hearly hzero hfew] at hinternal
  rcases exec_handleUnmapInternal hinternal with ⟨e, he, rfl⟩ | ⟨ret, refcount, u, hu, hafter⟩
  · rw [Nat.mul_div_cancel _ (by decide)] at he
    -- either something has been dispatched, or the daemon has come down
    exact hnot (h.accepted _ _ s hfinds hexec (no_error_of_error e))
  · rw [Nat.mul_div_cancel _ (by decide)] at hu
    rcases Prog.exec_of_wp hloop haccepts hu with ⟨r, -, htouched⟩ | ⟨e, he, -⟩
    · split at hafter
      · rw [hafter.2] at huntouched
        exact huntouched (htouched.congr rfl rfl)
      · rw [hafter.2] at huntouched
        exact huntouched (htouched.congr rfl rfl)
    · exact absurd he (by simp)

/-- If no descriptor is refused, a command beyond the limits is not handled as it should be. -/
theorem LimitsEnforced.exists_refused (h : LimitsEnforced c mem par .unmap)
    (hnot : ¬ WithinLimits c mem par .unmap) (hearly : ¬ RefusedEarly c)
    (hzero : descCount (c.paramMem mem par) par ≠ 0)
    (hfew : descCount (c.paramMem mem par) par ≤ 4) :
    ∃ i < descCount (c.paramMem mem par) par,
      ¬ DescOk c (c.paramMem mem par) (par + 8 + 16 * i) := by
  by_contra hall
  obtain ⟨sts, heq, hcases⟩ := (h.noneDispatched hnot hearly hzero hfew).unmapDescs_eq
  rcases hcases with ⟨rfl, -⟩ | ⟨-, hbad⟩
  · have hexec : (handleUnmap c).exec lifeInterp (listEnv par mem) Life.init =
        some (.ok .ok, Life.init) := by
      rw [exec_handleUnmap_listEnv hearly hzero hfew, handleUnmapInternal,
        Nat.mul_div_cancel _ (by decide), heq]
      rfl
    refine hnot (h.accepted _ _ _ (listEnv_finds c mem par) hexec ?_)
    rintro ⟨sts, hsts, herr⟩
    obtain rfl := Except.ok.inj hsts
    rcases herr with herr | ⟨hasync, -⟩
    · exact herr.1 rfl
    · exact absurd hasync (by simp)
  · exact hall hbad

/-- **`UNMAP`.** -/
theorem limitsEnforced_unmap (c : Request) (mem : Mem) (par : ℕ) :
    LimitsEnforced c mem par .unmap ↔ LimitsKept c mem par .unmap := by
  by_cases hwithin : WithinLimits c mem par .unmap
  · exact iff_of_true (limitsEnforced_of_within hwithin) (Or.inr (Or.inr (Or.inl hwithin)))
  have hlen : 8 ≤ xferLengthOf c.cdb := by
    by_contra hlt
    exact hwithin fun hle => absurd hle hlt
  have hzero : descCount (c.paramMem mem par) par ≠ 0 := by
    intro hzero
    refine hwithin fun _ => ⟨by omega, fun i hi => ?_⟩
    rw [wholeDescs_eq] at hi
    change i < min (descCount (c.paramMem mem par) par) _ at hi
    omega
  constructor
  · intro h
    by_cases hearly : RefusedEarly c
    · exact Or.inl hearly
    by_cases hmany : 4 < descCount (c.paramMem mem par) par
    · exact Or.inr (Or.inl hmany)
    · have hfew := Nat.not_lt.mp hmany
      exact Or.inr (Or.inr (Or.inr ⟨h.exists_refused hwithin hearly hzero hfew,
        h.noneDispatched hwithin hearly hzero hfew⟩))
  · intro hkept
    refine limitsEnforced_of_idle fun env x s hfinds hexec => ?_
    rcases exec_handleUnmap_cases hfinds hlen hexec with hrefused | ⟨hearly, hfew, hloop⟩
    · exact hrefused
    · obtain ⟨env', hloop⟩ := hloop.resolve_left hzero
      have hdescs : (∃ i < descCount (c.paramMem mem par) par,
          ¬ DescOk c (c.paramMem mem par) (par + 8 + 16 * i)) ∧
          NoneDispatched c (c.paramMem mem par) par := by
        rcases hkept with h | h | h | h
        · exact absurd h hearly
        · omega
        · exact absurd h hwithin
        · exact h
      obtain ⟨⟨i, hi, hbad⟩, hnone⟩ := hdescs
      obtain ⟨sts, heq, ⟨-, hall⟩ | ⟨herr, -⟩⟩ := hnone.unmapDescs_eq
      · exact absurd (hall i hi) hbad
      · rw [handleUnmapInternal, Nat.mul_div_cancel _ (by decide), heq] at hloop
        obtain ⟨rfl, rfl⟩ := Prod.mk.inj (Option.some.inj hloop)
        exact ⟨⟨sts, rfl, Or.inl herr⟩, Life.idle_init⟩

end Unmapping

/-! ### Main result -/

/-- **Enforcing the limits.** A command is held to the limits that its device advertises if and only
if it is not a `COMPARE AND WRITE` of several blocks that passes its check, and not an `UNMAP`
beyond the limits that has a descriptor with blocks before any that is refused, or none that is. -/
theorem limits_enforced_iff (c : Request) (mem : Mem) (par : ℕ) (d : DataCmd) :
    LimitsEnforced c mem par d ↔ LimitsKept c mem par d := by
  cases d with
  | caw => exact limitsEnforced_caw c mem par
  | unmap => exact limitsEnforced_unmap c mem par
  | writesame => exact iff_of_true (limitsEnforced_writesame c mem par) trivial
  | _ => exact iff_of_true (limitsEnforced_of_within trivial) trivial

/-- A `COMPARE AND WRITE` of two blocks, of one byte each. -/
def cawTwo : Request :=
  { dev := unmapDev 4
    ctx := [unmapDev 4]
    cmd := ⟨0, some [0x89, 0, 0, 0, 0, 0, 0, 0, 0, 0, 0, 0, 0, 2, 0, 0], [⟨0x2000, 4⟩], 1, []⟩
    cdb := [0x89, 0, 0, 0, 0, 0, 0, 0, 0, 0, 0, 0, 0, 2, 0, 0]
    hcdb := rfl }

/-- One block is the limit, and the command is accepted. -/
theorem caw_beyond_limit : cawTwo.dev.limits.maxCaw = 1 ∧
    ¬ LimitsEnforced cawTwo (fun _ => 0) 0x1000 .caw := by
  refine ⟨rfl, fun h => ?_⟩
  have hok : handleCawCheck cawTwo = .ok := by decide
  obtain ⟨x, s, hexec, hnot⟩ : ∃ x s, (handleCaw cawTwo).exec lifeInterp
      (listEnv 0x1000 fun _ => 0) Life.init = some (x, s) ∧ ¬ EndsInError x s :=
    exec_handleCaw hok
  have hwithin : byteAt cawTwo.cdb 13 ≤ cawTwo.dev.limits.maxCaw :=
    h.accepted _ x s (listEnv_finds _ _ _) hexec hnot
  exact absurd hwithin (by decide)

end Tcmu

end LioProject
