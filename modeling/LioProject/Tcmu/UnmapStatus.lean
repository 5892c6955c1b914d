import LioProject.Tcmu.UnmapSplit

/-!
# The status of an unmap

`handle_unmap_internal` dispatches the sub-commands of all descriptors, and each of them is called
back. The command is completed by the last callback, with the first error: that of the dispatching
loop, or else that of the first callback that failed. The loop ends in an error if memory or the
handler refuses it a sub-command, or if it comes to a descriptor that fails its checks
(`dispatchError`). What has been refused is read off the log of the loop.

The loop leaves its last status in `state->status` and sets `state->error` unless that is
`TCMU_STS_ASYNC_HANDLED`. If the last descriptor has no blocks, the last status is `TCMU_STS_OK`,
which is no error and no promise either: `state->error` is set, no callback can put its status
there any more, and the command is completed with `TCMU_STS_OK` whatever the callbacks say
(`unmap_status_iff`).

## Implementation notes

`state->refcount` has 32 bits. A list has four descriptors at most, of 2 ^ 25 blocks each, and so
the sub-commands of an `UNMAP` are always counted.
-/

namespace LioProject

namespace Tcmu

/-! ### What the callbacks say -/

/-- What an event says about the outcome of a sub-command: the handler calls back, or it refuses the
sub-command and the work thread calls back. -/
def LifeEvent.outcome (c : Request) (s : Life) : LifeEvent → Option TcmuSts
  | .done _ ret _ => some ret
  | .work i env =>
    match s.jobs[i]? with
    | some (_, j) =>
      match env 0 (.io j (j.callout c)) with
      | .failed e => some e.sts
      | .queued _ => none
    | none => none
  | _ => none

/-- The outcomes of the sub-commands in a run, in the order of their callbacks. -/
def outcomes (c : Request) : Life → List LifeEvent → List TcmuSts
  | _, [] => []
  | s, e :: es =>
    (e.outcome c s).toList ++ ((lifeStep c s e).map fun t => outcomes c t es).getD []

/-! ### Errors of the dispatching loop -/

/-- The error that an answer is for a sub-command that is being dispatched: there is no memory for
it, or the handler refuses it. -/
def refusal : (o : Op) × Ans o → Option TcmuSts
  | ⟨.alloc, false⟩ => some .noResource
  | ⟨.io _ _, .failed e⟩ => some e.sts
  | _ => none

/-- The error of the block descriptor at address `a`, if it fails them. -/
def descError (c : Request) (mem : Mem) (a : ℕ) : Option TcmuSts :=
  if mem.be (a + 8) 4 > 32 * 1024 * 1024 then some .invalidParamList
  else if checkLbas c.dev.geo (mem.be a 8) (mem.be (a + 8) 4) ≠ .ok then
    some (checkLbas c.dev.geo (mem.be a 8) (mem.be (a + 8) 4))
  else none

/-- The error of the first of `n` descriptors, from address `a` on, that fails its checks. -/
def descsError (c : Request) (mem : Mem) (a n : ℕ) : Option TcmuSts :=
  (List.range n).findSome? fun i => descError c mem (a + 16 * i)

/-- **The dispatch-time error**, if there is one: a sub-command has been refused, or else a
descriptor has failed its checks. -/
def dispatchError (c : Request) (mem : Mem) (a n : ℕ) (log : Prog.Log Op Ans) : Option TcmuSts :=
  (log.findSome? refusal).or (descsError c mem a n)

/-- The status that the command is to be completed with, for the dispatch-time error and the
outcomes of the sub-commands. -/
def unmapExpected (error : Option TcmuSts) (os : List TcmuSts) : TcmuSts :=
  error.getD ((os.find? (· ≠ .ok)).getD .ok)

/-- `handle_unmap_internal`, and what is done with the status that it returns. -/
def answerUnmap (c : Request) (mem : Mem) (bddl par : ℕ) : Daemon Unit := do
  let ret ← handleUnmapInternal c mem bddl par
  if ret ≠ .asyncHandled then ask (.complete ret)

/-! ### The state of an unmap -/

section Called

variable {u : UnmapState} {os : List TcmuSts}

theorem called_refcount {n : ℕ} (hn : n + 1 < 2 ^ 32) (hu : u.refcount = n + 1) (o : TcmuSts) :
    (u.called o).refcount = n := by
  change sub32 u.refcount 1 = n
  rw [hu, sub32_eq (Nat.le_add_left _ _) hn, Nat.add_sub_cancel]

theorem foldl_called_refcount {n : ℕ} (hn : n + os.length < 2 ^ 32)
    (hu : u.refcount = n + os.length) : (os.foldl UnmapState.called u).refcount = n := by
  induction os generalizing u with
  | nil => exact hu
  | cons o os ih =>
    rw [List.length_cons, ← Nat.add_assoc] at hn hu
    rw [List.foldl_cons]
    exact ih (Nat.lt_of_succ_lt hn) (called_refcount hn hu o)

theorem foldl_called_error :
    (os.foldl UnmapState.called u).error = (u.error || os.any (· ≠ .ok)) := by
  induction os generalizing u with
  | nil => exact (Bool.or_false _).symm
  | cons o os ih => rw [List.foldl_cons, ih, List.any_cons, UnmapState.called, Bool.or_assoc]

/-- Only the first error is kept. -/
theorem foldl_called_status : (os.foldl UnmapState.called u).status =
    if u.error then u.status else (os.find? (· ≠ .ok)).getD u.status := by
  induction os generalizing u with
  | nil => exact (ite_self _).symm
  | cons o os ih =>
    rw [List.foldl_cons, ih, UnmapState.called]
    by_cases ho : o = .ok
    · simp [ho]
    · cases u.error with
      | false => simp [ho]
      | true => simp

/-- The status with which the last callback completes the command. -/
def UnmapState.final (u : UnmapState) (os : List TcmuSts) : TcmuSts :=
  if (os.foldl UnmapState.called u).error then (os.foldl UnmapState.called u).status else .ok

theorem UnmapState.final_eq :
    u.final os = if u.error then u.status else (os.find? (· ≠ .ok)).getD .ok := by
  rw [UnmapState.final, foldl_called_error, foldl_called_status]
  cases u.error with
  | true => rfl
  | false =>
    cases hfind : os.find? (· ≠ .ok) with
    | none =>
      have hany : os.any (· ≠ .ok) = false := by
        rw [List.any_eq_false]
        exact fun o ho => List.find?_eq_none.mp hfind o ho
      rw [hany]
      rfl
    | some o =>
      have hne : decide (o ≠ TcmuSts.ok) = true :=
        List.find?_some (p := fun x => decide (x ≠ TcmuSts.ok)) hfind
      have hany : os.any (· ≠ .ok) = true :=
        List.any_eq_true.mpr ⟨o, List.mem_of_find?_eq_some hfind, hne⟩
      rw [hany]
      rfl

/-- What the last callback completes the command with. Without an error its own status is none
either. -/
theorem UnmapState.final_append (u : UnmapState) (os : List TcmuSts) (ret : TcmuSts) :
    u.final (os ++ [ret]) =
      if ((os.foldl UnmapState.called u).called ret).error
      then ((os.foldl UnmapState.called u).called ret).status else ret := by
  rw [UnmapState.final, List.foldl_append]
  change (if ((os.foldl UnmapState.called u).called ret).error then _ else _) = _
  split
  · rfl
  · rename_i hok
    have herror : ((os.foldl UnmapState.called u).called ret).error =
        ((os.foldl UnmapState.called u).error || ret ≠ .ok) := rfl
    by_contra hne
    exact hok (by simp [herror, Ne.symm hne])

end Called

/-! ### Callbacks in a run -/

/-- The command after a sub-command has been called back. -/
def Life.unmapCalled (s : Life) (u : UnmapState) (ret : TcmuSts) : Life :=
  if (u.called ret).refcount > 0 then { s with unmap := some (u.called ret) }
  else
    { s with
      unmap := none
      completions := s.completions ++
        [if (u.called ret).error then (u.called ret).status else ret]
      finishes := s.finishes + 1 }

theorem exec_handleUnmapCbk {u : UnmapState} {s : Life} (hu : s.unmap = some u) (ret : TcmuSts)
    (env : Prog.Env Op Ans) :
    (handleUnmapCbk ret).exec lifeInterp env s = some (.ok (), s.unmapCalled u ret) := by
  rw [handleUnmapCbk, Prog.exec_ask_bind rfl, hu, Life.unmapCalled]
  dsimp only
  generalize u.called ret = v
  split
  · rfl
  · rfl

/-- The same for whatever is under way. -/
theorem exec_done_of_isUnmap {c : Request} {u : UnmapState} {s : Life} {j : Job}
    (hj : j.isUnmap = true) (hu : s.unmap = some u) (ret : TcmuSts) (env : Prog.Env Op Ans) :
    (j.done c ret).exec lifeInterp env s = some (.ok (), s.unmapCalled u ret) := by
  cases j with
  | unmap offset length => exact exec_handleUnmapCbk hu ret env
  | _ => exact absurd hj (by simp [Job.isUnmap])

/-- A work thread hands a sub-command to the handler, which accepts it or refuses it. -/
theorem exec_ioWork {c : Request} {j : Job} (hdefined : (j.callout c).defined = true)
    (env : Prog.Env Op Ans) (s : Life) :
    (ioWork c j).exec lifeInterp env s =
      match env 0 (.io j (j.callout c)) with
      | .queued _ => some (.ok (), s.dispatched c j true)
      | .failed e => (j.done c e.sts).exec lifeInterp (fun n => env (n + 1))
          { s with calls := s.calls ++ [j.callout c] : Life }.fails := by
  rw [ioWork, Job.work, if_pos hdefined]
  change Prog.exec lifeInterp (Prog.op (.io j (j.callout c)) _) env s = _
  rw [Prog.exec]
  cases env 0 (.io j (j.callout c)) with
  | queued now => rfl
  | failed e => rfl

/-- The sub-commands that are under way are those that have been dispatched and not been called
back. The command is completed when there are none. -/
structure Life.Settles (u : UnmapState) (os : List TcmuSts) (s : Life) : Prop where
  /-- The command has been processed. -/
  begun : s.begun = true
  /-- The callbacks have left their marks, and the last of them has freed the state. -/
  unmap : s.unmap = if s.jobs = [] then none else some (os.foldl UnmapState.called u)
  /-- All sub-commands are unmaps. -/
  jobs : ∀ x ∈ s.jobs, x.2.isUnmap = true
  /-- They are counted. -/
  count : s.jobs.length + os.length = u.refcount
  /-- The last callback has completed the command. -/
  completions : s.completions = if s.jobs = [] then [u.final os] else []
  /-- No thread is to acquire the lock. -/
  lockThreads : s.lockThreads = 0

section Run

variable {c : Request} {u : UnmapState} {os : List TcmuSts} {s t : Life}

/-- A command with sub-commands has not been completed. -/
theorem Life.Settles.completions_nil (h : s.Settles u os) {i : ℕ} {x : Bool × Job}
    (hx : s.jobs[i]? = some x) : s.completions = [] := by
  have hne : s.jobs ≠ [] := List.ne_nil_of_mem (List.mem_of_getElem? hx)
  rw [h.completions, if_neg hne]

theorem Life.Settles.unmap_some (h : s.Settles u os) {i : ℕ} {x : Bool × Job}
    (hx : s.jobs[i]? = some x) : s.unmap = some (os.foldl UnmapState.called u) := by
  have hne : s.jobs ≠ [] := List.ne_nil_of_mem (List.mem_of_getElem? hx)
  rw [h.unmap, if_neg hne]

/-- The callback of a sub-command, which is taken out. -/
theorem Life.Settles.called (h : s.Settles u os) (hfits : u.refcount < 2 ^ 32) {i : ℕ}
    {x : Bool × Job} (hx : s.jobs[i]? = some x) {v : Life} (hv : v.jobs = s.jobs.eraseIdx i)
    (hcompletions : v.completions = s.completions) (hthreads : v.lockThreads = s.lockThreads)
    (ret : TcmuSts) :
    (settle (.ok (), v.unmapCalled (os.foldl UnmapState.called u) ret)).Settles u
      (os ++ [ret]) := by
  obtain ⟨hi, -⟩ := List.getElem?_eq_some_iff.mp hx
  have hlen : v.jobs.length + 1 = s.jobs.length := by
    rw [hv, List.length_eraseIdx_of_lt hi]
    omega
  have hcount : v.jobs.length + (os ++ [ret]).length = u.refcount := by
    rw [List.length_append, List.length_singleton, ← h.count]
    omega
  have hfold : (os ++ [ret]).foldl UnmapState.called u =
      (os.foldl UnmapState.called u).called ret := List.foldl_append
  have hjobs : ∀ y ∈ v.jobs, y.2.isUnmap = true := fun y hy =>
    h.jobs y (List.mem_of_mem_eraseIdx (hv ▸ hy))
  have hrefcount := foldl_called_refcount (hcount ▸ hfits) hcount.symm
  have hfinal := UnmapState.final_append u os ret
  rw [hfold] at hrefcount
  rw [Life.unmapCalled, hrefcount]
  split
  · rename_i hpos
    have hne : v.jobs ≠ [] := List.ne_nil_of_length_pos hpos
    refine ⟨rfl, ?_, hjobs, hcount, ?_, hthreads.trans h.lockThreads⟩
    · change some _ = if v.jobs = [] then _ else _
      rw [if_neg hne, hfold]
    · change v.completions = if v.jobs = [] then _ else _
      rw [if_neg hne, hcompletions, h.completions_nil hx]
  · rename_i hzero
    have hnil : v.jobs = [] := List.eq_nil_of_length_eq_zero (by omega)
    refine ⟨rfl, ?_, hjobs, hcount, ?_, hthreads.trans h.lockThreads⟩
    · change none = if v.jobs = [] then _ else _
      rw [if_pos hnil]
    · change v.completions ++ _ = if v.jobs = [] then _ else _
      rw [if_pos hnil, hcompletions, h.completions_nil hx, List.nil_append, hfinal]

/-- The handler has accepted a sub-command. -/
theorem Life.Settles.accepted (h : s.Settles u os) {i : ℕ} {j : Job}
    (hj : s.jobs[i]? = some (false, j)) :
    (settle (.ok (), { s with jobs := s.jobs.eraseIdx i : Life }.dispatched c j true)).Settles u
      os := by
  obtain ⟨hi, -⟩ := List.getElem?_eq_some_iff.mp hj
  have hjobs : (settle (.ok (), { s with jobs := s.jobs.eraseIdx i : Life }.dispatched c j
      true)).jobs = s.jobs.eraseIdx i ++ [(true, j)] := rfl
  refine ⟨rfl, ?_, ?_, ?_, ?_, h.lockThreads⟩
  · rw [hjobs, if_neg (by simp)]
    exact h.unmap_some hj
  · intro x hx
    rw [hjobs] at hx
    rcases List.mem_append.mp hx with hx | hx
    · exact h.jobs x (List.mem_of_mem_eraseIdx hx)
    · rw [List.mem_singleton.mp hx]
      exact h.jobs (false, j) (List.mem_of_getElem? hj)
  · rw [hjobs, List.length_append, List.length_eraseIdx_of_lt hi, List.length_singleton,
      Nat.sub_add_cancel (Nat.one_le_of_lt hi)]
    exact h.count
  · rw [hjobs, if_neg (by simp)]
    exact h.completions_nil hj

/-- A work thread takes a sub-command. -/
theorem Life.Settles.work (h : s.Settles u os) (hfits : u.refcount < 2 ^ 32) {i : ℕ} {j : Job}
    (hj : s.jobs[i]? = some (false, j)) {env : Prog.Env Op Ans} {x : Except Fault Unit} {v : Life}
    (hexec : (ioWork c j).exec lifeInterp env { s with jobs := s.jobs.eraseIdx i } = some (x, v))
    (hfault : (settle (x, v)).fault = none) :
    (settle (x, v)).Settles u (os ++ ((LifeEvent.work i env).outcome c s).toList) := by
  have houtcome : (LifeEvent.work i env).outcome c s =
      match env 0 (.io j (j.callout c)) with
      | .failed e => some e.sts
      | .queued _ => none := by
    rw [LifeEvent.outcome, hj]
  by_cases hdefined : (j.callout c).defined = true
  · rw [exec_ioWork hdefined] at hexec
    cases hreply : env 0 (.io j (j.callout c)) with
    | queued now =>
      rw [hreply] at hexec
      obtain ⟨rfl, rfl⟩ := Prod.mk.inj (Option.some.inj hexec)
      rw [houtcome, hreply, Option.toList_none, List.append_nil]
      exact h.accepted hj
    | failed e =>
      have hunmap : j.isUnmap = true := h.jobs _ (List.mem_of_getElem? hj)
      have hdone := exec_done_of_isUnmap (c := c) (s := Life.fails { s with
        jobs := s.jobs.eraseIdx i
        calls := s.calls ++ [j.callout c] }) hunmap (h.unmap_some hj) e.sts
      rw [hreply] at hexec
      dsimp only at hexec
      rw [hdone, Option.some.injEq, Prod.mk.injEq] at hexec
      obtain ⟨rfl, rfl⟩ := hexec
      rw [houtcome, hreply, Option.toList_some]
      refine h.called hfits (v := Life.fails { s with
        jobs := s.jobs.eraseIdx i
        calls := s.calls ++ [j.callout c] }) hj ?_ ?_ ?_ e.sts
      · rfl
      · rfl
      · rfl
  · rw [ioWork, Job.work, if_neg hdefined] at hexec
    obtain ⟨rfl, rfl⟩ := Prod.mk.inj (Option.some.inj hexec)
    exact absurd hfault (by simp [settle])

/-- **One event.** -/
theorem Life.Settles.step (h : s.Settles u os) (hfits : u.refcount < 2 ^ 32) {e : LifeEvent}
    (hstep : lifeStep c s e = some t)
    (hfault : t.fault = none) : t.Settles u (os ++ (e.outcome c s).toList) := by
  obtain ⟨-, p, w, x, v, hprog, hexec, rfl⟩ := lifeStep_cases hstep
  cases e with
  | fetch env =>
    rw [LifeEvent.prog, h.begun] at hprog
    exact absurd hprog (by simp)
  | lockThread env =>
    rw [LifeEvent.prog, h.lockThreads] at hprog
    exact absurd hprog (by simp)
  | done i ret env =>
    rw [LifeEvent.prog] at hprog
    split at hprog
    · rename_i j hj
      obtain ⟨rfl, rfl⟩ := Prod.mk.inj (Option.some.inj hprog)
      have hunmap := h.jobs _ (List.mem_of_getElem? hj)
      rw [exec_done_of_isUnmap (s := { s with jobs := s.jobs.eraseIdx i }) hunmap
        (h.unmap_some hj), Option.some.injEq, Prod.mk.injEq] at hexec
      obtain ⟨rfl, rfl⟩ := hexec
      rw [LifeEvent.outcome, Option.toList_some]
      exact h.called hfits (v := { s with jobs := s.jobs.eraseIdx i }) hj rfl rfl rfl ret
    · exact absurd hprog (by simp)
  | work i env =>
    rw [LifeEvent.prog] at hprog
    split at hprog
    · rename_i j hj
      obtain ⟨rfl, rfl⟩ := Prod.mk.inj (Option.some.inj hprog)
      exact h.work hfits hj hexec hfault
    · exact absurd hprog (by simp)

/-- **Every run.** -/
theorem Life.Settles.run (hfits : u.refcount < 2 ^ 32) {es : List LifeEvent} :
    ∀ {os : List TcmuSts} {s : Life}, s.Settles u os → run (lifeStep c) s es = some t →
      t.fault = none → t.Settles u (os ++ outcomes c s es) := by
  induction es with
  | nil =>
    intro os s h hrun _
    rw [run_nil, Option.some.injEq] at hrun
    rw [outcomes, List.append_nil]
    exact hrun ▸ h
  | cons e es ih =>
    intro os s h hrun hfault
    rw [run_cons, Option.bind_eq_some_iff] at hrun
    obtain ⟨v, hv, hrun⟩ := hrun
    have hvfault : v.fault = none := by
      cases es with
      | nil =>
        rw [run_nil, Option.some.injEq] at hrun
        exact hrun ▸ hfault
      | cons e' es =>
        rw [run_cons, Option.bind_eq_some_iff] at hrun
        obtain ⟨w, hw, -⟩ := hrun
        exact (lifeStep_cases hw).1
    rw [outcomes, hv, ← List.append_assoc]
    exact ih (h.step hfits hv hvfault) hrun hfault

end Run

/-! ### The dispatching loop -/

/-- `n` sub-commands have been added to the ones of `s`, all of them unmaps. Nothing else has
happened to the command. -/
structure Life.Grown (s : Life) (n : ℕ) (t : Life) : Prop where
  /-- The number of sub-commands. -/
  length : t.jobs.length = s.jobs.length + n
  /-- They are unmaps. -/
  jobs : (∀ x ∈ s.jobs, x.2.isUnmap = true) → ∀ x ∈ t.jobs, x.2.isUnmap = true
  /-- The command has not been completed. -/
  completions : t.completions = s.completions
  /-- No thread has been started. -/
  lockThreads : t.lockThreads = s.lockThreads

section Loop

variable {c : Request} {s t : Life}

theorem Life.Grown.refl (s : Life) : s.Grown 0 s := ⟨rfl, fun h => h, rfl, rfl⟩

theorem Life.Grown.trans {n m : ℕ} {u : Life} (h : s.Grown n t) (h' : t.Grown m u) :
    s.Grown (n + m) u :=
  ⟨by rw [h'.length, h.length, Nat.add_assoc], fun hs => h'.jobs (h.jobs hs),
    h'.completions.trans h.completions, h'.lockThreads.trans h.lockThreads⟩

theorem Life.Grown.fails (s : Life) : s.Grown 0 s.fails := ⟨rfl, fun h => h, rfl, rfl⟩

theorem Life.Grown.dispatched (s : Life) (offset length : ℕ) (b : Bool) :
    s.Grown 1 (s.dispatched c (.unmap offset length) b) := by
  refine ⟨List.length_append, fun hs => ?_, rfl, rfl⟩
  exact List.forall_mem_append.mpr ⟨hs, List.forall_mem_singleton.mpr rfl⟩

theorem refusal_isError {x : (o : Op) × Ans o} {e : TcmuSts} (h : refusal x = some e) :
    e.IsError := by
  rw [refusal.eq_def] at h
  split at h
  · obtain rfl := Option.some.inj h
    exact ⟨by simp, by simp⟩
  · obtain rfl := Option.some.inj h
    exact ⟨ErrSts.ne_ok _, ErrSts.ne_async _⟩
  · exact absurd h (by simp)

theorem descError_isError {mem : Mem} {a : ℕ} {e : TcmuSts} (h : descError c mem a = some e) :
    e.IsError := by
  rw [descError] at h
  split at h
  · obtain rfl := Option.some.inj h
    exact ⟨by simp, by simp⟩
  · split at h
    · rename_i hcheck
      obtain rfl := Option.some.inj h
      exact ⟨hcheck, checkLbas_ne_async _ _ _⟩
    · exact absurd h (by simp)

theorem descError_eq_none_iff {mem : Mem} {a : ℕ} : descError c mem a = none ↔ DescOk c mem a := by
  rw [descError, DescOk, ← Nat.not_lt]
  split
  · rename_i hmax
    exact iff_of_false (by simp) fun hok => hok.1 hmax
  · rename_i hmax
    split
    · rename_i hcheck
      exact iff_of_false (by simp) fun hok => hcheck hok.2
    · rename_i hcheck
      exact iff_of_true rfl ⟨hmax, not_not.mp hcheck⟩

theorem dispatchError_isError {mem : Mem} {a n : ℕ} {log : Prog.Log Op Ans} {e : TcmuSts}
    (h : dispatchError c mem a n log = some e) : e.IsError := by
  rcases Option.or_eq_some_iff.mp h with h | ⟨-, h⟩
  · obtain ⟨x, -, hx⟩ := List.exists_of_findSome?_eq_some h
    exact refusal_isError hx
  · obtain ⟨i, -, hi⟩ := List.exists_of_findSome?_eq_some h
    exact descError_isError hi

/-- Without an error all descriptors have passed their checks, and nothing has been refused. -/
theorem dispatchError_eq_none_iff {mem : Mem} {a n : ℕ} {log : Prog.Log Op Ans} :
    dispatchError c mem a n log = none ↔
      (∀ x ∈ log, refusal x = none) ∧ ∀ i < n, DescOk c mem (a + 16 * i) := by
  rw [dispatchError, Option.or_eq_none_iff, List.findSome?_eq_none_iff, descsError,
    List.findSome?_eq_none_iff]
  simp only [List.mem_range, descError_eq_none_iff]

theorem descsError_succ (mem : Mem) (a n : ℕ) :
    descsError c mem a (n + 1) = (descError c mem a).or (descsError c mem (a + 16) n) := by
  rw [descsError, descsError, List.range_succ_eq_map, List.findSome?_cons, List.findSome?_map]
  have haddr : ∀ i, a + 16 * i.succ = a + 16 + 16 * i := fun i => by omega
  simp only [Function.comp_def, haddr, Nat.mul_zero, Nat.add_zero]
  cases descError c mem a with
  | none => rfl
  | some e => rfl

/-- A state, and what has been asked and answered so far. -/
abbrev Logged := Life × Prog.Log Op Ans

/-- What `align_and_split_unmap` and its callers leave behind: `N` sub-commands at most, and the
answers that they have got. `last` is the status if there has been no error, neither in what they
were refused nor in `error`, the error of the descriptors. -/
def Dispatched (s : Logged) (refcount N : ℕ) (ret last : TcmuSts) (error : Option TcmuSts)
    (r : TcmuSts × ℕ) (t : Logged) : Prop :=
  ∃ n ≤ N, ∃ l, t.2 = s.2 ++ l ∧ s.1.Grown n t.1 ∧
    (refcount + n < 2 ^ 32 → r.2 = refcount + n) ∧
    r.1 = ((l.findSome? refusal).or error).getD last ∧
    (r.1 = .asyncHandled → ret = .asyncHandled ∨ 0 < n)

section Dispatched

variable {s t : Logged} {l : Prog.Log Op Ans} {N refcount : ℕ} {ret last : TcmuSts}
  {error : Option TcmuSts} {r : TcmuSts × ℕ}

/-- A sub-command is refused. -/
theorem Dispatched.refused {e : TcmuSts} {x : (o : Op) × Ans o} (hx : refusal x = some e)
    (hl : l.findSome? refusal = none) (hlog : t.2 = s.2 ++ l ++ [x])
    (hgrown : s.1.Grown 0 t.1) : Dispatched s refcount N ret last error (e, refcount) t := by
  refine ⟨0, Nat.zero_le _, l ++ [x], hlog.trans (List.append_assoc _ _ _), hgrown, fun _ => rfl,
    ?_, fun hasync => absurd hasync (refusal_isError hx).2⟩
  rw [List.findSome?_append, hl, List.findSome?_singleton, hx]
  rfl

/-- `m` sub-commands have been dispatched, and none has been refused. -/
theorem Dispatched.after {u : Logged} {m refcount' : ℕ} {ret' : TcmuSts}
    (hl : l.findSome? refusal = none) (hlog : t.2 = s.2 ++ l) (hgrown : s.1.Grown m t.1)
    (hcount : refcount + m < 2 ^ 32 → refcount' = refcount + m)
    (hret : ret' = .asyncHandled → ret = .asyncHandled ∨ 0 < m)
    (h : Dispatched t refcount' N ret' last error r u) :
    Dispatched s refcount (m + N) ret last error r u := by
  obtain ⟨n, hn, l', hlog', hgrown', hcount', hr, hasync⟩ := h
  refine ⟨m + n, by omega, l ++ l', ?_, hgrown.trans hgrown', fun hfits => ?_, ?_, fun hr' => ?_⟩
  · rw [hlog', hlog, List.append_assoc]
  · have hm := hcount (by omega)
    rw [hcount' (by omega), hm, Nat.add_assoc]
  · rw [hr, List.findSome?_append, hl, Option.none_or]
  · rcases hasync hr' with hret' | hpos
    · exact (hret hret').imp_right fun hm => by omega
    · exact Or.inr (by omega)

/-- A descriptor fails its checks. -/
theorem Dispatched.stopped {e : TcmuSts} (he : e.IsError) :
    Dispatched s refcount N ret last (some e) (e, refcount) s :=
  ⟨0, Nat.zero_le _, [], (List.append_nil _).symm, Life.Grown.refl s.1, fun _ => rfl, rfl,
    fun hasync => absurd hasync he.2⟩

theorem Dispatched.mono {M : ℕ} (h : Dispatched s refcount N ret last error r t) (hle : N ≤ M) :
    Dispatched s refcount M ret last error r t := by
  obtain ⟨n, hn, hrest⟩ := h
  exact ⟨n, hn.trans hle, hrest⟩

end Dispatched

/-- Dispatching a sub-command adds it, or it is refused. -/
theorem wp_dispatch_any (offset length : ℕ) (s : Logged) :
    Prog.wp (Prog.logged lifeInterp) (fun _ _ => True) (fun _ _ => True)
      (asyncHandleCmd c (.unmap offset length))
      (fun ret t => (ret = .asyncHandled ∧ s.1.Grown 1 t.1 ∧
          ∃ l, t.2 = s.2 ++ l ∧ l.findSome? refusal = none) ∨
        s.1.Grown 0 t.1 ∧ ∃ x, t.2 = s.2 ++ [x] ∧ refusal x = some ret) s := by
  rw [asyncHandleCmd]
  split
  · rw [Job.work]
    split
    · intro a _ r t ht
      obtain ⟨rfl, rfl⟩ := Prod.mk.inj (Option.some.inj ht)
      cases a with
      | queued now =>
        cases now with
        | true => exact trivial
        | false =>
          exact Or.inl ⟨rfl, Life.Grown.dispatched (c := c) s.1 offset length true, _, rfl, rfl⟩
      | failed e => exact Or.inr ⟨⟨rfl, fun h => h, rfl, rfl⟩, _, rfl, rfl⟩
    · exact trivial
  · intro a _ r t ht
    obtain ⟨rfl, rfl⟩ := Prod.mk.inj (Option.some.inj ht)
    cases a with
    | false => exact Or.inr ⟨Life.Grown.fails s.1, _, rfl, rfl⟩
    | true =>
      intro a _ r t ht
      obtain ⟨-, rfl⟩ := Prod.mk.inj (Option.some.inj ht)
      exact Or.inl ⟨rfl, Life.Grown.dispatched (c := c) s.1 offset length false, _,
        List.append_assoc _ _ _, rfl⟩

/-- The loop over the pieces. -/
theorem wp_splitUnmap_any {fuel : ℕ} :
    ∀ (lba nlbas lbas refcount : ℕ) (ret : TcmuSts) (s : Logged),
      Prog.wp (Prog.logged lifeInterp) (fun _ _ => True) (fun _ _ => True)
        (splitUnmap c fuel lba nlbas lbas refcount ret)
        (Dispatched s refcount fuel ret (if nlbas = 0 then ret else .asyncHandled) none) s := by
  induction fuel with
  | zero => exact fun _ _ _ _ _ _ => trivial
  | succ fuel ih =>
    intro lba nlbas lbas refcount ret s
    rw [splitUnmap]
    split
    · exact ⟨0, Nat.zero_le _, [], (List.append_nil _).symm, Life.Grown.refl s.1, fun _ => rfl, rfl,
        Or.inl⟩
    · refine Prog.wp_ask_bind.mpr fun a _ r t ht => ?_
      obtain ⟨rfl, rfl⟩ := Prod.mk.inj (Option.some.inj ht)
      cases a with
      | false =>
        exact Dispatched.refused (l := []) rfl rfl (congrArg (· ++ _) (List.append_nil _).symm)
          (Life.Grown.fails s.1)
      | true =>
        refine Prog.wp_ask_bind.mpr fun a _ r t ht => ?_
        obtain ⟨rfl, rfl⟩ := Prod.mk.inj (Option.some.inj ht)
        cases a with
        | false =>
          exact Dispatched.refused (l := [⟨.alloc, true⟩]) rfl rfl rfl (Life.Grown.fails s.1)
        | true =>
          refine Prog.wp_seq (wp_dispatch_any _ _ _) fun ret t ht => ?_
          rcases ht with ⟨rfl, hgrown, l, hlog, hl⟩ | ⟨hgrown, x, hlog, hx⟩
          · rw [if_neg (by simp), Nat.add_comm fuel]
            refine Prog.wp_mono (ih _ _ _ _ _ t) fun r u hu => ?_
            rw [ite_self] at hu
            refine Dispatched.after (l := [⟨.alloc, true⟩, ⟨.alloc, true⟩] ++ l) hl ?_ hgrown
              Nat.mod_eq_of_lt (fun _ => Or.inr Nat.one_pos) hu
            rw [hlog, List.append_assoc, List.append_assoc]
            rfl
          · rw [if_pos (refusal_isError hx).2]
            refine Dispatched.refused (l := [⟨.alloc, true⟩, ⟨.alloc, true⟩]) hx rfl ?_ hgrown
            rw [hlog]
            exact congrArg (· ++ [x]) (List.append_assoc _ _ _)

/-- The status that the loop ends with if nothing goes wrong: that of the last of `n` descriptors,
of which the first is at address `a`. -/
def lastStatus (mem : Mem) (a n : ℕ) (ret : TcmuSts) : TcmuSts :=
  if n = 0 then ret else if mem.be (a + 16 * (n - 1) + 8) 4 = 0 then .ok else .asyncHandled

theorem lastStatus_cases (mem : Mem) (a n : ℕ) :
    lastStatus mem a n .ok = .ok ∨ lastStatus mem a n .ok = .asyncHandled := by
  rw [lastStatus]
  split
  · exact Or.inl rfl
  · split
    · exact Or.inl rfl
    · exact Or.inr rfl

theorem lastStatus_succ (mem : Mem) (a n : ℕ) (ret : TcmuSts) :
    lastStatus mem a (n + 1) ret =
      lastStatus mem (a + 16) n (if mem.be (a + 8) 4 = 0 then .ok else .asyncHandled) := by
  rw [lastStatus, lastStatus, if_neg (Nat.succ_ne_zero n), Nat.add_sub_cancel]
  cases n with
  | zero => rfl
  | succ n =>
    have haddr : a + 16 * (n + 1) + 8 = a + 16 + 16 * n + 8 := by omega
    rw [if_neg (Nat.succ_ne_zero n), Nat.add_sub_cancel, haddr]

/-- **The loop over the descriptors.** A descriptor that passes its checks has 2^25 blocks at
most. -/
theorem wp_unmapDescs_any (mem : Mem) {n : ℕ} : ∀ (a refcount : ℕ) (ret : TcmuSts) (s : Logged),
    Prog.wp (Prog.logged lifeInterp) (fun _ _ => True) (fun _ _ => True)
      (unmapDescs c mem n a refcount ret)
      (Dispatched s refcount (n * (2 ^ 25 + 2)) ret (lastStatus mem a n ret)
        (descsError c mem a n)) s := by
  induction n with
  | zero =>
    exact fun _ _ _ s => ⟨0, Nat.zero_le _, [], (List.append_nil _).symm, Life.Grown.refl s.1,
      fun _ => rfl, rfl, Or.inl⟩
  | succ n ih =>
    intro a refcount ret s
    rw [unmapDescs, lastStatus_succ, descsError_succ, descError]
    dsimp only
    split
    · exact Dispatched.stopped ⟨by simp, by simp⟩
    · rename_i hmax
      split
      · rename_i hcheck
        exact Dispatched.stopped ⟨hcheck, checkLbas_ne_async _ _ _⟩
      · rw [Option.none_or, Nat.succ_mul, Nat.add_comm (n * _)]
        split
        · refine Prog.wp_mono (ih _ _ .ok s) fun r u hu => Dispatched.mono ?_ (Nat.le_add_left _ _)
          rw [← Nat.zero_add (n * _)]
          exact Dispatched.after (l := []) rfl (List.append_nil _).symm (Life.Grown.refl s.1)
            (fun _ => rfl) (by simp) hu
        · rename_i hne
          have hfuel : mem.be (a + 8) 4 + 2 ≤ 2 ^ 25 + 2 := by omega
          refine Prog.wp_seq (wp_splitUnmap_any _ _ _ _ _ s) fun r t ht => ?_
          obtain ⟨k, hk, l, hlog, hgrown, hcount, hr, hasync⟩ := ht
          rw [if_neg hne, Option.or_none] at hr
          cases hl : l.findSome? refusal with
          | none =>
            rw [hl, Option.getD_none] at hr
            rw [if_neg (not_not.mpr hr)]
            refine Prog.wp_mono (ih _ _ _ t) fun r' u hu => Dispatched.mono ?_
              (Nat.add_le_add_right (hk.trans hfuel) _)
            refine Dispatched.after hl hlog hgrown hcount (fun hret => Or.inr ?_) (hr ▸ hu)
            exact (hasync hr).resolve_left (by simp)
          | some e =>
            obtain ⟨x, -, hx⟩ := List.exists_of_findSome?_eq_some hl
            rw [hl, Option.getD_some] at hr
            have hne : r.1 ≠ .asyncHandled := hr ▸ (refusal_isError hx).2
            rw [if_pos hne]
            refine ⟨k, (hk.trans hfuel).trans (Nat.le_add_right _ _), l, hlog, hgrown, hcount, ?_,
              fun h => absurd h hne⟩
            rw [hl, hr]
            rfl

end Loop

section Answer

variable {c : Request} {u : Life} {mem : Mem} {bddl par : ℕ} {env : Prog.Env Op Ans}
  {log : Prog.Log Op Ans}

/-- What becomes of the command after the loop. -/
def Life.answered (t : Life) (ret : TcmuSts) (refcount : ℕ) : Life :=
  if refcount ≠ 0 then { t with unmap := some ⟨refcount, ret ≠ .asyncHandled, ret⟩ }
  else if ret ≠ .asyncHandled then
    { t with unmap := none, completions := t.completions ++ [ret] }
  else { t with unmap := none }

/-- **What `handle_unmap_internal` does** after the loop, and its callers with what it returns. -/
theorem answerUnmap_cases
    (h : (answerUnmap c mem bddl par).exec (Prog.logged lifeInterp) env (Life.init, []) =
      some (.ok (), u, log)) :
    ∃ ret refcount t l, (unmapDescs c mem (bddl / 16) (par + 8) 0 .ok).exec
        (Prog.logged lifeInterp) env (Life.init, []) = some (.ok (ret, refcount), t, l) ∧
      u = t.answered ret refcount ∧ log.findSome? refusal = l.findSome? refusal := by
  rw [answerUnmap, handleUnmapInternal, Prog.bind_assoc] at h
  rcases Prog.exec_bind_cases h with ⟨e, -, he⟩ | ⟨⟨ret, refcount⟩, ⟨t, l⟩, n, hloop, hrest⟩
  · exact absurd he (by simp)
  · refine ⟨ret, refcount, t, l, hloop, ?_⟩
    have hrefusal : ∀ xs : Prog.Log Op Ans, xs.findSome? refusal = none →
        (l ++ xs).findSome? refusal = l.findSome? refusal := by
      intro xs hxs
      rw [List.findSome?_append, hxs, Option.or_none]
    dsimp only at hrest
    rw [Life.answered]
    by_cases hzero : refcount = 0
    · rw [if_neg (not_not.mpr hzero)] at hrest ⊢
      change (if ret ≠ .asyncHandled then ask (.complete ret) else pure () : Daemon Unit).exec _ _
        ({ t with unmap := none }, l ++ [⟨.freeUnmap, ()⟩]) = _ at hrest
      split at hrest
      · rename_i hret
        rw [if_pos hret]
        obtain ⟨-, heq⟩ := Prod.mk.inj (Option.some.inj hrest)
        obtain ⟨rfl, rfl⟩ := Prod.mk.inj heq
        refine ⟨rfl, ?_⟩
        rw [List.append_assoc]
        exact hrefusal _ rfl
      · rename_i hret
        rw [if_neg hret]
        obtain ⟨-, heq⟩ := Prod.mk.inj (Option.some.inj hrest)
        obtain ⟨rfl, rfl⟩ := Prod.mk.inj heq
        exact ⟨rfl, hrefusal _ rfl⟩
    · rw [if_pos hzero] at hrest ⊢
      obtain ⟨-, heq⟩ := Prod.mk.inj (Option.some.inj hrest)
      obtain ⟨rfl, rfl⟩ := Prod.mk.inj heq
      exact ⟨rfl, hrefusal _ rfl⟩

/-- What the loop of an unmap leaves behind when it ends. There are not too many sub-commands for
the count. -/
theorem dispatched_of_exec {n a refcount : ℕ} {ret : TcmuSts} {t : Life} {l : Prog.Log Op Ans}
    (hn : n ≤ 4) (h : (unmapDescs c mem n a 0 .ok).exec (Prog.logged lifeInterp) env
      (Life.init, []) = some (.ok (ret, refcount), t, l)) :
    Life.init.Grown refcount t ∧ refcount < 2 ^ 32 ∧
      ret = (dispatchError c mem a n l).getD (lastStatus mem a n .ok) ∧
      (ret = .asyncHandled → 0 < refcount) := by
  rcases Prog.exec_of_wp (wp_unmapDescs_any mem a 0 .ok (Life.init, [])) (fun _ _ => trivial) h
    with ⟨r, hr, k, hk, l', hlog, hgrown, hcount, hstatus, hasync⟩ | ⟨e, he, -⟩
  · obtain rfl := Except.ok.inj hr
    have hfits : 0 + k < 2 ^ 32 := by
      have hfour : n * (2 ^ 25 + 2) ≤ 4 * (2 ^ 25 + 2) := Nat.mul_le_mul_right _ hn
      omega
    have hrefcount : refcount = k := (hcount hfits).trans (Nat.zero_add k)
    have hl : l = l' := hlog
    refine ⟨hrefcount ▸ hgrown, by omega, ?_, fun hret => ?_⟩
    · rw [dispatchError, hl]
      exact hstatus
    · exact hrefcount ▸ (hasync hret).resolve_left (by simp)
  · exact absurd he (by simp)

end Answer

/-! ### Main result -/

section Main

variable {c : Request} {mem : Mem} {bddl par : ℕ} {env : Prog.Env Op Ans} {s t u : Life}
  {log : Prog.Log Op Ans} {es : List LifeEvent}

/-- A command without sub-commands and without threads has nothing more to do. -/
theorem lifeStep_of_idle (hbegun : s.begun = true) (hjobs : s.jobs = [])
    (hthreads : s.lockThreads = 0) (e : LifeEvent) : lifeStep c s e = none := by
  have hprog : e.prog c s = none := by
    cases e with
    | fetch env => rw [LifeEvent.prog, hbegun, if_pos rfl]
    | work i env => rw [LifeEvent.prog, hjobs, List.getElem?_nil]
    | done i ret env => rw [LifeEvent.prog, hjobs, List.getElem?_nil]
    | lockThread env => rw [LifeEvent.prog, hthreads, if_pos rfl]
  rw [lifeStep, hprog]
  exact ite_self _

theorem run_of_idle (hbegun : s.begun = true) (hjobs : s.jobs = []) (hthreads : s.lockThreads = 0)
    (hrun : run (lifeStep c) s es = some t) : es = [] ∧ t = s := by
  cases es with
  | nil =>
    rw [run_nil, Option.some.injEq] at hrun
    exact ⟨rfl, hrun.symm⟩
  | cons e es =>
    rw [run_cons, lifeStep_of_idle hbegun hjobs hthreads] at hrun
    exact absurd hrun (by simp)

/-- The expected status is success if and only if there has been no error. -/
theorem getD_find_eq_ok {os : List TcmuSts} :
    (os.find? (· ≠ .ok)).getD .ok = .ok ↔ ∀ o ∈ os, o = .ok := by
  cases hfind : os.find? (· ≠ .ok) with
  | none =>
    refine iff_of_true rfl fun o ho => ?_
    simpa using List.find?_eq_none.mp hfind o ho
  | some o =>
    have hne : decide (o ≠ TcmuSts.ok) = true :=
      List.find?_some (p := fun x => decide (x ≠ TcmuSts.ok)) hfind
    refine iff_of_false (by simpa using hne) fun hall => ?_
    exact absurd (hall o (List.mem_of_find?_eq_some hfind)) (by simpa using hne)

/-- Nothing has been dispatched, and the status of the loop is returned. -/
theorem Life.Grown.answered_of_zero {ret : TcmuSts} (h : Life.init.Grown 0 t)
    (hret : ret ≠ .asyncHandled) :
    (t.answered ret 0).jobs = [] ∧ (t.answered ret 0).lockThreads = 0 ∧
      (t.answered ret 0).completions = [ret] := by
  rw [Life.answered, if_neg (not_not.mpr rfl), if_pos hret]
  refine ⟨List.eq_nil_of_length_eq_zero h.length, h.lockThreads, ?_⟩
  change t.completions ++ [ret] = [ret]
  rw [h.completions]
  rfl

/-- Something has been dispatched, and the callbacks complete the command. -/
theorem Life.Grown.settles {ret : TcmuSts} {refcount : ℕ} (h : Life.init.Grown refcount t)
    (hne : refcount ≠ 0) :
    { t.answered ret refcount with begun := true : Life }.Settles
      ⟨refcount, ret ≠ .asyncHandled, ret⟩ [] := by
  have hlen : t.jobs.length = refcount := h.length.trans (Nat.zero_add _)
  have hjobs : t.jobs ≠ [] := List.ne_nil_of_length_pos (by omega)
  rw [Life.answered, if_pos hne]
  refine ⟨rfl, ?_, h.jobs fun x hx => absurd hx (by simp [Life.init]), hlen, ?_, h.lockThreads⟩
  · change some _ = if t.jobs = [] then _ else _
    rw [if_neg hjobs]
    rfl
  · change t.completions = if t.jobs = [] then _ else []
    rw [if_neg hjobs, h.completions]
    rfl

/-- The status that the callbacks end with, after a loop that has dispatched something. -/
theorem final_eq_expected_iff {error : Option TcmuSts} {a n refcount : ℕ} {ret : TcmuSts}
    (herror : ∀ e, error = some e → e ≠ .asyncHandled) (hn : n ≠ 0)
    (hret : ret = error.getD (lastStatus mem a n .ok)) (os : List TcmuSts) :
    UnmapState.final ⟨refcount, ret ≠ .asyncHandled, ret⟩ os = unmapExpected error os ↔
      error ≠ none ∨ mem.be (a + 16 * (n - 1) + 8) 4 ≠ 0 ∨ ∀ o ∈ os, o = .ok := by
  rw [UnmapState.final_eq, unmapExpected]
  simp only [decide_eq_true_eq]
  cases error with
  | some e =>
    have hret : ret = e := hret
    rw [if_pos (hret ▸ herror e rfl)]
    exact iff_of_true hret (Or.inl (by simp))
  | none =>
    rw [Option.getD_none, lastStatus, if_neg hn] at hret
    rw [Option.getD_none]
    split at hret
    · rename_i hcount
      rw [hret, if_pos (by simp), eq_comm, getD_find_eq_ok]
      refine ⟨fun h => Or.inr (Or.inr h), fun h => ?_⟩
      rcases h with hnone | hne | hall
      · exact absurd rfl hnone
      · exact absurd hcount hne
      · exact hall
    · rename_i hcount
      rw [hret, if_neg (by simp)]
      exact iff_of_true rfl (Or.inr (Or.inl hcount))

/-- **The status of an unmap.** Whatever the descriptors are, whatever becomes of the sub-commands
and in whatever order they are called back: the status with which the command has been completed,
when no sub-command is left, is the dispatch-time error if there has been one, and else that of the
first callback that failed, if and only if there has been a dispatch-time error, or the last
descriptor has blocks, or no callback has failed. -/
theorem unmap_status_iff (hbddl : bddl / 16 ≤ 4)
    (hanswer : (answerUnmap c mem bddl par).exec (Prog.logged lifeInterp) env (Life.init, []) =
      some (.ok (), u, log))
    (hrun : run (lifeStep c) { u with begun := true } es = some s) (hjobs : s.jobs = [])
    (hfault : s.fault = none) :
    s.completions = [unmapExpected (dispatchError c mem (par + 8) (bddl / 16) log)
        (outcomes c { u with begun := true } es)] ↔
      dispatchError c mem (par + 8) (bddl / 16) log ≠ none ∨
        mem.be (par + 8 + 16 * (bddl / 16 - 1) + 8) 4 ≠ 0 ∨
        ∀ o ∈ outcomes c { u with begun := true } es, o = .ok := by
  obtain ⟨ret, refcount, t, l, hloop, hu, hlog⟩ := answerUnmap_cases hanswer
  obtain ⟨hgrown, hfits, hret, hasync⟩ := dispatched_of_exec hbddl hloop
  have herror : dispatchError c mem (par + 8) (bddl / 16) log =
      dispatchError c mem (par + 8) (bddl / 16) l := by rw [dispatchError, hlog, dispatchError]
  subst hu
  rw [herror]
  by_cases hzero : refcount = 0
  · subst hzero
    have hnot : ret ≠ .asyncHandled := fun h => absurd (hasync h) (by simp)
    obtain ⟨hnil, hthreads, hcompletions⟩ := hgrown.answered_of_zero hnot
    obtain ⟨rfl, rfl⟩ := run_of_idle (s := { t.answered ret 0 with begun := true }) rfl hnil
      hthreads hrun
    refine iff_of_true ?_ (Or.inr (Or.inr fun o ho => absurd ho (by simp [outcomes])))
    change (t.answered ret 0).completions = _
    rw [hcompletions, unmapExpected, outcomes, hret]
    cases herror : dispatchError c mem (par + 8) (bddl / 16) l with
    | some e => rfl
    | none =>
      rw [herror] at hret
      rcases lastStatus_cases mem (par + 8) (bddl / 16) with hlast | hlast
      · rw [hlast]
        rfl
      · exact absurd (hret.trans hlast) hnot
  · have hdescs : bddl / 16 ≠ 0 := by
      intro hdescs
      rw [hdescs] at hloop
      have hend := Prod.mk.inj (Option.some.inj hloop)
      exact hzero (Prod.mk.inj (Except.ok.inj hend.1)).2.symm
    have hend := (hgrown.settles hzero).run hfits hrun hfault
    rw [List.nil_append] at hend
    have hcompletions := hend.completions
    rw [if_pos hjobs] at hcompletions
    rw [hcompletions, List.cons.injEq, and_iff_left rfl]
    exact final_eq_expected_iff (fun e he => (dispatchError_isError he).2) hdescs hret _

end Main

/-- A parameter list with two descriptors: of block 0, and of no blocks. -/
def blockAndNothing : Mem := Mem.store (fun _ => 0) 0x1000
  [0, 0, 0, 32, 0, 0, 0, 0, 0, 0, 0, 0, 0, 0, 0, 0, 0, 0, 0, 1]

/-- The sub-command is handed to the handler, and called back. -/
def calledBack (ret : TcmuSts) : List LifeEvent :=
  [.work 0 (calm blockAndNothing), .done 0 ret (calm blockAndNothing)]

/-- A command that has dispatched the sub-command for block 0. -/
def oneUnmap (u : UnmapState) : Life :=
  { Life.init with jobs := [(false, .unmap 0 1)], unmap := some u }

/-- The command when the sub-command has been called back. -/
def oneUnmapped (sts : TcmuSts) : Life :=
  { Life.init with
    begun := true
    calls := [.unmap (unmapDev 4) 0 1]
    completions := [sts]
    finishes := 1 }

/-- A log in which nothing is refused. -/
theorem exists_log (p : Daemon Unit) (env : Prog.Env Op Ans) (u : Life)
    (h : (p.exec (Prog.logged lifeInterp) env (Life.init, [])).map
      (fun y => (y.1, y.2.1, y.2.2.filterMap refusal)) = some (.ok (), u, [])) :
    ∃ log, p.exec (Prog.logged lifeInterp) env (Life.init, []) = some (.ok (), u, log) ∧
      ∀ c mem a n, dispatchError c mem a n log = descsError c mem a n := by
  obtain ⟨⟨x, v, log⟩, hexec, heq⟩ := Option.map_eq_some_iff.mp h
  obtain ⟨rfl, hrest⟩ := Prod.mk.inj heq
  obtain ⟨rfl, hlog⟩ := Prod.mk.inj hrest
  refine ⟨log, hexec, fun c mem a n => ?_⟩
  rw [dispatchError, ← List.head?_filterMap, hlog]
  rfl

/-- The first descriptor alone. The status of its sub-command is that of the command. -/
theorem unmap_status_single : ∃ log,
    outcomes (unmapTo (unmapDev 4)) { oneUnmap ⟨1, false, .asyncHandled⟩ with begun := true }
      (calledBack .wrErr) = [.wrErr] ∧
    (oneUnmapped .wrErr).completions = [unmapExpected
      (dispatchError (unmapTo (unmapDev 4)) blockAndNothing (0x1000 + 8) (16 / 16) log)
      (outcomes (unmapTo (unmapDev 4)) { oneUnmap ⟨1, false, .asyncHandled⟩ with begun := true }
        (calledBack .wrErr))] := by
  obtain ⟨log, hanswer, -⟩ := exists_log
    (answerUnmap (unmapTo (unmapDev 4)) blockAndNothing 16 0x1000) (calm blockAndNothing)
    (oneUnmap ⟨1, false, .asyncHandled⟩) (by decide +kernel)
  have hrun : run (lifeStep (unmapTo (unmapDev 4)))
      { oneUnmap ⟨1, false, .asyncHandled⟩ with begun := true } (calledBack .wrErr) =
        some (oneUnmapped .wrErr) := by decide +kernel
  refine ⟨log, by decide +kernel, (unmap_status_iff (by decide) hanswer hrun rfl rfl).mpr
    (Or.inr (Or.inl ?_))⟩
  decide +kernel

/-- Both descriptors. The loop ends with success, and the write error of the sub-command is
masked. -/
theorem unmap_masks_error : ∃ log,
    (answerUnmap (unmapTo (unmapDev 4)) blockAndNothing 32 0x1000).exec (Prog.logged lifeInterp)
        (calm blockAndNothing) (Life.init, []) = some (.ok (), oneUnmap ⟨1, true, .ok⟩, log) ∧
      run (lifeStep (unmapTo (unmapDev 4))) { oneUnmap ⟨1, true, .ok⟩ with begun := true }
        (calledBack .wrErr) = some (oneUnmapped .ok) ∧
      (oneUnmapped .ok).completions ≠ [unmapExpected
        (dispatchError (unmapTo (unmapDev 4)) blockAndNothing (0x1000 + 8) (32 / 16) log)
        (outcomes (unmapTo (unmapDev 4)) { oneUnmap ⟨1, true, .ok⟩ with begun := true }
          (calledBack .wrErr))] := by
  obtain ⟨log, hanswer, herror⟩ := exists_log
    (answerUnmap (unmapTo (unmapDev 4)) blockAndNothing 32 0x1000) (calm blockAndNothing)
    (oneUnmap ⟨1, true, .ok⟩) (by decide +kernel)
  refine ⟨log, hanswer, by decide +kernel, ?_⟩
  rw [herror]
  decide +kernel

end Tcmu

end LioProject
