import LioProject.Tcmu.Reads
import LioProject.Tcmu.UnmapStatus

/-!
# What `UNMAP` looks at

`handle_unmap` with every read of its parameter list spelled out: `readUnmap`. With the answers put
in it is `handleUnmap` again (`blind_readUnmap`).

Two lengths bound the list, the PARAMETER LIST LENGTH of the CDB and the UNMAP BLOCK DESCRIPTOR DATA
LENGTH in the list. A descriptor that is not completely in both is to be ignored. The loop looks at
the second only, so that it runs out of the buffer if that one is too large, unless something stops
it before: `unmap_decodes_iff`.
-/

namespace LioProject

namespace Tcmu

/-! ### The handler with its reads -/

/-- The loop of `handle_unmap_internal`. -/
def readUnmapDescs (c : Request) (mem : Mem) : ℕ → ℕ → ℕ → TcmuSts → ReadingDaemon (TcmuSts × ℕ)
  | 0, _, refcount, ret => pure (ret, refcount)
  | n + 1, a, refcount, _ => do
    let lba ← lookBe mem a 8
    let nlbas ← lookBe mem (a + 8) 4
    if nlbas > 32 * 1024 * 1024 then pure (.invalidParamList, refcount)
    else if checkLbas c.dev.geo lba nlbas ≠ .ok then pure (checkLbas c.dev.geo lba nlbas, refcount)
    else if nlbas = 0 then readUnmapDescs c mem n (a + 16) refcount .ok
    else
      let (ret, refcount) ← (alignAndSplitUnmap c lba nlbas refcount).lift
      if ret ≠ .asyncHandled then pure (ret, refcount)
      else readUnmapDescs c mem n (a + 16) refcount ret

/-- `handle_unmap_internal`. -/
def readUnmapInternal (c : Request) (mem : Mem) (bddl par : ℕ) : ReadingDaemon TcmuSts := do
  let (ret, refcount) ← readUnmapDescs c mem (bddl / 16) (par + 8) 0 .ok
  if refcount ≠ 0 then
    askLifted (.putUnmap ⟨refcount, ret ≠ .asyncHandled, ret⟩)
    pure .asyncHandled
  else
    askLifted .freeUnmap
    pure ret

/-- The part of `handle_unmap` after the list has been copied. The data length is read for a message
only. -/
def readUnmapList (c : Request) (mem : Mem) (par : ℕ) : ReadingDaemon TcmuSts := do
  let _dl ← lookBe mem par 2
  let bddl ← lookBe mem (par + 2) 2
  let bddl := bddl / 16 * 16
  if bddl = 0 then pure .ok
  else if bddl / 16 > 4 then pure .invalidParamList
  else
    match ← unmapStateAlloc.lift with
    | some sts => pure sts
    | none => readUnmapInternal c mem bddl par

/-- `handle_unmap`. -/
def readUnmap (c : Request) : ReadingDaemon TcmuSts :=
  let dataLength := xferLengthOf c.cdb
  if byteAt c.cdb 1 &&& 0x01 ≠ 0 then pure .invalidCdb
  else if dataLength = 0 then pure .ok
  else if dataLength < 8 then pure .invalidParamListLen
  else do
    match ← askLifted (.calloc dataLength) with
    | none => pure .noResource
    | some par =>
      if copiedParam dataLength c.cmd.iov ≠ dataLength then pure .invalidParamListLen
      else
        let mem ← askLifted .mem
        readUnmapList c (c.paramMem mem par) par

/-! ### The same without its reads -/

section Blind

variable {c : Request} {mem : Mem} {α : Type}

theorem blind_readUnmapDescs (n : ℕ) : ∀ (a refcount : ℕ) (ret : TcmuSts),
    (readUnmapDescs c mem n a refcount ret).blind lookIn = unmapDescs c mem n a refcount ret := by
  induction n with
  | zero => exact fun _ _ _ => rfl
  | succ n ih =>
    intro a refcount ret
    rw [readUnmapDescs, unmapDescs, blind_lookBe_bind, blind_lookBe_bind]
    dsimp only
    split
    · rfl
    · split
      · rfl
      · split
        · exact ih _ _ _
        · rw [Prog.blind_bind, Prog.blind_lift]
          refine congrArg _ (funext fun r => ?_)
          split
          · rfl
          · exact ih _ _ _

theorem blind_readUnmapInternal (bddl par : ℕ) :
    (readUnmapInternal c mem bddl par).blind lookIn = handleUnmapInternal c mem bddl par := by
  rw [readUnmapInternal, handleUnmapInternal, Prog.blind_bind, blind_readUnmapDescs]
  refine congrArg _ (funext fun r => ?_)
  obtain ⟨ret, refcount⟩ := r
  dsimp only
  split
  · rfl
  · rfl

theorem blind_readUnmapList (mem : Mem) (par : ℕ) :
    (readUnmapList c mem par).blind lookIn =
      (if mem.be (par + 2) 2 / 16 * 16 = 0 then pure .ok
      else if mem.be (par + 2) 2 / 16 * 16 / 16 > 4 then pure .invalidParamList
      else do
        match ← unmapStateAlloc with
        | some sts => pure sts
        | none => handleUnmapInternal c mem (mem.be (par + 2) 2 / 16 * 16) par) := by
  rw [readUnmapList, blind_lookBe_bind, blind_lookBe_bind]
  dsimp only
  split
  · rfl
  · split
    · rfl
    · rw [Prog.blind_bind, Prog.blind_lift]
      refine congrArg _ (funext fun r => ?_)
      cases r with
      | none => exact blind_readUnmapInternal _ par
      | some sts => rfl

/-- **With the answers put in, the handler is what it was.** -/
theorem blind_readUnmap (c : Request) : (readUnmap c).blind lookIn = handleUnmap c := by
  rw [readUnmap, handleUnmap]
  dsimp only
  split
  · rfl
  · split
    · rfl
    · split
      · rfl
      · rw [Prog.blind_bind, Prog.blind_lift]
        refine congrArg _ (funext fun r => ?_)
        cases r with
        | none => rfl
        | some par =>
          dsimp only
          split
          · rfl
          · rw [Prog.blind_bind, Prog.blind_lift]
            refine congrArg _ (funext fun mem => ?_)
            exact blind_readUnmapList _ par

end Blind

/-! ### Descriptors -/

/-- The reads of the first `k` block descriptors, of which the first is at address `a`. -/
def descReads : ℕ → ℕ → List Read
  | _, 0 => []
  | a, k + 1 => (a, 8) :: (a + 8, 4) :: descReads (a + 16) k

theorem inside_descReads (k : ℕ) : ∀ a, Inside a (a + 16 * k) (descReads a k) := by
  induction k with
  | zero => exact fun _ => inside_nil
  | succ k ih =>
    intro a
    refine inside_cons.mpr ⟨by omega, inside_cons.mpr ⟨by omega, ?_⟩⟩
    exact (ih (a + 16)).mono (by omega) (by omega)

/-- Dispatching cannot fail: the device unmaps, and the environment accepts what it is given. -/
structure Smooth (c : Request) (env : Prog.Env Op Ans) : Prop where
  /-- The device is as `dev_added` leaves it. -/
  added : ∃ size, c.dev.geo.Added size
  /-- Its granularity is not zero. -/
  gran : 0 < c.dev.geo.optUnmapGran
  /-- It defines `unmap`. -/
  unmap : c.dev.handler.unmap = true
  /-- Everything is accepted. -/
  accepts : ∀ n o, Accepts o (env n o)
  /-- Locks can be made. -/
  mutex : ∀ n, env n .mutexInit = true

section Descs

variable {c : Request} {mem : Mem} {env : Prog.Env Op Ans} {s s' : Life}

theorem Smooth.shift (h : Smooth c env) (m : ℕ) : Smooth c fun k => env (k + m) :=
  ⟨h.added, h.gran, h.unmap, fun n => h.accepts (n + m), fun n => h.mutex (n + m)⟩

/-- Splitting the range of a descriptor ends with a promise or with an error, and with a promise if
dispatching cannot fail. -/
theorem exec_split_cases {lba nlbas refcount : ℕ} {x : Except Fault (TcmuSts × ℕ)}
    (hlbas : lba + nlbas ≤ c.dev.geo.numLbas) (hne : nlbas ≠ 0)
    (h : (alignAndSplitUnmap c lba nlbas refcount).exec lifeInterp env s = some (x, s')) :
    (∀ r, x = .ok r → r.1 = .asyncHandled ∨ r.1.IsError) ∧
      (Smooth c env → ∃ r, x = .ok r ∧ r.1 = .asyncHandled) := by
  constructor
  · rintro r rfl
    obtain ⟨log, hlog⟩ := Prog.exists_logged h []
    rcases Prog.exec_of_wp (wp_splitUnmap_any _ _ _ _ _ (s, [])) (fun _ _ => trivial) hlog with
      ⟨r', hr, -, -, l, -, -, -, hstatus, -⟩ | ⟨e, he, -⟩
    · rw [← Except.ok.inj hr, if_neg hne, Option.or_none] at hstatus
      cases hl : l.findSome? refusal with
      | none => exact Or.inl (by rw [hstatus, hl, Option.getD_none])
      | some e =>
        obtain ⟨x, -, hx⟩ := List.exists_of_findSome?_eq_some hl
        rw [hstatus, hl, Option.getD_some]
        exact Or.inr (refusal_isError hx)
    · exact absurd he (by simp)
  · rintro ⟨⟨size, hadded⟩, hgran, hunmap, haccepts, -⟩
    have hlt : (lba + nlbas) * c.dev.geo.blockSize < 2 ^ 64 := by
      have hle := (Nat.mul_le_mul_right c.dev.geo.blockSize hlbas).trans hadded.blocks_le
      have hsize := hadded.size_lt
      omega
    have hexec := exec_alignAndSplitUnmap hunmap hgran hadded.blockSize_pos hlt refcount haccepts s
    rw [h, if_neg hne] at hexec
    exact ⟨_, (Prod.mk.inj (Option.some.inj hexec)).1, rfl⟩

/-- What the loop over `n` descriptors has read when it ends with `x`: one descriptor after the
other, as long as they are good. If it stops before the end, it has found an error, and if
dispatching cannot fail, a descriptor that is not good. -/
def DescsRead (c : Request) (mem : Mem) (env : Prog.Env Op Ans) (n a : ℕ)
    (x : Except Fault (TcmuSts × ℕ)) (rs : List Read) : Prop :=
  ∃ k ≤ n, rs = descReads a k ∧ (∀ i, i + 1 < k → DescOk c mem (a + 16 * i)) ∧
    (k < n → (∀ r, x = .ok r → r.1.IsError) ∧
      (Smooth c env → ∃ i, i + 1 = k ∧ ¬ DescOk c mem (a + 16 * i)))

section Loop

variable {n a : ℕ} {x : Except Fault (TcmuSts × ℕ)} {rs : List Read}

theorem DescsRead.stop (herr : ∀ r, x = .ok r → r.1.IsError)
    (hbad : Smooth c env → ¬ DescOk c mem a) :
    DescsRead c mem env (n + 1) a x [(a, 8), (a + 8, 4)] :=
  ⟨1, by omega, rfl, fun i hi => absurd hi (by omega), fun _ =>
    ⟨herr, fun hsmooth => ⟨0, rfl, hbad hsmooth⟩⟩⟩

theorem DescsRead.next {env' : Prog.Env Op Ans} (hok : DescOk c mem a)
    (hsmooth : Smooth c env → Smooth c env') (h : DescsRead c mem env' n (a + 16) x rs) :
    DescsRead c mem env (n + 1) a x ((a, 8) :: (a + 8, 4) :: rs) := by
  obtain ⟨k, hk, rfl, hgood, hless⟩ := h
  have haddr : ∀ i, a + 16 * (i + 1) = a + 16 + 16 * i := fun i => by omega
  refine ⟨k + 1, by omega, rfl, fun i hi => ?_, fun hlt => ?_⟩
  · cases i with
    | zero => exact hok
    | succ i =>
      rw [haddr]
      exact hgood i (by omega)
  · obtain ⟨herr, hbad⟩ := hless (by omega)
    refine ⟨herr, fun hs => ?_⟩
    obtain ⟨i, hi, hnot⟩ := hbad (hsmooth hs)
    exact ⟨i + 1, by omega, by rw [haddr]; exact hnot⟩

end Loop

/-- **The loop over the descriptors.** -/
theorem watch_readUnmapDescs {n : ℕ} : ∀ {a refcount : ℕ} {ret : TcmuSts}
    {env : Prog.Env Op Ans} {s : Life} {x : Except Fault (TcmuSts × ℕ)} {l : List (Mem × Read)},
    (readUnmapDescs c mem n a refcount ret).watch lifeInterp lookIn env s = some (x, s', l) →
      DescsRead c mem env n a x (l.map Prod.snd) := by
  induction n with
  | zero =>
    intro a refcount ret env s x l h
    obtain ⟨-, -, rfl⟩ : .ok (ret, refcount) = x ∧ s = s' ∧ [] = l := by
      simpa [readUnmapDescs, Prog.watch, pure] using h
    exact ⟨0, le_rfl, rfl, fun i hi => absurd hi (by omega), fun hlt => absurd hlt (by omega)⟩
  | succ n ih =>
    intro a refcount ret env s x l h
    rw [readUnmapDescs] at h
    obtain ⟨l₁, rfl, h₁⟩ := watch_lookBe_bind h
    obtain ⟨l₂, rfl, h₂⟩ := watch_lookBe_bind h₁
    -- an error at this descriptor
    have hstop : ∀ {y : Except Fault (TcmuSts × ℕ)} {t : Life},
        (∀ r, y = .ok r → r.1.IsError) → (Smooth c env → ¬ DescOk c mem a) →
        some (y, t, ([] : List (Mem × Read))) = some (x, s', l₂) →
        DescsRead c mem env (n + 1) a x
          (((mem, a, 8) :: (mem, a + 8, 4) :: l₂).map Prod.snd) := by
      intro y t herr hbad heq
      obtain ⟨rfl, -, rfl⟩ : y = x ∧ t = s' ∧ [] = l₂ := by simpa using heq
      exact DescsRead.stop herr hbad
    split at h₂
    · rename_i hmax
      refine hstop ?_ (fun _ hok => absurd hok.1 (by omega)) h₂
      rintro r hr
      rw [← Except.ok.inj hr]
      exact ⟨by simp, by simp⟩
    · rename_i hmax
      split at h₂
      · rename_i hcheck
        refine hstop ?_ (fun _ hok => hcheck hok.2) h₂
        rintro r hr
        rw [← Except.ok.inj hr]
        exact ⟨hcheck, checkLbas_ne_async _ _ _⟩
      · rename_i hcheck
        have hok : DescOk c mem a := ⟨Nat.not_lt.mp hmax, not_not.mp hcheck⟩
        split at h₂
        · exact DescsRead.next hok id (ih h₂)
        · rename_i hne
          have hlbas := checkLbas_ok (beAt_lt _ 0 8) ((beAt_lt _ 0 4).trans (by decide)) hok.2
          rcases watch_lift_cases h₂ with ⟨e, hexec, rfl, rfl⟩ | ⟨r, t, m, hexec, h₃⟩
          · obtain ⟨-, hsmooth⟩ := exec_split_cases hlbas hne hexec
            refine DescsRead.stop (fun r hr => absurd hr (by simp)) fun hs => ?_
            obtain ⟨r, hr, -⟩ := hsmooth hs
            exact absurd hr (by simp)
          · obtain ⟨hcases, hsmooth⟩ := exec_split_cases hlbas hne hexec
            dsimp only at h₃
            split at h₃
            · rename_i hret
              refine hstop ?_ (fun hs => ?_) h₃
              · rintro r' hr'
                rw [← Except.ok.inj hr']
                exact (hcases r rfl).resolve_left hret
              · obtain ⟨r', hr', hasync⟩ := hsmooth hs
                rw [Except.ok.inj hr'] at hret
                exact absurd hasync hret
            · exact DescsRead.next hok (fun hs => hs.shift m) (ih h₃)

end Descs

/-! ### Parameter lists -/

/-- The command has failed: with an error, or with one that the callbacks will return. -/
def UnmapFails (x : Except Fault TcmuSts) (s : Life) : Prop :=
  ∀ sts, x = .ok sts → sts.IsError ∨ sts = .asyncHandled ∧ ∃ u, s.unmap = some u ∧ u.error = true

/-- The number of block descriptors that lie completely within the UNMAP BLOCK DESCRIPTOR DATA
LENGTH and within the `n` bytes of the list at address `par`. -/
def wholeDescs (mem : Mem) (par n : ℕ) : ℕ := min (mem.be (par + 2) 2) (n - 8) / 16

/-- The reads of the header of a list. -/
def unmapHeader (par : ℕ) : List Read := [(par, 2), (par + 2, 2)]

/-- A run that has ended with `x` has decoded the list of `n` bytes at address `par` as it should.
It has read bytes of the list only: those of its header, if any, and then the descriptors that are
completely there, one after the other. If these were not all, the command has failed. -/
def ListDecoded (mem : Mem) (par n : ℕ) (x : Except Fault TcmuSts) (s : Life) (rs : List Read) :
    Prop :=
  Inside par (par + n) rs ∧ ∃ header k, (header = [] ∨ header = unmapHeader par) ∧
    rs = header ++ descReads (par + 8) k ∧ k ≤ wholeDescs mem par n ∧
      (k < wholeDescs mem par n → UnmapFails x s)

/-- **The list of a command is decoded as it should**, in every run that finds the list in memory
`mem` and copies it to address `par`. -/
def UnmapDecodes (c : Request) (mem : Mem) (par : ℕ) : Prop :=
  ∀ (env : Prog.Env Op Ans) (s : Life) x s' l, env 0 (.calloc (xferLengthOf c.cdb)) = some par →
    env 1 .mem = mem → (readUnmap c).watch lifeInterp lookIn env s = some (x, s', l) →
    ListDecoded (c.paramMem mem par) par (xferLengthOf c.cdb) x s' (l.map Prod.snd)

/-- The command is refused before its list is looked at. -/
def RefusedEarly (c : Request) : Prop :=
  byteAt c.cdb 1 &&& 0x01 ≠ 0 ∨ xferLengthOf c.cdb < 8 ∨
    copiedParam (xferLengthOf c.cdb) c.cmd.iov ≠ xferLengthOf c.cdb

/-- The loop over the descriptors ends in time: all that are announced are completely there, or they
are too many, or one of those that are there is not good. -/
def EndsInTime (c : Request) (mem : Mem) (par : ℕ) : Prop :=
  mem.be (par + 2) 2 / 16 ≤ (xferLengthOf c.cdb - 8) / 16 ∨ 4 < mem.be (par + 2) 2 / 16 ∨
    ∃ i < (xferLengthOf c.cdb - 8) / 16, ¬ DescOk c mem (par + 8 + 16 * i)

section List

variable {c : Request} {mem : Mem} {par n : ℕ} {env : Prog.Env Op Ans} {s s' : Life}
  {x : Except Fault TcmuSts} {l : List (Mem × Read)}

theorem wholeDescs_eq (mem : Mem) (par n : ℕ) :
    wholeDescs mem par n = min (mem.be (par + 2) 2 / 16) ((n - 8) / 16) := by
  rw [wholeDescs]
  omega

/-- The state of an unmap cannot be made without an error, and it can be made if nothing fails. -/
theorem exec_unmapStateAlloc {r : Except Fault (Option TcmuSts)}
    (h : unmapStateAlloc.exec lifeInterp env s = some (r, s')) :
    r = .ok none ∨ ∃ sts, r = .ok (some sts) ∧ sts.IsError ∧ ¬ Smooth c env := by
  rw [unmapStateAlloc, Prog.exec_ask_bind rfl] at h
  cases halloc : env 0 .alloc with
  | false =>
    rw [halloc] at h
    obtain ⟨rfl, -⟩ : .ok (some .noResource) = r ∧ _ = s' := by simpa [Prog.exec, pure] using h
    refine Or.inr ⟨_, rfl, ⟨by simp, by simp⟩, fun hs => ?_⟩
    exact absurd (halloc.symm.trans (hs.accepts 0 .alloc)) (by simp)
  | true =>
    rw [halloc] at h
    rw [if_neg (by simp), Prog.exec_ask_bind rfl] at h
    cases hmutex : env (0 + 1) .mutexInit with
    | false =>
      rw [hmutex] at h
      obtain ⟨rfl, -⟩ : .ok (some .hwErr) = r ∧ _ = s' := by simpa [Prog.exec, pure] using h
      refine Or.inr ⟨_, rfl, ⟨by simp, by simp⟩, fun hs => ?_⟩
      exact absurd (hmutex.symm.trans (hs.mutex 1)) (by simp)
    | true =>
      rw [hmutex] at h
      obtain ⟨rfl, -⟩ : .ok none = r ∧ _ = s' := by simpa [Prog.exec, pure] using h
      exact Or.inl rfl

/-- What comes after the loop passes its error on. -/
theorem watch_readUnmapInternal {bddl : ℕ}
    (h : (readUnmapInternal c mem bddl par).watch lifeInterp lookIn env s = some (x, s', l)) :
    ∃ y, DescsRead c mem env (bddl / 16) (par + 8) y (l.map Prod.snd) ∧
      ((∀ r, y = .ok r → r.1.IsError) → UnmapFails x s') := by
  rw [readUnmapInternal] at h
  rcases Prog.watch_bind_cases h with ⟨e, he, rfl⟩ | ⟨⟨ret, refcount⟩, t, m, l₁, l₂, hp, hf, rfl⟩
  · exact ⟨.error e, watch_readUnmapDescs he, fun _ sts hsts => absurd hsts (by simp)⟩
  · refine ⟨.ok (ret, refcount), ?_, fun herr => ?_⟩
    · -- nothing is read after the loop
      have hl : l₂ = [] := by
        dsimp only at hf
        split at hf
        · rw [Prog.watch_ask_bind rfl] at hf
          simpa [Prog.watch, pure, eq_comm] using congrArg (Option.map fun y => y.2.2) hf
        · rw [Prog.watch_ask_bind rfl] at hf
          simpa [Prog.watch, pure, eq_comm] using congrArg (Option.map fun y => y.2.2) hf
      rw [hl, List.append_nil]
      exact watch_readUnmapDescs hp
    · have hret : ret.IsError := herr _ rfl
      dsimp only at hf
      split at hf
      · rw [Prog.watch_ask_bind rfl] at hf
        obtain ⟨rfl, rfl, -⟩ : .ok .asyncHandled = x ∧ _ = s' ∧ [] = l₂ := by
          simpa [Prog.watch, pure] using hf
        intro sts hsts
        rw [← Except.ok.inj hsts]
        exact Or.inr ⟨rfl, by simp [hret.2]⟩
      · rw [Prog.watch_ask_bind rfl] at hf
        obtain ⟨rfl, -, -⟩ : .ok ret = x ∧ _ = s' ∧ [] = l₂ := by
          simpa [Prog.watch, pure] using hf
        intro sts hsts
        rw [← Except.ok.inj hsts]
        exact Or.inl hret

/-- **What is read of a list**: two fields of the header, and then nothing, for one reason or
another, or the descriptors. -/
theorem watch_readUnmapList
    (h : (readUnmapList c mem par).watch lifeInterp lookIn env s = some (x, s', l)) :
    ∃ rs, l.map Prod.snd = unmapHeader par ++ rs ∧
      ((rs = [] ∧ mem.be (par + 2) 2 / 16 = 0) ∨
        (rs = [] ∧ UnmapFails x s' ∧ (Smooth c env → 4 < mem.be (par + 2) 2 / 16)) ∨
        (mem.be (par + 2) 2 / 16 ≤ 4 ∧ ∃ m y,
          DescsRead c mem (fun k => env (k + m)) (mem.be (par + 2) 2 / 16) (par + 8) y rs ∧
          ((∀ r, y = .ok r → r.1.IsError) → UnmapFails x s'))) := by
  rw [readUnmapList] at h
  obtain ⟨l₁, rfl, h₁⟩ := watch_lookBe_bind h
  obtain ⟨l₂, rfl, h₂⟩ := watch_lookBe_bind h₁
  refine ⟨l₂.map Prod.snd, rfl, ?_⟩
  dsimp only at h₂
  rw [Nat.mul_div_cancel _ (by decide)] at h₂
  split at h₂
  · rename_i hzero
    obtain ⟨-, -, rfl⟩ : .ok .ok = x ∧ s = s' ∧ [] = l₂ := by simpa [Prog.watch, pure] using h₂
    exact Or.inl ⟨rfl, by omega⟩
  · split at h₂
    · rename_i hmany
      obtain ⟨rfl, -, rfl⟩ : .ok .invalidParamList = x ∧ s = s' ∧ [] = l₂ := by
        simpa [Prog.watch, pure] using h₂
      refine Or.inr (Or.inl ⟨rfl, fun sts hsts => ?_, fun _ => hmany⟩)
      rw [← Except.ok.inj hsts]
      exact Or.inl ⟨by simp, by simp⟩
    · rename_i hfew
      rcases watch_lift_cases h₂ with ⟨e, hexec, rfl, rfl⟩ | ⟨r, t, m, hexec, h₃⟩
      · rcases exec_unmapStateAlloc (c := c) hexec with hr | ⟨sts, hr, -⟩
        · exact absurd hr (by simp)
        · exact absurd hr (by simp)
      · rcases exec_unmapStateAlloc (c := c) hexec with hr | ⟨sts, hr, herr, hsmooth⟩
        · obtain rfl : r = none := Except.ok.inj hr
          obtain ⟨y, hy, hfails⟩ := watch_readUnmapInternal h₃
          rw [Nat.mul_div_cancel _ (by decide)] at hy
          exact Or.inr (Or.inr ⟨Nat.not_lt.mp hfew, m, y, hy, hfails⟩)
        · obtain rfl : r = some sts := Except.ok.inj hr
          obtain ⟨rfl, -, rfl⟩ : .ok sts = x ∧ t = s' ∧ [] = l₂ := by
            simpa [Prog.watch, pure] using h₃
          refine Or.inr (Or.inl ⟨rfl, fun sts' hsts => ?_, fun hs => absurd hs hsmooth⟩)
          rw [← Except.ok.inj hsts]
          exact Or.inl herr

/-- A list is decoded as it should if the loop over its descriptors ends in time. -/
theorem listDecoded_of_endsInTime (hn : 8 ≤ xferLengthOf c.cdb) (hends : EndsInTime c mem par)
    (h : (readUnmapList c mem par).watch lifeInterp lookIn env s = some (x, s', l)) :
    ListDecoded mem par (xferLengthOf c.cdb) x s' (l.map Prod.snd) := by
  have hheader : Inside par (par + xferLengthOf c.cdb) (unmapHeader par) :=
    inside_cons.mpr ⟨by omega, inside_cons.mpr ⟨by omega, inside_nil⟩⟩
  obtain ⟨rs, hl, hrs⟩ := watch_readUnmapList h
  rw [hl]
  have hwhole := wholeDescs_eq mem par (xferLengthOf c.cdb)
  rcases hrs with ⟨rfl, hzero⟩ | ⟨rfl, hfails, -⟩ | ⟨hfew, m, y, hy, hfails⟩
  · rw [List.append_nil]
    exact ⟨hheader, _, 0, Or.inr rfl, (List.append_nil _).symm, Nat.zero_le _,
      fun hlt => by omega⟩
  · rw [List.append_nil]
    exact ⟨hheader, _, 0, Or.inr rfl, (List.append_nil _).symm, Nat.zero_le _, fun _ => hfails⟩
  · obtain ⟨k, hk, rfl, hgood, hless⟩ := hy
    -- a descriptor that is not good is the last
    have hle : k ≤ wholeDescs mem par (xferLengthOf c.cdb) := by
      rcases hends with hend | hmany | ⟨i, hi, hbad⟩
      · omega
      · omega
      · have hlast : k ≤ i + 1 := by
          by_contra hlt
          exact hbad (hgood i (by omega))
        omega
    refine ⟨inside_append.mpr ⟨hheader, ?_⟩, _, k, Or.inr rfl, rfl, hle,
      fun hlt => hfails (hless (by omega)).1⟩
    exact (inside_descReads k (par + 8)).mono (by omega) (by omega)

/-- **What is read by the handler**: nothing, when the command fails or has no list, or what is read
of the list. -/
theorem watch_readUnmap_cases (hpar : env 0 (.calloc (xferLengthOf c.cdb)) = some par)
    (hmem : env 1 .mem = mem)
    (h : (readUnmap c).watch lifeInterp lookIn env s = some (x, s', l)) :
    (l = [] ∧ RefusedEarly c ∧ (UnmapFails x s' ∨ xferLengthOf c.cdb = 0)) ∨
      (8 ≤ xferLengthOf c.cdb ∧ ¬ RefusedEarly c ∧ ∃ t,
        (readUnmapList c (c.paramMem mem par) par).watch lifeInterp lookIn
          (fun k => env (k + 2)) t = some (x, s', l)) := by
  have hret : ∀ (sts : TcmuSts) (t : Life), sts.IsError →
      some (Except.ok sts, t, ([] : List (Mem × Read))) = some (x, s', l) →
      l = [] ∧ UnmapFails x s' := by
    intro sts t herr heq
    obtain ⟨rfl, -, rfl⟩ : .ok sts = x ∧ t = s' ∧ [] = l := by simpa using heq
    refine ⟨rfl, fun sts' hsts => ?_⟩
    rw [← Except.ok.inj hsts]
    exact Or.inl herr
  rw [readUnmap] at h
  split at h
  · rename_i hanchor
    obtain ⟨hl, hfails⟩ := hret _ _ ⟨by simp, by simp⟩ h
    exact Or.inl ⟨hl, Or.inl hanchor, Or.inl hfails⟩
  · rename_i hanchor
    split at h
    · rename_i hzero
      obtain ⟨-, -, rfl⟩ : .ok .ok = x ∧ s = s' ∧ [] = l := by simpa [Prog.watch, pure] using h
      exact Or.inl ⟨rfl, Or.inr (Or.inl (by omega)), Or.inr hzero⟩
    · split at h
      · rename_i hshort
        obtain ⟨hl, hfails⟩ := hret _ _ ⟨by simp, by simp⟩ h
        exact Or.inl ⟨hl, Or.inr (Or.inl hshort), Or.inl hfails⟩
      · rename_i hlong
        rw [Prog.watch_ask_bind rfl, hpar] at h
        dsimp only at h
        split at h
        · rename_i hcopied
          obtain ⟨hl, hfails⟩ := hret _ _ ⟨by simp, by simp⟩ h
          exact Or.inl ⟨hl, Or.inr (Or.inr hcopied), Or.inl hfails⟩
        · rename_i hcopied
          rw [Prog.watch_ask_bind rfl] at h
          refine Or.inr ⟨by omega, ?_, _, hmem ▸ h⟩
          rintro (hne | hlt | hne)
          · exact hanchor hne
          · exact hlong hlt
          · exact hcopied hne

/-- The number of descriptors can be told from the reads. -/
theorem descReads_injective {k k' : ℕ} {header : List Read}
    (hheader : header = [] ∨ header = unmapHeader par)
    (h : unmapHeader par ++ descReads (par + 8) k = header ++ descReads (par + 8) k') :
    k = k' := by
  have hlength : ∀ k a, (descReads a k).length = 2 * k := by
    intro k
    induction k with
    | zero => exact fun _ => rfl
    | succ k ih =>
      intro a
      rw [descReads, List.length_cons, List.length_cons, ih]
      omega
  rcases hheader with rfl | rfl
  · cases k' with
    | zero => exact absurd h (by simp [unmapHeader, descReads])
    | succ k' => exact absurd h (by simp [unmapHeader, descReads])
  · have hlen := congrArg List.length (List.append_cancel_left h)
    rw [hlength, hlength] at hlen
    omega

/-- An environment in which nothing fails, with the given memory and the given buffer. -/
def listEnv (par : ℕ) (mem : Mem) : Prog.Env Op Ans := fun n o =>
  match o with
  | .calloc _ => some par
  | o => calm mem n o

theorem listEnv_smooth {size : ℕ} (hd : c.dev.geo.Added size)
    (hgran : 0 < c.dev.geo.optUnmapGran) (hunmap : c.dev.handler.unmap = true) (par : ℕ)
    (mem : Mem) : Smooth c (listEnv par mem) := by
  refine ⟨⟨size, hd⟩, hgran, hunmap, fun n o => ?_, fun _ => rfl⟩
  cases o with
  | calloc => trivial
  | _ => exact calm_accepts mem n _

end List

/-! ### The main result -/

/-- **Where the list is decoded as it should.** It is if the command is refused before its list is
looked at, or if the loop over the descriptors ends in time. On a device that unmaps it is only
then. -/
theorem unmap_decodes_iff (c : Request) (mem : Mem) (par : ℕ) :
    (RefusedEarly c ∨ EndsInTime c (c.paramMem mem par) par → UnmapDecodes c mem par) ∧
      ∀ size, c.dev.geo.Added size → 0 < c.dev.geo.optUnmapGran → c.dev.handler.unmap = true →
        UnmapDecodes c mem par → RefusedEarly c ∨ EndsInTime c (c.paramMem mem par) par := by
  constructor
  · intro hcond env s x s' l hpar hmem h
    rcases watch_readUnmap_cases hpar hmem h with ⟨rfl, -, hfails⟩ | ⟨hn, hnot, t, hlist⟩
    · refine ⟨inside_nil, [], 0, Or.inl rfl, rfl, Nat.zero_le _, fun hlt => ?_⟩
      rcases hfails with hfails | hzero
      · exact hfails
      · rw [wholeDescs_eq] at hlt
        omega
    · exact listDecoded_of_endsInTime hn (hcond.resolve_left hnot) hlist
  · intro size hd hgran hunmap hdecodes
    have hsmooth := listEnv_smooth hd hgran hunmap par mem
    obtain ⟨y, hexec⟩ := exec_lifeInterp ((readUnmap c).blind lookIn) (listEnv par mem) Life.init
    rw [Prog.exec_blind] at hexec
    obtain ⟨⟨x, s', l⟩, hwatch, -⟩ := Option.map_eq_some_iff.mp hexec
    have hpar : listEnv par mem 0 (.calloc (xferLengthOf c.cdb)) = some par := rfl
    have hmem : listEnv par mem 1 .mem = mem := rfl
    have hdecoded := hdecodes _ _ x s' l hpar hmem hwatch
    rcases watch_readUnmap_cases hpar hmem hwatch with ⟨-, hearly, -⟩ | ⟨hn, -, t, hlist⟩
    · exact Or.inl hearly
    · right
      obtain ⟨-, header, k', hheader, hrs', hle, -⟩ := hdecoded
      obtain ⟨rs, hl, hrs⟩ := watch_readUnmapList hlist
      have hwhole := wholeDescs_eq (c.paramMem mem par) par (xferLengthOf c.cdb)
      rcases hrs with ⟨-, hzero⟩ | ⟨-, -, hmany⟩ | ⟨-, m, y, hy, -⟩
      · exact Or.inl (by omega)
      · exact Or.inr (Or.inl (hmany (hsmooth.shift 2)))
      · obtain ⟨k, hk, rfl, -, hless⟩ := hy
        obtain rfl := descReads_injective hheader (hl.symm.trans hrs')
        rcases Nat.lt_or_ge k ((c.paramMem mem par).be (par + 2) 2 / 16) with hlt | hge
        · -- the loop has found a descriptor that is not good
          obtain ⟨i, hi, hbad⟩ := (hless hlt).2 ((hsmooth.shift 2).shift m)
          exact Or.inr (Or.inr ⟨i, by omega, hbad⟩)
        · exact Or.inl (by omega)

/-- A list of 24 bytes with one descriptor. -/
theorem unmap_decodes_one : UnmapDecodes (unmapTo (unmapDev 4)) unmapParam 0x1000 ∧
    (RefusedEarly (unmapTo (unmapDev 4)) ∨ EndsInTime (unmapTo (unmapDev 4))
      ((unmapTo (unmapDev 4)).paramMem unmapParam 0x1000) 0x1000) := by
  have hiff := unmap_decodes_iff (unmapTo (unmapDev 4)) unmapParam 0x1000
  have hdecodes := hiff.1 (Or.inr (Or.inl (by decide +kernel)))
  exact ⟨hdecodes, hiff.2 _ (unmapDev_added (by decide)) (by decide) rfl hdecodes⟩

/-- A list that announces two descriptors, of which one has been transferred. -/
def shortParam : Mem :=
  Mem.store (fun _ => 0) 0x2000 [0, 38, 0, 32, 0, 0, 0, 0, 0, 0, 0, 0, 0, 0, 0, 0, 0, 0, 0, 1]

/-- Of this list, which has 24 bytes, the 8 bytes at offset 24 are read. -/
theorem unmap_reads_beyond : ∃ x s' l,
    (readUnmap (unmapTo (unmapDev 4))).watch lifeInterp lookIn (calm shortParam) Life.init =
        some (x, s', l) ∧
      l.map Prod.snd = [(0x1000, 2), (0x1002, 2), (0x1008, 8), (0x1010, 4), (0x1018, 8),
        (0x1020, 4)] ∧
      ¬ UnmapDecodes (unmapTo (unmapDev 4)) shortParam 0x1000 := by
  have hreads : ((readUnmap (unmapTo (unmapDev 4))).watch lifeInterp lookIn (calm shortParam)
      Life.init).map (fun y => y.2.2.map Prod.snd) = some [(0x1000, 2), (0x1002, 2), (0x1008, 8),
        (0x1010, 4), (0x1018, 8), (0x1020, 4)] := by decide +kernel
  obtain ⟨⟨x, s', l⟩, hwatch, hl⟩ := Option.map_eq_some_iff.mp hreads
  refine ⟨x, s', l, hwatch, hl, fun h => ?_⟩
  have hinside := (h _ _ x s' l rfl rfl hwatch).1
  rw [hl] at hinside
  exact absurd hinside (by decide)

end Tcmu

end LioProject
