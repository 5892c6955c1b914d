import LioProject.Tcmu.Equipped
import LioProject.Tcmu.CawSystem

/-!
# Compare-and-writes exclude one another

A command that has taken `caw_lock` keeps it until it is completed, in whatever way it is completed:
when its read cannot be dispatched, when the read fails, when the bytes differ, when the write
cannot be dispatched, and when the write is called back. So at most one command is under way, and
what it finds on the device is what the commands before it have left there (`caw_atomic`).

Commands that are refused before they take the lock have no part in this. Why they may be refused in
a run is kept apart as a parameter `R`: the surroundings in which a command is processed show no
other reasons (`Sees`), and in the end `R` is what has been seen in the run (`CawBatch.Refusable`).
-/

namespace LioProject

namespace Tcmu

/-! ### The buffer -/

section Buffer

variable {c : Request} {v : Iovec} {mem : Mem} {a : ℕ}

/-- The halves of the buffer are equal, and small enough for a `uint32_t`. -/
structure Iovec.Halved (v : Iovec) : Prop where
  /-- The length is even. -/
  len : v.len = 2 * v.half
  /-- It came out of a product in 32 bits. -/
  half_lt : v.half < 2 ^ 31

theorem tcmuIovecLength_singleton (h : v.len < 2 ^ 64) : tcmuIovecLength [v] = v.len := by
  rw [tcmuIovecLength_eq]
  simpa [iovTotal] using Nat.mod_eq_of_lt h

/-- The checks let only buffers pass that have two equal halves. -/
theorem halved_of_handleCawCheck (hiov : c.cmd.iov = [v]) (hlt : v.len < 2 ^ 64)
    (h : handleCawCheck c = .ok) : v.Halved := by
  rw [handleCawCheck] at h
  split at h
  · rename_i hne
    exact absurd h hne
  · rename_i hok
    have hlen := checkIovecLength_ok.mp (not_not.mp hok)
    rw [hiov, ← tcmuIovecLength_eq, tcmuIovecLength_singleton hlt, Nat.mul_right_comm] at hlen
    constructor
    · rw [Iovec.half]
      omega
    · rw [Iovec.half]
      omega

/-- No offset in the first half is taken for `-1`. -/
theorem cmpOffset_eq_none (h : v.Halved) :
    cmpOffset (tcmuCompareWithIovec mem a [v] v.half) = none ↔
      mem.load a v.half = mem.load v.base v.half := by
  have hlen := h.len
  have hlt := h.half_lt
  rw [Mem.load_eq_load, tcmuCompareWithIovec]
  split
  · rename_i hzero
    simp [cmpOffset, hzero]
  · have hmin : min v.half v.len = v.half := by omega
    dsimp only
    rw [hmin]
    cases hfind : (List.range v.half).find? fun i => mem (a + i) ≠ mem (v.base + i) with
    | none =>
      simp only [tcmuCompareWithIovec, Option.map_none, cmpOffset, Option.bind_none, true_iff]
      intro i hi
      simpa using List.find?_eq_none.mp hfind i (List.mem_range.mpr hi)
    | some i =>
      have hi := List.mem_range.mp (List.mem_of_find?_eq_some hfind)
      have hne := List.find?_some hfind
      have hmod : i % 2 ^ 32 = i := Nat.mod_eq_of_lt (by omega)
      rw [cmpOffset, Option.bind_some, hmod, if_neg (by omega)]
      simp only [reduceCtorEq, false_iff, not_forall]
      exact ⟨i, hi, by simpa using hne⟩

/-- Seeking to the middle leaves the second half. -/
theorem gather_tcmuSeekInCmdIovec (h : v.Halved) :
    gather (tcmuSeekInCmdIovec [v] v.half) mem = mem.load (v.base + v.half) v.half := by
  have hlen := h.len
  by_cases hzero : v.half = 0
  · simp [tcmuSeekInCmdIovec, tcmuSeekInIovec, hzero, gather, Iovec.bytes, hlen]
  · have hnot : ¬ v.len ≤ v.half := by omega
    have hrest : v.len - v.half = v.half := by omega
    simp [tcmuSeekInCmdIovec, tcmuSeekInIovec, hzero, hnot, gather, Iovec.bytes, hrest]

theorem length_tcmuSeekInCmdIovec (h : v.Halved) :
    tcmuIovecLength (tcmuSeekInCmdIovec [v] v.half) = v.half := by
  have hlen := h.len
  have hlt := h.half_lt
  have hmod : v.half % 2 ^ 64 = v.half := Nat.mod_eq_of_lt (by omega)
  rw [tcmuIovecLength_eq]
  by_cases hzero : v.half = 0
  · simp [tcmuSeekInCmdIovec, tcmuSeekInIovec, hzero, iovTotal, hlen]
  · have hnot : ¬ v.len ≤ v.half := by omega
    have hrest : v.len - v.half = v.half := by omega
    simpa [tcmuSeekInCmdIovec, tcmuSeekInIovec, hzero, hnot, iovTotal, hrest] using hmod

end Buffer

/-! ### States of a command -/

namespace CawView

/-- The command holds `caw_lock`. Its sub-commands are the given ones, `m` is the memory in which
its Data-Out buffer was filled, `compared` says whether its read has succeeded, and `failed` what
has failed for it. -/
structure Holds (v : Iovec) (m : Mem) (jobs : List (Bool × Job)) (compared : Bool)
    (failed : Option TcmuSts) (s : CawView) : Prop where
  /-- It has these sub-commands. -/
  jobs : s.life.jobs = jobs
  /-- It has not been completed. -/
  completions : s.life.completions = []
  /-- The daemon is up. -/
  fault : s.life.fault = none
  /-- It has taken the lock. -/
  taken : s.taken = 1
  /-- It has not released it. -/
  released : s.released = 0
  /-- The handler has not carried out anything for it. -/
  carried : s.carried = false
  /-- Whether its read has succeeded. -/
  compared : s.compared = compared
  /-- What has failed for it. -/
  failed : s.failed = failed
  /-- The lock is held. -/
  locked : s.locked = true
  /-- The Data-Out buffer is as it was. -/
  data : s.mem.load v.base v.len = m.load v.base v.len

/-- The command does not hold `caw_lock`, and it has taken it `n` times before. -/
structure Lacks (v : Iovec) (m : Mem) (locked : Bool) (n : ℕ) (failed : Option TcmuSts)
    (s : CawView) : Prop where
  /-- It has no sub-commands. -/
  jobs : s.life.jobs = []
  /-- It has not been completed. -/
  completions : s.life.completions = []
  /-- The daemon is up. -/
  fault : s.life.fault = none
  /-- It has taken the lock `n` times. -/
  taken : s.taken = n
  /-- It has released it as often. -/
  released : s.released = n
  /-- The handler has not carried out anything for it. -/
  carried : s.carried = false
  /-- Its read has not succeeded. -/
  compared : s.compared = false
  /-- What has failed for it. -/
  failed : s.failed = failed
  /-- Whether the lock is held. -/
  locked : s.locked = locked
  /-- The Data-Out buffer is as it was. -/
  data : s.mem.load v.base v.len = m.load v.base v.len

/-- The command has been completed. -/
structure Closed (locked compared : Bool) (failed : Option TcmuSts) (sts : TcmuSts)
    (s : CawView) : Prop where
  /-- It has no sub-commands. -/
  jobs : s.life.jobs = []
  /-- It has been completed with the status. -/
  completions : s.life.completions = [sts]
  /-- The daemon is up. -/
  fault : s.life.fault = none
  /-- It has taken the lock once at most. -/
  taken : s.taken ≤ 1
  /-- It has released it as often. -/
  released : s.released = s.taken
  /-- Whether its read has succeeded. -/
  compared : s.compared = compared
  /-- What has failed for it. -/
  failed : s.failed = failed
  /-- Whether the lock is held. -/
  locked : s.locked = locked

/-- The command has been completed with the status of a step that has failed. -/
def Broken (locked compared : Bool) (s : CawView) : Prop :=
  ∃ sts, sts ≠ .ok ∧ s.Closed locked compared (some sts) sts

/-- The command has been refused, with a status in `R`, or a step of it has failed. -/
def Rejected (R : TcmuSts → Prop) (locked : Bool) (s : CawView) : Prop :=
  s.Broken locked false ∨ ∃ sts ∈ cawRefusals, R sts ∧ s.Closed locked false none sts

end CawView

/-! ### Programs -/

section Pre

variable {α β : Type} {c : Request} {v : Iovec} {m : Mem} {s : CawView}
  {A : (o : Op) → Ans o → Prop} {R : TcmuSts → Prop}

/-- The precondition, in surroundings that keep to `A`, for a program that does not fail. -/
abbrev CawPre (A : (o : Op) → Ans o → Prop) (v : Iovec) (p : Daemon α)
    (Q : α → CawView → Prop) (s : CawView) : Prop :=
  Prog.wp (cawInterp v) A (fun _ _ => False) p Q s

/-- The device is never found in a state that refuses the command with a status outside `R`. -/
def Sees (c : Request) (R : TcmuSts → Prop) : (o : Op) → Ans o → Prop
  | .getRdev, r => ∀ sts, CawRefusal c r sts → R sts
  | _, _ => True

/-- Nothing has changed as far as the command goes. -/
def CawView.Kept (s u : CawView) : Prop := ∃ life, s.life.Kept life ∧ u = { s with life := life }

theorem CawView.Kept.trans {t u : CawView} (h : s.Kept t) (h' : t.Kept u) : s.Kept u := by
  obtain ⟨life, hlife, rfl⟩ := h
  obtain ⟨life', hlife', rfl⟩ := h'
  exact ⟨life', hlife.trans hlife', rfl⟩

/-- The operation is quiet, and cannot fail. -/
def Op.Still (c : Request) (o : Op) : Prop := o.Quiet c ∧ ∀ a, o.failure a = none

theorem CawView.live_kept {o : Op} {a r : Ans o} {u : CawView} (h : o.Still c)
    (hop : s.live o a = some (r, u)) : s.Kept u := by
  obtain ⟨⟨r', life⟩, hlife, heq⟩ := Option.map_eq_some_iff.mp hop
  refine ⟨life, Op.Quiet.kept h.1 hlife, ?_⟩
  rw [← (Prod.mk.inj heq).2, h.2 a]
  rfl

theorem Op.Still.caw_kept {o : Op} {a r : Ans o} {u : CawView} (h : o.Still c)
    (hop : cawInterp v s o a = some (r, u)) : s.Kept u := by
  cases o with
  | mem =>
    obtain ⟨-, rfl⟩ := Prod.mk.inj (Option.some.inj hop)
    exact ⟨s.life, Life.Kept.refl _, rfl⟩
  | calloc n => exact absurd (h.2 none) (by simp [Op.failure])
  | store => exact h.1.elim
  | cawLock => exact h.1.elim
  | cawUnlock => exact h.1.elim
  | _ => exact CawView.live_kept h hop

/-- The program asks for quiet operations that cannot fail, and ends with a value in `Q`. -/
def Still (c : Request) (p : Daemon α) (Q : α → Prop) : Prop :=
  p.All (Op.Still c) (fun _ => False) Q

theorem still_ask {o : Op} (h : o.Quiet c) (hno : ∀ a, o.failure a = none) :
    Still c (ask o) fun _ => True :=
  Prog.all_ask ⟨h, hno⟩

/-- The rule for still programs. -/
theorem cawPre_still {p : Daemon α} {f : α → Daemon β} {Q : α → Prop} {R : β → CawView → Prop}
    (h : Still c p Q) (hf : ∀ a u, Q a → s.Kept u → CawPre A v (f a) R u) :
    CawPre A v (p >>= f) R s :=
  Prog.wp_seq
    (Prog.wp_of_all h (fun _ ho _ _ _ _ hs hop => hs.trans (ho.caw_kept hop))
      (fun _ _ hF => hF.elim) ⟨s.life, Life.Kept.refl _, rfl⟩)
    fun a u hu => hf a u hu.1 hu.2

/-- The rule for an allocation: it succeeds, or that it fails is written down. -/
theorem cawPre_alloc {f : Bool → Daemon β} {R : β → CawView → Prop}
    (hok : ∀ u, s.Kept u → CawPre A v (f true) R u)
    (hno : ∀ u, s.Kept u → CawPre A v (f false) R { u with failed := some .noResource }) :
    CawPre A v (ask .alloc >>= f) R s := by
  refine Prog.wp_ask_bind.mpr fun a _ r u hu => ?_
  obtain ⟨rfl, rfl⟩ := Prod.mk.inj (Option.some.inj hu)
  cases a with
  | true => exact hok s ⟨s.life, Life.Kept.refl _, rfl⟩
  | false => exact hno { s with life := s.life.fails } ⟨_, Life.Kept.fails _, rfl⟩

/-! ### Before a command takes the lock -/

/-- The rule for looking at the device. -/
theorem cawPre_getRdev {f : TcmurDevice → Daemon β} {Q : β → CawView → Prop}
    (hf : ∀ r u, (∀ sts, CawRefusal c r sts → R sts) → s.Kept u →
      CawPre (Sees c R) v (f r) Q u) : CawPre (Sees c R) v (ask .getRdev >>= f) Q s := by
  refine Prog.wp_ask_bind.mpr fun a ha r u hu => ?_
  have hkept := Op.Still.caw_kept (c := c) (o := .getRdev) ⟨trivial, fun _ => rfl⟩ hu
  obtain ⟨rfl, -⟩ := Prod.mk.inj (Option.some.inj hu)
  exact hf _ u ha hkept

/-- The command goes on, or it is refused with the status. -/
def CawPasses (R : TcmuSts → Prop) (s : CawView) (go ret : TcmuSts) (u : CawView) : Prop :=
  (ret = go ∨ ret ∈ cawRefusals ∧ R ret) ∧ s.Kept u

theorem cawPre_aluaCheckState :
    CawPre (Sees c R) v (aluaCheckState c.dev.handler) (CawPasses R s .ok) s := by
  have hrefl : s.Kept s := ⟨s.life, Life.Kept.refl _, rfl⟩
  rw [aluaCheckState]
  split
  · exact ⟨Or.inl rfl, hrefl⟩
  · rename_i hlock
    have hlock : c.dev.handler.lock = true := by simpa using hlock
    refine cawPre_getRdev fun r u hr hu => ?_
    split
    · split
      · rename_i hstate
        exact ⟨Or.inr ⟨by decide, hr _ (.fenced hlock hstate)⟩, hu⟩
      · exact ⟨Or.inl rfl, hu⟩
    · refine cawPre_getRdev fun r w hr hw => ?_
      have hw := hu.trans hw
      split
      · exact ⟨Or.inl rfl, hw⟩
      · rename_i hstate
        exact ⟨Or.inr ⟨by decide, hr _ (.transition hlock (by simp [hstate]))⟩, hw⟩
      · rename_i hstate
        have hnot : r.lockState ≠ .locked := by simp [hstate]
        refine cawPre_still (c := c) (still_ask trivial fun _ => rfl) fun _ y _ hy =>
          cawPre_still (c := c) (still_ask hlock fun _ => rfl) fun a z _ hz => ?_
        have hz := (hw.trans hy).trans hz
        split
        · exact ⟨Or.inr ⟨by decide, hr _ (.transition hlock hnot)⟩, hz⟩
        · refine cawPre_still (c := c) (still_ask trivial fun _ => rfl) fun _ t _ ht => ?_
          exact ⟨Or.inr ⟨by decide, hr _ (.notStarted hlock hnot)⟩, hz.trans ht⟩
    · exact ⟨Or.inl rfl, hu⟩

theorem cawPre_handlePendingUa :
    CawPre (Sees c R) v (handlePendingUa c) (CawPasses R s .notHandled) s := by
  have hrefl : s.Kept s := ⟨s.life, Life.Kept.refl _, rfl⟩
  rw [handlePendingUa]
  split
  · exact ⟨Or.inl rfl, hrefl⟩
  · refine cawPre_getRdev fun r u hr hu => ?_
    split
    · exact ⟨Or.inl rfl, hu⟩
    · refine cawPre_still (c := c) (still_ask trivial fun _ => rfl) fun _ w _ hw => ?_
      split
      · rename_i hodd
        exact ⟨Or.inr ⟨by decide, hr _ (.changed hodd)⟩, hu.trans hw⟩
      · exact ⟨Or.inl rfl, hu.trans hw⟩

theorem handleCawCheck_refuses (h : handleCawCheck c ≠ .ok) : handleCawCheck c ∈ cawRefusals := by
  rw [handleCawCheck] at h ⊢
  split
  · rw [checkIovecLength]
    split
    · decide
    · rename_i hlength hok
      rw [checkIovecLength, if_neg hok] at hlength
      exact absurd rfl hlength
  · rename_i hlength
    rw [if_neg hlength] at h
    rw [checkLbas] at h ⊢
    split
    · decide
    · rename_i hin
      rw [if_neg hin] at h
      exact absurd rfl h

/-- Refusals are errors. -/
theorem ne_of_mem_cawRefusals {sts : TcmuSts} (h : sts ∈ cawRefusals) :
    sts ≠ .ok ∧ sts ≠ .asyncHandled := by
  constructor <;> rintro rfl <;> exact absurd h (by decide)

theorem CawView.Holds.kept {jobs : List (Bool × Job)} {b : Bool} {f : Option TcmuSts}
    {u : CawView} (h : s.Holds v m jobs b f) (hu : s.Kept u) : u.Holds v m jobs b f := by
  obtain ⟨life, hlife, rfl⟩ := hu
  exact ⟨hlife.jobs.trans h.jobs, hlife.completions.trans h.completions,
    hlife.fault.trans h.fault, h.taken, h.released, h.carried, h.compared, h.failed, h.locked,
    h.data⟩

theorem CawView.Lacks.kept {l : Bool} {n : ℕ} {f : Option TcmuSts} {u : CawView}
    (h : s.Lacks v m l n f) (hu : s.Kept u) : u.Lacks v m l n f := by
  obtain ⟨life, hlife, rfl⟩ := hu
  exact ⟨hlife.jobs.trans h.jobs, hlife.completions.trans h.completions,
    hlife.fault.trans h.fault, h.taken, h.released, h.carried, h.compared, h.failed, h.locked,
    h.data⟩

/-- Something fails for the command. -/
theorem CawView.Lacks.fail {l : Bool} {n : ℕ} {f : Option TcmuSts} (h : s.Lacks v m l n f)
    (sts : TcmuSts) : { s with failed := some sts : CawView }.Lacks v m l n (some sts) :=
  ⟨h.jobs, h.completions, h.fault, h.taken, h.released, h.carried, h.compared, rfl, h.locked,
    h.data⟩

theorem CawView.Holds.fail {jobs : List (Bool × Job)} {b : Bool} {f : Option TcmuSts}
    (h : s.Holds v m jobs b f) (sts : TcmuSts) :
    { s with failed := some sts : CawView }.Holds v m jobs b (some sts) :=
  ⟨h.jobs, h.completions, h.fault, h.taken, h.released, h.carried, h.compared, rfl, h.locked,
    h.data⟩

/-! ### Dispatching and finishing -/

/-- The work function of a sub-command whose callout is defined. -/
theorem cawPre_work {j : Job} (hdefined : (j.callout c).defined = true) :
    CawPre A v (j.work c)
      (fun r u => u = { s with
        life := s.life.called j (j.callout c) r
        failed := ((Op.io j (j.callout c)).failure r).or s.failed }) s := by
  rw [Job.work, if_pos hdefined]
  intro a _ r u hu
  obtain ⟨rfl, rfl⟩ := Prod.mk.inj (Option.some.inj hu)
  rfl

/-- What is left behind after dispatching a sub-command. -/
def CawDispatched (v : Iovec) (m : Mem) (j : Job) (compared : Bool) (ret : TcmuSts)
    (u : CawView) : Prop :=
  ret = .asyncHandled ∧ (∃ b, u.Holds v m [(b, j)] compared none) ∨
    ret ≠ .asyncHandled ∧ ret ≠ .ok ∧ u.Holds v m [] compared (some ret)

theorem CawView.Holds.add {b : Bool} {x : Bool × Job} {cs : List Callout}
    (h : s.Holds v m [] b none) :
    { s with life := { s.life with jobs := s.life.jobs ++ [x], calls := cs } : CawView }.Holds
      v m [x] b none := by
  refine ⟨?_, h.completions, h.fault, h.taken, h.released, h.carried, h.compared, h.failed,
    h.locked, h.data⟩
  change s.life.jobs ++ [x] = [x]
  rw [h.jobs, List.nil_append]

theorem CawView.Holds.dispatch {j : Job} {b : Bool} (h : s.Holds v m [] b none)
    (hdefined : (j.callout c).defined = true) (hjob : j.isUnmap = false) :
    CawPre A v (asyncHandleCmd c j) (CawDispatched v m j b) s := by
  rw [asyncHandleCmd]
  split
  · refine Prog.wp_seq (cawPre_work hdefined) fun r u hu => ?_
    subst hu
    cases r with
    | queued now =>
      dsimp only
      rw [if_neg (by simp [hjob])]
      exact Or.inl ⟨rfl, true, h.add⟩
    | failed e =>
      exact Or.inr ⟨e.ne_async, e.ne_ok, h.jobs, h.completions, h.fault, h.taken, h.released,
        h.carried, h.compared, rfl, h.locked, h.data⟩
  · refine cawPre_alloc (fun u hu => ?_) fun u hu => ?_
    · have hkept := h.kept hu
      intro a _ r w hw
      obtain ⟨-, rfl⟩ := Prod.mk.inj (Option.some.inj hw)
      exact Or.inl ⟨rfl, false, hkept.add⟩
    · exact Or.inr ⟨by simp, by simp, (h.kept hu).fail .noResource⟩

/-- Finishing releases the lock. -/
theorem CawView.Holds.cawFinish {b : Bool} {f : Option TcmuSts} (h : s.Holds v m [] b f)
    (ret : TcmuSts) : CawPre A v (cawFinish ret) (fun _ => CawView.Closed false b f ret) s := by
  intro a _ r u hu
  obtain ⟨-, rfl⟩ := Prod.mk.inj (Option.some.inj hu)
  intro a _ r u hu
  obtain ⟨-, rfl⟩ := Prod.mk.inj (Option.some.inj hu)
  intro a _ r u hu
  obtain ⟨-, rfl⟩ := Prod.mk.inj (Option.some.inj hu)
  refine ⟨h.jobs, ?_, h.fault, h.taken.le, ?_, h.compared, h.failed, rfl⟩
  · change s.life.completions ++ [ret] = [ret]
    rw [h.completions, List.nil_append]
  · change s.released + 1 = s.taken
    rw [h.released, h.taken]

/-! ### Callbacks -/

/-- What the callback of the read leaves behind, where `equal` says whether the bytes are what they
should be. -/
def CawCompared (c : Request) (v : Iovec) (m : Mem) (equal : Prop) (u : CawView) : Prop :=
  ¬ equal ∧ u.Closed false true none .miscompare ∨
    equal ∧ ((∃ b, u.Holds v m [(b, .cawWrite (tcmuSeekInCmdIovec c.cmd.iov v.half))] true none) ∨
      u.Broken false true)

theorem CawView.Holds.handleCawReadCbk {x : CawState} (h : s.Holds v m [] true none)
    (hiov : c.cmd.iov = [v]) (hv : v.Halved) (hx : x.requested = v.half)
    (hwrite : c.dev.handler.write = true) :
    CawPre A v (handleCawReadCbk c x .ok) (fun _ => CawCompared c v m
      (s.mem.load x.readBuf v.half = s.mem.load v.base v.half)) s := by
  rw [Tcmu.handleCawReadCbk, if_neg (by simp)]
  refine Prog.wp_ask_bind.mpr fun a _ r u hu => ?_
  obtain ⟨rfl, rfl⟩ := Prod.mk.inj (Option.some.inj hu)
  have hcmp : cmpOffset (tcmuCompareWithIovec s.mem x.readBuf [v] v.half) = none ↔
      s.mem.load x.readBuf v.half = s.mem.load v.base v.half := cmpOffset_eq_none hv
  rw [hx, hiov]
  split
  · rename_i offset hoffset
    refine cawPre_still (c := c) (still_ask trivial fun _ => rfl) fun _ u _ hu => ?_
    refine Prog.wp_mono ((h.kept hu).cawFinish _) fun _ u hu => Or.inl ⟨fun heq => ?_, hu⟩
    exact absurd (hcmp.mpr heq) (by simp [hoffset])
  · rename_i hnone
    have hequal := hcmp.mp hnone
    refine Prog.wp_seq (h.dispatch (j := .cawWrite (tcmuSeekInCmdIovec [v] v.half)) hwrite rfl)
      fun ret u hu => ?_
    rcases hu with ⟨rfl, hu⟩ | ⟨hret, hok, hu⟩
    · exact Or.inr ⟨hequal, Or.inl (hiov.symm ▸ hu)⟩
    · rw [if_pos hret]
      exact Prog.wp_mono (hu.cawFinish ret) fun _ w hw => Or.inr ⟨hequal, Or.inr ⟨ret, hok, hw⟩⟩

theorem CawView.Holds.handleCawReadCbk_fails {x : CawState} {ret : TcmuSts} {b : Bool}
    (h : s.Holds v m [] b (some ret)) (hret : ret ≠ .ok) :
    CawPre A v (Tcmu.handleCawReadCbk c x ret) (fun _ => CawView.Broken false b) s := by
  rw [Tcmu.handleCawReadCbk, if_pos hret]
  exact Prog.wp_mono (h.cawFinish ret) fun _ u hu => ⟨ret, hret, hu⟩

/-- What a work thread does with a sub-command: it hands it to the handler, or fails. -/
theorem CawView.Holds.ioWork {j : Job} {b : Bool} (h : s.Holds v m [] b none)
    (hdefined : (j.callout c).defined = true)
    (hdone : ∀ u ret, u.Holds v m [] b (some ret) → ret ≠ .ok →
      CawPre A v (j.done c ret) (fun _ => CawView.Broken false b) u) :
    CawPre A v (ioWork c j) (fun _ u => u.Holds v m [(true, j)] b none ∨ u.Broken false b) s := by
  refine Prog.wp_seq (cawPre_work hdefined) fun r u hu => ?_
  subst hu
  cases r with
  | queued now => exact Or.inl h.add
  | failed e =>
    refine Prog.wp_mono (hdone _ e.sts ?_ e.ne_ok) fun _ w hw => Or.inr hw
    exact ⟨h.jobs, h.completions, h.fault, h.taken, h.released, h.carried, h.compared, rfl,
      h.locked, h.data⟩

/-! ### Processing a command -/

/-- The command has taken a free lock and dispatched its read. -/
def CawReads (v : Iovec) (m : Mem) (locked : Bool) (u : CawView) : Prop :=
  locked = false ∧ ∃ b x, u.Holds v m [(b, .cawRead x)] false none ∧ x.requested = v.half ∧
    v.Avoids x.readBuf v.half ∧ v.Halved

/-- A status is explained by what has failed for the command, or the command has been refused with a
status in `R`. -/
def Explains (R : TcmuSts → Prop) (ret : TcmuSts) (f : Option TcmuSts) : Prop :=
  (ret ∈ cawRefusals ∧ R ret) ∧ f = none ∨ ret ≠ .ok ∧ f = some ret

/-- What `handle_caw` and its callers leave behind: the read has been dispatched, or the command has
failed and does not hold the lock. -/
def CawHandled (R : TcmuSts → Prop) (v : Iovec) (m : Mem) (locked : Bool) (ret : TcmuSts)
    (u : CawView) : Prop :=
  ret = .asyncHandled ∧ CawReads v m locked u ∨
    ret ≠ .asyncHandled ∧ ∃ n ≤ 1, ∃ f, Explains R ret f ∧ u.Lacks v m locked n f

theorem CawView.Lacks.refused {l : Bool} {ret : TcmuSts} (h : s.Lacks v m l 0 none)
    (hret : ret ∈ cawRefusals ∧ R ret) : CawHandled R v m l ret s :=
  Or.inr ⟨(ne_of_mem_cawRefusals hret.1).2, 0, Nat.zero_le _, none, Or.inl ⟨hret, rfl⟩, h⟩

theorem CawView.Lacks.exhausted {l : Bool} (h : s.Lacks v m l 0 (some .noResource)) :
    CawHandled R v m l .noResource s :=
  Or.inr ⟨by simp, 0, Nat.zero_le _, _, Or.inr ⟨by simp, rfl⟩, h⟩

theorem CawView.Lacks.cawInitReadcmd {l : Bool} {length : ℕ} (h : s.Lacks v m l 0 none) :
    CawPre A v (cawInitReadcmd length) (fun r u =>
      (r = none ∧ u.Lacks v m l 0 (some .noResource)) ∨
        ∃ x, r = some x ∧ u.Lacks v m l 0 none ∧ x.requested = length ∧
          v.Avoids x.readBuf length) s := by
  refine cawPre_alloc (fun u hu => ?_) fun u hu => Or.inl ⟨rfl, (h.kept hu).fail _⟩
  have hu := h.kept hu
  refine cawPre_alloc (fun w hw => ?_) fun w hw => Or.inl ⟨rfl, (hu.kept hw).fail _⟩
  have hw := hu.kept hw
  have halloc : CawPre A v (allocIovec length) (fun r y =>
      (r = none ∧ y.Lacks v m l 0 (some .noResource)) ∨
        ∃ p, r = some p ∧ y.Lacks v m l 0 none ∧ v.Avoids p length) w := by
    refine cawPre_alloc (fun y hy => ?_) fun y hy => Or.inl ⟨rfl, (hw.kept hy).fail _⟩
    have hy := hw.kept hy
    intro p _ r z hz
    rw [cawInterp] at hz
    dsimp only at hz
    split at hz
    · rename_i havoids
      obtain ⟨rfl, rfl⟩ := Prod.mk.inj (Option.some.inj hz)
      cases p with
      | none =>
        have hfails : y.Kept { y with life := y.life.fails } := ⟨_, Life.Kept.fails _, rfl⟩
        exact Or.inl ⟨rfl, (hy.kept hfails).fail .noResource⟩
      | some p =>
        intro _ _ r z hz
        obtain ⟨-, rfl⟩ := Prod.mk.inj (Option.some.inj hz)
        exact Or.inr ⟨p, rfl, hy, havoids p rfl⟩
    · exact absurd hz (by simp)
  refine Prog.wp_seq halloc fun r y hy => ?_
  rcases hy with ⟨rfl, hy⟩ | ⟨p, rfl, hy, havoids⟩
  · exact Or.inl ⟨rfl, hy⟩
  · exact Or.inr ⟨_, rfl, hy, rfl, havoids⟩

/-- **Taking the lock.** -/
theorem CawView.Lacks.handleCaw {l : Bool} (h : s.Lacks v m l 0 none) (hiov : c.cmd.iov = [v])
    (hlt : v.len < 2 ^ 64) (hread : c.dev.handler.read = true) (hR : R (handleCawCheck c)) :
    CawPre A v (handleCaw c) (CawHandled R v m l) s := by
  rw [Tcmu.handleCaw]
  split
  · rename_i hcheck
    exact h.refused ⟨handleCawCheck_refuses hcheck, hR⟩
  · rename_i hcheck
    have hv := halved_of_handleCawCheck hiov hlt (not_not.mp hcheck)
    have hlength : tcmuIovecLength c.cmd.iov / 2 = v.half := by
      rw [hiov, tcmuIovecLength_singleton hlt, Iovec.half]
    rw [hlength]
    refine Prog.wp_seq h.cawInitReadcmd fun r u hu => ?_
    rcases hu with ⟨rfl, hu⟩ | ⟨x, rfl, hu, hrequested, havoids⟩
    · exact hu.exhausted
    · refine Prog.wp_ask_bind.mpr fun a _ r w hw => ?_
      rw [cawInterp] at hw
      split at hw
      · exact absurd hw (by simp)
      · rename_i hfree
        obtain ⟨-, rfl⟩ := Prod.mk.inj (Option.some.inj hw)
        have hl : l = false := by simpa [hu.locked] using hfree
        have hholds : { u with locked := true, taken := u.taken + 1 : CawView }.Holds v m []
            false none := by
          refine ⟨hu.jobs, hu.completions, hu.fault, ?_, hu.released, hu.carried, hu.compared,
            hu.failed, rfl, hu.data⟩
          change u.taken + 1 = 1
          rw [hu.taken]
        refine Prog.wp_seq (hholds.dispatch (j := .cawRead x) hread rfl) fun ret y hy => ?_
        rcases hy with ⟨rfl, b, hy⟩ | ⟨hret, hok, hy⟩
        · exact Or.inl ⟨rfl, hl, b, x, hy, hrequested, havoids, hv⟩
        · dsimp only
          rw [if_pos hret]
          refine Prog.wp_ask_bind.mpr fun a _ r z hz => ?_
          obtain ⟨-, rfl⟩ := Prod.mk.inj (Option.some.inj hz)
          refine Or.inr ⟨hret, 1, le_rfl, _, Or.inr ⟨hok, rfl⟩, hy.jobs, hy.completions, hy.fault,
            hy.taken, ?_, hy.carried, hy.compared, hy.failed, hl.symm, hy.data⟩
          change y.released + 1 = 1
          rw [hy.released]

theorem CawHandled.untrack {l : Bool} {ret : TcmuSts} (h : CawHandled R v m l ret s) :
    CawPre A v (untrack ret) (CawHandled R v m l) s := by
  rw [Tcmu.untrack]
  dsimp only
  split
  · rename_i hret
    intro a _ r u hu
    obtain ⟨-, rfl⟩ := Prod.mk.inj (Option.some.inj hu)
    rcases h with ⟨hasync, -⟩ | ⟨-, n, hn, f, hf, h⟩
    · exact absurd hasync hret
    · exact Or.inr ⟨hret, n, hn, f, hf, h.jobs, h.completions, h.fault, h.taken, h.released,
        h.carried, h.compared, h.failed, h.locked, h.data⟩
  · exact h

theorem CawView.Lacks.tcmurCmdHandler {l : Bool} (h : s.Lacks v m l 0 none)
    (hcmd : dataCmd c.cdb = some .caw) (hiov : c.cmd.iov = [v]) (hlt : v.len < 2 ^ 64)
    (hread : c.dev.handler.read = true) (hR : R (handleCawCheck c)) :
    CawPre (Sees c R) v (tcmurCmdHandler c) (CawHandled R v m l) s := by
  refine Prog.wp_ask_bind.mpr fun a _ r u hu => ?_
  obtain ⟨-, rfl⟩ := Prod.mk.inj (Option.some.inj hu)
  have hstart : { s with life := { s.life with starts := s.life.starts + 1 } : CawView }.Lacks
      v m l 0 none := ⟨h.1, h.2, h.3, h.4, h.5, h.6, h.7, h.8, h.9, h.10⟩
  refine cawPre_getRdev fun r u hr hu => ?_
  have hu := hstart.kept hu
  split
  · rename_i hrecovery
    exact (hu.refused ⟨by decide, hr _ (.recovering hrecovery)⟩).untrack
  · rw [hcmd]
    refine Prog.wp_seq cawPre_aluaCheckState fun ret w hw => ?_
    have hkept := hu.kept hw.2
    split
    · rename_i hok
      exact (hkept.refused (hw.1.resolve_left hok)).untrack
    · exact Prog.wp_seq (hkept.handleCaw hiov hlt hread hR) fun ret y hy => hy.untrack

/-- **Processing a command.** It reads, or it has failed. -/
theorem CawView.Lacks.processCmd {l : Bool} (h : s.Lacks v m l 0 none)
    (hcmd : dataCmd c.cdb = some .caw) (hiov : c.cmd.iov = [v]) (hlt : v.len < 2 ^ 64)
    (hread : c.dev.handler.read = true) (hpass : c.dev.handler.handleCmd = false)
    (hR : R (handleCawCheck c)) :
    CawPre (Sees c R) v (processCmd c) (fun _ u => CawReads v m l u ∨ u.Rejected R l) s := by
  have hgeneric : CawPre (Sees c R) v (tcmurGenericHandleCmd c) (CawHandled R v m l) s := by
    refine Prog.wp_seq cawPre_handlePendingUa fun ret u hu => ?_
    have hkept := h.kept hu.2
    split
    · rename_i hhandled
      exact hkept.refused (hu.1.resolve_left hhandled)
    · refine cawPre_getRdev fun r w hr hw => ?_
      have hw := hkept.kept hw
      split
      · rename_i hformatting
        refine cawPre_still (c := c) (still_ask trivial fun _ => rfl) fun _ y _ hy => ?_
        exact (hw.kept hy).refused ⟨by decide, hr _ (.formatting hformatting.1)⟩
      · rw [handleTryPassthrough, if_pos (by simp [hpass]), handleSyncCmd_of_dataCmd hcmd]
        exact hw.tcmurCmdHandler hcmd hiov hlt hread hR
  refine Prog.wp_seq hgeneric fun ret u hu => ?_
  rcases hu with ⟨rfl, hu⟩ | ⟨hret, n, hn, f, hf, hu⟩
  · exact Or.inl hu
  · rw [if_pos hret]
    intro a _ r w hw
    obtain ⟨-, rfl⟩ := Prod.mk.inj (Option.some.inj hw)
    have hclosed : { u with life := { u.life with
        completions := u.life.completions ++ [ret] } : CawView }.Closed l false f ret := by
      refine ⟨hu.jobs, ?_, hu.fault, hu.taken.le.trans hn, hu.released.trans hu.taken.symm,
        hu.compared, hu.failed, hu.locked⟩
      change u.life.completions ++ [ret] = [ret]
      rw [hu.completions, List.nil_append]
    rcases hf with ⟨hrefused, rfl⟩ | ⟨hok, rfl⟩
    · exact Or.inr (Or.inr ⟨ret, hrefused.1, hrefused.2, hclosed⟩)
    · exact Or.inr (Or.inl ⟨ret, hok, hclosed⟩)

end Pre

/-! ### States of a command, between events -/

namespace CawCmd

/-- The command has not been fetched. -/
structure Waiting (v : Iovec) (m : Mem) (x : CawCmd) : Prop where
  /-- It has not been processed. -/
  begun : x.life.begun = false
  /-- It has no sub-commands. -/
  jobs : x.life.jobs = []
  /-- It has not been completed. -/
  completions : x.life.completions = []
  /-- The daemon is up. -/
  fault : x.life.fault = none
  /-- It has not taken the lock. -/
  taken : x.taken = 0
  /-- It has not released it. -/
  released : x.released = 0
  /-- The handler has not carried out anything for it. -/
  carried : x.carried = false
  /-- Its read has not succeeded. -/
  compared : x.compared = false
  /-- Nothing has failed for it. -/
  failed : x.failed = none
  /-- The Data-Out buffer is as it was. -/
  data : x.mem.load v.base v.len = m.load v.base v.len

/-- The command has been completed. -/
structure Ended (x : CawCmd) : Prop where
  /-- It has been processed. -/
  begun : x.life.begun = true
  /-- It has no sub-commands. -/
  jobs : x.life.jobs = []
  /-- It has been completed once. -/
  completions : ∃ sts, x.life.completions = [sts]
  /-- The daemon is up. -/
  fault : x.life.fault = none
  /-- It has taken the lock once at most. -/
  taken : x.taken ≤ 1
  /-- It has released it as often. -/
  released : x.released = x.taken

/-- The command holds the lock, and has one sub-command. -/
structure Inside (v : Iovec) (m : Mem) (queued : Bool) (j : Job) (compared : Bool)
    (x : CawCmd) : Prop where
  /-- It has been processed. -/
  begun : x.life.begun = true
  /-- It has one sub-command. -/
  jobs : x.life.jobs = [(queued, j)]
  /-- It has not been completed. -/
  completions : x.life.completions = []
  /-- The daemon is up. -/
  fault : x.life.fault = none
  /-- It has taken the lock. -/
  taken : x.taken = 1
  /-- It has not released it. -/
  released : x.released = 0
  /-- The handler has carried out only what it has accepted. -/
  carried : x.carried = true → queued = true
  /-- Whether its read has succeeded. -/
  compared : x.compared = compared
  /-- Nothing has failed for it. -/
  failed : x.failed = none
  /-- The Data-Out buffer is as it was. -/
  data : x.mem.load v.base v.len = m.load v.base v.len
  /-- The buffer has two halves. -/
  halved : v.Halved

/-- The command neither holds the lock nor has anything under way. -/
def Outside (v : Iovec) (m : Mem) (x : CawCmd) : Prop := x.Waiting v m ∨ x.Ended

/-- The command reads what it has to compare, and the content of the device is `d`. -/
def Reading (c : Request) (v : Iovec) (m : Mem) (d : Mem) (x : CawCmd) : Prop :=
  ∃ queued y, x.Inside v m queued (.cawRead y) false ∧ y.requested = v.half ∧
    v.Avoids y.readBuf v.half ∧
    (x.carried = true → x.mem.load y.readBuf v.half = d.load c.place v.half)

/-- The command writes. The content of the device was `d`, which is what was expected, and it is
`d'` now. -/
def Writing (c : Request) (v : Iovec) (m : Mem) (d d' : Mem) (x : CawCmd) : Prop :=
  ∃ queued, x.Inside v m queued (.cawWrite (tcmuSeekInCmdIovec c.cmd.iov v.half)) true ∧
    d.load c.place v.half = m.load v.base v.half ∧
    (∃ junk : List UInt8, junk.length = v.half ∧ d' = d.store c.place junk) ∧
    (x.carried = true → d' = d.store c.place (m.load (v.base + v.half) v.half))

section States

variable {c : Request} {v : Iovec} {m d d' : Mem} {x : CawCmd} {R : TcmuSts → Prop}

/-- The sub-command of a command inside, when an event finds it. -/
theorem Inside.job {queued queued' compared : Bool} {j j' : Job} {k : ℕ}
    (h : x.Inside v m queued j compared) (hk : x.life.jobs[k]? = some (queued', j')) :
    queued' = queued ∧ j' = j ∧ x.life.jobs.eraseIdx k = [] := by
  rw [h.jobs] at hk ⊢
  cases k with
  | zero =>
    obtain ⟨rfl, rfl⟩ := Prod.mk.inj (Option.some.inj hk)
    exact ⟨rfl, rfl, rfl⟩
  | succ k => exact absurd hk (by simp)

theorem event_cases {l : Bool} {e : LifeEvent} {r : Except Fault Unit} {u : CawView}
    (h : x.event c v l e = some (r, u)) : x.mayTake e = true ∧ ∃ p life,
      e.prog c x.life = some (p, life) ∧
      p.exec (cawInterp v) e.env ⟨x.start life e, l⟩ = some (r, u) := by
  rw [event] at h
  split at h
  · exact absurd h (by simp)
  · rename_i hmay
    obtain ⟨⟨p, life⟩, hprog, hexec⟩ := Option.bind_eq_some_iff.mp h
    exact ⟨by simpa using hmay, p, life, hprog, hexec⟩

/-- A program whose precondition holds ends, and as it should. -/
theorem exec_ok {A : (o : Op) → Ans o → Prop} {p : Daemon Unit} {Q : CawView → Prop}
    {s u : CawView} {env : Prog.Env Op Ans} {r : Except Fault Unit}
    (h : CawPre A v p (fun _ => Q) s) (henv : ∀ n o, A o (env n o))
    (hexec : p.exec (cawInterp v) env s = some (r, u)) : r = .ok () ∧ Q u := by
  rcases Prog.exec_of_wp h henv hexec with ⟨_, hr, hu⟩ | ⟨_, -, hfalse⟩
  · exact ⟨hr, hu⟩
  · exact hfalse.elim

/-! ### One event -/

/-- Nothing happens to a command that has been completed. -/
theorem Ended.event {l : Bool} {e : LifeEvent} (h : x.Ended) : x.event c v l e = none := by
  rw [CawCmd.event]
  split
  · rfl
  · rename_i hmay
    cases e with
    | fetch env => simp [LifeEvent.prog, h.begun]
    | work k env => simp [LifeEvent.prog, h.jobs]
    | done k ret env => simp [LifeEvent.prog, h.jobs]
    | lockThread env => exact absurd rfl hmay

/-- A command that waits is fetched. -/
theorem Waiting.event {l : Bool} {e : LifeEvent} {r : Except Fault Unit} {u : CawView}
    (h : x.Waiting v m) (hcmd : dataCmd c.cdb = some .caw) (hiov : c.cmd.iov = [v])
    (hlt : v.len < 2 ^ 64) (hread : c.dev.handler.read = true)
    (hpass : c.dev.handler.handleCmd = false) (hR : R (handleCawCheck c))
    (hsees : ∀ env, e = .fetch env → ∀ n sts, CawRefusal c (env n .getRdev) sts → R sts)
    (hev : x.event c v l e = some (r, u)) :
    r = .ok () ∧ (CawReads v m l u ∨ u.Rejected R l) := by
  obtain ⟨hmay, p, life, hprog, hexec⟩ := event_cases hev
  cases e with
  | fetch env =>
    rw [LifeEvent.prog, h.begun, if_neg (by simp)] at hprog
    obtain ⟨rfl, rfl⟩ := Prod.mk.inj (Option.some.inj hprog)
    have hlacks : (CawView.mk x l).Lacks v m l 0 none :=
      ⟨h.jobs, h.completions, h.fault, h.taken, h.released, h.carried, h.compared, h.failed, rfl,
        h.data⟩
    refine exec_ok (hlacks.processCmd hcmd hiov hlt hread hpass hR) (fun n o => ?_) hexec
    cases o with
    | getRdev => exact hsees env rfl n
    | _ => trivial
  | work k env => exact absurd hprog (by simp [LifeEvent.prog, h.jobs])
  | done k ret env => exact absurd hprog (by simp [LifeEvent.prog, h.jobs])
  | lockThread env => exact absurd hmay (by simp [mayTake])

/-- What is under way is handed to the handler by a work thread, or called back. -/
theorem Inside.event {queued compared : Bool} {j : Job} {e : LifeEvent} {r : Except Fault Unit}
    {u : CawView} {Q : CawView → Prop} (h : x.Inside v m queued j compared)
    (hwork : ∀ s : CawView, s.Holds v m [] compared none →
      CawPre (fun _ _ => True) v (ioWork c j) (fun _ => Q) s)
    (hdone : ∀ (s : CawView) (ret : TcmuSts), queued = true → s.mem = x.mem →
      (ret = .ok → x.carried = true) →
      s.Holds v m [] (compared || ret = .ok) (if ret = .ok then none else some ret) →
      CawPre (fun _ _ => True) v (j.done c ret) (fun _ => Q) s)
    (hev : x.event c v true e = some (r, u)) : r = .ok () ∧ Q u := by
  obtain ⟨hmay, p, life, hprog, hexec⟩ := event_cases hev
  cases e with
  | fetch env => exact absurd hprog (by simp [LifeEvent.prog, h.begun])
  | work k env =>
    rw [LifeEvent.prog] at hprog
    split at hprog
    · rename_i j' hj
      obtain ⟨rfl, rfl, herase⟩ := h.job hj
      obtain ⟨rfl, rfl⟩ := Prod.mk.inj (Option.some.inj hprog)
      have hcarried : x.carried = false := by simpa using h.carried
      refine exec_ok (hwork _ ?_) (fun _ _ => trivial) hexec
      exact ⟨herase, h.completions, h.fault, h.taken, h.released, hcarried, h.compared, h.failed,
        rfl, h.data⟩
    · exact absurd hprog (by simp)
  | done k ret env =>
    rw [LifeEvent.prog] at hprog
    split at hprog
    · rename_i j' hj
      obtain ⟨rfl, rfl, herase⟩ := h.job hj
      obtain ⟨rfl, rfl⟩ := Prod.mk.inj (Option.some.inj hprog)
      have hok : ret = .ok → x.carried = true := by
        intro hret
        simpa [mayTake, hret] using hmay
      refine exec_ok (hdone _ ret rfl rfl hok ?_) (fun _ _ => trivial) hexec
      refine ⟨herase, h.completions, h.fault, h.taken, h.released, rfl, ?_, ?_, rfl, h.data⟩
      · change (x.compared || decide (ret = .ok)) = (compared || decide (ret = .ok))
        rw [h.compared]
      · change (if ret = .ok then x.failed else some ret) = if ret = .ok then none else some ret
        rw [h.failed]
    · exact absurd hprog (by simp)
  | lockThread env => exact absurd hmay (by simp [mayTake])

/-- What an event leaves behind of a command that reads: it goes on reading, fails, or compares. -/
def AfterRead (c : Request) (v : Iovec) (m d : Mem) (u : CawView) : Prop :=
  CawReads v m false u ∨ u.Broken false false ∨
    CawCompared c v m (d.load c.place v.half = m.load v.base v.half) u

/-- What an event leaves behind of a command that writes: it goes on writing, fails, or has
written. -/
def AfterWrite (c : Request) (v : Iovec) (m d d' : Mem) (u : CawView) : Prop :=
  u.Holds v m [(true, .cawWrite (tcmuSeekInCmdIovec c.cmd.iov v.half))] true none ∨
    u.Broken false true ∨
      u.Closed false true none .ok ∧ d' = d.store c.place (m.load (v.base + v.half) v.half)

theorem Reading.event {e : LifeEvent} {r : Except Fault Unit} {u : CawView}
    (h : x.Reading c v m d) (hiov : c.cmd.iov = [v]) (hread : c.dev.handler.read = true)
    (hwrite : c.dev.handler.write = true) (hev : x.event c v true e = some (r, u)) :
    r = .ok () ∧ AfterRead c v m d u := by
  obtain ⟨queued, y, hinside, hrequested, havoids, hcarried⟩ := h
  have hlen := hinside.halved.len
  refine hinside.event (fun s hs => ?_) (fun s ret _ hmem hok hs => ?_) hev
  · refine Prog.wp_mono (hs.ioWork (j := .cawRead y) hread fun u ret hu hret =>
      hu.handleCawReadCbk_fails hret) fun _ w hw => ?_
    rcases hw with hw | hw
    · exact Or.inl ⟨rfl, true, y, hw, hrequested, havoids, hinside.halved⟩
    · exact Or.inr (Or.inl hw)
  · by_cases hret : ret = .ok
    · subst hret
      refine Prog.wp_mono (hs.handleCawReadCbk hiov hinside.halved hrequested hwrite)
        fun _ w hw => Or.inr (Or.inr ?_)
      have hdata := Mem.load_part (k := 0) hinside.data (by omega : 0 + v.half ≤ v.len)
      rw [Nat.add_zero] at hdata
      rw [hmem, hcarried (hok rfl), hdata] at hw
      exact hw
    · rw [if_neg hret, decide_eq_false hret, Bool.false_or] at hs
      exact Prog.wp_mono (hs.handleCawReadCbk_fails hret) fun _ w hw => Or.inr (Or.inl hw)

theorem Writing.event {e : LifeEvent} {r : Except Fault Unit} {u : CawView}
    (h : x.Writing c v m d d') (hwrite : c.dev.handler.write = true)
    (hev : x.event c v true e = some (r, u)) : r = .ok () ∧ AfterWrite c v m d d' u := by
  obtain ⟨queued, hinside, -, -, hcarried⟩ := h
  refine hinside.event (fun s hs => ?_) (fun s ret _ _ hok hs => ?_) hev
  · refine Prog.wp_mono (hs.ioWork (j := .cawWrite _) hwrite fun u ret hu hret => ?_)
      fun _ w hw => hw.imp_right Or.inl
    exact Prog.wp_mono (hu.cawFinish ret) fun _ w hw => ⟨ret, hret, hw⟩
  · refine Prog.wp_mono (hs.cawFinish ret) fun _ w hw => Or.inr ?_
    by_cases hret : ret = .ok
    · subst hret
      exact Or.inr ⟨hw, hcarried (hok rfl)⟩
    · rw [if_neg hret] at hw
      exact Or.inl ⟨ret, hret, hw⟩

end States

end CawCmd

/-! ### The system -/

section System

variable {ι : Type} {b : CawBatch ι} {m : ι → Mem} {R : ι → TcmuSts → Prop} {d₀ d : Mem}
  {s : CawSys ι} {i : ι} {u : CawView}

namespace CawSys

/-- Nobody holds the lock, and the content of the device is `d`. -/
def AllOut (b : CawBatch ι) (m : ι → Mem) (d : Mem) (s : CawSys ι) : Prop :=
  s.locked = false ∧ s.disk = d ∧ ∀ i, (s.cmds i).Outside (b.buf i) (m i)

/-- The command holds the lock, and the content of the device was `d` when it took it. -/
def OneIn (b : CawBatch ι) (m : ι → Mem) (d : Mem) (i : ι) (s : CawSys ι) : Prop :=
  s.locked = true ∧ ((s.cmds i).Reading (b.req i) (b.buf i) (m i) d ∧ s.disk = d ∨
    (s.cmds i).Writing (b.req i) (b.buf i) (m i) d s.disk) ∧
    ∀ j, j ≠ i → (s.cmds j).Outside (b.buf j) (m j)

/-- The invariant: executing the commands of the log one after the other leads from `d₀` to the
content that the device had when the lock was free for the last time. -/
def Ordered (b : CawBatch ι) (m : ι → Mem) (R : ι → TcmuSts → Prop) (d₀ : Mem) (s : CawSys ι) :
    Prop :=
  ∃ d, Serial (b.atomic m R) d₀ s.log d ∧ (s.AllOut b m d ∨ ∃ i, s.OneIn b m d i)

/-- What the program of an event leaves behind when it completes the command. -/
structure Closes (s : CawSys ι) (i : ι) (locked compared : Bool) (failed : Option TcmuSts)
    (sts : TcmuSts) (t : CawSys ι) : Prop where
  /-- The command has been completed. -/
  ended : (t.cmds i).Ended
  /-- The other commands are what they were. -/
  others : ∀ j, j ≠ i → t.cmds j = s.cmds j
  /-- Whether the lock is held. -/
  locked : t.locked = locked
  /-- The device is what it was. -/
  disk : t.disk = s.disk
  /-- The completion has been written down. -/
  log : t.log = s.log ++ [⟨i, compared, failed, sts⟩]

/-- What the program of an event leaves behind when the command goes on. -/
structure GoesOn (s : CawSys ι) (i : ι) (t : CawSys ι) : Prop where
  /-- The other commands are what they were. -/
  others : ∀ j, j ≠ i → t.cmds j = s.cmds j
  /-- The lock is held. -/
  locked : t.locked = true
  /-- The device is what it was. -/
  disk : t.disk = s.disk
  /-- Nothing has been written down. -/
  log : t.log = s.log

theorem GoesOn.reading {t : CawSys ι} {q : Bool} {y : CawState} (h : s.GoesOn i t)
    (hinside : (t.cmds i).Inside (b.buf i) (m i) q (.cawRead y) false)
    (hcarried : (t.cmds i).carried = false) (hrequested : y.requested = (b.buf i).half)
    (havoids : (b.buf i).Avoids y.readBuf (b.buf i).half) (hdisk : s.disk = d)
    (hothers : ∀ j, j ≠ i → (s.cmds j).Outside (b.buf j) (m j)) : t.OneIn b m d i := by
  refine ⟨h.locked, Or.inl ⟨⟨q, y, hinside, hrequested, havoids, ?_⟩, h.disk.trans hdisk⟩,
    fun j hj => h.others j hj ▸ hothers j hj⟩
  exact fun hc => absurd hc (by simp [hcarried])

/-- A completion that leaves the lock free. -/
theorem Closes.allOut {t : CawSys ι} {compared : Bool} {failed : Option TcmuSts} {sts : TcmuSts}
    (h : s.Closes i false compared failed sts t) {d' : Mem}
    (hserial : Serial (b.atomic m R) d₀ s.log d)
    (hcas : b.atomic m R ⟨i, compared, failed, sts⟩ d d') (hdisk : s.disk = d')
    (hothers : ∀ j, j ≠ i → (s.cmds j).Outside (b.buf j) (m j)) : t.Ordered b m R d₀ := by
  refine ⟨d', h.log ▸ hserial.concat hcas, Or.inl ⟨h.locked, h.disk.trans hdisk, fun j => ?_⟩⟩
  by_cases hj : j = i
  · exact Or.inr (hj ▸ h.ended)
  · exact h.others j hj ▸ hothers j hj

variable [DecidableEq ι]

/-- The log and the commands agree on the completions. -/
def Logged (s : CawSys ι) : Prop :=
  ∀ i, (s.log.filter fun e => e.who = i).map CawEntry.sts = (s.cmds i).life.completions

theorem put_cmds_self {n : ℕ} {x : Except Fault Unit} :
    (s.put i n x u).cmds i = { u.toCawCmd with life := settle (x, u.life) } :=
  Function.update_self ..

theorem put_cmds_of_ne {n : ℕ} {x : Except Fault Unit} {j : ι} (h : j ≠ i) :
    (s.put i n x u).cmds j = s.cmds j :=
  Function.update_of_ne h _ _

theorem carry_cmds_self {mem disk : Mem} {carried : Bool} : (s.carry i mem disk carried).cmds i =
    { s.cmds i with mem := mem, carried := carried } :=
  Function.update_self ..

theorem carry_cmds_of_ne {mem disk : Mem} {carried : Bool} {j : ι} (h : j ≠ i) :
    (s.carry i mem disk carried).cmds j = s.cmds j :=
  Function.update_of_ne h _ _

theorem closes_put {l compared : Bool} {failed : Option TcmuSts} {sts : TcmuSts}
    (h : u.Closed l compared failed sts) :
    s.Closes i l compared failed sts (s.put i 0 (.ok ()) u) := by
  refine ⟨?_, fun j hj => put_cmds_of_ne hj, h.locked, rfl, ?_⟩
  · rw [put_cmds_self]
    exact ⟨rfl, h.jobs, ⟨sts, h.completions⟩, h.fault, h.taken, h.released⟩
  · simp [put, h.completions, h.compared, h.failed]

theorem goesOn_put {v : Iovec} {m : Mem} {q compared : Bool} {j : Job} (hv : v.Halved)
    (h : u.Holds v m [(q, j)] compared none) :
    ((s.put i 0 (.ok ()) u).cmds i).Inside v m q j compared ∧
      ((s.put i 0 (.ok ()) u).cmds i).carried = false ∧ s.GoesOn i (s.put i 0 (.ok ()) u) := by
  rw [put_cmds_self]
  refine ⟨?_, h.carried, ⟨fun j hj => put_cmds_of_ne hj, h.locked, rfl, ?_⟩⟩
  · exact ⟨rfl, h.jobs, h.completions, h.fault, h.taken, h.released,
      fun hc => absurd hc (by simp [h.carried]), h.compared, h.failed, h.data, hv⟩
  · simp [put, h.completions]

/-- A command is completed that does nothing. -/
theorem Closes.ordered {t : CawSys ι} {failed : Option TcmuSts} {sts : TcmuSts}
    (h : s.Closes i s.locked false failed sts t) (hserial : Serial (b.atomic m R) d₀ s.log d)
    (hcas : b.atomic m R ⟨i, false, failed, sts⟩ d d)
    (hs : s.AllOut b m d ∨ ∃ k, k ≠ i ∧ s.OneIn b m d k) : t.Ordered b m R d₀ := by
  rcases hs with ⟨hfree, hdisk, hout⟩ | ⟨k, hk, hlocked, hin, hout⟩
  · rw [hfree] at h
    exact h.allOut hserial hcas hdisk fun j _ => hout j
  · refine ⟨d, h.log ▸ hserial.concat hcas, Or.inr ⟨k, ?_, ?_, fun j hj => ?_⟩⟩
    · exact h.locked.trans hlocked
    · rw [h.others k hk, h.disk]
      exact hin
    · by_cases hji : j = i
      · exact Or.inr (hji ▸ h.ended)
      · exact h.others j hji ▸ hout j hj

/-- The first events of a command: it fails, or it takes a free lock and reads. -/
theorem ordered_of_waiting (hserial : Serial (b.atomic m R) d₀ s.log d)
    (hs : s.AllOut b m d ∨ ∃ k, k ≠ i ∧ s.OneIn b m d k)
    (hu : CawReads (b.buf i) (m i) s.locked u ∨ u.Rejected (R i) s.locked) :
    (s.put i 0 (.ok ()) u).Ordered b m R d₀ := by
  rcases hu with ⟨hfree, q, y, hholds, hrequested, havoids, hv⟩ | ⟨sts, hsts, hclosed⟩ |
    ⟨sts, hsts, hR, hclosed⟩
  · rcases hs with ⟨-, hdisk, hout⟩ | ⟨k, -, hlocked, -⟩
    · obtain ⟨hinside, hcarried, hgoes⟩ := goesOn_put (s := s) (i := i) hv hholds
      refine ⟨d, hgoes.log ▸ hserial, Or.inr ⟨i, ?_⟩⟩
      exact hgoes.reading hinside hcarried hrequested havoids hdisk fun j _ => hout j
    · exact absurd hfree (by simp [hlocked])
  · exact (closes_put hclosed).ordered hserial (Cas.unread hsts) hs
  · exact (closes_put hclosed).ordered hserial (Cas.refused hsts hR) hs

/-- The events of a command that reads. -/
theorem ordered_of_reading (hserial : Serial (b.atomic m R) d₀ s.log d) (hdisk : s.disk = d)
    (hv : (b.buf i).Halved) (hout : ∀ j, j ≠ i → (s.cmds j).Outside (b.buf j) (m j))
    (hu : CawCmd.AfterRead (b.req i) (b.buf i) (m i) d u) :
    (s.put i 0 (.ok ()) u).Ordered b m R d₀ := by
  have hlength : (b.expected m i).length = (b.buf i).half := Mem.length_load ..
  rcases hu with ⟨-, q, y, hholds, hrequested, havoids, -⟩ | ⟨sts, hsts, hclosed⟩ |
    ⟨hne, hclosed⟩ | ⟨heq, ⟨q, hholds⟩ | ⟨sts, hsts, hclosed⟩⟩
  · obtain ⟨hinside, hcarried, hgoes⟩ := goesOn_put (s := s) (i := i) hv hholds
    refine ⟨d, hgoes.log ▸ hserial, Or.inr ⟨i, ?_⟩⟩
    exact hgoes.reading hinside hcarried hrequested havoids hdisk hout
  · exact (closes_put hclosed).allOut hserial (Cas.unread hsts) hdisk hout
  · refine (closes_put hclosed).allOut hserial (Cas.miscompared ?_) hdisk hout
    rwa [hlength]
  · obtain ⟨hinside, hcarried, hgoes⟩ := goesOn_put (s := s) (i := i) hv hholds
    refine ⟨d, hgoes.log ▸ hserial, Or.inr ⟨i, hgoes.locked, Or.inr ⟨q, hinside, heq, ?_, ?_⟩,
      fun j hj => hgoes.others j hj ▸ hout j hj⟩⟩
    · refine ⟨d.load (b.req i).place (b.buf i).half, Mem.length_load .., ?_⟩
      rw [Mem.store_load, hgoes.disk, hdisk]
    · exact fun hc => absurd hc (by simp [hcarried])
  · -- the write could not be dispatched, so that what was read is still there
    have hcas : b.atomic m R ⟨i, true, some sts, sts⟩ d
        (d.store (b.req i).place (d.load (b.req i).place (b.buf i).half)) := by
      refine Cas.spoiled ?_ hsts ((Mem.length_load ..).trans (Mem.length_load ..).symm)
      rwa [hlength]
    rw [Mem.store_load] at hcas
    exact (closes_put hclosed).allOut hserial hcas hdisk hout

/-- The events of a command that writes. -/
theorem ordered_of_writing (hserial : Serial (b.atomic m R) d₀ s.log d)
    (hw : (s.cmds i).Writing (b.req i) (b.buf i) (m i) d s.disk)
    (hout : ∀ j, j ≠ i → (s.cmds j).Outside (b.buf j) (m j))
    (hu : CawCmd.AfterWrite (b.req i) (b.buf i) (m i) d s.disk u) :
    (s.put i 0 (.ok ()) u).Ordered b m R d₀ := by
  have hlength : (b.expected m i).length = (b.buf i).half := Mem.length_load ..
  obtain ⟨q, hinside, heq, ⟨junk, hjunk, hdisk⟩, -⟩ := hw
  rcases hu with hholds | ⟨sts, hsts, hclosed⟩ | ⟨hclosed, hwritten⟩
  · obtain ⟨hinside', hcarried, hgoes⟩ := goesOn_put (s := s) (i := i) hinside.halved hholds
    refine ⟨d, hgoes.log ▸ hserial, Or.inr ⟨i, hgoes.locked, Or.inr ⟨true, hinside', heq, ?_, ?_⟩,
      fun j hj => hgoes.others j hj ▸ hout j hj⟩⟩
    · exact ⟨junk, hjunk, hgoes.disk.trans hdisk⟩
    · exact fun hc => absurd hc (by simp [hcarried])
  · refine (closes_put hclosed).allOut hserial (Cas.spoiled ?_ hsts ?_) hdisk hout
    · rwa [hlength]
    · exact hjunk.trans (Mem.length_load ..).symm
  · refine (closes_put hclosed).allOut hserial (Cas.swapped ?_) hwritten hout
    rwa [hlength]

/-! ### Events of the system -/

theorem Ordered.life {e : LifeEvent} {r : Except Fault Unit} (h : s.Ordered b m R d₀)
    (hR : R i (handleCawCheck (b.req i)))
    (hsees : ∀ env, e = .fetch env → ∀ n sts, CawRefusal (b.req i) (env n .getRdev) sts → R i sts)
    (hev : (s.cmds i).event (b.req i) (b.buf i) s.locked e = some (r, u)) :
    (s.cmds i).life.completions = [] ∧ r = .ok () ∧ (s.put i 0 (.ok ()) u).Ordered b m R d₀ := by
  have hread : (b.req i).dev.handler.read = true := b.req_dev i ▸ b.read
  have hwrite : (b.req i).dev.handler.write = true := b.req_dev i ▸ b.write
  have hpass : (b.req i).dev.handler.handleCmd = false := b.req_dev i ▸ b.handleCmd
  obtain ⟨d, hserial, hs⟩ := h
  -- a command outside, whether another one is inside or not
  have hwaiting : (s.cmds i).Outside (b.buf i) (m i) →
      (s.AllOut b m d ∨ ∃ k, k ≠ i ∧ s.OneIn b m d k) →
      (s.cmds i).life.completions = [] ∧ r = .ok () ∧
        (s.put i 0 (.ok ()) u).Ordered b m R d₀ := by
    intro hout hs
    rcases hout with hwaiting | hended
    · obtain ⟨hr, hu⟩ :=
        hwaiting.event (b.req_cmd i) (b.req_iov i) (b.buf_lt i) hread hpass hR hsees hev
      exact ⟨hwaiting.completions, hr, ordered_of_waiting hserial hs hu⟩
    · exact absurd hev (by simp [hended.event])
  rcases hs with hs | ⟨k, hk⟩
  · exact hwaiting (hs.2.2 i) (Or.inl hs)
  · by_cases hki : k = i
    · subst hki
      obtain ⟨hlocked, hin, hout⟩ := hk
      rw [hlocked] at hev
      rcases hin with ⟨hreading, hdisk⟩ | hwriting
      · obtain ⟨hr, hu⟩ := hreading.event (b.req_iov k) hread hwrite hev
        obtain ⟨q, y, hinside, -⟩ := hreading
        exact ⟨hinside.completions, hr,
          ordered_of_reading hserial hdisk hinside.halved hout hu⟩
      · obtain ⟨hr, hu⟩ := hwriting.event hwrite hev
        have hordered := ordered_of_writing hserial hwriting hout hu
        obtain ⟨q, hinside, -⟩ := hwriting
        exact ⟨hinside.completions, hr, hordered⟩
    · exact hwaiting (hk.2.2 i (Ne.symm hki)) (Or.inr ⟨k, hki, hk⟩)

/-- The handler carries out a read. -/
theorem reading_transfer {c : Request} {v : Iovec} {m : Mem} {x : CawCmd} {j : Job}
    {junk : Option (List UInt8)} {mem disk : Mem} (h : x.Reading c v m d)
    (hjobs : x.life.jobs = [(true, j)])
    (hcarry : (j.callout c).carryOut x.mem d junk = some (mem, disk)) :
    { x with mem := mem, carried := junk.isNone : CawCmd }.Reading c v m d ∧ disk = d := by
  obtain ⟨q, y, hinside, hrequested, havoids, -⟩ := h
  obtain ⟨rfl, rfl⟩ : true = q ∧ j = .cawRead y := by
    simpa using hjobs.symm.trans hinside.jobs
  simp only [Job.callout, Callout.carryOut, hrequested] at hcarry
  split at hcarry
  · rename_i hlength
    obtain ⟨rfl, rfl⟩ := Prod.mk.inj (Option.some.inj hcarry)
    refine ⟨⟨true, y, ⟨hinside.begun, hinside.jobs, hinside.completions, hinside.fault,
      hinside.taken, hinside.released, fun _ => rfl, hinside.compared, hinside.failed, ?_,
      hinside.halved⟩,
      hrequested, havoids, fun hnone => ?_⟩, rfl⟩
    · rw [← hinside.data]
      exact Mem.load_store_of_disjoint _ (hlength.symm ▸ havoids)
    · obtain rfl := Option.isNone_iff_eq_none.mp hnone
      exact Mem.load_store _ _ (Mem.length_load ..)
  · exact absurd hcarry (by simp)

/-- The handler carries out a write. -/
theorem writing_transfer {c : Request} {v : Iovec} {m : Mem} {x : CawCmd} {j : Job}
    {junk : Option (List UInt8)} {mem disk disk' : Mem} (h : x.Writing c v m d disk)
    (hiov : c.cmd.iov = [v]) (hjobs : x.life.jobs = [(true, j)])
    (hcarry : (j.callout c).carryOut x.mem disk junk = some (mem, disk')) :
    { x with mem := mem, carried := junk.isNone : CawCmd }.Writing c v m d disk' := by
  obtain ⟨q, hinside, heq, ⟨old, hold, rfl⟩, -⟩ := h
  obtain ⟨rfl, rfl⟩ :
      true = q ∧ j = .cawWrite (tcmuSeekInCmdIovec c.cmd.iov v.half) := by
    simpa using hjobs.symm.trans hinside.jobs
  have hlen := hinside.halved.len
  simp only [Job.callout, Callout.carryOut, hiov, length_tcmuSeekInCmdIovec hinside.halved,
    gather_tcmuSeekInCmdIovec hinside.halved] at hcarry
  split at hcarry
  · rename_i hlength
    obtain ⟨rfl, rfl⟩ := Prod.mk.inj (Option.some.inj hcarry)
    refine ⟨true, ⟨hinside.begun, hinside.jobs, hinside.completions, hinside.fault, hinside.taken,
      hinside.released, fun _ => rfl, hinside.compared, hinside.failed, hinside.data,
      hinside.halved⟩, heq,
      ⟨_, hlength, Mem.store_store _ _ (hlength.trans hold.symm)⟩, fun hnone => ?_⟩
    obtain rfl := Option.isNone_iff_eq_none.mp hnone
    have hdata := Mem.load_part hinside.data (by omega : v.half + v.half ≤ v.len)
    rw [Option.getD_none, List.take_of_length_le (Mem.length_load ..).le, hdata]
    exact Mem.store_store _ _ ((Mem.length_load ..).trans hold.symm)
  · exact absurd hcarry (by simp)

theorem Ordered.transfer {j : Job} {junk : Option (List UInt8)} {mem disk : Mem}
    (h : s.Ordered b m R d₀) (hjobs : (s.cmds i).life.jobs = [(true, j)])
    (hcarry : (j.callout (b.req i)).carryOut (s.cmds i).mem s.disk junk = some (mem, disk)) :
    (s.carry i mem disk junk.isNone).Ordered b m R d₀ := by
  have hinside : ¬ (s.cmds i).Outside (b.buf i) (m i) := by
    rintro (hwaiting | hended)
    · exact absurd hjobs (by simp [hwaiting.jobs])
    · exact absurd hjobs (by simp [hended.jobs])
  obtain ⟨d, hserial, hs⟩ := h
  rcases hs with hs | ⟨k, hlocked, hin, hout⟩
  · exact absurd (hs.2.2 i) hinside
  · have hki : i = k := by
      by_contra hne
      exact hinside (hout i hne)
    subst hki
    refine ⟨d, hserial, Or.inr ⟨i, hlocked, ?_, fun j hj => ?_⟩⟩
    · rw [carry_cmds_self]
      rcases hin with ⟨hreading, rfl⟩ | hwriting
      · exact Or.inl (reading_transfer hreading hjobs hcarry)
      · exact Or.inr (writing_transfer hwriting (b.req_iov i) hjobs hcarry)
    · rw [carry_cmds_of_ne hj]
      exact hout j hj

theorem Logged.carry {mem disk : Mem} {carried : Bool} (h : s.Logged) :
    (s.carry i mem disk carried).Logged := by
  intro j
  rw [show (s.carry i mem disk carried).log = s.log from rfl, h j]
  by_cases hj : j = i
  · rw [hj, carry_cmds_self]
  · rw [carry_cmds_of_ne hj]

theorem Logged.put (h : s.Logged) (hi : (s.cmds i).life.completions = []) :
    (s.put i 0 (.ok ()) u).Logged := by
  intro j
  have hlog : (s.put i 0 (.ok ()) u).log =
      s.log ++ u.life.completions.map fun sts => ⟨i, u.compared, u.failed, sts⟩ := rfl
  rw [hlog, List.filter_append, List.map_append, h j]
  by_cases hj : j = i
  · subst hj
    rw [hi, put_cmds_self, List.nil_append]
    simp [settle, List.filter_map, Function.comp_def]
  · rw [put_cmds_of_ne hj]
    simp [List.filter_map, Function.comp_def, Ne.symm hj]

/-- An event shows no more reasons to refuse a command than those in `R`. -/
def Shows (b : CawBatch ι) (R : ι → TcmuSts → Prop) : CawEvent ι → Prop
  | .life i (.fetch env) => ∀ n sts, CawRefusal (b.req i) (env n .getRdev) sts → R i sts
  | _ => True

/-- One event keeps the invariant. -/
theorem ordered_step {t : CawSys ι} {e : CawEvent ι} (hR : ∀ i, R i (handleCawCheck (b.req i)))
    (he : Shows b R e) (h : s.Ordered b m R d₀ ∧ s.Logged) (hstep : cawStep b s e = some t) :
    t.Ordered b m R d₀ ∧ t.Logged := by
  obtain ⟨hordered, hlogged⟩ := h
  cases e with
  | life i e =>
    obtain ⟨⟨r, u⟩, hev, rfl⟩ := Option.map_eq_some_iff.mp hstep
    have hsees : ∀ env, e = .fetch env → ∀ n sts,
        CawRefusal (b.req i) (env n .getRdev) sts → R i sts := by
      rintro env rfl
      exact he
    obtain ⟨hnil, rfl, hput⟩ := hordered.life (hR i) hsees hev
    dsimp only
    rw [hnil, List.length_nil]
    exact ⟨hput, hlogged.put hnil⟩
  | transfer i junk =>
    rw [cawStep] at hstep
    split at hstep
    · rename_i j hjobs
      obtain ⟨⟨mem, disk⟩, hcarry, rfl⟩ := Option.map_eq_some_iff.mp hstep
      exact ⟨hordered.transfer hjobs hcarry, hlogged.carry⟩
    · exact absurd hstep (by simp)

theorem ordered_of_run {es : List (CawEvent ι)}
    (hrun : run (cawStep b) (CawSys.init m d₀) es = some s) :
    s.Ordered b m (b.Refusable es) d₀ ∧ s.Logged := by
  have hinit : (CawSys.init m d₀).Ordered b m (b.Refusable es) d₀ ∧
      (CawSys.init m d₀ : CawSys ι).Logged := by
    refine ⟨⟨d₀, Serial.nil d₀, Or.inl ⟨rfl, rfl, fun i => Or.inl ?_⟩⟩, fun i => rfl⟩
    exact ⟨rfl, rfl, rfl, rfl, rfl, rfl, rfl, rfl, rfl, rfl⟩
  have hshows : ∀ e ∈ es, Shows b (b.Refusable es) e := by
    intro e he
    cases e with
    | life i e =>
      cases e with
      | fetch env => exact fun n sts h => Or.inr ⟨env, n, he, h⟩
      | _ => trivial
    | transfer => trivial
  exact run_invariant_of (fun _ _ _ he hs hstep => ordered_step (fun _ => Or.inl rfl) he hs hstep)
    hshows hinit hrun

end CawSys

/-! ### Main result -/

theorem CawCmd.Outside.counted {x : CawCmd} {v : Iovec} {m : Mem} (h : x.Outside v m) :
    x.life.jobs = [] ∧ x.Counted := by
  rcases h with h | h
  · refine ⟨h.jobs, h.taken.le.trans (Nat.zero_le _), ?_, ?_⟩
    · simp [h.jobs, h.taken, h.released]
    · simp [h.begun, h.completions]
  · obtain ⟨sts, hsts⟩ := h.completions
    refine ⟨h.jobs, h.taken, ?_, ?_⟩
    · simp [h.jobs, h.released]
    · simp [h.begun, h.jobs, hsts]

theorem CawCmd.Inside.counted {x : CawCmd} {v : Iovec} {m : Mem} {q compared : Bool} {j : Job}
    (h : x.Inside v m q j compared) : x.Counted := by
  refine ⟨h.taken.le, ?_, ?_⟩
  · simp [h.jobs, h.taken, h.released]
  · simp [h.jobs, h.completions]

variable [DecidableEq ι]

/-- **Atomicity of compare-and-write.** In every run of a batch at most one command is under way,
every command has released `caw_lock` as often as it has taken it unless it is under way, and each
command that has been processed and is not under way has been completed once. When no command is
under way, the content of the device and the statuses are those of executing the commands of the log
one after the other, each at once; a command is refused only with the status of its checks or that
of a state in which the device has been found. A miscompare that the handler has not reported itself
means that the command has found other bytes than it expects, when its turn came. -/
theorem caw_atomic {es : List (CawEvent ι)}
    (hrun : run (cawStep b) (CawSys.init m d₀) es = some s) :
    (∀ i j, s.Active i → s.Active j → i = j) ∧
    (∀ i, (s.cmds i).Counted) ∧
    (∀ i, (s.log.filter fun e => e.who = i).map CawEntry.sts = (s.cmds i).life.completions) ∧
    ((∀ i, ¬ s.Active i) → Serial (b.atomic m (b.Refusable es)) d₀ s.log s.disk) ∧
    ∀ l e l', s.log = l ++ e :: l' → e.sts = .miscompare → e.failed ≠ some .miscompare →
      ∃ d, Serial (b.atomic m (b.Refusable es)) d₀ l d ∧
        d.load (b.req e.who).place (b.buf e.who).half ≠ b.expected m e.who := by
  obtain ⟨⟨d, hserial, hs⟩, hlogged⟩ := CawSys.ordered_of_run hrun
  have hdiffers : ∀ l e l', s.log = l ++ e :: l' → e.sts = .miscompare →
      e.failed ≠ some .miscompare → ∃ d, Serial (b.atomic m (b.Refusable es)) d₀ l d ∧
        d.load (b.req e.who).place (b.buf e.who).half ≠ b.expected m e.who := by
    intro l e l' hlog hsts hfailed
    obtain ⟨t, t', hl, he⟩ := hserial.before hlog
    refine ⟨t, hl, ?_⟩
    have hlength : (b.expected m e.who).length = (b.buf e.who).half := Mem.length_load ..
    rw [← hlength]
    exact he.differs hsts hfailed
  rcases hs with ⟨-, hdisk, hout⟩ | ⟨k, -, hin, hout⟩
  · refine ⟨fun i _ hi => absurd (hout i).counted.1 hi, fun i => (hout i).counted.2, hlogged,
      fun _ => hdisk ▸ hserial, hdiffers⟩
  · -- only the command that holds the lock is under way
    have hactive : ∀ i, s.Active i → i = k := by
      intro i hi
      by_contra hne
      exact hi (hout i hne).counted.1
    obtain ⟨hjobs, hcounted⟩ : s.Active k ∧ (s.cmds k).Counted := by
      rcases hin with ⟨⟨q, y, hinside, -⟩, -⟩ | ⟨q, hinside, -⟩
      · exact ⟨by simp [CawSys.Active, hinside.jobs], hinside.counted⟩
      · exact ⟨by simp [CawSys.Active, hinside.jobs], hinside.counted⟩
    refine ⟨fun i j hi hj => (hactive i hi).trans (hactive j hj).symm, fun i => ?_, hlogged,
      fun hnone => absurd hjobs (hnone k), hdiffers⟩
    by_cases hi : i = k
    · exact hi ▸ hcounted
    · exact (hout i hi).counted.2

end System

/-! ### A batch of two -/

/-- `COMPARE AND WRITE` of one block of four bytes. -/
def cawRequest : Request :=
  { dev := ⟨0, ⟨4, 8, 128, 128, 0⟩, allocHandler, none⟩
    ctx := []
    cmd := ⟨0, some [0x89, 0, 0, 0, 0, 0, 0, 0, 0, 0, 0, 0, 0, 1, 0, 0], [⟨0x2000, 8⟩], 1, []⟩
    cdb := [0x89, 0, 0, 0, 0, 0, 0, 0, 0, 0, 0, 0, 0, 1, 0, 0]
    hcdb := rfl }

/-- Two commands for the first block. -/
def cawPair : CawBatch Bool where
  dev := cawRequest.dev
  req := fun _ => cawRequest
  buf := fun _ => ⟨0x2000, 8⟩
  req_dev := fun _ => rfl
  req_cmd := fun _ => by decide
  req_iov := fun _ => rfl
  buf_lt := fun _ => by decide
  read := rfl
  write := rfl
  handleCmd := rfl

/-- Both expect zeros. One of them wants ones there, and the other one wants twos. -/
def cawData (i : Bool) : Mem :=
  Mem.store (fun _ => 0) 0x2000 ([0, 0, 0, 0] ++ List.replicate 4 (if i then 1 else 2))

/-- Surroundings in which nothing fails. -/
def cawCalm : Prog.Env Op Ans := calm fun _ => 0

/-- One command after the other. -/
def cawPairRun : List (CawEvent Bool) :=
  [.life true (.fetch cawCalm), .life true (.work 0 cawCalm), .transfer true none,
    .life true (.done 0 .ok cawCalm), .life true (.work 0 cawCalm), .transfer true none,
    .life true (.done 0 .ok cawCalm), .life false (.fetch cawCalm),
    .life false (.work 0 cawCalm), .transfer false none, .life false (.done 0 .ok cawCalm)]

/-- The first command swaps, the second one finds ones. -/
theorem caw_atomic_pair : ∃ s, run (cawStep cawPair) (CawSys.init cawData fun _ => 0) cawPairRun =
      some s ∧ s.log = [⟨true, true, none, .ok⟩, ⟨false, true, none, .miscompare⟩] ∧
    Serial (cawPair.atomic cawData (cawPair.Refusable cawPairRun)) (fun _ => 0) s.log s.disk := by
  have hrun : (run (cawStep cawPair) (CawSys.init cawData fun _ => 0) cawPairRun).map
      (fun s => (s.log, (s.cmds true).life.jobs, (s.cmds false).life.jobs)) =
      some ([⟨true, true, none, .ok⟩, ⟨false, true, none, .miscompare⟩], [], []) := by
    decide +kernel
  obtain ⟨s, hs, heq⟩ := Option.map_eq_some_iff.mp hrun
  obtain ⟨hlog, htrue, hfalse⟩ : s.log = _ ∧ (s.cmds true).life.jobs = [] ∧
      (s.cmds false).life.jobs = [] := by simpa using heq
  refine ⟨s, hs, hlog, (caw_atomic hs).2.2.2.1 fun i => ?_⟩
  cases i with
  | true => simp [CawSys.Active, htrue]
  | false => simp [CawSys.Active, hfalse]

/-- While the first command reads, the second one cannot be processed: it would have to wait. -/
example : (run (cawStep cawPair) (CawSys.init cawData fun _ => 0)
    [.life true (.fetch cawCalm), .life false (.fetch cawCalm)]).isNone = true := by
  decide +kernel

end Tcmu

end LioProject
