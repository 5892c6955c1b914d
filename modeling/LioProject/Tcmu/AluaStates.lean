import LioProject.Tcmu.Equipped
import Mathlib.Data.List.Count
import Mathlib.Data.List.Nodup

/-!
# At most one target port group is active

The states of the target port groups live in configfs, where they outlast a command. Two commands
rewrite them, group by group: `SET TARGET PORT GROUPS` on behalf of an initiator, after it has taken
the lock, and `REPORT TARGET PORT GROUPS` on behalf of the node that the lock tag names.

Both end with the same picture (`Agreed`): one identifier decides which group is active/optimized,
and all others are standby. A command that stops before has changed nothing, or has only set a group
to standby. So whatever the lock callouts answer, two groups are never optimized at the end of a
command.
-/

namespace LioProject

namespace Tcmu

/-! ### The groups in configfs -/

/-- `ALUA_ACCESS_STATE_OPTIMIZED`, for a group. -/
def AluaGrp.Optimized (g : AluaGrp) : Prop := g.state = 0x0

instance (g : AluaGrp) : Decidable g.Optimized := inferInstanceAs (Decidable (g.state = 0x0))

/-- The number of groups that are active/optimized. -/
def optimizedCount (groups : List AluaGrp) : ℕ := groups.countP fun g => g.Optimized

/-- Write the `alua_access_state` of the group with an identifier. -/
def setGroup (id state : ℕ) (groups : List AluaGrp) : List AluaGrp :=
  groups.map fun g => if g.id = id then { g with state := state } else g

/-- What of a group no command changes. -/
def AluaGrp.frame (g : AluaGrp) : AluaGrp := { g with state := 0x0 }

/-- The groups agree with one another: that with this identifier is optimized, all others are
standby. -/
def Agreed (id : ℕ) (groups : List AluaGrp) : Prop :=
  ∀ g ∈ groups, g.state = if g.id = id then 0x0 else 0x2

section Groups

variable {groups s : List AluaGrp} {id state : ℕ}

theorem mem_setGroup {g : AluaGrp} :
    g ∈ setGroup id state s ↔
      (∃ g' ∈ s, g'.id = id ∧ g = { g' with state := state }) ∨ g ∈ s ∧ g.id ≠ id := by
  rw [setGroup, List.mem_map]
  constructor
  · rintro ⟨g', hg', rfl⟩
    by_cases hid : g'.id = id
    · rw [if_pos hid]
      exact Or.inl ⟨g', hg', hid, rfl⟩
    · rw [if_neg hid]
      exact Or.inr ⟨hg', hid⟩
  · rintro (⟨g', hg', hid, rfl⟩ | ⟨hg, hid⟩)
    · exact ⟨g', hg', if_pos hid⟩
    · exact ⟨g, hg, if_neg hid⟩

theorem map_frame_setGroup : (setGroup id state s).map AluaGrp.frame = s.map AluaGrp.frame := by
  rw [setGroup, List.map_map]
  refine List.map_congr_left fun g _ => ?_
  rw [Function.comp_apply]
  split
  · rfl
  · rfl

theorem map_id_eq_of_frame (h : s.map AluaGrp.frame = groups.map AluaGrp.frame) :
    s.map AluaGrp.id = groups.map AluaGrp.id := by
  have hid := congrArg (List.map AluaGrp.id) h
  rwa [List.map_map, List.map_map] at hid

theorem tcmuGetEnabledPort_eq_of_frame (h : s.map AluaGrp.frame = groups.map AluaGrp.frame) :
    tcmuGetEnabledPort s = tcmuGetEnabledPort groups := by
  have hport := congrArg (List.findIdx? fun g => g.ports.any (fun b => b)) h
  rwa [List.findIdx?_map, List.findIdx?_map] at hport

/-- Standby never adds an optimized group. -/
theorem optimizedCount_setGroup_standby :
    optimizedCount (setGroup id 0x2 s) ≤ optimizedCount s := by
  rw [optimizedCount, setGroup, List.countP_map]
  refine List.countP_mono_left fun g _ hg => ?_
  rw [Function.comp_apply, decide_eq_true_eq, AluaGrp.Optimized] at hg
  split at hg
  · exact absurd hg (by simp)
  · exact decide_eq_true hg

/-- Groups that agree have at most one optimized group among them. -/
theorem Agreed.optimizedCount_le_one (h : Agreed id s) (hids : (s.map AluaGrp.id).Nodup) :
    optimizedCount s ≤ 1 := by
  refine le_trans ?_ (List.nodup_iff_count_le_one.mp hids id)
  rw [List.count, List.countP_map]
  refine List.countP_mono_left fun g hg hopt => ?_
  rw [decide_eq_true_eq, AluaGrp.Optimized, h g hg] at hopt
  rw [Function.comp_apply, beq_iff_eq]
  by_contra hne
  rw [if_neg hne] at hopt
  exact absurd hopt (by simp)

end Groups

/-! ### What the operations do to the groups

The groups are the state; the memory is that of the command. A write to configfs succeeds. The
device fails over explicitly, and what else other threads have made of its record is up to the
environment, and so are the answers of the callouts. -/

/-- The operations, over the groups in configfs. -/
def groupInterp (mem : Mem) : Prog.Interp Op Ans (List AluaGrp)
  | s, .aluaGrps, a => some (a.map fun _ => s, s)
  | s, .setAlua id state _, _ => some (true, setGroup id state s)
  | s, .mem, _ => some (mem, s)
  | s, .getRdev, r => some ({ r with failoverType := .explicit }, s)
  | s, _, a => some (a, s)

/-- The operation does not write to configfs. -/
def Op.KeepsGroups : Op → Prop
  | .setAlua .. => False
  | _ => True

/-- Only a write to configfs changes the groups. -/
theorem groupInterp_keeps {mem : Mem} {o : Op} (ho : o.KeepsGroups) {s s' : List AluaGrp}
    {a r : Ans o} (h : groupInterp mem s o a = some (r, s')) : s' = s := by
  cases o with
  | setAlua => exact ho.elim
  | _ =>
    simp only [groupInterp, Option.some.injEq, Prod.mk.injEq] at h
    exact h.2.symm

section Keeps

variable {h : TcmurHandler} {F : Fault → Prop}

/-- The program does not write to configfs, and every failure is in `F`. -/
def KeepsGroups {α : Type} (F : Fault → Prop) (p : Daemon α) : Prop :=
  p.All Op.KeepsGroups F fun _ => True

theorem keepsGroups_control {c : Control} (hc : c.defined h = true ∨ F .nullCallout) :
    KeepsGroups F (control h c) := by
  rw [control]
  split
  · exact Prog.all_ask trivial
  · rename_i hnot
    exact Prog.all_fail (hc.resolve_left hnot)

theorem keepsGroups_modifyRdev (f : TcmurDevice → TcmurDevice) : KeepsGroups F (modifyRdev f) :=
  Prog.all_bind (Prog.all_ask trivial) fun _ _ => Prog.all_ask trivial

theorem keepsGroups_lockRetry (hlock : h.lock = true) (tag retries : ℕ) :
    KeepsGroups F (lockRetry h tag retries) := by
  induction retries with
  | zero =>
    refine Prog.all_bind (keepsGroups_control (Or.inl hlock)) fun r _ => ?_
    dsimp only
    split
    · exact Prog.all_bind (Prog.all_ask trivial) fun _ _ => Prog.all_pure trivial
    · exact Prog.all_pure trivial
  | succ retries ih =>
    refine Prog.all_bind (keepsGroups_control (Or.inl hlock)) fun r _ => ?_
    dsimp only
    split
    · refine Prog.all_bind (Prog.all_ask trivial) fun reopened _ => ?_
      split
      · exact ih
      · exact Prog.all_bind (Prog.all_ask trivial) fun _ _ => Prog.all_pure trivial
    · split
      · exact Prog.all_bind (Prog.all_ask trivial) fun _ _ => Prog.all_pure trivial
      · exact Prog.all_pure trivial

theorem keepsGroups_tcmuAcquireDevLock (hlock : h.lock = true) (tag : ℕ) :
    KeepsGroups F (tcmuAcquireDevLock h tag) := by
  refine Prog.all_bind (Prog.all_ask trivial) fun empty _ => ?_
  dsimp only
  split
  · refine Prog.all_bind (keepsGroups_lockRetry hlock tag 1) fun ret _ => ?_
    exact Prog.all_bind (keepsGroups_modifyRdev _) fun _ _ => Prog.all_pure trivial
  · refine Prog.all_bind (Prog.all_pure (Q := fun _ => True) trivial) fun ret _ => ?_
    exact Prog.all_bind (keepsGroups_modifyRdev _) fun _ _ => Prog.all_pure trivial

theorem keepsGroups_tcmuReleaseDevLock (hF : F .nullCallout) :
    KeepsGroups F (tcmuReleaseDevLock h) := by
  refine Prog.all_bind (Prog.all_ask trivial) fun r _ => ?_
  split
  · exact Prog.all_pure trivial
  · exact Prog.all_bind (keepsGroups_control (Or.inr hF)) fun _ _ => keepsGroups_modifyRdev _

theorem keepsGroups_lockTagRetry (htag : h.getLockTag = true) (retries : ℕ) :
    KeepsGroups F (lockTagRetry h retries) := by
  induction retries with
  | zero =>
    refine Prog.all_bind (keepsGroups_control (Or.inl htag)) fun r _ => ?_
    dsimp only
    split
    · exact Prog.all_pure trivial
    · split
      · exact Prog.all_bind (Prog.all_ask trivial) fun _ _ =>
          Prog.all_bind (Prog.all_ask trivial) fun _ _ => Prog.all_pure trivial
      · exact Prog.all_bind (Prog.all_ask trivial) fun _ _ => Prog.all_pure trivial
  | succ retries ih =>
    refine Prog.all_bind (keepsGroups_control (Or.inl htag)) fun r _ => ?_
    dsimp only
    split
    · exact Prog.all_pure trivial
    · split
      · refine Prog.all_bind (Prog.all_ask trivial) fun reopened _ => ?_
        split
        · exact ih
        · exact Prog.all_bind (Prog.all_ask trivial) fun _ _ => Prog.all_pure trivial
      · exact Prog.all_bind (Prog.all_ask trivial) fun _ _ => Prog.all_pure trivial

theorem keepsGroups_tcmuGetLockTag (htag : h.getLockTag = true) :
    KeepsGroups F (tcmuGetLockTag h) := by
  refine Prog.all_bind (Prog.all_ask trivial) fun r _ => ?_
  split
  · exact Prog.all_pure trivial
  · exact keepsGroups_lockTagRetry htag 1

theorem keepsGroups_dropLostLock (aoGroupId enabledGroupId : ℕ) (group : AluaGrp) :
    KeepsGroups F (dropLostLock aoGroupId enabledGroupId group) := by
  rw [dropLostLock]
  split
  · exact keepsGroups_modifyRdev _
  · exact Prog.all_pure trivial

end Keeps

/-! ### Setting states, one group after the other -/

section Wp

variable {mem : Mem} {A : (o : Op) → Ans o → Prop} {E : Fault → List AluaGrp → Prop}
  {α : Type} {s : List AluaGrp}

/-- A program that does not write to configfs. -/
theorem wp_keepsGroups {F : Fault → Prop} {p : Daemon α} (hp : KeepsGroups F p)
    (hE : ∀ e, F e → E e s) :
    Prog.wp (groupInterp mem) A E p (fun _ s' => s' = s) s := by
  have hkeeps : ∀ o : Op, o.KeepsGroups → ∀ u a r u', u = s →
      groupInterp mem u o a = some (r, u') → u' = s :=
    fun o ho u a r u' hu hr => (groupInterp_keeps ho hr).trans hu
  have hfail : ∀ e u, F e → u = s → E e u := fun e u he hu => hu ▸ hE e he
  exact Prog.wp_mono (Prog.wp_of_all hp hkeeps hfail rfl) fun _ _ h => h.2

/-- A write to configfs. -/
theorem wp_aluaSetState {group : AluaGrp} {newState status : ℕ} :
    Prog.wp (groupInterp mem) A E (aluaSetState group newState status)
      (fun ret s' => ret = .ok ∧ s' = setGroup group.id newState s) s := by
  intro a _ r s' hr
  simp only [groupInterp, Option.some.injEq, Prod.mk.injEq] at hr
  obtain ⟨rfl, rfl⟩ := hr
  exact ⟨rfl, rfl⟩

/-- The loop of `tcmu_explicit_transition`: all groups become standby but that with index `i`. -/
theorem wp_standbyOthers {groups : List AluaGrp} {i : ℕ} {group : AluaGrp}
    (hgroup : groups[i]? = some group) (hs : s.map AluaGrp.frame = groups.map AluaGrp.frame) :
    Prog.wp (groupInterp mem) A E (groups.zipIdx.forM fun (other, j) => do
      if j ≠ i then
        let _ ← aluaSetState other 0x2 0x01)
      (fun _ s' => s'.map AluaGrp.frame = groups.map AluaGrp.frame ∧
        ∀ g ∈ s', g.state = 0x2 ∨ g.id = group.id) s := by
  -- a group is standby, or the loop still comes to it, or it is the one left out
  let J (l : List (AluaGrp × ℕ)) (s : List AluaGrp) : Prop :=
    s.map AluaGrp.frame = groups.map AluaGrp.frame ∧
      ∀ g ∈ s, g.state = 0x2 ∨ g.id = group.id ∨ ∃ x ∈ l, x.2 ≠ i ∧ x.1.id = g.id
  have hloop := Prog.wp_forM (I := groupInterp mem) (A := A) (E := E) (J := J)
    (f := fun x : AluaGrp × ℕ => do
      if x.2 ≠ i then
        let _ ← aluaSetState x.1 0x2 0x01) ?_ groups.zipIdx (s := s) ?_
  · refine Prog.wp_mono hloop fun _ s' h => ⟨h.1, fun g hg => ?_⟩
    rcases h.2 g hg with hstate | hid | ⟨x, hx, -⟩
    · exact Or.inl hstate
    · exact Or.inr hid
    · exact absurd hx (by simp)
  · rintro x l u ⟨hframe, hu⟩
    split
    · rename_i hne
      refine Prog.wp_seq wp_aluaSetState ?_
      rintro _ _ ⟨-, rfl⟩
      refine ⟨map_frame_setGroup.trans hframe, fun g hg => ?_⟩
      rcases mem_setGroup.mp hg with ⟨g', -, -, rfl⟩ | ⟨hgu, hid⟩
      · exact Or.inl rfl
      · refine (hu g hgu).imp_right (Or.imp_right ?_)
        rintro ⟨y, hy, hyi, hyid⟩
        rcases List.mem_cons.mp hy with rfl | hy
        · exact absurd hyid.symm hid
        · exact ⟨y, hy, hyi, hyid⟩
    · rename_i heq
      refine ⟨hframe, fun g hg => (hu g hg).imp_right (Or.imp_right ?_)⟩
      rintro ⟨y, hy, hyi, hyid⟩
      rcases List.mem_cons.mp hy with rfl | hy
      · exact absurd hyi heq
      · exact ⟨y, hy, hyi, hyid⟩
  · refine ⟨hs, fun g hg => Or.inr ?_⟩
    have hmem : g.id ∈ groups.map AluaGrp.id :=
      map_id_eq_of_frame hs ▸ List.mem_map_of_mem hg
    obtain ⟨o, ho, hoid⟩ := List.mem_map.mp hmem
    obtain ⟨j, hj⟩ := List.mem_iff_getElem?.mp ho
    by_cases hji : j = i
    · subst hji
      rw [hgroup, Option.some.injEq] at hj
      exact Or.inl (hj ▸ hoid).symm
    · exact Or.inr ⟨(o, j), List.mem_zipIdx_iff_getElem?.mpr hj, hji, hoid⟩

/-- What a command does at most: it sets a group to standby, or it makes all groups agree. -/
structure Kept (groups s : List AluaGrp) : Prop where
  /-- The groups are the same but for their states. -/
  frame : s.map AluaGrp.frame = groups.map AluaGrp.frame
  /-- At most one is optimized. -/
  one : optimizedCount s ≤ 1

theorem Kept.standby {groups : List AluaGrp} {id : ℕ} (h : Kept groups s) :
    Kept groups (setGroup id 0x2 s) :=
  ⟨map_frame_setGroup.trans h.frame, optimizedCount_setGroup_standby.trans h.one⟩

theorem kept_of_agreed {groups : List AluaGrp} {id : ℕ}
    (hids : (groups.map AluaGrp.id).Nodup) (hframe : s.map AluaGrp.frame = groups.map AluaGrp.frame)
    (h : Agreed id s) : Kept groups s :=
  ⟨hframe, h.optimizedCount_le_one (map_id_eq_of_frame hframe ▸ hids)⟩

/-- `tcmu_explicit_transition` keeps at most one group optimized, and makes the groups agree when it
succeeds in making its group optimized. -/
theorem wp_tcmuExplicitTransition {h : TcmurHandler} {groups : List AluaGrp} {i : ℕ}
    {group : AluaGrp} (hlock : h.lock = true) (hids : (groups.map AluaGrp.id).Nodup)
    (hgroup : groups[i]? = some group) (hE : ∀ e s, Kept groups s → E e s) (newState : ℕ)
    (hs : Kept groups s) :
    Prog.wp (groupInterp mem) A E (tcmuExplicitTransition h groups i group newState)
      (fun ret s' => Kept groups s' ∧ (ret = .ok → newState = 0x0 → Agreed group.id s')) s := by
  have hfault : ∀ e, True → E e s := fun e _ => hE e s hs
  unfold tcmuExplicitTransition
  split
  · exact ⟨hs, fun h => absurd h (by simp)⟩
  · split
    · rw [hlock]
      refine Prog.wp_seq (wp_keepsGroups (keepsGroups_tcmuAcquireDevLock hlock _) hfault) ?_
      rintro ret _ rfl
      split
      · exact ⟨hs, fun h => absurd h (by simp)⟩
      · split
        · exact ⟨hs, fun h => absurd h (by simp)⟩
        · refine Prog.wp_seq (wp_standbyOthers hgroup hs.frame) ?_
          rintro _ u ⟨hframe, hu⟩
          refine Prog.wp_mono wp_aluaSetState ?_
          rintro _ _ ⟨rfl, rfl⟩
          have hagreed : Agreed group.id (setGroup group.id 0x0 u) := by
            intro g hg
            rcases mem_setGroup.mp hg with ⟨g', -, hid, rfl⟩ | ⟨hgu, hne⟩
            · exact (if_pos hid).symm
            · rw [if_neg hne]
              exact (hu g hgu).resolve_right hne
          exact ⟨kept_of_agreed hids (map_frame_setGroup.trans hframe) hagreed,
            fun _ _ => hagreed⟩
    · refine Prog.wp_seq (wp_keepsGroups (keepsGroups_tcmuReleaseDevLock trivial) hfault) ?_
      rintro _ _ rfl
      refine Prog.wp_mono wp_aluaSetState ?_
      rintro _ _ ⟨rfl, rfl⟩
      exact ⟨hs.standby, fun _ h => absurd h (by simp)⟩
    · exact ⟨hs, fun h => absurd h (by simp)⟩

/-- The offset of the last descriptor in a parameter list of `n` bytes. -/
def lastDescriptor (n : ℕ) : ℕ := (n - 1) / 4 * 4

theorem lastDescriptor_eq {n off : ℕ} (hoff : 4 ∣ off) (hle : n ≤ off) (hlt : off < n + 4)
    (hn : 4 < n) : off - 4 = lastDescriptor n := by
  rw [lastDescriptor]
  omega

/-- The loop over the descriptors, with what the descriptor before `off` has led to. -/
theorem wp_setTgtPortGrps {h : TcmurHandler} {groups : List AluaGrp} {enabled : ℕ}
    {group : AluaGrp} {param : Mem} {buf n : ℕ} (hlock : h.lock = true)
    (hids : (groups.map AluaGrp.id).Nodup) (hgroup : groups[enabled]? = some group)
    (hE : ∀ e s, Kept groups s → E e s) (fuel off : ℕ) (hfuel : n ≤ off + 4 * fuel)
    (hoff : 4 ∣ off) (hbound : 4 < off → off < n + 4) (hs : Kept groups s)
    (hlast : 4 < off → param.byte (buf + (off - 4)) &&& 0x0f = 0x0 → Agreed group.id s) :
    Prog.wp (groupInterp mem) A E (setTgtPortGrps h groups enabled param buf n fuel off)
      (fun ret s' => Kept groups s' ∧ (ret = .ok → 4 < n →
        param.byte (buf + lastDescriptor n) &&& 0x0f = 0x0 → Agreed group.id s')) s := by
  induction fuel generalizing off s with
  | zero =>
    refine ⟨hs, fun _ hn hopt => hlast (by omega) ?_⟩
    rwa [lastDescriptor_eq hoff (by omega) (hbound (by omega)) hn]
  | succ fuel ih =>
    rw [setTgtPortGrps]
    split
    · rename_i hend
      refine ⟨hs, fun _ hn hopt => hlast (by omega) ?_⟩
      rwa [lastDescriptor_eq hoff hend (hbound (by omega)) hn]
    · rename_i hgo
      split
      · exact ⟨hs, fun h => absurd h (by simp)⟩
      · rename_i i _
        split
        · exact ⟨hs, fun h => absurd h (by simp)⟩
        · rename_i hi
          rw [not_not.mp hi, hgroup]
          dsimp only
          refine Prog.wp_seq (wp_tcmuExplicitTransition hlock hids hgroup hE _ hs) ?_
          rintro ret u ⟨hu, hagreed⟩
          split
          · rename_i hret
            exact ⟨hu, fun h => absurd h hret⟩
          · rename_i hret
            refine ih (off + 4) (by omega) (by omega) (by omega) hu fun _ hopt => ?_
            exact hagreed (not_not.mp hret) hopt

/-- A byte of the parameter list, where `tcmu_memcpy_from_iovec` has put it. -/
theorem byte_copyParam {iov : List Iovec} {buf n i : ℕ} (hi : i < n) (hn : n ≤ iovTotal iov) :
    (copyParam mem buf n iov).byte (buf + i) = ((gather iov mem).getD i 0).toNat := by
  have hlen : i < (gather iov mem).length := by
    rw [length_gather]
    omega
  rw [Mem.byte, copyParam, Mem.store, if_pos (Nat.le_add_right _ _), Nat.add_sub_cancel_left,
    List.getD_eq_getElem?_getD, List.getD_eq_getElem?_getD, List.getElem?_take, if_pos hi,
    List.getElem?_eq_getElem hlen]
  rfl

/-- The parameter list of a `SET TARGET PORT GROUPS` ends with a descriptor that asks for
active/optimized. -/
def Request.EndsOptimized (c : Request) (mem : Mem) : Prop :=
  4 < xferLengthOf c.cdb ∧
    ((gather c.cmd.iov mem).getD (lastDescriptor (xferLengthOf c.cdb)) 0).toNat &&& 0x0f = 0x0

/-- `handle_stpg` keeps at most one group optimized. -/
theorem wp_handleStpg {c : Request} (hlock : c.dev.handler.lock = true)
    (hids : (s.map AluaGrp.id).Nodup) (hone : optimizedCount s ≤ 1)
    (hE : ∀ e s', Kept s s' → E e s') :
    Prog.wp (groupInterp mem) A E (handleStpg c)
      (fun ret s' => Kept s s' ∧ (ret = .ok → c.EndsOptimized mem →
        ∃ i group, tcmuGetEnabledPort s = some i ∧ s[i]? = some group ∧ Agreed group.id s')) s := by
  have hs : Kept s s := ⟨rfl, hone⟩
  refine Prog.wp_ask_bind.mpr fun a _ r s' hr => ?_
  simp only [groupInterp, Option.some.injEq, Prod.mk.injEq] at hr
  obtain ⟨rfl, rfl⟩ := hr
  cases a with
  | none => exact ⟨hs, fun h => absurd h (by simp)⟩
  | some _ =>
    rw [Option.map_some]
    dsimp only
    rw [tcmuEmulateSetTgtPortGrps]
    split
    · exact ⟨hs, fun h => absurd h (by simp)⟩
    · rename_i enabled hport
      obtain ⟨group, hgroup⟩ : ∃ group, s[enabled]? = some group := by
        obtain ⟨hlt, -⟩ := List.findIdx?_eq_some_iff_getElem.mp hport
        exact ⟨_, List.getElem?_eq_getElem hlt⟩
      dsimp only
      split
      · rename_i hzero
        exact ⟨hs, fun _ h => absurd h.1 (by omega)⟩
      · refine Prog.wp_seq (wp_keepsGroups (Prog.all_ask trivial) fun _ => False.elim) ?_
        rintro buf u rfl
        cases buf with
        | none => exact ⟨hs, fun h => absurd h (by simp)⟩
        | some buf =>
          dsimp only
          split
          · exact ⟨hs, fun h => absurd h (by simp)⟩
          · rename_i hcopied
            have hn : xferLengthOf c.cdb ≤ iovTotal c.cmd.iov := by
              rw [not_not, copiedParam] at hcopied
              omega
            refine Prog.wp_ask_bind.mpr fun a _ r s' hr => ?_
            simp only [groupInterp, Option.some.injEq, Prod.mk.injEq] at hr
            obtain ⟨rfl, rfl⟩ := hr
            refine Prog.wp_mono (wp_setTgtPortGrps hlock hids hgroup hE _ 4 (by omega) (by omega)
              (by omega) hs fun h => absurd h (by omega)) ?_
            rintro ret t ⟨ht, hagreed⟩
            refine ⟨ht, fun hret hends => ⟨enabled, group, hport, hgroup, ?_⟩⟩
            have hlt : lastDescriptor (xferLengthOf c.cdb) < xferLengthOf c.cdb := by
              rw [lastDescriptor]
              omega
            refine hagreed hret hends.1 ?_
            rw [byte_copyParam hlt hn]
            exact hends.2

/-- In the course of `alua_sync_state`, a group agrees with the lock tag, or it is still to come and
has not changed. -/
def SyncTodo (aoGroupId : ℕ) (l s : List AluaGrp) : Prop :=
  ∀ g ∈ s, g.state = (if g.id = aoGroupId then 0x0 else 0x2) ∨
    ∃ o ∈ l, o.id = g.id ∧ o.state = g.state

/-- One turn of the loop of `alua_sync_state`. -/
theorem wp_syncGroup {groups : List AluaGrp} {aoGroupId : ℕ} (enabledGroupId : ℕ) {group : AluaGrp}
    {l : List AluaGrp} (hs : s.map AluaGrp.frame = groups.map AluaGrp.frame)
    (h : SyncTodo aoGroupId (group :: l) s) :
    Prog.wp (groupInterp mem) A E (syncGroup aoGroupId enabledGroupId group)
      (fun _ s' => s'.map AluaGrp.frame = groups.map AluaGrp.frame ∧
        SyncTodo aoGroupId l s') s := by
  refine Prog.wp_seq (wp_keepsGroups (keepsGroups_dropLostLock _ _ _) fun _ => False.elim) ?_
  rintro _ u rfl
  have hrest : ∀ g ∈ u, g.id ≠ group.id → g.state = (if g.id = aoGroupId then 0x0 else 0x2) ∨
      ∃ o ∈ l, o.id = g.id ∧ o.state = g.state := by
    intro g hg hne
    refine (h g hg).imp_right ?_
    rintro ⟨o, ho, hid, hstate⟩
    rcases List.mem_cons.mp ho with rfl | ho
    · exact absurd hid.symm hne
    · exact ⟨o, ho, hid, hstate⟩
  dsimp only
  have htarget : ∀ {x : ℕ}, x = group.id →
      (if aoGroupId = group.id then 0x0 else 0x2) = if x = aoGroupId then 0x0 else 0x2 := by
    rintro x rfl
    simp only [eq_comm]
  generalize (if aoGroupId = group.id then 0x0 else 0x2) = target at htarget ⊢
  split
  · rename_i hstate
    refine ⟨hs, fun g hg => ?_⟩
    by_cases hid : g.id = group.id
    · rcases h g hg with hdone | ⟨o, ho, hoid, hostate⟩
      · exact Or.inl hdone
      · rcases List.mem_cons.mp ho with rfl | ho
        · rw [← hostate, ← hstate]
          exact Or.inl (htarget hid)
        · exact Or.inr ⟨o, ho, hoid, hostate⟩
    · exact hrest g hg hid
  · refine Prog.wp_seq wp_aluaSetState ?_
    rintro _ _ ⟨-, rfl⟩
    refine ⟨map_frame_setGroup.trans hs, fun g hg => ?_⟩
    rcases mem_setGroup.mp hg with ⟨g', -, hid, rfl⟩ | ⟨hgu, hne⟩
    · exact Or.inl (htarget hid)
    · exact hrest g hgu hne

/-- The loop of `alua_sync_state` makes the groups agree with the lock tag. -/
theorem wp_syncGroups (aoGroupId enabledGroupId : ℕ) :
    Prog.wp (groupInterp mem) A E (s.forM (syncGroup aoGroupId enabledGroupId))
      (fun _ s' => s'.map AluaGrp.frame = s.map AluaGrp.frame ∧ Agreed aoGroupId s') s := by
  have hloop := Prog.wp_forM (I := groupInterp mem) (A := A) (E := E)
    (J := fun l s' => s'.map AluaGrp.frame = s.map AluaGrp.frame ∧ SyncTodo aoGroupId l s')
    (f := syncGroup aoGroupId enabledGroupId)
    (fun group l u hu => wp_syncGroup enabledGroupId hu.1 hu.2) s (s := s)
    ⟨rfl, fun g hg => Or.inr ⟨g, hg, rfl, rfl⟩⟩
  refine Prog.wp_mono hloop fun _ s' h => ⟨h.1, fun g hg => ?_⟩
  exact (h.2 g hg).resolve_right fun ⟨o, ho, _⟩ => absurd ho (by simp)

/-- `handle_rtpg` keeps at most one group optimized. -/
theorem wp_handleRtpg {c : Request} (htag : c.dev.handler.getLockTag = true)
    (hids : (s.map AluaGrp.id).Nodup) (hone : optimizedCount s ≤ 1) :
    Prog.wp (groupInterp mem) A E (handleRtpg c) (fun _ s' => Kept s s') s := by
  have hs : Kept s s := ⟨rfl, hone⟩
  refine Prog.wp_ask_bind.mpr fun a _ r s' hr => ?_
  simp only [groupInterp, Option.some.injEq, Prod.mk.injEq] at hr
  obtain ⟨rfl, rfl⟩ := hr
  cases a with
  | none => exact hs
  | some _ =>
    rw [Option.map_some]
    dsimp only
    rw [tcmuEmulateReportTgtPortGrps]
    split
    · exact hs
    · split
      · exact hs
      · refine Prog.wp_seq (wp_keepsGroups (Prog.all_ask trivial) fun _ => False.elim) ?_
        rintro buf u rfl
        cases buf with
        | none => exact hs
        | some buf =>
          refine Prog.wp_seq (wp_keepsGroups (Prog.all_ask trivial) fun _ => False.elim) ?_
          rintro rdev t rfl
          split
          · exact hs
          · refine Prog.wp_seq (wp_keepsGroups (keepsGroups_tcmuGetLockTag htag)
                fun _ => False.elim) ?_
            rintro ⟨ret, tag⟩ v rfl
            dsimp only
            split
            · refine Prog.wp_seq (wp_syncGroups _ _) ?_
              rintro _ w ⟨hframe, hagreed⟩
              exact kept_of_agreed hids hframe hagreed
            · split
              · exact hs
              · refine Prog.wp_seq (wp_syncGroups _ _) ?_
                rintro _ w ⟨hframe, hagreed⟩
                exact kept_of_agreed hids hframe hagreed

end Wp

/-! ### Sequences of commands -/

/-- The two commands about target port groups. -/
inductive AluaKind where
  | set
  | report
  deriving DecidableEq, Repr

/-- A command about the target port groups of a device, with the memory its scatter list describes
and the environment it is handled in. -/
structure AluaCmd (dev : TcmuDev) where
  /-- Which of the two it is. -/
  kind : AluaKind
  /-- The request. -/
  req : Request
  /-- It was sent to the device. -/
  hdev : req.dev = dev
  /-- The memory. -/
  mem : Mem
  /-- The answers of the callouts, the allocator and other threads. -/
  env : Prog.Env Op Ans

variable {dev : TcmuDev}

/-- The function that handles the command. -/
def AluaCmd.handle (e : AluaCmd dev) : Daemon TcmuSts :=
  match e.kind with
  | .set => handleStpg e.req
  | .report => handleRtpg e.req

/-- What comes of the command, and of the groups. -/
def AluaCmd.exec (e : AluaCmd dev) (groups : List AluaGrp) :
    Option (Except Fault TcmuSts × List AluaGrp) :=
  e.handle.exec (groupInterp e.mem) e.env groups

/-- The groups after a command, however it ends. -/
def aluaStep (groups : List AluaGrp) (e : AluaCmd dev) : Option (List AluaGrp) :=
  (e.exec groups).map Prod.snd

section Commands

variable {s u : List AluaGrp}

/-- Every command ends. -/
theorem AluaCmd.exec_total (e : AluaCmd dev) (s : List AluaGrp) : ∃ x, e.exec s = some x := by
  refine Prog.exec_total (fun s o a => ?_) _ _ _
  cases o <;> exact ⟨_, rfl⟩

theorem AluaCmd.handler_eq (e : AluaCmd dev) : e.req.dev.handler = dev.handler := by
  rw [e.hdev]

/-- One command keeps at most one group optimized. -/
theorem kept_of_exec (hlock : dev.handler.lock = true) (htag : dev.handler.getLockTag = true)
    {e : AluaCmd dev} (hids : (s.map AluaGrp.id).Nodup) (hone : optimizedCount s ≤ 1)
    {x : Except Fault TcmuSts} (h : e.exec s = some (x, u)) : Kept s u := by
  have hwp : Prog.wp (groupInterp e.mem) (fun _ _ => True) (fun _ u => Kept s u) e.handle
      (fun _ u => Kept s u) s := by
    rw [AluaCmd.handle]
    cases e.kind with
    | set =>
      refine Prog.wp_mono (wp_handleStpg (e.handler_eq ▸ hlock) hids hone fun _ _ h => h) ?_
      exact fun _ _ h => h.1
    | report => exact wp_handleRtpg (e.handler_eq ▸ htag) hids hone
  rcases Prog.exec_of_wp hwp (fun _ _ => trivial) h with ⟨_, -, hu⟩ | ⟨_, -, hu⟩
  · exact hu
  · exact hu

/-- A `SET TARGET PORT GROUPS` that succeeds with a last descriptor for active/optimized. -/
theorem agreed_of_exec (hlock : dev.handler.lock = true) {e : AluaCmd dev} (hkind : e.kind = .set)
    (hids : (s.map AluaGrp.id).Nodup) (hone : optimizedCount s ≤ 1)
    (h : e.exec s = some (.ok .ok, u)) (hends : e.req.EndsOptimized e.mem) :
    ∃ i group, tcmuGetEnabledPort s = some i ∧ s[i]? = some group ∧ Agreed group.id u := by
  have hwp : Prog.wp (groupInterp e.mem) (fun _ _ => True) (fun _ u => Kept s u)
      (handleStpg e.req) _ s :=
    wp_handleStpg (e.handler_eq ▸ hlock) hids hone fun _ _ h => h
  rw [AluaCmd.exec, AluaCmd.handle, hkind] at h
  rcases Prog.exec_of_wp hwp (fun _ _ => trivial) h with ⟨_, hok, -, hu⟩ | ⟨_, herr, -⟩
  · cases hok
    exact hu rfl hends
  · exact absurd herr (by simp)

/-- In terms of the positions of the groups. -/
theorem Agreed.state_eq {group : AluaGrp} {i : ℕ} (h : Agreed group.id u)
    (hids : (s.map AluaGrp.id).Nodup) (hframe : u.map AluaGrp.frame = s.map AluaGrp.frame)
    (hgroup : s[i]? = some group) {j : ℕ} {g : AluaGrp} (hg : u[j]? = some g) :
    g.state = if j = i then 0x0 else 0x2 := by
  have hidj : (s.map AluaGrp.id)[j]? = some g.id := by
    rw [← map_id_eq_of_frame hframe, List.getElem?_map, hg, Option.map_some]
  have hidi : (s.map AluaGrp.id)[i]? = some group.id := by
    rw [List.getElem?_map, hgroup, Option.map_some]
  rw [h g (List.mem_of_getElem? hg)]
  by_cases hji : j = i
  · subst hji
    rw [hidj, Option.some.injEq] at hidi
    rw [if_pos rfl, if_pos hidi]
  · have hne : g.id ≠ group.id := by
      intro heq
      obtain ⟨hlt, -⟩ := List.getElem?_eq_some_iff.mp hidj
      exact hji ((List.getElem?_inj hlt hids).mp (by rw [hidj, hidi, heq]))
    rw [if_neg hji, if_neg hne]

/-- **At most one group is active/optimized** at the end of every command of every sequence. And if
a `SET TARGET PORT GROUPS` succeeds whose last descriptor asks for active/optimized, then the group
of the enabled port is optimized and all others are standby. -/
theorem one_group_optimized (hlock : dev.handler.lock = true)
    (htag : dev.handler.getLockTag = true) (hids : (s.map AluaGrp.id).Nodup)
    (hone : optimizedCount s ≤ 1) (es : List (AluaCmd dev)) :
    ∃ t, run aluaStep s es = some t ∧ optimizedCount t ≤ 1 ∧
      ∀ (e : AluaCmd dev) (u : List AluaGrp), e.kind = .set → e.exec t = some (.ok .ok, u) →
        e.req.EndsOptimized e.mem →
        ∃ i, tcmuGetEnabledPort u = some i ∧
          ∀ j g, u[j]? = some g → g.state = if j = i then 0x0 else 0x2 := by
  induction es generalizing s with
  | nil =>
    refine ⟨s, rfl, hone, fun e u hkind hexec hends => ?_⟩
    obtain ⟨i, group, hport, hgroup, hagreed⟩ := agreed_of_exec hlock hkind hids hone hexec hends
    have hframe := (kept_of_exec hlock htag hids hone hexec).frame
    refine ⟨i, (tcmuGetEnabledPort_eq_of_frame hframe).trans hport, fun j g hg => ?_⟩
    exact hagreed.state_eq hids hframe hgroup hg
  | cons e es ih =>
    obtain ⟨⟨x, u⟩, hexec⟩ := e.exec_total s
    have hkept := kept_of_exec hlock htag hids hone hexec
    obtain ⟨t, hrun, ht⟩ := ih (map_id_eq_of_frame hkept.frame ▸ hids) hkept.one
    refine ⟨t, ?_, ht⟩
    rw [run_cons, aluaStep, hexec]
    exact hrun

/-- The lock is granted. -/
def lockGranted (mem : Mem) : Prog.Env Op Ans := fun n o =>
  match o with
  | .control _ => (.ok, 1)
  | o => calm mem n o

/-- A handler with a lock. -/
def lockHandler : TcmurHandler :=
  { allocHandler with lock := true, unlock := true, getLockTag := true }

/-- `SET TARGET PORT GROUPS` with one descriptor: active/optimized for group 1. -/
def stpgCmd : AluaCmd (smallDev lockHandler) where
  kind := .set
  req := smallRequest lockHandler [0xa4, 0x0a, 0, 0, 0, 0, 0, 0, 0, 8, 0, 0] ⟨0x2000, 8⟩
  hdev := rfl
  mem := Mem.store (fun _ => 0) 0x2000 [0, 0, 0, 0, 0, 0, 0, 1]
  env := lockGranted fun _ => 0

/-- A local group on standby and a remote one that is optimized. -/
def twoGroups : List AluaGrp := [⟨1, 0x2, 0x05, [true]⟩, ⟨2, 0x0, 0x05, [false]⟩]

/-- The local group becomes optimized, and the remote one standby. -/
theorem one_group_optimized_stpg :
    (∃ t, run aluaStep twoGroups [stpgCmd, stpgCmd] = some t ∧ optimizedCount t ≤ 1) ∧
      stpgCmd.exec twoGroups =
        some (.ok .ok, [⟨1, 0x0, 0x05, [true]⟩, ⟨2, 0x2, 0x05, [false]⟩]) ∧
      stpgCmd.req.EndsOptimized stpgCmd.mem := by
  have hlock : (smallDev lockHandler).handler.lock = true := rfl
  obtain ⟨t, hrun, hone, -⟩ := one_group_optimized (s := twoGroups) hlock rfl (by decide)
    (by decide) [stpgCmd, stpgCmd]
  exact ⟨⟨t, hrun, hone⟩, by decide +kernel, by decide, by decide +kernel⟩

end Commands

end Tcmu

end LioProject
