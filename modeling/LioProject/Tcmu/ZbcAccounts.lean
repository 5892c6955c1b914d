import LioProject.Lib.Rank
import LioProject.Lib.Run
import LioProject.Tcmu.ZbcSteps

/-!
# Open zones are counted, and not too many

A zoned device counts its implicitly and its explicitly open zones. The counters always agree with
the conditions of the zones (`ZbcDev.Accounts`).

Their sum should not exceed `nr_open_zones`. Before a zone is opened, a check makes sure that the
limit can be kept, if need be by closing a zone that is implicitly open. Where all closed zones are
to be opened, there is one check for all of them. But a zone that is closed to make room on the way
is a closed zone, too. If the loop has not come to it yet, it is opened again, and nothing has been
gained. How many zones are opened in all, can be told from the conditions at the start
(`ZbcDev.opened`); and the limit is kept if and only if there are not too many
(`open_zones_counted_iff`).
-/

namespace LioProject

namespace Tcmu

/-! ### Accounts -/

/-- The counters agree with the conditions of the zones. -/
structure ZbcDev.Accounts (s : ZbcDev) : Prop where
  /-- There are as many descriptors as the header says. -/
  length : s.zones.length = s.header.nrZones
  nrZones : s.zones.length = s.nrZones
  lt : s.zones.length < 2 ^ 32
  /-- Conventional zones are never open. -/
  conv : ∀ z ∈ s.zones, z.conv = true → z.cond = .notWp
  imp : s.nrImpOpen = s.zones.countP ZbcZone.impOpen
  exp : s.nrExpOpen = s.zones.countP ZbcZone.expOpen

section Accounts

variable {s t : ZbcDev} {i : ℕ} {z : ZbcZone} {f : ZbcZone → ZbcZone}

theorem ZbcDev.Accounts.imp_lt (h : s.Accounts) : s.nrImpOpen < 2 ^ 32 :=
  h.imp ▸ List.countP_le_length.trans_lt h.lt

theorem ZbcDev.Accounts.exp_lt (h : s.Accounts) : s.nrExpOpen < 2 ^ 32 :=
  h.exp ▸ List.countP_le_length.trans_lt h.lt

theorem ZbcDev.Accounts.seq (h : s.Accounts) (hz : s.zones[i]? = some z)
    (hconv : z.conv = true → z.cond = .closed) : z.conv = false := by
  cases hc : z.conv with
  | false => rfl
  | true =>
    have hclosed := hconv hc
    rw [h.conv z (List.mem_of_getElem? hz) hc] at hclosed
    cases hclosed

/-- The accounts are kept if a counter changes with the condition of a zone. -/
theorem ZbcDev.Accounts.of_update (h : s.Accounts) (hfixed : t.fixed = s.fixed)
    (hz : s.zones[i]? = some z) (hzones : t.zones = (s.update i f).zones)
    (hconv : (f z).conv = true → (f z).cond = .notWp)
    (himp : t.nrImpOpen + (if z.impOpen then 1 else 0) =
      s.nrImpOpen + if (f z).impOpen then 1 else 0)
    (hexp : t.nrExpOpen + (if z.expOpen then 1 else 0) =
      s.nrExpOpen + if (f z).expOpen then 1 else 0) : t.Accounts := by
  have hcountImp := countP_update (f := f) ZbcZone.impOpen hz
  have hcountExp := countP_update (f := f) ZbcZone.expOpen hz
  have hlength := length_of_fixed hfixed
  refine ⟨?_, ?_, ?_, fun w hw => ?_, ?_, ?_⟩
  · rw [hlength, header_of_fixed hfixed, h.length]
  · rw [hlength, nrZones_of_fixed hfixed, h.nrZones]
  · rw [hlength]
    exact h.lt
  · rw [hzones] at hw
    rcases mem_update hw with hw | ⟨v, hv, rfl⟩
    · exact h.conv w hw
    · obtain rfl := Option.some.inj (hz.symm.trans hv)
      exact hconv
  · rw [← hzones, ← h.imp] at hcountImp
    omega
  · rw [← hzones, ← h.exp] at hcountExp
    omega

/-- A change that leaves open which zones are open. -/
theorem ZbcDev.Accounts.update (h : s.Accounts) (hfixed : ∀ z, (f z).fixed = z.fixed)
    (hz : s.zones[i]? = some z) (hconv : (f z).conv = true → (f z).cond = .notWp)
    (himp : (f z).impOpen = z.impOpen) (hexp : (f z).expOpen = z.expOpen) :
    (s.update i f).Accounts :=
  h.of_update (fixed_update f hfixed) hz rfl hconv (by rw [himp]; rfl) (by rw [hexp]; rfl)

theorem dec_add_one {n : ℕ} (hpos : 0 < n) (hlt : n < 2 ^ 32) :
    (n + 2 ^ 32 - 1) % 2 ^ 32 + 1 = n := by
  omega

theorem nrImpOpen_closeZoneAt_imp (h : s.Accounts) (hz : s.zones[i]? = some z)
    (hcond : z.cond = .impOpen) : s.decImpOpen.nrImpOpen + 1 = s.nrImpOpen := by
  have hpos : 0 < s.nrImpOpen :=
    h.imp ▸ List.countP_pos_iff.mpr ⟨z, List.mem_of_getElem? hz, decide_eq_true hcond⟩
  rw [ZbcDev.decImpOpen]
  exact dec_add_one hpos h.imp_lt

theorem nrExpOpen_closeZoneAt_exp (h : s.Accounts) (hz : s.zones[i]? = some z)
    (hcond : z.cond = .expOpen) : s.decExpOpen.nrExpOpen + 1 = s.nrExpOpen := by
  have hpos : 0 < s.nrExpOpen :=
    h.exp ▸ List.countP_pos_iff.mpr ⟨z, List.mem_of_getElem? hz, decide_eq_true hcond⟩
  rw [ZbcDev.decExpOpen]
  exact dec_add_one hpos h.exp_lt

theorem shut_impOpen (z : ZbcZone) : z.shut.impOpen = false :=
  (Bool.or_eq_false_iff.mp (shut_isOpen z)).1

theorem shut_expOpen (z : ZbcZone) : z.shut.expOpen = false :=
  (Bool.or_eq_false_iff.mp (shut_isOpen z)).2

theorem ZbcDev.Accounts.closeZoneAt (h : s.Accounts) (i : ℕ) : (s.closeZoneAt i).Accounts := by
  rcases closeZoneAt_cases s i with ⟨heq, -⟩ | ⟨z, hz, hconv, ⟨hcond, heq⟩ | ⟨hcond, heq⟩⟩
  · rwa [heq]
  · refine h.of_update (f := ZbcZone.shut) (fixed_closeZoneAt s i) hz ?_ ?_ ?_ ?_
    · rw [heq, ZbcDev.update, ZbcDev.update, zones_decImpOpen]
    · exact fun hc => absurd (hconv.symm.trans hc) (by decide)
    · have hdec := nrImpOpen_closeZoneAt_imp h hz hcond
      rw [heq, nrImpOpen_update, shut_impOpen, ZbcZone.impOpen, hcond]
      simpa using hdec
    · rw [heq, nrExpOpen_update, shut_expOpen, ZbcZone.expOpen, hcond, nrExpOpen_decImpOpen]
      rfl
  · refine h.of_update (f := ZbcZone.shut) (fixed_closeZoneAt s i) hz ?_ ?_ ?_ ?_
    · rw [heq, ZbcDev.update, ZbcDev.update, zones_decExpOpen]
    · exact fun hc => absurd (hconv.symm.trans hc) (by decide)
    · rw [heq, nrImpOpen_update, shut_impOpen, ZbcZone.impOpen, hcond, nrImpOpen_decExpOpen]
      rfl
    · have hdec := nrExpOpen_closeZoneAt_exp h hz hcond
      rw [heq, nrExpOpen_update, shut_expOpen, ZbcZone.expOpen, hcond]
      simpa using hdec

/-- A zone that is closed and then changed, and is not open after that either. -/
theorem ZbcDev.Accounts.closeZoneAt_update (h : s.Accounts) (hfixed : ∀ z, (f z).fixed = z.fixed)
    (hf : ∀ z, (f z).isOpen = false) (hz : s.zones[i]? = some z) (hconv : z.conv = false) :
    ((s.closeZoneAt i).update i f).Accounts := by
  obtain ⟨w, hw, hwconv, hopen⟩ := exists_closeZoneAt_self hz hconv
  have hfw := Bool.or_eq_false_iff.mp (hf w)
  have hopen := Bool.or_eq_false_iff.mp hopen
  refine (h.closeZoneAt i).update hfixed hw (fun hc => ?_) (hfw.1.trans hopen.1.symm)
    (hfw.2.trans hopen.2.symm)
  rw [conv_of_fixed (hfixed w), hwconv] at hc
  cases hc

theorem ZbcDev.Accounts.finishZoneAt (h : s.Accounts) (empty : Bool) (i : ℕ) :
    (s.finishZoneAt empty i).Accounts := by
  rcases finishZoneAt_cases s empty i with heq | ⟨z, hz, hconv, heq⟩
  · rwa [heq]
  · rw [heq]
    exact h.closeZoneAt_update (fun _ => rfl) (fun _ => rfl) hz hconv

theorem ZbcDev.Accounts.resetWpAt (h : s.Accounts) (i : ℕ) : (s.resetWpAt i).Accounts := by
  rcases resetWpAt_cases s i with heq | ⟨z, hz, hconv, heq⟩
  · rwa [heq]
  · rw [heq]
    exact h.closeZoneAt_update (fun _ => rfl) (fun _ => rfl) hz hconv

theorem ZbcDev.Accounts.makeRoom (h : s.Accounts) : s.makeRoom.Accounts := by
  rcases makeRoom_cases s with ⟨heq, -⟩ | ⟨-, j, -, heq⟩
  · rwa [heq]
  · rw [heq]
    exact h.closeZoneAt j

theorem inc_of_idle (hlt : s.zones.length < 2 ^ 32) {p : ZbcZone → Bool}
    (hz : s.zones[i]? = some z) (hp : p z = false) : s.zones.countP p + 1 < 2 ^ 32 := by
  have hne : s.zones.countP p ≠ s.zones.length := fun heq => by
    have hall := List.countP_eq_length.mp heq z (List.mem_of_getElem? hz)
    rw [hp] at hall
    cases hall
  have hle : s.zones.countP p ≤ s.zones.length := List.countP_le_length
  omega

theorem ZbcDev.Accounts.openZoneAt (h : s.Accounts) (hz : s.zones[i]? = some z)
    (hopen : z.isOpen = false) (hconv : z.conv = false) (explicit : Bool) :
    (s.openZoneAt i explicit).Accounts := by
  have hroom := h.makeRoom
  have hget := getElem?_makeRoom_idle hz hopen
  have hidle := Bool.or_eq_false_iff.mp hopen
  have hfixed : (s.openZoneAt i explicit).fixed = s.makeRoom.fixed := by
    rw [fixed_openZoneAt, fixed_makeRoom]
  cases explicit with
  | true =>
    rw [openZoneAt_idle hz hopen, if_pos rfl] at hfixed ⊢
    refine hroom.of_update (f := ZbcZone.withCond .expOpen) hfixed hget ?_ ?_ ?_ ?_
    · rw [ZbcDev.incExpOpen]
    · exact fun hc => absurd (hconv.symm.trans hc) (by decide)
    · rw [ZbcDev.incExpOpen, hidle.1]
      rfl
    · have hlt := inc_of_idle hroom.lt hget hidle.2
      rw [← hroom.exp] at hlt
      rw [ZbcDev.incExpOpen, hidle.2]
      exact Nat.mod_eq_of_lt hlt
  | false =>
    rw [openZoneAt_idle hz hopen, if_neg Bool.false_ne_true] at hfixed ⊢
    refine hroom.of_update (f := ZbcZone.withCond .impOpen) hfixed hget ?_ ?_ ?_ ?_
    · rw [ZbcDev.incImpOpen]
    · exact fun hc => absurd (hconv.symm.trans hc) (by decide)
    · have hlt := inc_of_idle hroom.lt hget hidle.1
      rw [← hroom.imp] at hlt
      rw [ZbcDev.incImpOpen, hidle.1]
      exact Nat.mod_eq_of_lt hlt
    · rw [ZbcDev.incImpOpen, hidle.2]
      rfl

theorem ZbcDev.Accounts.writeAdvance (h : s.Accounts) (i lba count : ℕ) :
    (s.writeAdvance i lba count).Accounts := by
  cases hz : s.zones[i]? with
  | none => rwa [writeAdvance_none hz]
  | some z =>
    have hwritten : (s.update i (ZbcZone.written lba count)).Accounts :=
      h.update (fun _ => rfl) hz (h.conv z (List.mem_of_getElem? hz)) rfl rfl
    rcases writeAdvance_cases s i lba count hz with ⟨-, heq⟩ | ⟨hconv, -, heq⟩
    · rwa [heq]
    · rw [heq]
      refine hwritten.closeZoneAt_update (z := z.written lba count) (fun _ => rfl) (fun _ => rfl) ?_
        hconv
      rw [getElem?_update_self, hz]
      rfl

end Accounts

/-! ### The limit -/

/-- No more zones are open than the limit allows. -/
def ZbcDev.Within (s : ZbcDev) : Prop := s.nrImpOpen + s.nrExpOpen ≤ s.nrOpenZones

section Within

variable {s : ZbcDev} {i : ℕ} {z : ZbcZone}

/-- Closing a zone opens none. -/
theorem sum_closeZoneAt_le (h : s.Accounts) (i : ℕ) :
    (s.closeZoneAt i).nrImpOpen + (s.closeZoneAt i).nrExpOpen ≤ s.nrImpOpen + s.nrExpOpen := by
  rcases closeZoneAt_cases s i with ⟨heq, -⟩ | ⟨z, hz, -, ⟨hcond, heq⟩ | ⟨hcond, heq⟩⟩
  · rw [heq]
  · have hdec := nrImpOpen_closeZoneAt_imp h hz hcond
    rw [heq, nrImpOpen_update, nrExpOpen_update, nrExpOpen_decImpOpen]
    omega
  · have hdec := nrExpOpen_closeZoneAt_exp h hz hcond
    rw [heq, nrImpOpen_update, nrExpOpen_update, nrImpOpen_decExpOpen]
    omega

theorem ZbcDev.Within.closeZoneAt (h : s.Within) (hs : s.Accounts) (i : ℕ) :
    (s.closeZoneAt i).Within := by
  rw [ZbcDev.Within, nrOpenZones_closeZoneAt]
  exact (sum_closeZoneAt_le hs i).trans h

/-- Making room closes a zone that is implicitly open, if there is one and the limit is reached. -/
theorem makeRoom_spec (h : s.Accounts) :
    (s.makeRoom = s ∧ (s.nrImpOpen + s.nrExpOpen < s.nrOpenZones ∨ s.nrImpOpen = 0)) ∨
      ∃ j z, s.zones.findIdx? ZbcZone.impOpen = some j ∧ s.zones[j]? = some z ∧
        z.cond = .impOpen ∧ s.nrOpenZones ≤ s.nrImpOpen + s.nrExpOpen ∧
        s.makeRoom = s.decImpOpen.update j ZbcZone.shut := by
  rcases makeRoom_cases s with ⟨heq, hlt | hnone⟩ | ⟨hge, j, hj, heq⟩
  · exact Or.inl ⟨heq, Or.inl hlt⟩
  · refine Or.inl ⟨heq, Or.inr ?_⟩
    rw [h.imp]
    exact List.countP_eq_zero.mpr fun z hz => by rw [hnone z hz]; exact Bool.false_ne_true
  · refine Or.inr ?_
    obtain ⟨hlt, himp, -⟩ := List.findIdx?_eq_some_iff_getElem.mp hj
    have hz : s.zones[j]? = some s.zones[j] := List.getElem?_eq_getElem hlt
    have hcond : (s.zones[j]).cond = .impOpen := of_decide_eq_true himp
    refine ⟨j, s.zones[j], hj, hz, hcond, hge, heq.trans ?_⟩
    rcases closeZoneAt_cases s j with ⟨-, hnot⟩ | ⟨w, hw, -, ⟨-, hclose⟩ | ⟨hexp, -⟩⟩
    · rcases hnot _ hz with hconv | hopen
      · rw [h.conv _ (List.mem_of_getElem? hz) hconv] at hcond
        cases hcond
      · rw [ZbcZone.isOpen, himp] at hopen
        cases hopen
    · exact hclose
    · obtain rfl := Option.some.inj (hz.symm.trans hw)
      rw [hcond] at hexp
      cases hexp

/-- There is room for one more open zone, if not all that may be open are explicitly open. -/
theorem makeRoom_lt (h : s.Accounts) (hs : s.Within) (hexp : s.nrExpOpen < s.nrOpenZones) :
    s.makeRoom.nrImpOpen + s.makeRoom.nrExpOpen < s.nrOpenZones := by
  rcases makeRoom_spec h with ⟨heq, hlt⟩ | ⟨j, z, -, hz, hcond, -, heq⟩
  · rw [heq]
    omega
  · have hdec := nrImpOpen_closeZoneAt_imp h hz hcond
    have hs : s.nrImpOpen + s.nrExpOpen ≤ s.nrOpenZones := hs
    rw [heq, nrImpOpen_update, nrExpOpen_update, nrExpOpen_decImpOpen]
    omega

/-- How the counters change when a zone is opened. -/
theorem counters_openZoneAt (h : s.Accounts) (hz : s.zones[i]? = some z) (hopen : z.isOpen = false)
    (explicit : Bool) :
    (s.openZoneAt i explicit).nrImpOpen = s.makeRoom.nrImpOpen + (if explicit then 0 else 1) ∧
      (s.openZoneAt i explicit).nrExpOpen = s.nrExpOpen + if explicit then 1 else 0 := by
  have hroom := h.makeRoom
  have hget := getElem?_makeRoom_idle hz hopen
  have hidle := Bool.or_eq_false_iff.mp hopen
  have himp := inc_of_idle hroom.lt hget hidle.1
  have hexp := inc_of_idle hroom.lt hget hidle.2
  rw [← hroom.imp] at himp
  rw [← hroom.exp, nrExpOpen_makeRoom s] at hexp
  rw [openZoneAt_idle hz hopen]
  cases explicit with
  | true =>
    rw [if_pos rfl, ZbcDev.incExpOpen]
    refine ⟨rfl, ?_⟩
    dsimp only
    rw [nrExpOpen_update, nrExpOpen_makeRoom s]
    exact Nat.mod_eq_of_lt hexp
  | false =>
    rw [if_neg Bool.false_ne_true, ZbcDev.incImpOpen]
    refine ⟨Nat.mod_eq_of_lt himp, ?_⟩
    dsimp only
    rw [nrExpOpen_update, nrExpOpen_makeRoom s]
    rfl

theorem ZbcDev.Within.openZoneAt (hs : s.Within) (h : s.Accounts)
    (hexp : s.nrExpOpen < s.nrOpenZones) (hz : s.zones[i]? = some z) (hopen : z.isOpen = false)
    (explicit : Bool) : (s.openZoneAt i explicit).Within := by
  have hlt := makeRoom_lt h hs hexp
  obtain ⟨himp, hcount⟩ := counters_openZoneAt h hz hopen explicit
  rw [nrExpOpen_makeRoom s] at hlt
  rw [ZbcDev.Within, himp, hcount, nrOpenZones_of_fixed (fixed_openZoneAt s i explicit)]
  cases explicit with
  | true => simpa using by omega
  | false => simpa using by omega

end Within

/-! ### Opening all closed zones -/

/-- How many more zones can be open before one has to be closed. -/
def ZbcDev.room (s : ZbcDev) : ℕ := s.nrOpenZones - (s.nrImpOpen + s.nrExpOpen)

/-- How many zones are implicitly open in front of a zone. They are closed one after the other when
there is no room left. -/
def ZbcDev.impRank (s : ZbcDev) (i : ℕ) : ℕ := rank ZbcZone.impOpen s.zones i

/-- The turn of a zone comes when `n` zones have been opened: it opens the zone if it is closed, or
if it has been closed to make room, and was not empty. -/
def ZbcDev.TurnOpens (s : ZbcDev) (n i : ℕ) (z : ZbcZone) : Prop :=
  z.cond = .closed ∨ (z.cond = .impOpen ∧ z.wp ≠ z.start ∧ s.impRank i + s.room < n)

instance (s : ZbcDev) (n i : ℕ) (z : ZbcZone) : Decidable (s.TurnOpens n i z) :=
  inferInstanceAs (Decidable (_ ∨ _))

/-- How many zones are opened in `k` turns. -/
def ZbcDev.opened (s : ZbcDev) : ℕ → ℕ
  | 0 => 0
  | k + 1 => s.opened k + if ∃ z ∈ s.zones[k]?, s.TurnOpens (s.opened k) k z then 1 else 0

/-- Not too many zones are opened when all that are closed are opened. -/
def ZbcDev.OpenAllFits (s : ZbcDev) : Prop := s.nrExpOpen + s.opened s.nrZones ≤ s.nrOpenZones

instance (s : ZbcDev) : Decidable s.OpenAllFits := inferInstanceAs (Decidable (_ ≤ _))

/-- The loop after `k` turns, seen from the start: the implicitly open zones up to a rank have been
closed. -/
structure AfterTurns (s : ZbcDev) (k : ℕ) (t : ZbcDev) : Prop where
  accounts : t.Accounts
  fixed : t.fixed = s.fixed
  exp : t.nrExpOpen = s.nrExpOpen + s.opened k
  imp : t.nrImpOpen + (s.opened k - s.room) = s.nrImpOpen
  /-- Which zones are implicitly open. -/
  open_iff : ∀ j z w, s.zones[j]? = some z → t.zones[j]? = some w →
    (w.cond = .impOpen ↔ z.cond = .impOpen ∧ s.opened k ≤ s.impRank j + s.room)
  /-- The zones that the loop has not come to. -/
  later : ∀ j z, k ≤ j → s.zones[j]? = some z → t.zones[j]? =
    some (if z.cond = .impOpen ∧ s.impRank j + s.room < s.opened k then z.shut else z)

section AfterTurns

variable {s t : ZbcDev} {k j : ℕ} {z w : ZbcZone}

theorem opened_succ (hz : s.zones[k]? = some z) :
    s.opened (k + 1) = s.opened k + if s.TurnOpens (s.opened k) k z then 1 else 0 := by
  rw [ZbcDev.opened, hz]
  simp

theorem opened_succ_none (hz : s.zones[k]? = none) : s.opened (k + 1) = s.opened k := by
  rw [ZbcDev.opened, hz]
  simp

theorem opened_le_succ (s : ZbcDev) (k : ℕ) : s.opened k ≤ s.opened (k + 1) := by
  rw [ZbcDev.opened]
  exact Nat.le_add_right _ _

theorem opened_mono (s : ZbcDev) : Monotone s.opened := monotone_nat_of_le_succ (opened_le_succ s)

theorem impRank_eq (s : ZbcDev) (i : ℕ) : s.impRank i = rank ZbcZone.impOpen s.zones i := rfl

theorem AfterTurns.start (hs : s.Accounts) : AfterTurns s 0 s := by
  refine ⟨hs, rfl, rfl, ?_, fun j z w hz hw => ?_, fun j z _ hz => ?_⟩
  · rw [ZbcDev.opened, Nat.zero_sub, Nat.add_zero]
  · obtain rfl := Option.some.inj (hz.symm.trans hw)
    rw [ZbcDev.opened]
    exact ⟨fun h => ⟨h, Nat.zero_le _⟩, And.left⟩
  · rw [ZbcDev.opened, if_neg fun h => Nat.not_lt_zero _ h.2, hz]

/-- Whether a turn opens its zone can be told from the start. -/
theorem AfterTurns.closed_iff (h : AfterTurns s k t) (hz : s.zones[k]? = some z) :
    t.zones[k]?.any ZbcZone.closed = true ↔ s.TurnOpens (s.opened k) k z := by
  rw [h.later k z le_rfl hz, Option.any_some, ZbcZone.closed, decide_eq_true_iff,
    ZbcDev.TurnOpens]
  split
  · rename_i hshut
    rw [ZbcZone.shut, hshut.1]
    by_cases hwp : z.wp = z.start
    · rw [if_pos hwp]
      simp [ZbcZone.withCond, hwp]
    · rw [if_neg hwp]
      simp [ZbcZone.withCond, hwp, hshut.2]
  · rename_i hshut
    refine ⟨Or.inl, fun hturn => hturn.resolve_right fun himp => hshut ⟨himp.1, himp.2.2⟩⟩

/-- A turn that opens no zone. -/
theorem AfterTurns.skip (h : AfterTurns s k t) (hopened : s.opened (k + 1) = s.opened k) :
    AfterTurns s (k + 1) t := by
  refine ⟨h.accounts, h.fixed, ?_, ?_, ?_, fun j z hj hz => ?_⟩
  · rw [hopened, h.exp]
  · rw [hopened, h.imp]
  · rw [hopened]
    exact h.open_iff
  · rw [hopened]
    exact h.later j z (Nat.le_of_succ_le hj) hz

/-- Making room closes the zone that comes next. -/
def ClosesNext (s : ZbcDev) (k : ℕ) (t : ZbcDev) : Prop :=
  t.makeRoom.nrImpOpen + (s.opened k + 1 - s.room) = s.nrImpOpen ∧
    ∀ j z w, s.zones[j]? = some z → t.zones[j]? = some w → t.makeRoom.zones[j]? =
      some (if z.cond = .impOpen ∧ s.impRank j + s.room = s.opened k then w.shut else w)

theorem AfterTurns.closesNext (h : AfterTurns s k t) (hs : s.Within)
    (hexp : s.nrExpOpen + s.opened k < s.nrOpenZones) : ClosesNext s k t := by
  have hlimit := nrOpenZones_of_fixed h.fixed
  have hcount := h.exp
  have himp := h.imp
  have hs : s.nrImpOpen + s.nrExpOpen ≤ s.nrOpenZones := hs
  have hroom : s.room = s.nrOpenZones - (s.nrImpOpen + s.nrExpOpen) := rfl
  rcases makeRoom_spec h.accounts with ⟨heq, hlt⟩ | ⟨m, v, hfind, hv, hcond, hge, heq⟩
  · -- There is room, and no zone has to be closed.
    have hfree : s.opened k < s.room := by omega
    refine ⟨?_, fun j z w hz hw => ?_⟩
    · rw [heq]
      omega
    · rw [heq, hw, if_neg fun hc => by omega]
  · have hfull : s.room ≤ s.opened k := by omega
    have hdec := nrImpOpen_closeZoneAt_imp h.accounts hv hcond
    obtain ⟨u, hu, -⟩ := getElem?_of_fixed h.fixed.symm hv
    obtain ⟨hucond, hurank⟩ := (h.open_iff m u v hu hv).mp hcond
    have huimp : u.impOpen = true := decide_eq_true hucond
    -- The first zone that is implicitly open now has the next rank.
    have hnext : s.impRank m + s.room = s.opened k := by
      by_contra hne
      have hlt : s.opened k - s.room < rank ZbcZone.impOpen s.zones m := by
        rw [← impRank_eq]
        omega
      obtain ⟨i, a, him, ha, haimp, harank⟩ := exists_rank_eq hlt
      obtain ⟨b, hb, -⟩ := getElem?_of_fixed h.fixed ha
      have hbcond : b.cond = .impOpen := (h.open_iff i a b ha hb).mpr
        ⟨of_decide_eq_true haimp, by rw [impRank_eq, harank]; omega⟩
      obtain ⟨hm, -, hfirst⟩ := List.findIdx?_eq_some_iff_getElem.mp hfind
      obtain ⟨hi, hget⟩ := List.getElem?_eq_some_iff.mp hb
      have hnot := hfirst i him
      rw [hget, ZbcZone.impOpen, hbcond] at hnot
      exact hnot rfl
    refine ⟨?_, fun j z w hz hw => ?_⟩
    · rw [heq, nrImpOpen_update]
      omega
    · rw [heq]
      by_cases hjm : m = j
      · subst hjm
        obtain rfl := Option.some.inj (hz.symm.trans hu)
        rw [getElem?_update_self, zones_decImpOpen, hw, if_pos ⟨hucond, hnext⟩]
        rfl
      · rw [getElem?_update_of_ne hjm, zones_decImpOpen, hw, if_neg fun hc => ?_]
        refine hjm (rank_inj hu hz huimp (decide_eq_true hc.1) ?_)
        have hrank := hc.2
        rw [impRank_eq] at hnext hrank
        omega

/-- A turn that opens a zone. -/
theorem AfterTurns.open (h : AfterTurns s k t) (hz : s.zones[k]? = some z)
    (hturn : s.TurnOpens (s.opened k) k z) (hw : t.zones[k]? = some w) (hopen : w.isOpen = false)
    (hconv : w.conv = false) (hnext : ClosesNext s k t) :
    AfterTurns s (k + 1) (t.openZoneAt k true) := by
  have hopened : s.opened (k + 1) = s.opened k + 1 := by rw [opened_succ hz, if_pos hturn]
  obtain ⟨himp, hexp⟩ := counters_openZoneAt h.accounts hw hopen true
  refine ⟨h.accounts.openZoneAt hw hopen hconv true, ?_, ?_, ?_, fun j v u hv hu => ?_,
    fun j v hj hv => ?_⟩
  · rw [fixed_openZoneAt, h.fixed]
  · rw [hexp, hopened, h.exp, if_pos rfl, Nat.add_assoc]
  · rw [himp, hopened, if_pos rfl, Nat.add_zero]
    exact hnext.1
  · rw [getElem?_openZoneAt hw hopen true] at hu
    rw [hopened]
    split at hu
    · -- The zone of this turn: it has been closed before.
      rename_i hjk
      obtain rfl := Option.some.inj hu
      subst hjk
      obtain rfl := Option.some.inj (hz.symm.trans hv)
      refine ⟨nofun, fun hc => ?_⟩
      rcases hturn with hclosed | ⟨-, -, hrank⟩
      · rw [hc.1] at hclosed
        cases hclosed
      · omega
    · obtain ⟨x, hx, -⟩ := getElem?_of_fixed h.fixed hv
      rw [hnext.2 j v x hv hx] at hu
      obtain rfl := Option.some.inj hu
      have hbefore := h.open_iff j v x hv hx
      split
      · rename_i hc
        refine ⟨fun hshut => ?_, fun hc' => by omega⟩
        have hnot := shut_impOpen x
        rw [ZbcZone.impOpen, hshut] at hnot
        cases hnot
      · rename_i hc
        rw [hbefore]
        refine and_congr_right fun hv => ?_
        have hne : s.impRank j + s.room ≠ s.opened k := fun heq => hc ⟨hv, heq⟩
        omega
  · rw [getElem?_openZoneAt hw hopen true, if_neg (by omega), hopened,
      hnext.2 j v _ hv (h.later j v (by omega) hv)]
    by_cases hv : v.cond = .impOpen
    · by_cases hlt : s.impRank j + s.room < s.opened k
      · rw [if_neg fun hc => by omega, if_pos ⟨hv, hlt⟩, if_pos ⟨hv, by omega⟩]
      · by_cases heq : s.impRank j + s.room = s.opened k
        · rw [if_pos ⟨hv, heq⟩, if_neg fun hc => hlt hc.2, if_pos ⟨hv, by omega⟩]
        · rw [if_neg fun hc => heq hc.2, if_neg fun hc => hlt hc.2, if_neg fun hc => by omega]
    · rw [if_neg fun hc => hv hc.1, if_neg fun hc => hv hc.1, if_neg fun hc => hv hc.1]

/-- **A turn of the loop.** -/
theorem AfterTurns.step (h : AfterTurns s k t) (hs : s.Within)
    (hfit : s.nrExpOpen + s.opened (k + 1) ≤ s.nrOpenZones) :
    AfterTurns s (k + 1) (t.openIfClosed k) := by
  rw [ZbcDev.openIfClosed]
  cases hz : s.zones[k]? with
  | none =>
    have hnone : t.zones[k]? = none := by
      rw [List.getElem?_eq_none_iff] at hz ⊢
      rwa [length_of_fixed h.fixed]
    rw [hnone]
    exact h.skip (opened_succ_none hz)
  | some z =>
    by_cases hturn : s.TurnOpens (s.opened k) k z
    · have hclosed := (h.closed_iff hz).mpr hturn
      have hopened : s.opened (k + 1) = s.opened k + 1 := by rw [opened_succ hz, if_pos hturn]
      obtain ⟨w, hw, hcond⟩ := (Option.any_eq_true _ _).mp hclosed
      have hcond : w.cond = .closed := of_decide_eq_true hcond
      rw [if_pos hclosed]
      exact h.open hz hturn hw (closed_isOpen hcond) (h.accounts.seq hw fun _ => hcond)
        (h.closesNext hs (by omega))
    · rw [if_neg fun hc => hturn ((h.closed_iff hz).mp hc)]
      exact h.skip (by rw [opened_succ hz, if_neg hturn, Nat.add_zero])

/-- **The loop**, as long as not too many zones are opened. -/
theorem AfterTurns.turns (hs : s.Accounts) (hwithin : s.Within) :
    ∀ {k : ℕ}, s.nrExpOpen + s.opened k ≤ s.nrOpenZones → AfterTurns s k (s.openTurns k)
  | 0, _ => AfterTurns.start hs
  | k + 1, hfit => by
    have hle := opened_le_succ s k
    rw [openTurns_succ]
    exact (AfterTurns.turns hs hwithin (by omega)).step hwithin hfit

end AfterTurns

/-! ### Runs -/

section Kept

variable {s : ZbcDev} {i : ℕ} {z : ZbcZone}

theorem accounts_keptByOut : KeptByOut ZbcDev.Accounts fun _ => True where
  close _ i h := h.closeZoneAt i
  finish _ empty i h := h.finishZoneAt empty i
  reset _ i h := h.resetWpAt i
  room _ _ := trivial
  openExp _ _ _ h _ hz hopen _ hconv := h.openZoneAt hz hopen (h.seq hz hconv) true

theorem accounts_keptByWrite : KeptByWrite ZbcDev.Accounts where
  openImp _ _ _ h _ hz hconv hopen := h.openZoneAt hz hopen hconv false
  advance _ i lba count h := h.writeAdvance i lba count

/-- A zone that is closed and then changed opens none. -/
theorem ZbcDev.Within.closeZoneAt_update (hs : s.Within) (h : s.Accounts) (i : ℕ)
    (f : ZbcZone → ZbcZone) : ((s.closeZoneAt i).update i f).Within :=
  hs.closeZoneAt h i

theorem within_keptByOut : KeptByOut (fun s => s.Accounts ∧ s.Within) fun s =>
    s.nrExpOpen < s.nrOpenZones where
  close _ i h := ⟨h.1.closeZoneAt i, h.2.closeZoneAt h.1 i⟩
  finish s empty i h := by
    refine ⟨h.1.finishZoneAt empty i, ?_⟩
    rcases finishZoneAt_cases s empty i with heq | ⟨z, -, -, heq⟩
    · rw [heq]
      exact h.2
    · rw [heq]
      exact h.2.closeZoneAt_update h.1 i _
  reset s i h := by
    refine ⟨h.1.resetWpAt i, ?_⟩
    rcases resetWpAt_cases s i with heq | ⟨z, -, -, heq⟩
    · rw [heq]
      exact h.2
    · rw [heq]
      exact h.2.closeZoneAt_update h.1 i _
  room _ h := h
  openExp _ _ _ h hroom hz hopen _ hconv :=
    ⟨h.1.openZoneAt hz hopen (h.1.seq hz hconv) true, h.2.openZoneAt h.1 hroom hz hopen true⟩

theorem within_keptByWrite : KeptByWrite fun s => s.Accounts ∧ s.Within where
  openImp _ _ _ h hroom hz hconv hopen :=
    ⟨h.1.openZoneAt hz hopen hconv false, h.2.openZoneAt h.1 hroom hz hopen false⟩
  advance s i lba count h := by
    refine ⟨h.1.writeAdvance i lba count, ?_⟩
    cases hz : s.zones[i]? with
    | none =>
      rw [writeAdvance_none hz]
      exact h.2
    | some z =>
      have hwritten : (s.update i (ZbcZone.written lba count)).Accounts :=
        h.1.update (fun _ => rfl) hz (h.1.conv z (List.mem_of_getElem? hz)) rfl rfl
      rcases writeAdvance_cases s i lba count hz with ⟨-, heq⟩ | ⟨-, -, heq⟩
      · rw [heq]
        exact h.2
      · rw [heq]
        exact ZbcDev.Within.closeZoneAt_update (s := s.update i _) h.2 hwritten i _

theorem ZbcDev.Accounts.openTurns (h : s.Accounts) (n : ℕ) : (s.openTurns n).Accounts :=
  accounts_keptByOut.openTurns h n fun _ _ _ => trivial

/-- A turn never closes an explicitly open zone. -/
theorem nrExpOpen_openTurns_succ (h : s.Accounts) (n : ℕ) :
    (s.openTurns (n + 1)).nrExpOpen = (s.openTurns n).nrExpOpen +
      if (s.openTurns n).zones[n]?.any ZbcZone.closed then 1 else 0 := by
  rw [openTurns_succ, ZbcDev.openIfClosed]
  split
  · rename_i hclosed
    obtain ⟨z, hz, hcond⟩ := (Option.any_eq_true _ _).mp hclosed
    exact (counters_openZoneAt (h.openTurns n) hz (closed_isOpen (of_decide_eq_true hcond)) true).2
  · rfl

/-- Once there are too many explicitly open zones, it stays so. -/
theorem openTurns_exceeds (h : s.Accounts) (hs : s.Within) (n : ℕ)
    (hlt : s.nrOpenZones < s.nrExpOpen + s.opened n) :
    s.nrOpenZones < (s.openTurns n).nrExpOpen := by
  have hwithin : s.nrImpOpen + s.nrExpOpen ≤ s.nrOpenZones := hs
  induction n with
  | zero =>
    rw [ZbcDev.opened] at hlt
    omega
  | succ n ih =>
    rw [nrExpOpen_openTurns_succ h]
    by_cases hbefore : s.nrOpenZones < s.nrExpOpen + s.opened n
    · exact Nat.lt_add_right _ (ih hbefore)
    · -- This is the turn that opens one zone too many.
      have hafter := AfterTurns.turns h hs (Nat.le_of_not_lt hbefore)
      have hexp := hafter.exp
      cases hz : s.zones[n]? with
      | none =>
        rw [opened_succ_none hz] at hlt
        exact absurd hlt hbefore
      | some z =>
        by_cases hturn : s.TurnOpens (s.opened n) n z
        · rw [opened_succ hz, if_pos hturn] at hlt
          rw [if_pos ((hafter.closed_iff hz).mpr hturn)]
          omega
        · rw [opened_succ hz, if_neg hturn] at hlt
          omega

/-- Opening all closed zones keeps the limit if and only if not too many are opened. -/
theorem openTurns_within_iff (h : s.Accounts) (hs : s.Within) (n : ℕ) :
    (s.openTurns n).Within ↔ s.nrExpOpen + s.opened n ≤ s.nrOpenZones := by
  have hwithin : s.nrImpOpen + s.nrExpOpen ≤ s.nrOpenZones := hs
  have hroom : s.room = s.nrOpenZones - (s.nrImpOpen + s.nrExpOpen) := rfl
  refine ⟨fun hle => ?_, fun hfit => ?_⟩
  · by_contra hlt
    have hle : (s.openTurns n).nrImpOpen + (s.openTurns n).nrExpOpen ≤
      (s.openTurns n).nrOpenZones := hle
    have hexp := openTurns_exceeds h hs n (Nat.lt_of_not_le hlt)
    rw [nrOpenZones_of_fixed (fixed_openTurns s n)] at hle
    omega
  · have hafter := AfterTurns.turns h hs hfit
    have hexp := hafter.exp
    have himp := hafter.imp
    rw [ZbcDev.Within, nrOpenZones_of_fixed hafter.fixed]
    omega

end Kept

section Open

variable {s d : ZbcDev} {cfg : ZbcConfig}

/-- Zones of which none is open, and counters that are zero. -/
theorem accounts_of_idle (hlength : s.zones.length = s.header.nrZones)
    (hnr : s.zones.length = s.nrZones) (hlt : s.zones.length < 2 ^ 32)
    (hconv : ∀ z ∈ s.zones, z.conv = true → z.cond = .notWp)
    (hidle : ∀ z ∈ s.zones, z.isOpen = false) (himp : s.nrImpOpen = 0) (hexp : s.nrExpOpen = 0) :
    s.Accounts ∧ s.Within := by
  have hzero : ∀ p : ZbcZone → Bool, (∀ z ∈ s.zones, p z = false) → s.zones.countP p = 0 :=
    fun p hp => List.countP_eq_zero.mpr fun z hz => by rw [hp z hz]; exact Bool.false_ne_true
  refine ⟨⟨hlength, hnr, hlt, hconv, ?_, ?_⟩, ?_⟩
  · rw [himp, hzero _ fun z hz => (Bool.or_eq_false_iff.mp (hidle z hz)).1]
  · rw [hexp, hzero _ fun z hz => (Bool.or_eq_false_iff.mp (hidle z hz)).2]
  · rw [ZbcDev.Within, himp, hexp]
    exact Nat.zero_le _

theorem accounts_zbcFormatMeta (h : zbcFormatMeta cfg = some s) : s.Accounts ∧ s.Within := by
  rw [zbcFormatMeta] at h
  split at h
  · cases h
  · cases h
    have hlength := length_formatZones cfg.header cfg.nrZones 0 0
    have hcond : ∀ z ∈ formatZones cfg.header cfg.nrZones 0 0,
        (z.conv = true → z.cond = .notWp) ∧ z.isOpen = false := by
      intro z hz
      obtain ⟨i, lba, rfl⟩ := mem_formatZones hz
      rcases formatZone_cond cfg.header i lba with ⟨-, -, hcond⟩ | ⟨-, hconv, hcond⟩
      · refine ⟨fun _ => hcond, ?_⟩
        rw [ZbcZone.isOpen, ZbcZone.impOpen, ZbcZone.expOpen, hcond]
        rfl
      · refine ⟨fun hc => absurd (hconv.symm.trans hc) (by decide), ?_⟩
        rw [ZbcZone.isOpen, ZbcZone.impOpen, ZbcZone.expOpen, hcond]
        rfl
    refine accounts_of_idle hlength hlength ?_ (fun z hz => (hcond z hz).1)
      (fun z hz => (hcond z hz).2) rfl rfl
    rw [hlength]
    exact Nat.mod_lt _ (by norm_num)

theorem accounts_zbcInitMeta (hlength : d.zones.length = d.header.nrZones)
    (hcheck : zbcCheckMeta cfg d = true) : (zbcInitMeta d).Accounts ∧ (zbcInitMeta d).Within := by
  rw [zbcCheckMeta, decide_eq_true_iff] at hcheck
  obtain ⟨-, -, -, -, -, hnr, -, -, -, hzones⟩ := hcheck
  have hinit := zones_zbcInitMeta hlength
  have hlength' : (zbcInitMeta d).zones.length = d.header.nrZones := by
    rw [hinit, List.length_map, hlength]
  have hconv : ∀ z ∈ d.zones, z.conv = true → z.cond = .notWp := by
    intro z hz hc
    have hz := List.all_eq_true.mp hzones z hz
    rw [zbcCheckZone, decide_eq_true_iff] at hz
    have hz := hz.2.2.1
    simpa [hc] using hz
  refine accounts_of_idle (by rw [header_zbcInitMeta, hlength']) ?_ ?_ ?_ ?_ rfl rfl
  · rw [hlength', nrZones_of_fixed (fixed_zbcInitMeta d)]
    rfl
  · rw [hlength', hnr]
    exact Nat.mod_lt _ (by norm_num)
  · intro z hz hc
    rw [hinit, List.mem_map] at hz
    obtain ⟨w, hw, rfl⟩ := hz
    have hwconv : w.conv = true := (conv_of_fixed (closedUp_fixed w)).symm.trans hc
    rw [ZbcZone.closedUp, if_neg fun hopen => absurd (hopen.1.symm.trans hwconv) (by decide)]
    exact hconv w hw hwconv
  · intro z hz
    rw [hinit, List.mem_map] at hz
    obtain ⟨w, hw, rfl⟩ := hz
    rw [ZbcZone.closedUp]
    split
    · exact shut_isOpen w
    · rename_i hopen
      by_contra hnot
      have hnot : w.isOpen = true := by simpa using hnot
      have hwconv : w.conv = true := by simpa [hnot] using hopen
      rw [ZbcZone.isOpen, ZbcZone.impOpen, ZbcZone.expOpen, hconv w hw hwconv] at hnot
      cases hnot

/-- A device that has been opened has no open zones, and counts none. -/
theorem accounts_zbcOpenBackstore (hlength : d.zones.length = d.header.nrZones)
    (h : zbcOpenBackstore cfg d = some s) : s.Accounts ∧ s.Within := by
  rw [zbcOpenBackstore] at h
  split at h
  · exact accounts_zbcFormatMeta h
  · rename_i hcheck
    cases h
    exact accounts_zbcInitMeta hlength (by simpa using (not_or.mp hcheck).2)

/-- Every event keeps the accounts. -/
theorem ZbcDev.Accounts.step {e : ZbcEvent} {t : ZbcDev} (h : s.Accounts)
    (hstep : s.step e = some t) : t.Accounts := by
  cases e with
  | out cdb =>
    cases hstep
    exact accounts_keptByOut.zbcOut h fun _ _ _ _ => trivial
  | write cdb iov rets =>
    obtain ⟨answer, hanswer, rfl⟩ := Option.map_eq_some_iff.mp hstep
    exact accounts_keptByWrite.zbcWrite h hanswer
  | reopen cfg => exact (accounts_zbcOpenBackstore h.length hstep).1

/-- If the event opens all closed zones, it does not open too many. -/
def ZbcDev.EventFits (s : ZbcDev) : ZbcEvent → Prop
  | .out cdb => s.OpensAll cdb → s.OpenAllFits
  | _ => True

instance (s : ZbcDev) : (e : ZbcEvent) → Decidable (s.EventFits e)
  | .out cdb => inferInstanceAs (Decidable (s.OpensAll cdb → s.OpenAllFits))
  | .write _ _ _ => isTrue trivial
  | .reopen _ => isTrue trivial

/-- The limit is kept by every event that does not open too many zones. -/
theorem within_step {e : ZbcEvent} {t : ZbcDev} (h : s.Accounts ∧ s.Within) (hfits : s.EventFits e)
    (hstep : s.step e = some t) : t.Accounts ∧ t.Within := by
  cases e with
  | out cdb =>
    cases hstep
    refine within_keptByOut.zbcOut h fun hall k hk hclosed => ?_
    -- Up to this turn the count from the start is right, and it goes on to count this zone.
    have hfit : s.nrExpOpen + s.opened s.nrZones ≤ s.nrOpenZones := hfits hall
    have hmono : s.opened (k + 1) ≤ s.opened s.nrZones := opened_mono s hk
    have hle := opened_le_succ s k
    have hafter := AfterTurns.turns h.1 h.2 (k := k) (by omega)
    have hexp := hafter.exp
    rw [nrOpenZones_of_fixed hafter.fixed]
    obtain ⟨w, hw, -⟩ := (Option.any_eq_true _ _).mp hclosed
    obtain ⟨z, hz, -⟩ := getElem?_of_fixed hafter.fixed.symm hw
    have hopened := opened_succ hz
    rw [if_pos ((hafter.closed_iff hz).mp hclosed)] at hopened
    omega
  | write cdb iov rets =>
    obtain ⟨answer, hanswer, rfl⟩ := Option.map_eq_some_iff.mp hstep
    exact within_keptByWrite.zbcWrite h hanswer
  | reopen cfg => exact accounts_zbcOpenBackstore h.1.length hstep

/-- An event that opens too many zones breaks the limit. -/
theorem exceeds_step {e : ZbcEvent} (h : s.Accounts ∧ s.Within) (hfits : ¬ s.EventFits e) :
    ∃ t, s.step e = some t ∧ ¬ t.Within := by
  cases e with
  | out cdb =>
    obtain ⟨hall, hnot⟩ := Classical.not_imp.mp hfits
    refine ⟨_, rfl, ?_⟩
    rw [ZbcDev.zbcOut, hall.1]
    change ¬ (s.zbcOpenZone cdb).1.Within
    rw [zbcOpenZone_all hall, openTurns_within_iff h.1 h.2]
    exact hnot
  | write cdb iov rets => exact absurd trivial hfits
  | reopen cfg => exact absurd trivial hfits

/-- The counters of a device that is new or has been opened again always agree with the conditions
of its zones. -/
theorem open_zones_counted (hlength : d.zones.length = d.header.nrZones)
    (hopen : zbcOpenBackstore cfg d = some s) {es : List ZbcEvent} {t : ZbcDev}
    (h : run ZbcDev.step s es = some t) : t.Accounts :=
  run_invariant (fun _ _ _ hs hstep => hs.step hstep) (accounts_zbcOpenBackstore hlength hopen).1 h

/-- **Open zones.** In a run from a device that is new or has been opened again, the counters are
the numbers of zones that are implicitly and explicitly open, and their sum keeps the limit, if and
only if none of the commands that open all closed zones opens too many. -/
theorem open_zones_counted_iff (hlength : d.zones.length = d.header.nrZones)
    (hopen : zbcOpenBackstore cfg d = some s) (es : List ZbcEvent) :
    (∀ fs t, fs <+: es → run ZbcDev.step s fs = some t →
      t.nrImpOpen = t.zones.countP ZbcZone.impOpen ∧
        t.nrExpOpen = t.zones.countP ZbcZone.expOpen ∧
          t.nrImpOpen + t.nrExpOpen ≤ t.nrOpenZones) ↔
      Meets ZbcDev.step ZbcDev.EventFits s es := by
  refine run_good_iff_meets
    (fun s (hs : s.Accounts ∧ s.Within) => ⟨hs.1.imp, hs.1.exp, hs.2⟩)
    (fun s e t hfits hs => within_step hs hfits)
    (fun s e hs hfits => ?_) (accounts_zbcOpenBackstore hlength hopen)
  obtain ⟨t, ht, hnot⟩ := exceeds_step hs hfits
  exact ⟨t, ht, fun hgood => hnot hgood.2.2⟩

end Open

/-- A device of eight zones of 256 blocks. Two zones may be open. -/
def eightZones (model : ZbcModel) : ZbcConfig :=
  { devSize := 8 * 2 ^ 20
    needFormat := true
    model := model
    lbaSize := 4096
    zoneExp := 20
    convNum := 0
    openNum := 2
    devSize_lt := by norm_num
    lbaSize_eq := Or.inr rfl
    zoneExp_mem := by norm_num
    convNum_lt := by norm_num
    openNum_mem := by norm_num }

/-- A file without metadata. -/
def blankFile : ZbcDev :=
  ⟨⟨0, .ha, 0, 0, 0, 0, 0, 0⟩, [], 0, .ha, 0, 0, 0, 0, 0, 0, 0, 0⟩

/-- `ZBC OUT`, with a service action, the first block of a zone of 256 blocks, and the bit for all
zones. -/
def zoneCdb (action zone all : UInt8) : Cdb :=
  [0x94, action, 0, 0, 0, 0, 0, 0, zone, 0, 0, 0, 0, 0, all, 0]

/-- `WRITE(16)` of the first block of a zone of 256 blocks. -/
def zoneWrite (zone : UInt8) (ret : ℤ) : ZbcEvent :=
  .write [0x8a, 0, 0, 0, 0, 0, 0, 0, zone, 0, 0, 0, 0, 1, 0, 0] [4096] [ret]

/-- Zone 0 is written and closed, and two more zones are written. Then all closed zones are to be
opened. -/
def closedInFront : List ZbcEvent :=
  [zoneWrite 0 4096, .out (zoneCdb 0x01 0 0), zoneWrite 1 4096, zoneWrite 2 4096,
    .out (zoneCdb 0x03 0 1)]

/-- Without the write to zone 2 there is room for both zones. -/
theorem open_zones_counted_opened : ∃ s, zbcOpenBackstore (eightZones .hm) blankFile = some s ∧
    ∀ fs t, fs <+: closedInFront.eraseIdx 3 → run ZbcDev.step s fs = some t →
      t.nrImpOpen = t.zones.countP ZbcZone.impOpen ∧
        t.nrExpOpen = t.zones.countP ZbcZone.expOpen ∧
          t.nrImpOpen + t.nrExpOpen ≤ t.nrOpenZones := by
  have hmeets : ∃ s, zbcOpenBackstore (eightZones .hm) blankFile = some s ∧
      Meets ZbcDev.step ZbcDev.EventFits s (closedInFront.eraseIdx 3) := ⟨_, rfl, by decide⟩
  obtain ⟨s, hs, hmeets⟩ := hmeets
  exact ⟨s, hs, (open_zones_counted_iff rfl hs _).mpr hmeets⟩

/-- Zones are opened, closed and opened all at once. -/
theorem open_zones_counted_eight : ∃ s t, zbcOpenBackstore (eightZones .hm) blankFile = some s ∧
    run ZbcDev.step s closedInFront = some t ∧ t.Accounts := by
  have hrun : ∃ s t, zbcOpenBackstore (eightZones .hm) blankFile = some s ∧
      run ZbcDev.step s closedInFront = some t := ⟨_, _, rfl, rfl⟩
  obtain ⟨s, t, hs, ht⟩ := hrun
  exact ⟨s, t, hs, ht, open_zones_counted rfl hs ht⟩

/-- To open zone 0, zone 1 is closed. Its turn comes next: it is opened, and zone 2 is closed. The
turn of zone 2 comes as well, and three zones are open. -/
theorem open_all_exceeds : ∃ s t, zbcOpenBackstore (eightZones .hm) blankFile = some s ∧
    run ZbcDev.step s closedInFront = some t ∧ t.nrOpenZones = 2 ∧
      t.nrImpOpen + t.nrExpOpen = 3 :=
  ⟨_, _, rfl, rfl, by decide, by decide⟩

end Tcmu

end LioProject
