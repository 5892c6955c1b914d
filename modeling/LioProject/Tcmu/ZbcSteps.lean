import LioProject.Tcmu.Zbc

/-!
# What the commands of a zoned device do

The zone commands and `zbc_write` are made of a few changes of a zone: it is closed, opened,
finished or reset, or its write pointer moves. What each of them does is said once here, and two
rules go from there to the commands. A property that the parts of the zone commands keep, is kept by
`zbc_out` (`KeptByOut.zbcOut`), and one that the parts of a write keep, is kept by `zbc_write`
(`KeptByWrite.zbcWrite`). For properties that do not hold in the middle of a write there is a rule
for its loop (`zbcWriteLoop_rule`).

No command changes the header, or where the zones are and of what type (`ZbcDev.fixed`).

## Steps and rules

The functions that change one zone call each other: a zone is closed before it is finished, and to
open one the first that is implicitly open may be closed. A lemma with `_cases` in its name says all
that such a function can do, its guards included (`closeZoneAt_cases`, `makeRoom_cases`,
`finishZoneAt_cases`, `resetWpAt_cases`, `writeAdvance_cases`), and one with `getElem?` says what
has become of each zone.

A property of devices is then proved of four or two parts, and not of a dozen commands with their
checks. `KeptByOut` has a parameter for what holds while a zone may be opened: `OPEN ZONE` for all
zones looks at the limit once, before it opens the first.

Writes come in turns, one for each zone that they reach into (`writeTurn_eq`), with a `pwrite` in
each of which the length is given. The rule for the loop has an invariant that may look at the
results of the writes that are still to come.

## Main definitions

* `ZbcDev.fixed`: what no command changes.
* `KeptByOut`, `KeptByWrite`: the parts of the commands keep a property.
* `ZbcDev.openTurns`: the first zones have been opened.

## Main results

* `KeptByOut.zbcOut`, `KeptByWrite.zbcWrite`: so do the commands.
* `zbcWriteLoop_rule`: the rule for the loop of `zbc_write`.
* `getElem?_zbcFormatMeta`: the zones of a device that has been formatted.
-/

namespace LioProject

namespace Tcmu

/-! ### What a step changes -/

/-- What no command changes in a zone. -/
def ZbcZone.fixed (z : ZbcZone) : ZbcZone :=
  { z with wp := 0, cond := .notWp, nonSeq := false, reset := false }

/-- What no command changes in a device. -/
def ZbcDev.fixed (s : ZbcDev) : ZbcDev :=
  { s with zones := s.zones.map ZbcZone.fixed, nrImpOpen := 0, nrExpOpen := 0 }

theorem conv_of_fixed {z w : ZbcZone} (h : z.fixed = w.fixed) : z.conv = w.conv := by
  have hconv : ∀ v : ZbcZone, v.fixed.conv = v.conv := fun _ => rfl
  rw [← hconv z, h, hconv]

theorem nrOpenZones_of_fixed {s t : ZbcDev} (h : t.fixed = s.fixed) :
    t.nrOpenZones = s.nrOpenZones := by
  rw [ZbcDev.fixed, ZbcDev.fixed] at h
  injection h

theorem header_of_fixed {s t : ZbcDev} (h : t.fixed = s.fixed) : t.header = s.header := by
  rw [ZbcDev.fixed, ZbcDev.fixed] at h
  injection h

theorem nrZones_of_fixed {s t : ZbcDev} (h : t.fixed = s.fixed) : t.nrZones = s.nrZones := by
  rw [ZbcDev.fixed, ZbcDev.fixed] at h
  injection h

theorem zoneSize_of_fixed {s t : ZbcDev} (h : t.fixed = s.fixed) : t.zoneSize = s.zoneSize := by
  rw [ZbcDev.fixed, ZbcDev.fixed] at h
  injection h

theorem lbaSize_of_fixed {s t : ZbcDev} (h : t.fixed = s.fixed) : t.lbaSize = s.lbaSize := by
  rw [ZbcDev.fixed, ZbcDev.fixed] at h
  injection h

theorem fileSize_of_fixed {s t : ZbcDev} (h : t.fixed = s.fixed) : t.fileSize = s.fileSize := by
  rw [ZbcDev.fixed, ZbcDev.fixed] at h
  injection h

theorem type_of_fixed {z w : ZbcZone} (h : z.fixed = w.fixed) : z.type = w.type := by
  rw [ZbcZone.fixed, ZbcZone.fixed] at h
  injection h

theorem start_of_fixed {z w : ZbcZone} (h : z.fixed = w.fixed) : z.start = w.start := by
  rw [ZbcZone.fixed, ZbcZone.fixed] at h
  injection h

theorem len_of_fixed {z w : ZbcZone} (h : z.fixed = w.fixed) : z.len = w.len := by
  rw [ZbcZone.fixed, ZbcZone.fixed] at h
  injection h

/-- The zone with the same index. -/
theorem getElem?_of_fixed {s t : ZbcDev} {i : ℕ} {z : ZbcZone} (h : t.fixed = s.fixed)
    (hz : s.zones[i]? = some z) : ∃ w, t.zones[i]? = some w ∧ w.fixed = z.fixed := by
  rw [ZbcDev.fixed, ZbcDev.fixed] at h
  injection h with _ hzones
  have hget := congrArg (fun l => l[i]?) hzones
  rw [List.getElem?_map, List.getElem?_map, hz] at hget
  exact Option.map_eq_some_iff.mp hget

theorem length_of_fixed {s t : ZbcDev} (h : t.fixed = s.fixed) :
    t.zones.length = s.zones.length := by
  rw [ZbcDev.fixed, ZbcDev.fixed] at h
  injection h with _ hzones
  simpa using congrArg List.length hzones

@[simp] theorem fixed_decImpOpen (s : ZbcDev) : s.decImpOpen.fixed = s.fixed := by
  rw [ZbcDev.decImpOpen, ZbcDev.fixed, ZbcDev.fixed]

@[simp] theorem fixed_decExpOpen (s : ZbcDev) : s.decExpOpen.fixed = s.fixed := by
  rw [ZbcDev.decExpOpen, ZbcDev.fixed, ZbcDev.fixed]

@[simp] theorem fixed_incImpOpen (s : ZbcDev) : s.incImpOpen.fixed = s.fixed := by
  rw [ZbcDev.incImpOpen, ZbcDev.fixed, ZbcDev.fixed]

@[simp] theorem fixed_incExpOpen (s : ZbcDev) : s.incExpOpen.fixed = s.fixed := by
  rw [ZbcDev.incExpOpen, ZbcDev.fixed, ZbcDev.fixed]

@[simp] theorem zones_decImpOpen (s : ZbcDev) : s.decImpOpen.zones = s.zones := by
  rw [ZbcDev.decImpOpen]

@[simp] theorem zones_decExpOpen (s : ZbcDev) : s.decExpOpen.zones = s.zones := by
  rw [ZbcDev.decExpOpen]

@[simp] theorem nrExpOpen_decImpOpen (s : ZbcDev) : s.decImpOpen.nrExpOpen = s.nrExpOpen := by
  rw [ZbcDev.decImpOpen]

@[simp] theorem nrImpOpen_decExpOpen (s : ZbcDev) : s.decExpOpen.nrImpOpen = s.nrImpOpen := by
  rw [ZbcDev.decExpOpen]

section Update

variable {s : ZbcDev} {i : ℕ} {z : ZbcZone} {f : ZbcZone → ZbcZone}

@[simp] theorem nrExpOpen_update : (s.update i f).nrExpOpen = s.nrExpOpen := rfl

@[simp] theorem nrImpOpen_update : (s.update i f).nrImpOpen = s.nrImpOpen := rfl

theorem getElem?_update_self : (s.update i f).zones[i]? = s.zones[i]?.map f := by
  rw [ZbcDev.update, List.getElem?_modify_eq]
  rfl

theorem getElem?_update_of_ne {j : ℕ} (h : i ≠ j) : (s.update i f).zones[j]? = s.zones[j]? := by
  rw [ZbcDev.update, List.getElem?_modify_ne _ _ h]

theorem mem_update (h : z ∈ (s.update i f).zones) :
    z ∈ s.zones ∨ ∃ w, s.zones[i]? = some w ∧ z = f w := by
  obtain ⟨j, hj⟩ := List.mem_iff_getElem?.mp h
  by_cases hij : i = j
  · rw [← hij, getElem?_update_self] at hj
    obtain ⟨w, hw, rfl⟩ := Option.map_eq_some_iff.mp hj
    exact Or.inr ⟨w, hw, rfl⟩
  · rw [getElem?_update_of_ne hij] at hj
    exact Or.inl (List.mem_of_getElem? hj)

theorem fixed_update (f : ZbcZone → ZbcZone) (hf : ∀ z, (f z).fixed = z.fixed) :
    (s.update i f).fixed = s.fixed := by
  have hzones : (s.zones.modify i f).map ZbcZone.fixed = s.zones.map ZbcZone.fixed := by
    refine List.ext_getElem? fun j => ?_
    rw [List.getElem?_map, List.getElem?_map]
    by_cases hij : i = j
    · rw [hij, List.getElem?_modify_eq]
      cases s.zones[j]? with
      | none => rfl
      | some z => exact congrArg some (hf z)
    · rw [List.getElem?_modify_ne _ _ hij]
  rw [ZbcDev.fixed, ZbcDev.fixed, ZbcDev.update]
  dsimp only
  rw [hzones]

theorem countP_update (p : ZbcZone → Bool) (h : s.zones[i]? = some z) :
    (s.update i f).zones.countP p + (if p z then 1 else 0) =
      s.zones.countP p + if p (f z) then 1 else 0 := by
  obtain ⟨hlt, hz⟩ := List.getElem?_eq_some_iff.mp h
  have hset : s.zones.modify i f = s.zones.set i (f z) := by
    refine List.ext_getElem? fun j => ?_
    by_cases hij : i = j
    · rw [← hij, List.getElem?_modify_eq, h, List.getElem?_set_self hlt]
      rfl
    · rw [List.getElem?_modify_ne _ _ hij, List.getElem?_set_ne hij]
  have hpos : p z = true → 0 < s.zones.countP p := fun hp =>
    List.countP_pos_iff.mpr ⟨z, List.mem_of_getElem? h, hp⟩
  rw [ZbcDev.update]
  dsimp only
  rw [hset, List.countP_set hlt, hz]
  by_cases hp : p z
  · have := hpos hp
    simp only [hp, if_true]
    omega
  · simp only [hp]
    simp

end Update

section Cases

variable {s : ZbcDev} {i : ℕ} {z : ZbcZone}

/-- What closing a zone can do. -/
theorem closeZoneAt_cases (s : ZbcDev) (i : ℕ) :
    (s.closeZoneAt i = s ∧ ∀ z, s.zones[i]? = some z → z.conv = true ∨ z.isOpen = false) ∨
      ∃ z, s.zones[i]? = some z ∧ z.conv = false ∧
        ((z.cond = .impOpen ∧ s.closeZoneAt i = s.decImpOpen.update i ZbcZone.shut) ∨
          (z.cond = .expOpen ∧ s.closeZoneAt i = s.decExpOpen.update i ZbcZone.shut)) := by
  rw [ZbcDev.closeZoneAt]
  cases hget : s.zones[i]? with
  | none => exact Or.inl ⟨rfl, fun z hz => absurd hz (by simp)⟩
  | some z =>
    dsimp only
    split
    · rename_i hconv
      refine Or.inl ⟨rfl, fun w hw => ?_⟩
      obtain rfl := Option.some.inj hw
      exact Or.inl hconv
    · rename_i hconv
      split
      · rename_i hopen
        refine Or.inl ⟨rfl, fun w hw => ?_⟩
        obtain rfl := Option.some.inj hw
        exact Or.inr (by simpa using hopen)
      · rename_i hopen
        have hopen : z.isOpen = true := by simpa using hopen
        refine Or.inr ⟨z, rfl, by simpa using hconv, ?_⟩
        by_cases himp : z.impOpen = true
        · rw [if_pos himp]
          exact Or.inl ⟨of_decide_eq_true himp, rfl⟩
        · rw [if_neg himp]
          refine Or.inr ⟨?_, rfl⟩
          rw [ZbcZone.isOpen, Bool.or_eq_true] at hopen
          exact of_decide_eq_true (hopen.resolve_left himp)

theorem fixed_closeZoneAt (s : ZbcDev) (i : ℕ) : (s.closeZoneAt i).fixed = s.fixed := by
  rcases closeZoneAt_cases s i with ⟨h, -⟩ | ⟨z, -, -, ⟨-, h⟩ | ⟨-, h⟩⟩
  · rw [h]
  · rw [h, fixed_update ZbcZone.shut fun _ => rfl, fixed_decImpOpen]
  · rw [h, fixed_update ZbcZone.shut fun _ => rfl, fixed_decExpOpen]

theorem fixed_makeRoom (s : ZbcDev) : s.makeRoom.fixed = s.fixed := by
  rw [ZbcDev.makeRoom, ZbcDev.closeImpOpenZone]
  split
  · split
    · rfl
    · exact fixed_closeZoneAt _ _
  · rfl

theorem fixed_openZoneAt (s : ZbcDev) (i : ℕ) (explicit : Bool) :
    (s.openZoneAt i explicit).fixed = s.fixed := by
  rw [ZbcDev.openZoneAt]
  split
  · rfl
  · split
    · rw [fixed_incExpOpen, fixed_update (ZbcZone.withCond .expOpen) fun _ => rfl, fixed_makeRoom]
    · rw [fixed_incImpOpen, fixed_update (ZbcZone.withCond .impOpen) fun _ => rfl, fixed_makeRoom]

theorem fixed_writeAdvance (s : ZbcDev) (i lba count : ℕ) :
    (s.writeAdvance i lba count).fixed = s.fixed := by
  have hwritten : (s.update i (ZbcZone.written lba count)).fixed = s.fixed :=
    fixed_update _ fun _ => rfl
  rw [ZbcDev.writeAdvance]
  split
  · rw [fixed_update ZbcZone.filled fun _ => rfl, fixed_closeZoneAt, hwritten]
  · exact hwritten

/-- Closing a zone leaves a zone that is not open. -/
theorem getElem?_closeZoneAt_idle (hz : s.zones[i]? = some z) (hopen : z.isOpen = false) (j : ℕ) :
    (s.closeZoneAt j).zones[i]? = some z := by
  have hne : ∀ w, s.zones[j]? = some w → w.isOpen = true → j ≠ i := by
    rintro w hw hwopen rfl
    obtain rfl := Option.some.inj (hz.symm.trans hw)
    rw [hopen] at hwopen
    cases hwopen
  rcases closeZoneAt_cases s j with ⟨h, -⟩ | ⟨w, hw, -, ⟨hcond, h⟩ | ⟨hcond, h⟩⟩
  · rw [h, hz]
  · rw [h, getElem?_update_of_ne (hne w hw (by simp [ZbcZone.isOpen, ZbcZone.impOpen, hcond])),
      zones_decImpOpen, hz]
  · rw [h, getElem?_update_of_ne (hne w hw (by simp [ZbcZone.isOpen, ZbcZone.expOpen, hcond])),
      zones_decExpOpen, hz]

/-- A zone after it has been closed. -/
theorem getElem?_closeZoneAt_self (hz : s.zones[i]? = some z) (hconv : z.conv = false) :
    (s.closeZoneAt i).zones[i]? = some (if z.isOpen then z.shut else z) := by
  cases hopen : z.isOpen with
  | false => exact getElem?_closeZoneAt_idle hz hopen i
  | true =>
    rw [if_pos rfl]
    rcases closeZoneAt_cases s i with ⟨-, h⟩ | ⟨w, -, -, ⟨-, h⟩ | ⟨-, h⟩⟩
    · rcases h z hz with h | h
      · rw [hconv] at h
        cases h
      · rw [hopen] at h
        cases h
    · rw [h, getElem?_update_self, zones_decImpOpen, hz]
      rfl
    · rw [h, getElem?_update_self, zones_decExpOpen, hz]
      rfl

theorem closed_isOpen (hcond : z.cond = .closed) : z.isOpen = false := by
  rw [ZbcZone.isOpen, ZbcZone.impOpen, ZbcZone.expOpen, hcond]
  rfl

theorem full_isOpen (hcond : z.cond = .full) : z.isOpen = false := by
  rw [ZbcZone.isOpen, ZbcZone.impOpen, ZbcZone.expOpen, hcond]
  rfl

theorem shut_isOpen (z : ZbcZone) : z.shut.isOpen = false := by
  rw [ZbcZone.shut]
  split <;> rfl

theorem shut_cond_ne_full (z : ZbcZone) : z.shut.cond ≠ .full := by
  rw [ZbcZone.shut]
  split <;> exact nofun

/-- A zone that has been closed is not open. -/
theorem exists_closeZoneAt_self (hz : s.zones[i]? = some z) (hconv : z.conv = false) :
    ∃ w, (s.closeZoneAt i).zones[i]? = some w ∧ w.conv = false ∧ w.isOpen = false := by
  refine ⟨_, getElem?_closeZoneAt_self hz hconv, ?_⟩
  split
  · exact ⟨hconv, shut_isOpen z⟩
  · rename_i hopen
    exact ⟨hconv, by simpa using hopen⟩

/-- What making room for an open zone can do. -/
theorem makeRoom_cases (s : ZbcDev) :
    (s.makeRoom = s ∧ (s.nrImpOpen + s.nrExpOpen < s.nrOpenZones ∨
        ∀ z ∈ s.zones, z.impOpen = false)) ∨
      (s.nrOpenZones ≤ s.nrImpOpen + s.nrExpOpen ∧
        ∃ j, s.zones.findIdx? ZbcZone.impOpen = some j ∧ s.makeRoom = s.closeZoneAt j) := by
  rw [ZbcDev.makeRoom, ZbcDev.closeImpOpenZone]
  split
  · rename_i hge
    split
    · rename_i hnone
      exact Or.inl ⟨rfl, Or.inr (List.findIdx?_eq_none_iff.mp hnone)⟩
    · rename_i j hj
      exact Or.inr ⟨hge, j, hj, rfl⟩
  · rename_i hlt
    exact Or.inl ⟨rfl, Or.inl (Nat.lt_of_not_le hlt)⟩

/-- Making room leaves the zones that are not open. -/
theorem getElem?_makeRoom_idle (hz : s.zones[i]? = some z) (hopen : z.isOpen = false) :
    s.makeRoom.zones[i]? = some z := by
  rcases makeRoom_cases s with ⟨h, -⟩ | ⟨-, j, -, h⟩
  · rw [h, hz]
  · rw [h, getElem?_closeZoneAt_idle hz hopen]

/-- Closing a zone that is not explicitly open leaves the number of those that are. -/
theorem nrExpOpen_closeZoneAt (hz : s.zones[i]? = some z)
    (hexp : z.expOpen = false) : (s.closeZoneAt i).nrExpOpen = s.nrExpOpen := by
  rcases closeZoneAt_cases s i with ⟨h, -⟩ | ⟨w, hw, -, ⟨-, h⟩ | ⟨hcond, -⟩⟩
  · rw [h]
  · rw [h, nrExpOpen_update, nrExpOpen_decImpOpen]
  · obtain rfl := Option.some.inj (hz.symm.trans hw)
    rw [ZbcZone.expOpen, hcond] at hexp
    cases hexp

/-- Making room closes no explicitly open zone. -/
theorem nrExpOpen_makeRoom (s : ZbcDev) : s.makeRoom.nrExpOpen = s.nrExpOpen := by
  rcases makeRoom_cases s with ⟨h, -⟩ | ⟨-, j, hj, h⟩
  · rw [h]
  · obtain ⟨hlt, himp, -⟩ := List.findIdx?_eq_some_iff_getElem.mp hj
    rw [h]
    refine nrExpOpen_closeZoneAt (List.getElem?_eq_getElem hlt) ?_
    rw [ZbcZone.expOpen, show s.zones[j].cond = .impOpen from of_decide_eq_true himp]
    rfl

/-- Opening a zone that is not open. -/
theorem openZoneAt_idle (hz : s.zones[i]? = some z) (hopen : z.isOpen = false) (explicit : Bool) :
    s.openZoneAt i explicit =
      if explicit then (s.makeRoom.update i (ZbcZone.withCond .expOpen)).incExpOpen
      else (s.makeRoom.update i (ZbcZone.withCond .impOpen)).incImpOpen := by
  rw [ZbcZone.isOpen, Bool.or_eq_false_iff] at hopen
  rw [ZbcDev.openZoneAt, hz, Option.any_some, hopen.1, hopen.2, Bool.and_false, Bool.and_false,
    Bool.or_false, if_neg Bool.false_ne_true]

/-- Finishing a zone. -/
theorem finishZoneAt_cases (s : ZbcDev) (empty : Bool) (i : ℕ) :
    s.finishZoneAt empty i = s ∨ ∃ z, s.zones[i]? = some z ∧ z.conv = false ∧
      s.finishZoneAt empty i = (s.closeZoneAt i).update i ZbcZone.finished := by
  rw [ZbcDev.finishZoneAt]
  split
  · exact Or.inl rfl
  · rename_i z hz
    split
    · exact Or.inl rfl
    · rename_i hconv
      split
      · exact Or.inr ⟨z, hz, by simpa using hconv, rfl⟩
      · exact Or.inl rfl

theorem fixed_finishZoneAt (s : ZbcDev) (empty : Bool) (i : ℕ) :
    (s.finishZoneAt empty i).fixed = s.fixed := by
  rcases finishZoneAt_cases s empty i with h | ⟨z, -, -, h⟩
  · rw [h]
  · rw [h, fixed_update ZbcZone.finished fun _ => rfl, fixed_closeZoneAt]

/-- Resetting a zone. -/
theorem resetWpAt_cases (s : ZbcDev) (i : ℕ) :
    s.resetWpAt i = s ∨ ∃ z, s.zones[i]? = some z ∧ z.conv = false ∧
      s.resetWpAt i = (s.closeZoneAt i).update i ZbcZone.cleared := by
  rw [ZbcDev.resetWpAt]
  split
  · exact Or.inl rfl
  · rename_i z hz
    split
    · exact Or.inl rfl
    · rename_i hconv
      exact Or.inr ⟨z, hz, by simpa using hconv, rfl⟩

theorem fixed_resetWpAt (s : ZbcDev) (i : ℕ) : (s.resetWpAt i).fixed = s.fixed := by
  rcases resetWpAt_cases s i with h | ⟨z, -, -, h⟩
  · rw [h]
  · rw [h, fixed_update ZbcZone.cleared fun _ => rfl, fixed_closeZoneAt]

theorem writeAdvance_none {lba count : ℕ} (h : s.zones[i]? = none) :
    s.writeAdvance i lba count = s := by
  have hself : s.update i (ZbcZone.written lba count) = s := by
    rw [ZbcDev.update, List.modify_eq_self (List.getElem?_eq_none_iff.mp h)]
  rw [ZbcDev.writeAdvance, hself, h]
  rfl

/-- Opening a zone implicitly opens none explicitly, and closes none. -/
theorem nrExpOpen_openZoneAt_imp (hz : s.zones[i]? = some z) (hopen : z.isOpen = false) :
    (s.openZoneAt i false).nrExpOpen = s.nrExpOpen := by
  rw [openZoneAt_idle hz hopen, if_neg Bool.false_ne_true, ZbcDev.incImpOpen]
  dsimp only
  rw [nrExpOpen_update, nrExpOpen_makeRoom]

/-- Moving the write pointer. -/
theorem writeAdvance_cases (s : ZbcDev) (i lba count : ℕ) (hz : s.zones[i]? = some z) :
    (z.conv = true ∨ z.advance lba count < z.stop) ∧
        s.writeAdvance i lba count = s.update i (ZbcZone.written lba count) ∨
      z.conv = false ∧ z.stop ≤ z.advance lba count ∧ s.writeAdvance i lba count =
        ((s.update i (ZbcZone.written lba count)).closeZoneAt i).update i ZbcZone.filled := by
  have hget : (s.update i (ZbcZone.written lba count)).zones[i]? =
      some (z.written lba count) := by
    rw [getElem?_update_self, hz]
    rfl
  rw [ZbcDev.writeAdvance, hget, Option.any_some]
  split
  · rename_i hfull
    rw [Bool.and_eq_true, Bool.not_eq_true', decide_eq_true_eq] at hfull
    exact Or.inr ⟨hfull.1, hfull.2, rfl⟩
  · rename_i hfull
    rw [Bool.and_eq_true, not_and_or, Bool.not_eq_true', decide_eq_true_eq] at hfull
    exact Or.inl ⟨hfull.imp Bool.of_not_eq_false Nat.lt_of_not_le, rfl⟩

/-- A zone after it has been closed, if it is open. -/
def ZbcZone.closedUp (z : ZbcZone) : ZbcZone :=
  if z.conv = false ∧ z.isOpen = true then z.shut else z

theorem closedUp_fixed (z : ZbcZone) : z.closedUp.fixed = z.fixed := by
  rw [ZbcZone.closedUp]
  split <;> rfl

theorem zones_closeZoneAt (s : ZbcDev) (i : ℕ) :
    (s.closeZoneAt i).zones = s.zones.modify i ZbcZone.closedUp := by
  refine List.ext_getElem? fun j => ?_
  rcases closeZoneAt_cases s i with ⟨h, hnot⟩ | ⟨z, hz, hconv, h⟩
  · rw [h]
    by_cases hij : i = j
    · subst hij
      rw [List.getElem?_modify_eq]
      cases hz : s.zones[i]? with
      | none => rfl
      | some z =>
        have hclosed : z.closedUp = z := by
          rw [ZbcZone.closedUp, if_neg]
          rintro ⟨hconv, hopen⟩
          rcases hnot z hz with hc | hc
          · exact absurd (hconv.symm.trans hc) (by decide)
          · exact absurd (hopen.symm.trans hc) (by decide)
        exact (congrArg some hclosed).symm
    · rw [List.getElem?_modify_ne _ _ hij]
  · have hopen : z.isOpen = true := by
      rcases h with ⟨hcond, -⟩ | ⟨hcond, -⟩
      · simp [ZbcZone.isOpen, ZbcZone.impOpen, hcond]
      · simp [ZbcZone.isOpen, ZbcZone.expOpen, hcond]
    have hclosed : z.closedUp = z.shut := by rw [ZbcZone.closedUp, if_pos ⟨hconv, hopen⟩]
    by_cases hij : i = j
    · subst hij
      rw [List.getElem?_modify_eq, hz, getElem?_closeZoneAt_self hz hconv, if_pos hopen, ← hclosed]
      rfl
    · rw [List.getElem?_modify_ne _ _ hij]
      rcases h with ⟨-, h⟩ | ⟨-, h⟩
      · rw [h, getElem?_update_of_ne hij, zones_decImpOpen]
      · rw [h, getElem?_update_of_ne hij, zones_decExpOpen]

theorem getElem?_closeZoneAt (s : ZbcDev) (i j : ℕ) :
    (s.closeZoneAt i).zones[j]? =
      if j = i then s.zones[j]?.map ZbcZone.closedUp else s.zones[j]? := by
  rw [zones_closeZoneAt]
  split
  · rename_i hji
    rw [hji, List.getElem?_modify_eq]
    rfl
  · rename_i hji
    rw [List.getElem?_modify_ne _ _ (Ne.symm hji)]

/-- The zones after a zone has been opened. -/
theorem getElem?_openZoneAt (hz : s.zones[i]? = some z) (hopen : z.isOpen = false)
    (explicit : Bool) (j : ℕ) : (s.openZoneAt i explicit).zones[j]? =
      if j = i then some (z.withCond (if explicit then .expOpen else .impOpen))
      else s.makeRoom.zones[j]? := by
  have hupdate : ∀ cond, (s.makeRoom.update i (ZbcZone.withCond cond)).zones[j]? =
      if j = i then some (z.withCond cond) else s.makeRoom.zones[j]? := by
    intro cond
    split
    · rename_i hji
      rw [hji, getElem?_update_self, getElem?_makeRoom_idle hz hopen]
      rfl
    · rename_i hji
      rw [getElem?_update_of_ne (Ne.symm hji)]
  rw [openZoneAt_idle hz hopen]
  cases explicit with
  | true => exact hupdate .expOpen
  | false => exact hupdate .impOpen

/-- The zones after a zone has been closed, and set to something else. -/
theorem getElem?_closeZoneAt_update {f : ZbcZone → ZbcZone} (hf : ∀ z, f z.closedUp = f z)
    (j : ℕ) : ((s.closeZoneAt i).update i f).zones[j]? =
      if j = i then s.zones[j]?.map f else s.zones[j]? := by
  split
  · rename_i hji
    rw [hji, getElem?_update_self, getElem?_closeZoneAt, if_pos rfl, Option.map_map]
    exact congrArg (fun g => Option.map g s.zones[i]?) (funext hf)
  · rename_i hji
    rw [getElem?_update_of_ne (Ne.symm hji), getElem?_closeZoneAt, if_neg hji]

theorem finished_closedUp (z : ZbcZone) : z.closedUp.finished = z.finished := by
  rw [ZbcZone.closedUp]
  split <;> rfl

theorem cleared_closedUp (z : ZbcZone) : z.closedUp.cleared = z.cleared := by
  rw [ZbcZone.closedUp]
  split <;> rfl

theorem filled_closedUp (z : ZbcZone) : z.closedUp.filled = z.filled := by
  rw [ZbcZone.closedUp]
  split <;> rfl

/-- The zones after a turn of the loop of `zbc_write`. -/
theorem getElem?_writeAdvance (lba count : ℕ) (hz : s.zones[i]? = some z) (j : ℕ) :
    (s.writeAdvance i lba count).zones[j]? =
      if j = i then some (if z.conv = false ∧ z.stop ≤ z.advance lba count then z.filled
        else z.written lba count)
      else s.zones[j]? := by
  have hwritten : ∀ j, (s.update i (ZbcZone.written lba count)).zones[j]? =
      if j = i then some (z.written lba count) else s.zones[j]? := by
    intro j
    split
    · rename_i hji
      rw [hji, getElem?_update_self, hz]
      rfl
    · rename_i hji
      rw [getElem?_update_of_ne (Ne.symm hji)]
  rcases writeAdvance_cases s i lba count hz with ⟨hnot, h⟩ | ⟨hconv, hstop, h⟩
  · have hcond : ¬ (z.conv = false ∧ z.stop ≤ z.advance lba count) := by
      rintro ⟨hc, hle⟩
      rcases hnot with hnot | hnot
      · exact absurd (hc.symm.trans hnot) (by decide)
      · omega
    rw [h, hwritten, if_neg hcond]
  · have hfull : (if z.conv = false ∧ z.stop ≤ z.advance lba count then z.filled
        else z.written lba count) = z.filled := if_pos ⟨hconv, hstop⟩
    rw [h, getElem?_closeZoneAt_update filled_closedUp, hwritten, hfull]
    by_cases hji : j = i
    · rw [if_pos hji, if_pos hji, if_pos hji]
      rfl
    · rw [if_neg hji, if_neg hji, if_neg hji]

theorem nrExpOpen_writeAdvance {lba count : ℕ} (hz : s.zones[i]? = some z)
    (hexp : z.expOpen = false) : (s.writeAdvance i lba count).nrExpOpen = s.nrExpOpen := by
  rcases writeAdvance_cases s i lba count hz with ⟨-, h⟩ | ⟨-, -, h⟩
  · rw [h, nrExpOpen_update]
  · have hwritten : (s.update i (ZbcZone.written lba count)).zones[i]? =
        some (z.written lba count) := by
      rw [getElem?_update_self, hz]
      rfl
    rw [h, nrExpOpen_update, nrExpOpen_closeZoneAt hwritten hexp, nrExpOpen_update]

end Cases

/-! ### What every command keeps -/

section Keeps

variable {P R : ZbcDev → Prop} {s : ZbcDev} {cdb : Cdb}

theorem forZones_keeps {f : ZbcDev → ℕ → ZbcDev} (hf : ∀ s i, P s → P (f s i)) (hs : P s) :
    P (s.forZones f) :=
  List.foldlRecOn _ _ hs fun t ht i _ => hf t i ht

/-- The device after `k` turns of the loop of `zbc_open_zone` over all zones. -/
def ZbcDev.openTurns (s : ZbcDev) (k : ℕ) : ZbcDev :=
  (List.range k).foldl ZbcDev.openIfClosed s

theorem openTurns_succ (s : ZbcDev) (k : ℕ) :
    s.openTurns (k + 1) = (s.openTurns k).openIfClosed k := by
  rw [ZbcDev.openTurns, ZbcDev.openTurns, List.range_succ, List.foldl_append]
  rfl

/-- The command opens all zones that are closed, and it has been found that this is possible. -/
def ZbcDev.OpensAll (s : ZbcDev) (cdb : Cdb) : Prop :=
  byteAt cdb 1 = 0x03 ∧ cdbAll cdb = true ∧
    s.nrExpOpen + s.zones.countP ZbcZone.closed ≤ s.nrOpenZones

instance (s : ZbcDev) (cdb : Cdb) : Decidable (s.OpensAll cdb) :=
  inferInstanceAs (Decidable (_ ∧ _))

/-- A property that the parts of the zone commands keep. A zone is explicitly opened only if it is
neither open nor full, and `R` holds; it does if the number of explicitly open zones is below the
limit. -/
structure KeptByOut (P R : ZbcDev → Prop) : Prop where
  close : ∀ s i, P s → P (s.closeZoneAt i)
  finish : ∀ s empty i, P s → P (s.finishZoneAt empty i)
  reset : ∀ s i, P s → P (s.resetWpAt i)
  room : ∀ s, s.nrExpOpen < s.nrOpenZones → R s
  openExp : ∀ s i z, P s → R s → s.zones[i]? = some z → z.isOpen = false → z.cond ≠ .full →
    (z.conv = true → z.cond = .closed) → P (s.openZoneAt i true)

theorem target_ok {i : ℕ} (h : s.target cdb = .ok i) :
    ∃ z, s.zones[i]? = some z ∧ z.conv = false := by
  rw [ZbcDev.target] at h
  split at h
  · cases h
  · split at h
    · cases h
    · split at h
      · cases h
      · rename_i j _ hall
        cases h
        cases hget : s.zones[i]? with
        | none => simp [hget] at hall
        | some z => exact ⟨z, rfl, by simpa [hget] using hall⟩

theorem eachZone_keeps {all one : ZbcDev → ℕ → ZbcDev} (hall : ∀ s i, P s → P (all s i))
    (hone : ∀ s i, P s → P (one s i)) (hs : P s) : P (s.eachZone cdb all one).1 := by
  rw [ZbcDev.eachZone]
  split
  · exact forZones_keeps hall hs
  · split
    · exact hs
    · exact hone _ _ hs

theorem nrOpenZones_closeZoneAt (s : ZbcDev) (i : ℕ) :
    (s.closeZoneAt i).nrOpenZones = s.nrOpenZones :=
  nrOpenZones_of_fixed (fixed_closeZoneAt s i)

/-- Opening one zone. -/
theorem KeptByOut.zbcOpenZone_one (hP : KeptByOut P R) (hs : P s) (hone : cdbAll cdb = false) :
    P (s.zbcOpenZone cdb).1 := by
  rw [ZbcDev.zbcOpenZone, if_neg (by simp [hone])]
  cases htarget : s.target cdb with
  | error sense => exact hs
  | ok i =>
    obtain ⟨z, hz, hconv⟩ := target_ok htarget
    have hnot : ∀ w : ZbcZone, w.conv = false → w.conv = true → w.cond = .closed :=
      fun w hw hw' => absurd (hw.symm.trans hw') (by decide)
    dsimp only
    rw [hz]
    simp only [Option.any_some]
    split
    · exact hs
    · rename_i hfree
      simp only [Bool.or_eq_true, decide_eq_true_eq, not_or] at hfree
      have hexp : z.expOpen = false := by simpa using hfree.1
      split
      · exact hs
      · rename_i hroom
        have hroom : s.nrExpOpen < s.nrOpenZones := by omega
        by_cases himp : z.impOpen = true
        · -- The zone is implicitly open: it is closed first.
          rw [if_pos himp]
          have hopen : z.isOpen = true := by rw [ZbcZone.isOpen, himp, Bool.true_or]
          refine hP.openExp _ i z.shut (hP.close s i hs) (hP.room _ ?_)
            ((getElem?_closeZoneAt_self hz hconv).trans (by rw [if_pos hopen])) (shut_isOpen z)
            (shut_cond_ne_full z) (hnot _ hconv)
          rwa [nrExpOpen_closeZoneAt hz hexp, nrOpenZones_closeZoneAt]
        · rw [if_neg himp]
          have hopen : z.isOpen = false := by
            rw [ZbcZone.isOpen, hexp, Bool.or_false]
            simpa using himp
          exact hP.openExp s i z hs (hP.room s hroom) hz hopen hfree.2 (hnot z hconv)

/-- Opening all zones that are closed, turn by turn. -/
theorem KeptByOut.openTurns (hP : KeptByOut P R) (hs : P s) :
    ∀ n, (∀ k < n, (s.openTurns k).zones[k]?.any ZbcZone.closed → R (s.openTurns k)) →
      P (s.openTurns n)
  | 0, _ => hs
  | n + 1, hR => by
    have hn := KeptByOut.openTurns hP hs n fun k hk => hR k (hk.trans n.lt_succ_self)
    rw [openTurns_succ, ZbcDev.openIfClosed]
    split
    · rename_i hclosed
      obtain ⟨z, hz, hcond⟩ := (Option.any_eq_true _ _).mp hclosed
      have hcond : z.cond = .closed := of_decide_eq_true hcond
      exact hP.openExp _ n z hn (hR n n.lt_succ_self hclosed) hz (closed_isOpen hcond)
        (hcond ▸ nofun) fun _ => hcond
    · exact hn

theorem fixed_openTurns (s : ZbcDev) : ∀ n, (s.openTurns n).fixed = s.fixed
  | 0 => rfl
  | n + 1 => by
    rw [openTurns_succ, ZbcDev.openIfClosed]
    split
    · rw [fixed_openZoneAt, fixed_openTurns s n]
    · exact fixed_openTurns s n

theorem zbcOpenZone_all (hall : s.OpensAll cdb) :
    (s.zbcOpenZone cdb).1 = s.openTurns s.nrZones := by
  rw [ZbcDev.zbcOpenZone, if_pos hall.2.1, if_neg (Nat.not_lt.mpr hall.2.2)]
  rfl

/-- **The rule for zone commands.** -/
theorem KeptByOut.zbcOut (hP : KeptByOut P R) (hs : P s)
    (hall : s.OpensAll cdb → ∀ k < s.nrZones,
      (s.openTurns k).zones[k]?.any ZbcZone.closed → R (s.openTurns k)) :
    P (s.zbcOut cdb).1 := by
  rw [ZbcDev.zbcOut]
  split
  · exact eachZone_keeps hP.close hP.close hs
  · exact eachZone_keeps (fun s => hP.finish s false) (fun s => hP.finish s true) hs
  · rename_i hsa
    cases hone : cdbAll cdb with
    | false => exact hP.zbcOpenZone_one hs hone
    | true =>
      by_cases hfit : s.nrExpOpen + s.zones.countP ZbcZone.closed ≤ s.nrOpenZones
      · have hopens : s.OpensAll cdb := ⟨hsa, hone, hfit⟩
        rw [zbcOpenZone_all hopens]
        exact hP.openTurns hs _ (hall hopens)
      · rw [ZbcDev.zbcOpenZone, if_pos hone, if_pos (Nat.lt_of_not_le hfit)]
        exact hs
  · exact eachZone_keeps hP.reset hP.reset hs
  · exact hs

/-- No zone command changes what is fixed. -/
theorem fixed_zbcOut (s : ZbcDev) (cdb : Cdb) : (s.zbcOut cdb).1.fixed = s.fixed := by
  have hkept : KeptByOut (fun t => t.fixed = s.fixed) fun _ => True :=
    { close := fun t i h => (fixed_closeZoneAt t i).trans h
      finish := fun t empty i h => (fixed_finishZoneAt t empty i).trans h
      reset := fun t i h => (fixed_resetWpAt t i).trans h
      room := fun _ _ => trivial
      openExp := fun t i _ h _ _ _ _ _ => (fixed_openZoneAt t i true).trans h }
  exact hkept.zbcOut rfl fun _ _ _ _ => trivial

end Keeps

/-! ### What every write keeps -/

section Write

variable {s t : ZbcDev} {lba nrLbas i : ℕ}

theorem writeTurn_inl {answer : ZbcAnswer} (h : s.writeTurn lba nrLbas = some (.inl answer)) :
    answer.1 = s := by
  rw [ZbcDev.writeTurn] at h
  split at h
  · cases h
    rfl
  · split at h
    · cases h
    · split at h
      · cases h
        rfl
      · cases h

/-- What a turn can do before `pwrite`. -/
theorem writeTurn_inr (h : s.writeTurn lba nrLbas = some (.inr (t, i))) :
    nrLbas ≠ 0 ∧ s.zbcGetZone lba false = some i ∧
      (∀ z, s.zones[i]? = some z → lba + nrLbas ≤ z.stop) ∧
      ((∃ z, s.zones[i]? = some z ∧ z.conv = false ∧ z.isOpen = false ∧
          s.nrExpOpen < s.nrOpenZones ∧ t = s.openZoneAt i false) ∨
        (t = s ∧ ∀ z, s.zones[i]? = some z → z.conv = true ∨ z.isOpen = true)) := by
  rw [ZbcDev.writeTurn] at h
  split at h
  · cases h
  · rename_i hnr
    split at h
    · cases h
    · rename_i j hget
      split at h
      · cases h
      · rename_i u hstart
        cases h
        rw [ZbcDev.writeStart] at hstart
        split at hstart
        · cases hstart
        · rename_i hstop
          refine ⟨hnr, hget, fun z hz => ?_, ?_⟩
          · rw [hz] at hstop
            simpa using hstop
          · split at hstart
            · rename_i hseq
              obtain ⟨z, hz, hseq⟩ := (Option.any_eq_true _ _).mp hseq
              rw [Bool.and_eq_true, Bool.not_eq_true', Bool.not_eq_true'] at hseq
              split at hstart
              · cases hstart
              · rename_i hroom
                cases hstart
                exact Or.inl ⟨z, hz, hseq.1, hseq.2, Nat.lt_of_not_le hroom, rfl⟩
            · rename_i hseq
              cases hstart
              refine Or.inr ⟨rfl, fun z hz => ?_⟩
              rw [hz, Option.any_some, Bool.and_eq_true, not_and_or] at hseq
              simpa using hseq

/-- A turn that opens its zone. -/
theorem writeTurn_eq {z : ZbcZone} (hnr : nrLbas ≠ 0) (hget : s.zbcGetZone lba false = some i)
    (hz : s.zones[i]? = some z) (hstop : lba + nrLbas ≤ z.stop) (hconv : z.conv = false)
    (hopen : z.isOpen = false) (hroom : s.nrExpOpen < s.nrOpenZones) :
    s.writeTurn lba nrLbas = some (.inr (s.openZoneAt i false, i)) := by
  have hstart : s.writeStart i lba nrLbas = .ok (s.openZoneAt i false) := by
    rw [ZbcDev.writeStart, hz, Option.any_some, Option.any_some, hconv, hopen,
      decide_eq_false (not_lt.mpr hstop), if_neg Bool.false_ne_true, Bool.not_false, Bool.and_self,
      if_pos rfl, if_neg (not_le.mpr hroom)]
  rw [ZbcDev.writeTurn, if_neg hnr, hget]
  dsimp only
  rw [hstart]

/-- **The rule for the loop of `zbc_write`.** The invariant `I` holds at the start of each turn, `Q`
where the loop ends. -/
theorem zbcWriteLoop_rule {I : ZbcDev → ℕ → ℕ → ℕ → List ℤ → Prop} {Q : ZbcDev → Prop}
    (hend : ∀ s lba nrLbas len rets, I s lba nrLbas len rets → Q s)
    (hfail : ∀ s lba nrLbas len rets t i, I s lba nrLbas len rets →
      s.writeTurn lba nrLbas = some (.inr (t, i)) →
      (∀ r ∈ rets.head?, min r (t.request nrLbas len) ≤ 0) → Q t)
    (hnext : ∀ s lba nrLbas len r rets t i ret, I s lba nrLbas len (r :: rets) →
      s.writeTurn lba nrLbas = some (.inr (t, i)) → ret = min r (t.request nrLbas len) → 0 < ret →
      I (t.writeAdvance i lba (ret.toNat / t.lbaSize)) (lba + ret.toNat / t.lbaSize)
        (nrLbas - ret.toNat / t.lbaSize) (len - ret.toNat) rets) :
    ∀ rets s lba nrLbas len answer, I s lba nrLbas len rets →
      s.zbcWriteLoop lba nrLbas len rets = some answer → Q answer.1 := by
  intro rets
  induction rets with
  | nil =>
    intro s lba nrLbas len answer hI h
    rw [ZbcDev.zbcWriteLoop] at h
    split at h
    · cases h
    · rename_i hturn
      cases h
      rw [writeTurn_inl hturn]
      exact hend _ _ _ _ _ hI
    · rename_i t i hturn
      cases h
      exact hfail _ _ _ _ _ t i hI hturn (by simp)
  | cons r rets ih =>
    intro s lba nrLbas len answer hI h
    rw [ZbcDev.zbcWriteLoop] at h
    split at h
    · cases h
    · rename_i hturn
      cases h
      rw [writeTurn_inl hturn]
      exact hend _ _ _ _ _ hI
    · rename_i t i hturn
      dsimp only at h
      split at h
      · rename_i hret
        cases h
        exact hfail _ _ _ _ _ t i hI hturn (by simpa using hret)
      · rename_i hret
        exact ih _ _ _ _ _ (hnext _ _ _ _ r rets t i _ hI hturn rfl (not_le.mp hret)) h

/-- What a write does when it does not go through its loop. -/
theorem zbcWrite_cases {cdb : Cdb} {iov : List ℕ} {rets : List ℤ} {answer : ZbcAnswer}
    (h : s.zbcWrite cdb iov rets = some answer) :
    answer.1 = s ∨ (s.zbcCheckRdwr cdb iov = none ∧
      s.zbcWriteCheckZones (xferLengthOf cdb + s.nrZones + 2) (xferLengthOf cdb) (lbaOf cdb) none =
        some none ∧
      s.zbcWriteLoop (lbaOf cdb) (xferLengthOf cdb) (iov.headD 0) rets = some answer) := by
  rw [ZbcDev.zbcWrite] at h
  split at h
  · cases h
    exact Or.inl rfl
  · rename_i hcheck
    rw [Option.bind_eq_bind, Option.bind_eq_some_iff] at h
    obtain ⟨sense, hzones, h⟩ := h
    cases sense with
    | some sense =>
      cases h
      exact Or.inl rfl
    | none => exact Or.inr ⟨hcheck, hzones, h⟩

/-- A property that the parts of a write keep. -/
structure KeptByWrite (P : ZbcDev → Prop) : Prop where
  openImp : ∀ s i z, P s → s.nrExpOpen < s.nrOpenZones → s.zones[i]? = some z → z.conv = false →
    z.isOpen = false → P (s.openZoneAt i false)
  advance : ∀ s i lba count, P s → P (s.writeAdvance i lba count)

/-- **The rule for writes.** -/
theorem KeptByWrite.zbcWrite {P : ZbcDev → Prop} (hP : KeptByWrite P) (hs : P s) {cdb : Cdb}
    {iov : List ℕ} {rets : List ℤ} {answer : ZbcAnswer}
    (h : s.zbcWrite cdb iov rets = some answer) : P answer.1 := by
  have hturn : ∀ s lba nrLbas t i, P s → s.writeTurn lba nrLbas = some (.inr (t, i)) → P t := by
    intro s lba nrLbas t i hs h
    obtain ⟨-, -, -, ⟨z, hz, hconv, hopen, hroom, rfl⟩ | ⟨rfl, -⟩⟩ := writeTurn_inr h
    · exact hP.openImp s i z hs hroom hz hconv hopen
    · exact hs
  rcases zbcWrite_cases h with h | ⟨-, -, h⟩
  · rwa [h]
  · refine zbcWriteLoop_rule (I := fun s _ _ _ _ => P s) (fun s _ _ _ _ hs => hs) ?_ ?_ _ _ _ _ _ _
      hs h
    · intro s lba nrLbas len rets t i hs h _
      exact hturn s lba nrLbas t i hs h
    · intro s lba nrLbas len r rets t i ret hs h _ _
      exact hP.advance t i lba _ (hturn s lba nrLbas t i hs h)

/-- No write changes what is fixed. -/
theorem fixed_zbcWrite {cdb : Cdb} {iov : List ℕ} {rets : List ℤ} {answer : ZbcAnswer}
    (h : s.zbcWrite cdb iov rets = some answer) : answer.1.fixed = s.fixed := by
  have hkept : KeptByWrite fun t => t.fixed = s.fixed :=
    { openImp := fun t i _ h _ _ _ _ => (fixed_openZoneAt t i false).trans h
      advance := fun t i lba count h => (fixed_writeAdvance t i lba count).trans h }
  exact hkept.zbcWrite rfl h

end Write

/-! ### Opening a device -/

section Open

variable {s : ZbcDev} {cfg : ZbcConfig} {z : ZbcZone}

theorem length_formatZones (header : ZbcMeta) :
    ∀ n i lba, (formatZones header n i lba).length = n
  | 0, _, _ => rfl
  | n + 1, i, _ => congrArg Nat.succ (length_formatZones header n (i + 1) _)

theorem mem_formatZones {header : ZbcMeta} :
    ∀ {n i lba : ℕ}, z ∈ formatZones header n i lba → ∃ j start, z = formatZone header j start
  | 0, _, _, h => absurd h List.not_mem_nil
  | n + 1, i, lba, h => by
    rw [formatZones, List.mem_cons] at h
    rcases h with rfl | h
    · exact ⟨i, lba, rfl⟩
    · exact mem_formatZones h

/-- Where new zones are. -/
theorem getElem?_formatZones {header : ZbcMeta} :
    ∀ {n i : ℕ}, (∀ k, k + 1 < n → (i + k + 1) * header.zoneSize ≤ header.capacity) →
      ∀ j < n, (formatZones header n i (i * header.zoneSize))[j]? =
        some (formatZone header (i + j) ((i + j) * header.zoneSize))
  | 0, _, _, j, hj => absurd hj (Nat.not_lt_zero j)
  | n + 1, i, hfit, j, hj => by
    rw [formatZones]
    cases j with
    | zero => rfl
    | succ j =>
      have hle : (i + 1) * header.zoneSize ≤ header.capacity := hfit 0 (by omega)
      rw [Nat.add_mul, Nat.one_mul] at hle
      have hlen : (formatZone header i (i * header.zoneSize)).len = header.zoneSize := by
        rw [formatZone, if_neg (not_lt.mpr hle)]
        split <;> rfl
      have hstart : i * header.zoneSize + (formatZone header i (i * header.zoneSize)).len =
          (i + 1) * header.zoneSize := by
        rw [hlen, Nat.add_mul, Nat.one_mul]
      rw [List.getElem?_cons_succ, hstart]
      have hrest := getElem?_formatZones (n := n) (i := i + 1) (fun k hk => by
        have hk := hfit (k + 1) (by omega)
        rwa [show i + (k + 1) + 1 = i + 1 + k + 1 by omega] at hk) j (by omega)
      rw [hrest, show i + 1 + j = i + (j + 1) by omega]

theorem zbcFormatMeta_eq {s : ZbcDev} (h : zbcFormatMeta cfg = some s) :
    (cfg.convNum ≠ 2 ^ 32 - 1 → cfg.nrConvZones < cfg.nrZones) ∧ s.header = cfg.header ∧
      s.zones = formatZones cfg.header cfg.nrZones 0 0 ∧ s.zoneSize = cfg.zoneSize ∧
      s.nrZones = cfg.nrZones := by
  rw [zbcFormatMeta] at h
  split at h
  · cases h
  · rename_i hconv
    cases h
    exact ⟨fun hne => not_le.mp fun hle => hconv ⟨hne, hle⟩, rfl, rfl, rfl, rfl⟩

theorem zbcFormatMeta_size {s : ZbcDev} (h : zbcFormatMeta cfg = some s) :
    s.capacity = cfg.capacity ∧
      s.fileSize = (zbcMetaSizeAligned cfg.nrZones + cfg.devSize) % 2 ^ 64 := by
  rw [zbcFormatMeta] at h
  split at h
  · cases h
  · cases h
    exact ⟨rfl, rfl⟩

theorem zoneSize_pos (cfg : ZbcConfig) : 0 < cfg.zoneSize := by
  have hle : 2 ^ 20 ≤ 2 ^ cfg.zoneExp := Nat.pow_le_pow_right (by norm_num) cfg.zoneExp_mem.1
  rw [ZbcConfig.zoneSize]
  rcases cfg.lbaSize_eq with h | h
  · rw [h]
    omega
  · rw [h]
    omega

/-- The size of a zone is a power of two. -/
theorem exists_zoneSize_eq (cfg : ZbcConfig) : ∃ e, cfg.zoneSize = 2 ^ e := by
  have hexp := cfg.zoneExp_mem.1
  rw [ZbcConfig.zoneSize]
  rcases cfg.lbaSize_eq with h | h
  · refine ⟨cfg.zoneExp - 9, ?_⟩
    rw [h, show 512 = 2 ^ 9 by norm_num, Nat.pow_div (by omega) (by norm_num)]
  · refine ⟨cfg.zoneExp - 12, ?_⟩
    rw [h, show 4096 = 2 ^ 12 by norm_num, Nat.pow_div (by omega) (by norm_num)]

/-- The size of a zone in the header is right, or zero. -/
theorem header_zoneSize (cfg : ZbcConfig) :
    (cfg.zoneSize < 2 ^ 32 ∧ cfg.header.zoneSize = cfg.zoneSize) ∨
      (2 ^ 32 ≤ cfg.zoneSize ∧ cfg.header.zoneSize = 0) := by
  have heq : cfg.header.zoneSize = cfg.zoneSize % 2 ^ 32 := rfl
  by_cases hlt : cfg.zoneSize < 2 ^ 32
  · exact Or.inl ⟨hlt, heq.trans (Nat.mod_eq_of_lt hlt)⟩
  · refine Or.inr ⟨not_lt.mp hlt, heq.trans ?_⟩
    obtain ⟨e, he⟩ := exists_zoneSize_eq cfg
    rw [he] at hlt ⊢
    have hexp : 32 ≤ e := by
      by_contra h
      exact hlt (Nat.pow_lt_pow_right (by norm_num) (not_le.mp h))
    exact Nat.mod_eq_zero_of_dvd (pow_dvd_pow 2 hexp)

/-- A zone of the device begins in front of the end. -/
theorem mul_lt_capacity {i : ℕ} (hi : i < cfg.nrZones) : i * cfg.zoneSize < cfg.capacity := by
  have hcount : i < cfg.zoneCount := hi.trans_le (Nat.mod_le _ _)
  have hpos := zoneSize_pos cfg
  rw [ZbcConfig.zoneCount] at hcount
  have hmul := (Nat.le_div_iff_mul_le hpos).mp (Nat.succ_le_of_lt hcount)
  rw [Nat.succ_eq_add_one, Nat.add_mul, Nat.one_mul] at hmul
  omega

/-- Where the zones of a new device are. -/
theorem getElem?_zbcFormatMeta {s : ZbcDev} (h : zbcFormatMeta cfg = some s) {i : ℕ}
    (hi : i < cfg.nrZones) : s.zones[i]? =
      some (formatZone cfg.header i (i * cfg.header.zoneSize)) := by
  obtain ⟨-, -, hzones, -, -⟩ := zbcFormatMeta_eq h
  have hget := @getElem?_formatZones cfg.header cfg.nrZones 0 (fun k hk => ?_) i hi
  · rw [Nat.zero_mul, Nat.zero_add] at hget
    rw [hzones, hget]
  · rcases header_zoneSize cfg with ⟨-, hsize⟩ | ⟨-, hsize⟩
    · rw [hsize, Nat.zero_add]
      exact (mul_lt_capacity hk).le
    · rw [hsize, Nat.mul_zero]
      exact Nat.zero_le _

/-- New zones are conventional, or empty. -/
theorem formatZone_cond (header : ZbcMeta) (i lba : ℕ) :
    (i < header.nrConvZones ∧ (formatZone header i lba).conv = true ∧
        (formatZone header i lba).cond = .notWp) ∨
      (header.nrConvZones ≤ i ∧ (formatZone header i lba).conv = false ∧
        (formatZone header i lba).cond = .empty) := by
  rw [formatZone]
  split
  · rename_i hconv
    exact Or.inl ⟨hconv, rfl, rfl⟩
  · rename_i hconv
    refine Or.inr ⟨Nat.le_of_not_lt hconv, ?_, rfl⟩
    cases header.model <;> rfl

/-- The zones after `n` turns of a loop that closes them. -/
theorem getElem?_closeTurns (s : ZbcDev) (n j : ℕ) :
    ((List.range n).foldl ZbcDev.closeZoneAt s).zones[j]? =
      if j < n then s.zones[j]?.map ZbcZone.closedUp else s.zones[j]? := by
  induction n with
  | zero => rfl
  | succ n ih =>
    rw [List.range_succ, List.foldl_append, List.foldl_cons, List.foldl_nil, zones_closeZoneAt]
    by_cases hnj : n = j
    · subst hnj
      rw [List.getElem?_modify_eq, ih, if_neg (Nat.lt_irrefl n), if_pos n.lt_succ_self]
      rfl
    · rw [List.getElem?_modify_ne _ _ hnj, ih]
      by_cases hlt : j < n
      · rw [if_pos hlt, if_pos (by omega)]
      · rw [if_neg hlt, if_neg (by omega)]

theorem zones_zbcInitMeta (h : s.zones.length = s.header.nrZones) :
    (zbcInitMeta s).zones = s.zones.map ZbcZone.closedUp := by
  refine List.ext_getElem? fun j => ?_
  have hloop := getElem?_closeTurns s.takeParams s.header.nrZones j
  rw [List.getElem?_map]
  refine hloop.trans ?_
  split
  · rfl
  · rename_i hlt
    have hnone : s.zones[j]? = none := List.getElem?_eq_none (by omega)
    rw [hnone]
    exact hnone

/-- No command of the loop changes what is fixed. -/
theorem fixed_forZones_closeZoneAt (s : ZbcDev) :
    (s.forZones ZbcDev.closeZoneAt).fixed = s.fixed :=
  forZones_keeps (P := fun t => t.fixed = s.fixed)
    (fun t i ht => (fixed_closeZoneAt t i).trans ht) rfl

theorem fixed_zbcInitMeta (s : ZbcDev) : (zbcInitMeta s).fixed = s.takeParams.fixed :=
  fixed_forZones_closeZoneAt s.takeParams

theorem header_zbcInitMeta (s : ZbcDev) : (zbcInitMeta s).header = s.header :=
  header_of_fixed (s := s.takeParams) (fixed_zbcInitMeta s)

end Open

end Tcmu

end LioProject
