import LioProject.Tcmu.FormatUnit
import Mathlib.Data.Int.GCD

/-!
# What a format reports

Two things are reported about a format: its status when it ends, and its progress while it is under
way. The status is that of the last write, whatever became of the others, and it is never given if
there is no last write. The progress is computed in 32 bits, and wraps when 2^16 blocks are done.
-/

namespace LioProject

namespace Tcmu

/-! ### Devices without transfers -/

section NoXfer

variable {c : Request} {mem : Mem} {f : Formatting} {s : Xfer}

/-- If a transfer has no bytes, `round_up` divides by zero before anything is written. -/
theorem wp_handleFormatUnit_zero (hzero : c.dev.geo.xferBytes = 0) (mem : Mem) (f : Formatting) :
    Prog.wp (xferInterp c) (fun _ _ => True)
      (fun _ t => t.jobs = [] ∧ completions t.log = [] ∧ settled t.log = 0)
      (answer (handleFormatUnit c))
      (fun _ t => t.jobs = [] ∧ .ok ∉ completions t.log ∧ settled t.log = 0)
      (Xfer.init mem f) := by
  have hdiv : roundUp (1024 * 1024) (c.dev.geo.maxXferLen * c.dev.geo.blockSize % 2 ^ 32) =
      .fail .divByZero := if_pos hzero
  refine wp_answer ?_
  rw [handleFormatUnit]
  intro a _ r t ht
  obtain ⟨rfl, rfl⟩ := Prod.mk.inj (Option.some.inj ht)
  change Prog.wp _ _ _ (if f.on = true then _ else _) _ _
  split
  · intro a _ r t ht
    obtain ⟨-, rfl⟩ := Prod.mk.inj (Option.some.inj ht)
    refine ⟨fun h => absurd h (by simp), fun _ => ⟨rfl, ?_, rfl⟩⟩
    show .ok ∉ completions [.complete .frmtInProgress]
    decide
  · intro a _ r t ht
    obtain ⟨-, rfl⟩ := Prod.mk.inj (Option.some.inj ht)
    have hnomem : ∀ t : Xfer, t.jobs = [] → t.log = [.nomem] → Prog.wp (xferInterp c)
        (fun _ _ => True) (fun _ t => t.jobs = [] ∧ completions t.log = [] ∧ settled t.log = 0)
        (do clearFormat; pure .noResource)
        (fun ret u => (ret = .asyncHandled →
            u.jobs = [] ∧ .ok ∉ completions u.log ∧ settled u.log = 0) ∧
          (ret ≠ .asyncHandled → (u.note (.complete ret)).jobs = [] ∧
            .ok ∉ completions (u.note (.complete ret)).log ∧
              settled (u.note (.complete ret)).log = 0)) t := by
      intro t hjobs hlog
      refine Prog.wp_bind.mpr (wp_clearFormat ⟨fun h => absurd h (by simp), fun _ => ⟨hjobs, ?_⟩⟩)
      dsimp only [Xfer.note]
      rw [hlog]
      exact ⟨by decide, by decide⟩
    refine Prog.wp_bind.mpr (Prog.wp_bind.mpr (wp_alloc ?_ (hnomem _ rfl rfl)))
    rw [if_neg (by simp)]
    refine Prog.wp_bind.mpr (wp_alloc ?_ (hnomem _ rfl rfl))
    rw [if_neg (by simp), hdiv]
    exact ⟨rfl, rfl, rfl⟩

/-- Such a device is not formatted. -/
theorem format_without_xfer (hzero : c.dev.geo.xferBytes = 0) {es : List XferEvent}
    (hrun : run (xferStep c (handleFormatUnit c)) (Xfer.init mem f) es = some s) :
    s.jobs = [] ∧ .ok ∉ completions s.log ∧ settled s.log = 0 := by
  have hstep : ∀ s e t, (s = Xfer.init mem f ∨ s.begun = true ∧ s.jobs = [] ∧
      .ok ∉ completions s.log ∧ settled s.log = 0) → xferStep c (handleFormatUnit c) s e = some t →
        (t = Xfer.init mem f ∨ t.begun = true ∧ t.jobs = [] ∧ .ok ∉ completions t.log ∧
          settled t.log = 0) := by
    intro s e t hs hstep
    have hjobs : s.jobs = [] := by
      rcases hs with rfl | hs
      · rfl
      · exact hs.2.1
    unfold xferStep at hstep
    split at hstep
    · exact absurd hstep (by simp)
    · cases e with
      | start env =>
        dsimp only at hstep
        split at hstep
        · exact absurd hstep (by simp)
        · rename_i hbegun
          rcases hs with rfl | hs
          · obtain ⟨⟨x, u⟩, hexec, rfl⟩ := Option.map_eq_some_iff.mp hstep
            rcases Prog.exec_of_wp (wp_handleFormatUnit_zero hzero mem f) (fun _ _ => trivial) hexec
              with ⟨_, rfl, hu⟩ | ⟨_, rfl, hu, hnil, hsettled⟩
            · exact Or.inr ⟨rfl, hu⟩
            · refine Or.inr ⟨rfl, hu, ?_, hsettled⟩
              change .ok ∉ completions u.log
              rw [hnil]
              simp
          · exact absurd hs.1 hbegun
      | work i env => exact absurd hstep (by simp [hjobs])
      | touch i a bs left => exact absurd hstep (by simp [hjobs])
      | done i ret env => exact absurd hstep (by simp [hjobs])
  rcases run_invariant hstep (Or.inl rfl) hrun with rfl | hs
  · exact ⟨rfl, by simp [Xfer.init, completions], rfl⟩
  · exact hs.2

end NoXfer

/-! ### The status -/

/-- A write has failed: the handler has refused it, or has called it back with an error. -/
def WriteFailed (l : List Happening) : Prop := ∃ x ∈ l, x.settles = true ∧ x.fails = true

/-- A format reports the failures of its writes. -/
structure Request.ReportsFailures (c : Request) : Prop where
  /-- When it is completed with success, no write has failed. -/
  ok : ∀ mem f es s, run (xferStep c (handleFormatUnit c)) (Xfer.init mem f) es = some s →
    .ok ∈ completions s.log → ¬ WriteFailed s.log
  /-- When a write has failed and no write is under way, it has been completed with an error. -/
  error : ∀ mem f es s, run (xferStep c (handleFormatUnit c)) (Xfer.init mem f) es = some s →
    WriteFailed s.log → s.jobs = [] → ∃ sts, sts ≠ .ok ∧ completions s.log = [sts]
  /-- After a failure, it is not under way for ever. -/
  finite : ∃ N, ∀ mem f es s,
    run (xferStep c (handleFormatUnit c)) (Xfer.init mem f) es = some s →
      WriteFailed s.log → s.jobs ≠ [] → backs s.log ≤ N

section Status

variable {c : Request} {d : Device}

/-- If one step is enough, the first write is the last one. -/
theorem Device.first_of_last (hbs : 0 < d.blockSize) (hsize : d.numLbas * d.blockSize < 2 ^ 64)
    (h : d.numLbas ≤ d.formatStep) {i : ℕ}
    (hmore : ∀ k < i, (d.formatAt (k + 1)).doneBlocks < d.numLbas) : i = 0 := by
  have hfirst := Device.formatAt_succ_doneBlocks (i := 0) hbs hsize (h.trans_lt d.formatStep_lt) (by
    rw [Nat.zero_mul]
    exact Nat.zero_le _)
  rw [Nat.zero_add, Nat.one_mul] at hfirst
  by_contra hne
  have hlt := hmore 0 (Nat.pos_of_ne_zero hne)
  rw [Nat.zero_add, hfirst] at hlt
  omega

/-- Where no sub-command has come to its end, none has come to a bad end. -/
theorem not_mem_of_settled_zero {l : List Happening} (h : settled l = 0) {x : Happening}
    (hx : x ∈ l) : x.settles = false := by
  have hnone := List.countP_eq_zero.mp h x hx
  exact Bool.eq_false_iff.mpr hnone

theorem not_writeFailed_of_settled {l : List Happening} (h : settled l = 0) : ¬ WriteFailed l := by
  rintro ⟨x, hx, hsettles, -⟩
  exact absurd hsettles (by simp [not_mem_of_settled_zero h hx])

/-- How a format stands whose first write is the last one: no write has failed, or the command has
been completed with an error. -/
theorem stands_of_first (hbs : 0 < c.dev.geo.blockSize)
    (hsize : c.dev.geo.numLbas * c.dev.geo.blockSize < 2 ^ 64)
    (hwrite : c.dev.handler.write = true) (hxfer : c.dev.geo.xferBytes ≠ 0)
    (h : c.dev.geo.numLbas ≤ c.dev.geo.formatStep) {mem : Mem} {f : Formatting}
    {es : List XferEvent} {s : Xfer}
    (hrun : run (xferStep c (handleFormatUnit c)) (Xfer.init mem f) es = some s) :
    ¬ WriteFailed s.log ∨ s.jobs = [] ∧ ∃ sts, sts ≠ .ok ∧ completions s.log = [sts] := by
  have hone := oneByOne_handleFormatUnit hbs hsize hxfer hwrite mem f
  rcases hone.run hrun with rfl | ⟨-, -, hstands⟩
  · exact Or.inl (not_writeFailed_of_settled rfl)
  rcases hstands with ⟨b, j, -, buf, -, -, hgoing⟩ | ⟨hjobs, hended⟩
  · exact Or.inl (not_writeFailed_of_settled (Device.first_of_last hbs hsize h hgoing.more))
  rcases hended with ⟨-, -, hlog⟩ | ⟨l₀, x, sts, hlog, -, hsts, -, hopen, hnil, -⟩ |
    ⟨l₀, x, g₀, hlog, hx, -, -, -, -, -, hgoing, -⟩
  · exact Or.inl (not_writeFailed_of_settled (by rw [hlog]; rfl))
  · have hstatus : completions [x, .complete sts] = [sts] := List.filterMap_cons_none hopen
    refine Or.inr ⟨hjobs, sts, hsts, ?_⟩
    rw [hlog, completions_append, hnil, hstatus]
    rfl
  · left
    have hzero := Device.first_of_last hbs hsize h hgoing.more
    rw [hlog]
    rintro ⟨y, hy, hsettles, hfails⟩
    rcases List.mem_append.mp hy with hy | hy
    · exact absurd hsettles (by simp [not_mem_of_settled_zero hzero hy])
    · rcases List.mem_cons.mp hy with rfl | hy
      · exact absurd (hx.symm.trans hfails) (by simp)
      · rw [List.mem_singleton.mp hy] at hsettles
        exact absurd hsettles (by simp [Happening.settles])

theorem reportsFailures_of (hbs : 0 < c.dev.geo.blockSize)
    (hsize : c.dev.geo.numLbas * c.dev.geo.blockSize < 2 ^ 64)
    (hwrite : c.dev.handler.write = true)
    (h : c.dev.geo.xferBytes = 0 ∨ c.dev.geo.numLbas ≤ c.dev.geo.formatStep) :
    c.ReportsFailures := by
  by_cases hxfer : c.dev.geo.xferBytes = 0
  · have hnone : ∀ mem f es s,
        run (xferStep c (handleFormatUnit c)) (Xfer.init mem f) es = some s →
          ¬ WriteFailed s.log := fun mem f es s hrun =>
      not_writeFailed_of_settled (format_without_xfer hxfer hrun).2.2
    exact ⟨fun mem f es s hrun _ => hnone mem f es s hrun,
      fun mem f es s hrun hfailed => absurd hfailed (hnone mem f es s hrun),
      0, fun mem f es s hrun hfailed => absurd hfailed (hnone mem f es s hrun)⟩
  · have hstands : ∀ {mem f es s},
        run (xferStep c (handleFormatUnit c)) (Xfer.init mem f) es = some s →
          ¬ WriteFailed s.log ∨ s.jobs = [] ∧ ∃ sts, sts ≠ .ok ∧ completions s.log = [sts] :=
      stands_of_first hbs hsize hwrite hxfer (h.resolve_left hxfer)
    refine ⟨fun mem f es s hrun hok => ?_, fun mem f es s hrun hfailed _ => ?_,
      0, fun mem f es s hrun hfailed hjobs => ?_⟩
    · rcases hstands hrun with hnone | ⟨-, sts, hsts, hend⟩
      · exact hnone
      · rw [hend] at hok
        exact absurd (List.mem_singleton.mp hok).symm hsts
    · exact ((hstands hrun).resolve_left (not_not.mpr hfailed)).2
    · exact absurd ((hstands hrun).resolve_left (not_not.mpr hfailed)).1 hjobs

/-- A log that goes on without a failure ends without one. -/
theorem GoesOn.last_two {n : ℕ} {l l' l₀ : List Happening} {x : Happening} {sts : TcmuSts}
    (h : GoesOn n l l') (hl' : l' = l₀ ++ [x, .complete sts]) :
    l' = l ∨ l = l₀ ++ [x] ∧ n = 0 ∨ x.fails = false ∧ backs [x] ≤ n := by
  obtain ⟨m, rfl, hclear, rfl⟩ := h
  rcases append_eq_concat_two hl' with rfl | ⟨rfl, hl⟩ | ⟨m', rfl⟩
  · exact Or.inl (List.append_nil l)
  · exact Or.inr (Or.inl ⟨hl, rfl⟩)
  · refine Or.inr (Or.inr ⟨hclear x (by simp), ?_⟩)
    rw [backs_append]
    exact Nat.le_add_left _ _

theorem Device.xferBytes_ne_zero_of_step (h : 0 < d.formatStep) : d.xferBytes ≠ 0 := by
  intro hzero
  have hstep : d.stepBytes = 0 := by
    rw [Device.stepBytes, hzero]
    rfl
  have hlength : d.firstWrite.length = 0 := by
    change (if d.numLbas * d.blockSize % 2 ^ 64 < d.stepBytes then _ else d.stepBytes) = 0
    rw [hstep, if_neg (Nat.not_lt_zero _)]
  rw [Device.formatStep, hlength, Nat.zero_div] at h
  exact absurd h (by simp)

/-- A callback with an error, for a write that is not the last, does not end the format. -/
theorem format_survives {mem : Mem} {f : Formatting} {s : Xfer} {j : Job}
    (hone : OneByOne c (handleFormatUnit c) mem f c.FormatUnder (c.FormatEnded f))
    (hoff : f.on = false) (hs : s.Orderly c.FormatUnder (c.FormatEnded f))
    (hjobs : s.jobs = [(true, j)]) (hmore : (c.dev.geo.formatAt (settled s.log + 1)).doneBlocks <
      c.dev.geo.numLbas) :
    ∃ e t, xferStep c (handleFormatUnit c) s e = some t ∧
      t.Orderly c.FormatUnder (c.FormatEnded f) ∧ t.jobs ≠ [] ∧ backs t.log = backs s.log + 1 ∧
        ∃ co data, .back co data .wrErr ∈ t.log := by
  obtain ⟨t, hstep, ht, hgoes⟩ := hone.done hs hjobs .wrErr
  have hbacks : backs t.log = backs s.log + 1 := hgoes.backs_eq.trans (backs_back ..)
  have hlog : (s.backed c 0 j .wrErr).log =
      s.log ++ [.back (j.callout c) (gather (j.callout c).iov s.mem) .wrErr] := rfl
  rw [hlog] at hgoes
  refine ⟨_, t, hstep, ht, fun hnil => ?_, hbacks, j.callout c,
    gather (j.callout c).iov s.mem, ?_⟩
  · rcases ht.2.2 with ⟨b, j', hj', -⟩ | ⟨-, hended⟩
    · exact absurd (hj'.symm.trans hnil) (by simp)
    rcases hended with ⟨hon, -, -⟩ | ⟨l₀, x, sts, ht', hx, -, -, -, -, hlast⟩ |
      ⟨l₀, x, g₀, ht', hx, hsettles, -⟩
    · exact absurd (hoff.symm.trans hon) (by simp)
    · rcases hgoes.last_two ht' with hsame | ⟨hl, -⟩ | ⟨hclear, -⟩
      · rw [hsame, show l₀ ++ [x, .complete sts] = (l₀ ++ [x]) ++ [.complete sts] by simp] at ht'
        exact absurd (List.append_inj' ht' rfl).2 (by simp)
      · obtain ⟨hl₀, hx'⟩ := List.append_inj' hl rfl
        rw [← List.singleton_inj.mp hx', ← hl₀] at hlast
        exact absurd (hlast rfl) hmore.ne
      · exact absurd (hclear.symm.trans hx) (by simp)
    · rcases hgoes.last_two ht' with hsame | ⟨hl, -⟩ | ⟨-, hbacks⟩
      · rw [hsame, show l₀ ++ [x, .complete .ok] = (l₀ ++ [x]) ++ [.complete .ok] by simp] at ht'
        exact absurd (List.append_inj' ht' rfl).2 (by simp)
      · obtain ⟨-, hx'⟩ := List.append_inj' hl rfl
        rw [← List.singleton_inj.mp hx'] at hx
        exact absurd hx (by simp [Happening.fails])
      · cases x with
        | back co data ret => exact absurd hbacks (by simp [backs])
        | call co data accepted =>
          exact absurd (hsettles.symm.trans hx) (by simp)
        | _ => exact absurd hsettles (by simp [Happening.settles])
  · obtain ⟨m, hm, -, -⟩ := hgoes
    rw [hm]
    exact List.mem_append_left _ (List.mem_append_right _ (List.mem_singleton_self _))

/-- On a device that takes more than one write, a failure of the first one is forgotten. -/
theorem format_forgets (hbs : 0 < c.dev.geo.blockSize)
    (hsize : c.dev.geo.numLbas * c.dev.geo.blockSize < 2 ^ 64)
    (hwrite : c.dev.handler.write = true) (hpos : 0 < c.dev.geo.formatStep)
    (hlt : c.dev.geo.formatStep < c.dev.geo.numLbas) (hcount : c.dev.geo.numLbas < 2 ^ 32)
    (mem : Mem) :
    ∃ es s, run (xferStep c (handleFormatUnit c)) (Xfer.init mem ⟨false, 0⟩) es = some s ∧
      completions s.log = [.ok] ∧ ∃ co data, .back co data .wrErr ∈ s.log := by
  have hone := oneByOne_handleFormatUnit hbs hsize (Device.xferBytes_ne_zero_of_step hpos) hwrite
    mem ⟨false, 0⟩
  obtain ⟨es, s, hrun, hs, hjobs, hclear, hbacks⟩ := format_reaches hone rfl (i := 0)
    fun k hk => absurd hk (Nat.not_lt_zero k)
  obtain ⟨fs, t, j, hrun', ht, hgoes, hj⟩ := hone.accepts hs hjobs
  have hsettled : settled t.log = 0 := by
    rw [(hgoes.clear hclear).settled_eq, hgoes.backs_eq, hbacks]
  have hfirst : (c.dev.geo.formatAt (settled t.log + 1)).doneBlocks < c.dev.geo.numLbas := by
    rw [hsettled, Device.formatAt_succ_doneBlocks hbs hsize hcount (by omega)]
    omega
  obtain ⟨e, u, hstep, hu, hjobs', -, co, data, hfailed⟩ := format_survives hone rfl ht hj hfirst
  have hbound : ∀ {b j m g l}, c.FormatUnder b j m g l → backs l < c.dev.geo.numLbas + 1 := by
    rintro b j m g l ⟨buf, -, -, hgoing⟩
    have hle := Device.formatAt_le hbs hsize hcount hgoing.more
    exact Nat.lt_succ_of_le ((backs_le_settled l).trans
      ((Nat.le_mul_of_pos_right _ hpos).trans hle))
  obtain ⟨gs, v, n, hrun'', hv, hnil, hgoes', hn⟩ := hone.ends_of_orderly hbound hu rfl
  refine ⟨es ++ fs ++ [e] ++ gs, v, ?_, ?_, co, data, ?_⟩
  · rw [run_append, run_concat.mpr ⟨t, ?_, hstep⟩]
    · exact hrun''
    · rw [run_append, hrun]
      exact hrun'
  · have hn := hn hjobs'
    rcases hv.2.2 with ⟨b, j', hj', -⟩ | ⟨-, hended⟩
    · exact absurd (hj'.symm.trans hnil) (by simp)
    rcases hended with ⟨hon, -, -⟩ | ⟨l₀, x, sts, hv', hx, -⟩ |
      ⟨l₀, x, g₀, hv', -, -, -, -, hopen, -, hgoing, -⟩
    · exact absurd hon (by simp)
    · rcases hgoes'.last_two hv' with hsame | ⟨-, hzero⟩ | ⟨hclear', -⟩
      · have := hgoes'.backs_eq
        rw [hsame] at this
        omega
      · omega
      · exact absurd (hclear'.symm.trans hx) (by simp)
    · have hstatus : completions [x, .complete .ok] = [.ok] := List.filterMap_cons_none hopen
      rw [hv', completions_append, hgoing.open_, hstatus]
      rfl
  · obtain ⟨m, hm, -, -⟩ := hgoes'
    rw [hm]
    exact List.mem_append_left _ hfailed

theorem writeFailed_of_back {co : Callout} {data : List UInt8} {l : List Happening}
    (h : .back co data .wrErr ∈ l) : WriteFailed l :=
  ⟨_, h, rfl, by simp [Happening.fails]⟩

/-- On a device where no write is the last one, a failure of any write is forgotten, and the format
goes on. -/
theorem format_goes_on (hbs : 0 < c.dev.geo.blockSize)
    (hsize : c.dev.geo.numLbas * c.dev.geo.blockSize < 2 ^ 64)
    (hwrite : c.dev.handler.write = true) (hxfer : c.dev.geo.xferBytes ≠ 0)
    (hmore : ∀ i, (c.dev.geo.formatAt (i + 1)).doneBlocks < c.dev.geo.numLbas) (mem : Mem) (N : ℕ) :
    ∃ es s, run (xferStep c (handleFormatUnit c)) (Xfer.init mem ⟨false, 0⟩) es = some s ∧
      WriteFailed s.log ∧ s.jobs ≠ [] ∧ N < backs s.log := by
  have hone := oneByOne_handleFormatUnit hbs hsize hxfer hwrite mem ⟨false, 0⟩
  obtain ⟨es, s, hrun, hs, hjobs, -, hbacks⟩ := format_reaches hone rfl (i := N) fun k _ => hmore k
  obtain ⟨fs, t, j, hrun', ht, hgoes, hj⟩ := hone.accepts hs hjobs
  obtain ⟨e, u, hstep, -, hjobs', hbacks', co, data, hfailed⟩ :=
    format_survives hone rfl ht hj (hmore _)
  refine ⟨es ++ fs ++ [e], u, run_concat.mpr ⟨t, ?_, hstep⟩, writeFailed_of_back hfailed, hjobs',
    ?_⟩
  · rw [run_append, hrun]
    exact hrun'
  · rw [hbacks', hgoes.backs_eq, hbacks]
    exact Nat.lt_succ_self N

/-- No write of such a device is the last one: it has no block, or the blocks cannot be counted. -/
theorem Device.never_last (hbs : 0 < d.blockSize) (hsize : d.numLbas * d.blockSize < 2 ^ 64)
    (h : d.formatStep = 0 ∧ 0 < d.numLbas ∨ 2 ^ 32 ≤ d.numLbas) (i : ℕ) :
    (d.formatAt (i + 1)).doneBlocks < d.numLbas := by
  by_cases hcount : d.numLbas < 2 ^ 32
  · obtain ⟨hzero, hpos⟩ := h.resolve_right (not_le.mpr hcount)
    have hi : i * d.formatStep ≤ d.numLbas := by
      rw [hzero, Nat.mul_zero]
      exact Nat.zero_le _
    rw [Device.formatAt_succ_doneBlocks hbs hsize hcount hi, hzero, Nat.mul_zero]
    omega
  · exact (d.formatAt_doneBlocks_lt _).trans_le (not_lt.mp hcount)

theorem not_reportsFailures (hbs : 0 < c.dev.geo.blockSize)
    (hsize : c.dev.geo.numLbas * c.dev.geo.blockSize < 2 ^ 64)
    (hwrite : c.dev.handler.write = true) (hxfer : c.dev.geo.xferBytes ≠ 0)
    (hlt : c.dev.geo.formatStep < c.dev.geo.numLbas) : ¬ c.ReportsFailures := by
  intro h
  by_cases hends : 0 < c.dev.geo.formatStep ∧ c.dev.geo.numLbas < 2 ^ 32
  · obtain ⟨es, s, hrun, hok, co, data, hfailed⟩ :=
      format_forgets hbs hsize hwrite hends.1 hlt hends.2 fun _ => 0
    exact h.ok _ _ es s hrun (by rw [hok]; exact List.mem_singleton_self _)
      (writeFailed_of_back hfailed)
  · obtain ⟨N, hN⟩ := h.finite
    obtain ⟨es, s, hrun, hfailed, hjobs, hbacks⟩ := format_goes_on hbs hsize hwrite hxfer
      (Device.never_last hbs hsize (by omega)) (fun _ => 0) N
    exact absurd (hN _ _ es s hrun hfailed hjobs) (not_le.mpr hbacks)

/-- **A format reports failures** if and only if its first write is the last one, or it does not
come to write. -/
theorem format_reports_iff (hbs : 0 < c.dev.geo.blockSize)
    (hsize : c.dev.geo.numLbas * c.dev.geo.blockSize < 2 ^ 63)
    (hwrite : c.dev.handler.write = true) :
    c.ReportsFailures ↔
      c.dev.geo.xferBytes = 0 ∨ c.dev.geo.numLbas ≤ c.dev.geo.formatStep := by
  have hsize := hsize.trans (show 2 ^ 63 < 2 ^ 64 by norm_num)
  refine ⟨fun h => ?_, reportsFailures_of hbs hsize hwrite⟩
  by_contra hnot
  obtain ⟨hxfer, hlt⟩ := not_or.mp hnot
  exact not_reportsFailures hbs hsize hwrite hxfer (not_le.mp hlt) h

end Status

/-- The device of eight blocks takes one write. -/
theorem format_reports_small : (formatOf (smallDev allocHandler) []).ReportsFailures :=
  (format_reports_iff (by decide) (by decide) rfl).mpr (Or.inr (by decide))

/-- A device of 2 MiB. -/
def midDev : TcmuDev := ⟨0, ⟨512, 4096, 128, 128, 0⟩, allocHandler, none⟩

/-- It takes two writes. A format of which the first one fails is completed with success. -/
theorem format_mid_forgets : ∃ es s,
    run (xferStep (formatOf midDev []) (handleFormatUnit (formatOf midDev [])))
      (Xfer.init (fun _ => 0) ⟨false, 0⟩) es = some s ∧ completions s.log = [.ok] ∧
        (∃ co data, .back co data .wrErr ∈ s.log) ∧ ¬ (formatOf midDev []).ReportsFailures := by
  obtain ⟨es, s, hrun, hok, hfailed⟩ := format_forgets (c := formatOf midDev [])
    (by decide) (by decide) rfl (by decide) (by decide) (by decide) fun _ => 0
  exact ⟨es, s, hrun, hok, hfailed, not_reportsFailures (by decide) (by decide) rfl (by decide)
    (by decide)⟩

/-! ### The progress -/

/-- The block count after the callback of a write. -/
def FormatUnit.next (bs : ℕ) (st : FormatUnit) : ℕ := (st.doneBlocks + st.length / bs) % 2 ^ 32

/-- After every callback of a write that leaves some blocks, the progress is what it should be, it
has not decreased, and it fits in 16 bits. -/
def Request.ProgressRight (c : Request) : Prop :=
  ∀ mem f es s i st ret env t,
    run (xferStep c (handleFormatUnit c)) (Xfer.init mem f) es = some s →
    s.jobs[i]? = some (true, .format st) →
    xferStep c (handleFormatUnit c) s (.done i ret env) = some t →
    st.next c.dev.geo.blockSize < c.dev.geo.numLbas →
      t.formatting.progress = 65536 * st.next c.dev.geo.blockSize / c.dev.geo.numLbas ∧
        s.formatting.progress ≤ t.formatting.progress ∧ t.formatting.progress < 2 ^ 16

/-- Some blocks before the end, the progress is computed right: `d` blocks are few, or they are
not even a 2^16-th of the device. -/
theorem progress_eq_iff {d n : ℕ} (hdn : d < n) (hd : d < 2 ^ 32) :
    0x10000 * d % 2 ^ 32 / n % 2 ^ 32 = 65536 * d / n ↔ d < 2 ^ 16 ∨ 65536 * d < n := by
  have hmod : 0x10000 * d % 2 ^ 32 = 65536 * (d % 2 ^ 16) := by omega
  have hsmall : 65536 * (d % 2 ^ 16) / n < 2 ^ 32 := by
    refine (Nat.div_le_self _ _).trans_lt ?_
    omega
  rw [hmod, Nat.mod_eq_of_lt hsmall]
  constructor
  · intro heq
    by_contra hnot
    obtain ⟨hge, hle⟩ : 2 ^ 16 ≤ d ∧ n ≤ 65536 * d := by omega
    rcases Nat.le_total n (2 ^ 32) with hn | hn
    · -- the wrapped part is a whole at least
      have hadd : 65536 * (d % 2 ^ 16) + n ≤ 65536 * d := by omega
      have hdiv := Nat.div_le_div_right (c := n) hadd
      rw [Nat.add_div_right _ (by omega)] at hdiv
      omega
    · have hzero : 65536 * (d % 2 ^ 16) / n = 0 := Nat.div_eq_of_lt (by omega)
      have hpos : 0 < 65536 * d / n := Nat.div_pos hle (by omega)
      omega
  · rintro (hlt | hlt)
    · rw [Nat.mod_eq_of_lt hlt]
    · have hzero : 65536 * (d % 2 ^ 16) / n = 0 := Nat.div_eq_of_lt (by omega)
      rw [hzero, Nat.div_eq_of_lt hlt]

section Progress

variable {c : Request} {d : Device} {s : Xfer} {st : FormatUnit}

/-- What the callback of a write makes of the progress. -/
theorem wp_handleFormatUnitCbk_progress (hwrite : c.dev.handler.write = true) (ret : TcmuSts) :
    Prog.wp (xferInterp c) (fun _ _ => True) (fun _ _ => False) (handleFormatUnitCbk c st ret)
      (fun _ t => st.next c.dev.geo.blockSize < c.dev.geo.numLbas → t.formatting.progress =
        0x10000 * st.next c.dev.geo.blockSize % 2 ^ 32 / c.dev.geo.numLbas % 2 ^ 32) s := by
  change Prog.wp _ _ _ (if st.next c.dev.geo.blockSize = c.dev.geo.numLbas then _
    else if st.next c.dev.geo.blockSize < c.dev.geo.numLbas then _ else _) _ _
  split
  · rename_i hlast
    exact Prog.wp_bind.mpr (wp_clearFormat (wp_aioCommandFinish fun h => absurd hlast h.ne))
  split
  · intro a _ r t ht
    obtain ⟨rfl, rfl⟩ := Prod.mk.inj (Option.some.inj ht)
    intro a _ r t ht
    obtain ⟨-, rfl⟩ := Prod.mk.inj (Option.some.inj ht)
    refine Prog.wp_bind.mpr (Prog.wp_bind.mpr (wp_allocIovec (fun buf _ => ?_) ?_))
    · refine Prog.wp_bind.mpr (wp_dispatch (j := .format _) hwrite rfl ?_ ?_ ?_ ?_)
      · rw [if_neg (by simp)]
        exact fun _ => rfl
      · intro now
        rw [if_neg (by simp)]
        exact fun _ => rfl
      · intro e
        rw [if_pos e.ne_async]
        exact Prog.wp_bind.mpr (wp_clearFormat (wp_aioCommandFinish fun _ => rfl))
      · rw [if_pos (by simp)]
        exact Prog.wp_bind.mpr (wp_clearFormat (wp_aioCommandFinish fun _ => rfl))
    · exact Prog.wp_bind.mpr (wp_clearFormat (wp_aioCommandFinish fun _ => rfl))
  · rename_i hnot
    exact fun h => absurd h hnot

/-- The same, for the event. -/
theorem progress_of_done (hwrite : c.dev.handler.write = true) {i : ℕ} {ret : TcmuSts}
    {env : Prog.Env Op Ans} {t : Xfer} (hj : s.jobs[i]? = some (true, .format st))
    (hstep : xferStep c (handleFormatUnit c) s (.done i ret env) = some t)
    (hmore : st.next c.dev.geo.blockSize < c.dev.geo.numLbas) :
    t.formatting.progress =
      0x10000 * st.next c.dev.geo.blockSize % 2 ^ 32 / c.dev.geo.numLbas % 2 ^ 32 := by
  unfold xferStep at hstep
  split at hstep
  · exact absurd hstep (by simp)
  dsimp only at hstep
  rw [hj] at hstep
  obtain ⟨⟨x, u⟩, hexec, rfl⟩ := Option.map_eq_some_iff.mp hstep
  rcases Prog.exec_of_wp (wp_handleFormatUnitCbk_progress hwrite ret) (fun _ _ => trivial) hexec
    with ⟨_, rfl, hu⟩ | ⟨_, -, hfalse⟩
  · exact hu hmore
  · exact hfalse.elim

/-- Where the progress is right at some time. -/
def Device.RightAt (d : Device) (i : ℕ) : Prop :=
  (d.formatAt i).doneBlocks < 2 ^ 16 ∨ 65536 * (d.formatAt i).doneBlocks < d.numLbas

/-- A write is reached if no write before it is the last one. -/
def Device.Reached (d : Device) (i : ℕ) : Prop :=
  ∀ k < i, (d.formatAt (k + 1)).doneBlocks < d.numLbas

instance (d : Device) (i : ℕ) : Decidable (d.Reached i) :=
  inferInstanceAs (Decidable (∀ k < i, _))

theorem Device.Reached.lt {i : ℕ} (h : d.Reached i) (hpos : 0 < d.numLbas) :
    (d.formatAt i).doneBlocks < d.numLbas := by
  cases i with
  | zero => exact hpos
  | succ i => exact h i (Nat.lt_succ_self i)

/-- Progress that is right does not decrease. -/
theorem Device.Reached.progress_le (hbs : 0 < d.blockSize)
    (hsize : d.numLbas * d.blockSize < 2 ^ 64) {i : ℕ} (h : d.Reached i) (hright : d.RightAt i) :
    65536 * (d.formatAt i).doneBlocks / d.numLbas ≤
      65536 * (d.formatAt (i + 1)).doneBlocks / d.numLbas := by
  rcases Nat.lt_or_ge d.numLbas (2 ^ 32) with hcount | hcount
  · have hi := Device.formatAt_le hbs hsize hcount h
    obtain ⟨hdone, -⟩ := Device.formatAt_eq hbs hsize hi (by omega)
    refine Nat.div_le_div_right (Nat.mul_le_mul_left _ ?_)
    rw [hdone, Device.formatAt_succ_doneBlocks hbs hsize hcount hi, Nat.succ_mul]
    omega
  · -- the count may have wrapped, but it does not make a difference
    have hlt : 65536 * (d.formatAt i).doneBlocks < d.numLbas := by
      rcases hright with hsmall | hlt
      · omega
      · exact hlt
    rw [Nat.div_eq_of_lt hlt]
    exact Nat.zero_le _

/-- The progress is right if and only if it is right after every callback that is reached. -/
theorem progressRight_iff (hbs : 0 < c.dev.geo.blockSize)
    (hsize : c.dev.geo.numLbas * c.dev.geo.blockSize < 2 ^ 64)
    (hwrite : c.dev.handler.write = true) (hxfer : c.dev.geo.xferBytes ≠ 0) :
    c.ProgressRight ↔ ∀ i, c.dev.geo.Reached i → c.dev.geo.RightAt i := by
  constructor
  · intro h i hi
    cases i with
    | zero => exact Or.inl (show 0 < 2 ^ 16 by norm_num)
    | succ i =>
      have hone := oneByOne_handleFormatUnit hbs hsize hxfer hwrite (fun _ => 0) ⟨false, 0⟩
      obtain ⟨es, s, hrun, hs, hjobs, hclear, hbacks⟩ := format_reaches hone rfl
        fun k hk => hi k (hk.trans (Nat.lt_succ_self i))
      obtain ⟨fs, t, j, hrun', ht, hgoes, hj⟩ := hone.accepts hs hjobs
      obtain ⟨-, -, buf, rfl, -, -⟩ := ht.2.2.of_getElem (i := 0) (by rw [hj]; rfl)
      have hsettled : settled t.log = i := by
        rw [(hgoes.clear hclear).settled_eq, hgoes.backs_eq, hbacks, Nat.add_zero]
      rw [hsettled] at hj
      obtain ⟨u, hstep, -⟩ := hone.done ht hj .ok
      have hrun'' : run (xferStep c (handleFormatUnit c)) (Xfer.init (fun _ => 0) ⟨false, 0⟩)
          (es ++ fs) = some t := by
        rw [run_append, hrun]
        exact hrun'
      have hj0 : t.jobs[0]? = some (true, c.dev.geo.formatJob i buf) := by
        rw [hj]
        rfl
      have hlt := hi i (Nat.lt_succ_self i)
      have hvalue := progress_of_done hwrite hj0 hstep hlt
      rw [(h _ _ _ t 0 _ _ _ u hrun'' hj0 hstep hlt).1] at hvalue
      exact (progress_eq_iff hlt (c.dev.geo.formatAt_doneBlocks_lt _)).mp hvalue.symm
  · intro h mem f es s i st ret env t hrun hj hstep hmore
    have hone := oneByOne_handleFormatUnit hbs hsize hxfer hwrite mem f
    rcases hone.run hrun with rfl | ⟨-, -, hstands⟩
    · exact absurd hj (by simp [Xfer.init])
    obtain ⟨-, -, buf, hst, -, hgoing⟩ := hstands.of_getElem hj
    obtain rfl := Job.format.inj hst
    have hlt : (c.dev.geo.formatAt (settled s.log + 1)).doneBlocks < c.dev.geo.numLbas := hmore
    have hreached : c.dev.geo.Reached (settled s.log) := hgoing.more
    have hreached' : c.dev.geo.Reached (settled s.log + 1) := by
      intro k hk
      rcases Nat.lt_succ_iff_lt_or_eq.mp hk with hk | rfl
      · exact hgoing.more k hk
      · exact hmore
    have hbefore : s.formatting.progress =
        65536 * (c.dev.geo.formatAt (settled s.log)).doneBlocks / c.dev.geo.numLbas := by
      rw [hgoing.flag]
      exact (progress_eq_iff (hreached.lt (Nat.zero_lt_of_lt hmore))
        (c.dev.geo.formatAt_doneBlocks_lt _)).mpr (h _ hreached)
    have hafter : t.formatting.progress =
        65536 * (c.dev.geo.formatAt (settled s.log + 1)).doneBlocks / c.dev.geo.numLbas := by
      rw [progress_of_done hwrite hj hstep hmore]
      exact (progress_eq_iff hlt (c.dev.geo.formatAt_doneBlocks_lt _)).mpr (h _ hreached')
    refine ⟨hafter, ?_, ?_⟩
    · rw [hbefore, hafter]
      exact hreached.progress_le hbs hsize (h _ hreached)
    · rw [hafter]
      refine Nat.div_lt_of_lt_mul ?_
      omega

/-! ### When the progress is right -/

/-- Without steps there is no progress. -/
theorem Device.formatAt_doneBlocks_zero (hbs : 0 < d.blockSize)
    (hsize : d.numLbas * d.blockSize < 2 ^ 64) (hstep : d.formatStep = 0) (i : ℕ) :
    (d.formatAt i).doneBlocks = 0 := by
  obtain ⟨hdone, -⟩ := Device.formatAt_eq (i := i) hbs hsize (by rw [hstep]; exact Nat.zero_le _)
    (by rw [hstep]; norm_num)
  rw [hdone, hstep, Nat.mul_zero]

/-- On a very large device every write is a whole step, and the count goes round. -/
theorem Device.formatAt_of_large (hbs : 0 < d.blockSize)
    (hsize : d.numLbas * d.blockSize < 2 ^ 64) (hlarge : 2 ^ 33 ≤ d.numLbas) : ∀ i,
      (d.formatAt i).length = d.firstWrite.length ∧
        (d.formatAt i).doneBlocks = i * d.formatStep % 2 ^ 32
  | 0 => by
    refine ⟨rfl, ?_⟩
    rw [Nat.zero_mul]
    rfl
  | i + 1 => by
    obtain ⟨hlength, hdone⟩ := Device.formatAt_of_large hbs hsize hlarge i
    have hlt := d.formatAt_doneBlocks_lt (i + 1)
    have hfirst : d.firstWrite.length < 2 ^ 32 := by
      rw [d.firstWrite_length hsize]
      exact (min_le_right _ _).trans_lt d.stepBytes_lt
    refine ⟨?_, ?_⟩
    · rw [d.formatAt_succ_length hsize, hlength]
      refine Nat.min_eq_right (hfirst.le.trans ?_)
      exact (show 2 ^ 32 ≤ d.numLbas - (d.formatAt (i + 1)).doneBlocks by omega).trans
        (Nat.le_mul_of_pos_right _ hbs)
    · change ((d.formatAt i).doneBlocks + (d.formatAt i).length / d.blockSize) % 2 ^ 32 = _
      rw [hlength, hdone, Nat.mod_add_mod, Nat.succ_mul]
      rfl

/-- The largest count below 2^32 that steps of `k` blocks lead to. -/
theorem exists_mul_mod_eq {k : ℕ} (hpos : 0 < k) (hlt : k < 2 ^ 32) :
    ∃ i, (i + 1) * k % 2 ^ 32 = 2 ^ 32 - Nat.gcd k (2 ^ 32) := by
  have hgpos : 0 < Nat.gcd k (2 ^ 32) := Nat.gcd_pos_of_pos_left _ hpos
  have hglt : Nat.gcd k (2 ^ 32) < 2 ^ 32 := (Nat.gcd_le_left _ hpos).trans_lt hlt
  obtain ⟨m, -, hm⟩ := Nat.exists_mul_mod_eq_gcd hglt
  have hmul : m * (2 ^ 32 - 1) * k % 2 ^ 32 = 2 ^ 32 - Nat.gcd k (2 ^ 32) := by
    calc m * (2 ^ 32 - 1) * k % 2 ^ 32
        = k * m % 2 ^ 32 * (2 ^ 32 - 1) % 2 ^ 32 := by
          rw [Nat.mod_mul_mod]
          congr 1
          ring
      _ = Nat.gcd k (2 ^ 32) * (2 ^ 32 - 1) % 2 ^ 32 := by rw [hm]
      _ = 2 ^ 32 - Nat.gcd k (2 ^ 32) := by omega
  cases hj : m * (2 ^ 32 - 1) with
  | zero =>
    rw [hj, Nat.zero_mul, Nat.zero_mod] at hmul
    omega
  | succ i =>
    rw [hj] at hmul
    exact ⟨i, hmul⟩

/-- The device is small enough for its progress to be computed in 32 bits, or so large that all that
is ever counted is not worth mentioning. -/
def Device.ProgressFits (d : Device) : Prop :=
  (d.numLbas < 2 ^ 32 ∧ (d.numLbas - 1) / d.formatStep * d.formatStep < 2 ^ 16) ∨
    (2 ^ 32 ≤ d.numLbas ∧ 65536 * (2 ^ 32 - Nat.gcd d.formatStep (2 ^ 32)) < d.numLbas)

instance (d : Device) : Decidable d.ProgressFits := inferInstanceAs (Decidable (_ ∨ _))

/-- A multiple of a divisor of 2^32 is at least one divisor away from 2^32. -/
theorem le_sub_of_dvd {a g : ℕ} (hga : g ∣ a) (hg : g ∣ 2 ^ 32) (ha : a < 2 ^ 32) :
    a ≤ 2 ^ 32 - g := by
  have hdvd : g ∣ 2 ^ 32 - a := Nat.dvd_sub hg hga
  have hle := Nat.le_of_dvd (by omega) hdvd
  omega

theorem Device.ProgressFits.right (h : d.ProgressFits) (hbs : 0 < d.blockSize)
    (hsize : d.numLbas * d.blockSize < 2 ^ 64) {i : ℕ} (hi : d.Reached i) : d.RightAt i := by
  rcases Nat.eq_zero_or_pos d.formatStep with hstep | hpos
  · rw [Device.RightAt, Device.formatAt_doneBlocks_zero hbs hsize hstep]
    exact Or.inl (by norm_num)
  rcases h with ⟨hcount, hlast⟩ | ⟨hcount, hlarge⟩
  · have hle := Device.formatAt_le hbs hsize hcount hi
    obtain ⟨hdone, -⟩ := Device.formatAt_eq hbs hsize hle (by omega)
    refine Or.inl ?_
    rw [hdone]
    rcases Nat.eq_zero_or_pos i with rfl | hipos
    · rw [Nat.zero_mul]
      norm_num
    · have hlt := hi (i - 1) (by omega)
      rw [Nat.sub_add_cancel hipos, hdone] at hlt
      have hdiv : i ≤ (d.numLbas - 1) / d.formatStep :=
        (Nat.le_div_iff_mul_le hpos).mpr (by omega)
      exact (Nat.mul_le_mul_right _ hdiv).trans_lt hlast
  · have hgcd : Nat.gcd d.formatStep (2 ^ 32) < 2 ^ 32 :=
      (Nat.gcd_le_left _ hpos).trans_lt d.formatStep_lt
    have hdvd := Nat.gcd_dvd_right d.formatStep (2 ^ 32)
    -- a proper divisor of 2^32 is at most half of it
    have hhalf := le_sub_of_dvd dvd_rfl hdvd hgcd
    obtain ⟨-, hdone⟩ := Device.formatAt_of_large hbs hsize (by omega) i
    refine Or.inr ?_
    have hmul : Nat.gcd d.formatStep (2 ^ 32) ∣ i * d.formatStep % 2 ^ 32 :=
      (Nat.dvd_mod_iff hdvd).mpr ((Nat.gcd_dvd_left _ _).mul_left i)
    have hle := le_sub_of_dvd hmul hdvd (Nat.mod_lt _ (by norm_num))
    rw [hdone]
    omega

theorem Device.fits_of_right (hbs : 0 < d.blockSize) (hsize : d.numLbas * d.blockSize < 2 ^ 64)
    (h : ∀ i, d.Reached i → d.RightAt i) : d.ProgressFits := by
  rcases Nat.lt_or_ge d.numLbas (2 ^ 32) with hcount | hcount
  · refine Or.inl ⟨hcount, ?_⟩
    rcases Nat.eq_zero_or_pos ((d.numLbas - 1) / d.formatStep) with hzero | hpos
    · rw [hzero, Nat.zero_mul]
      norm_num
    -- the last write before which something is left
    have hle : (d.numLbas - 1) / d.formatStep * d.formatStep ≤ d.numLbas - 1 :=
      Nat.div_mul_le_self _ _
    have hstep : 0 < d.formatStep := by
      rcases Nat.eq_zero_or_pos d.formatStep with hzero | hstep
      · rw [hzero, Nat.div_zero] at hpos
        omega
      · exact hstep
    have hnum : 0 < d.numLbas := by
      by_contra hnot
      rw [Nat.eq_zero_of_not_pos hnot, Nat.zero_sub, Nat.zero_div] at hpos
      omega
    have hreached : d.Reached ((d.numLbas - 1) / d.formatStep) := by
      intro k hk
      have hk' : (k + 1) * d.formatStep ≤ (d.numLbas - 1) / d.formatStep * d.formatStep :=
        Nat.mul_le_mul_right _ hk
      obtain ⟨hdone, -⟩ := Device.formatAt_eq (i := k + 1) hbs hsize (by omega) (by omega)
      rw [hdone]
      omega
    obtain ⟨hdone, -⟩ := Device.formatAt_eq (i := (d.numLbas - 1) / d.formatStep) hbs hsize
      (by omega) (by omega)
    have hright := h _ hreached
    rw [Device.RightAt, hdone] at hright
    omega
  · refine Or.inr ⟨hcount, ?_⟩
    have hreached : ∀ i, d.Reached i := fun i k _ =>
      (d.formatAt_doneBlocks_lt (k + 1)).trans_le hcount
    rcases Nat.eq_zero_or_pos d.formatStep with hzero | hpos
    · rw [hzero, Nat.gcd_zero_left]
      omega
    have hlt := d.formatStep_lt
    rcases Nat.lt_or_ge d.numLbas (2 ^ 33) with hsmall | hlarge
    · -- here the count gets near 2^32 before it goes round for the first time
      have hle : (2 ^ 32 - 1) / d.formatStep * d.formatStep ≤ 2 ^ 32 - 1 := Nat.div_mul_le_self _ _
      have hge : 2 ^ 31 ≤ (2 ^ 32 - 1) / d.formatStep * d.formatStep := by
        have hone : 1 * d.formatStep ≤ (2 ^ 32 - 1) / d.formatStep * d.formatStep :=
          Nat.mul_le_mul_right _ (Nat.div_pos (by omega) hpos)
        have hmod := Nat.div_add_mod (2 ^ 32 - 1) d.formatStep
        have hmodlt := Nat.mod_lt (2 ^ 32 - 1) hpos
        rw [Nat.mul_comm] at hmod
        omega
      obtain ⟨hdone, -⟩ := Device.formatAt_eq (i := (2 ^ 32 - 1) / d.formatStep) hbs hsize
        (by omega) (by omega)
      have hright := h _ (hreached ((2 ^ 32 - 1) / d.formatStep))
      rw [Device.RightAt, hdone] at hright
      omega
    · obtain ⟨i, hi⟩ := exists_mul_mod_eq hpos hlt
      obtain ⟨-, hdone⟩ := Device.formatAt_of_large hbs hsize hlarge (i + 1)
      have hright := h _ (hreached (i + 1))
      rw [Device.RightAt, hdone, hi] at hright
      omega

/-- **The progress of a format is right** if and only if it fits. -/
theorem format_progress_iff (hbs : 0 < c.dev.geo.blockSize)
    (hsize : c.dev.geo.numLbas * c.dev.geo.blockSize < 2 ^ 63)
    (hwrite : c.dev.handler.write = true) : c.ProgressRight ↔ c.dev.geo.ProgressFits := by
  have hsize := hsize.trans (show 2 ^ 63 < 2 ^ 64 by norm_num)
  by_cases hxfer : c.dev.geo.xferBytes = 0
  · refine ⟨fun _ => Device.fits_of_right hbs hsize fun i _ => ?_, fun _ => ?_⟩
    · have hstep : c.dev.geo.formatStep = 0 := by
        by_contra hne
        exact Device.xferBytes_ne_zero_of_step (Nat.pos_of_ne_zero hne) hxfer
      rw [Device.RightAt, Device.formatAt_doneBlocks_zero hbs hsize hstep]
      exact Or.inl (by norm_num)
    · intro mem f es s i st ret env t hrun hj
      rw [(format_without_xfer hxfer hrun).1] at hj
      exact absurd hj (by simp)
  · rw [progressRight_iff hbs hsize hwrite hxfer]
    exact ⟨Device.fits_of_right hbs hsize, fun h i hi => h.right hbs hsize hi⟩

end Progress

/-- On the device of 2 MiB the progress is right. -/
theorem format_progress_mid : (formatOf midDev []).ProgressRight :=
  (format_progress_iff (by decide) (by decide) rfl).mpr (Or.inl ⟨by decide, by decide⟩)

/-- A device of 64 MiB. -/
def largeDev : TcmuDev := ⟨0, ⟨512, 2 ^ 17, 128, 128, 0⟩, allocHandler, none⟩

/-- When half of it is done, the progress is back to nothing. -/
theorem format_progress_wraps :
    largeDev.geo.Reached 32 ∧ (largeDev.geo.formatAt 32).doneBlocks = 2 ^ 16 ∧
      largeDev.geo.progressAt 31 = 31744 ∧ largeDev.geo.progressAt 32 = 0 ∧
        ¬ (formatOf largeDev []).ProgressRight := by
  refine ⟨by decide +kernel, by decide +kernel, by decide +kernel, by decide +kernel, fun h => ?_⟩
  have hfits : largeDev.geo.ProgressFits := Device.fits_of_right (by decide) (by decide)
    ((progressRight_iff (c := formatOf largeDev []) (by decide) (by decide) rfl (by decide)).mp h)
  exact absurd hfits (by decide +kernel)

end Tcmu

end LioProject
