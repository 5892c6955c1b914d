import LioProject.Tcmu.Progress
import Mathlib.Data.List.Find

/-!
# Comparing and seeking in scatter lists

`COMPARE AND WRITE` compares the first half of its Data-Out buffer with what has been read, and
writes the second half. `tcmu_seek_in_cmd_iovec` is to take the first half off the scatter list. It
empties the entries that it uses up and takes their number off `iov_cnt`, but `cmd->iovec` still
points at the first of them: for every entry that is used up, one is missing at the end. The write
presents the second half if and only if the missing entries have no bytes (`caw_stores_iff`).
-/

namespace LioProject

namespace Tcmu

section Gather

variable {iov : List Iovec} {mem : Mem} {a n : ℕ}

/-- A scatter list without bytes. -/
theorem gather_eq_nil (mem : Mem) : gather iov mem = [] ↔ ∀ v ∈ iov, v.len = 0 := by
  rw [gather, List.flatMap_eq_nil_iff]
  refine forall₂_congr fun v _ => ?_
  rw [← List.length_eq_zero_iff, Iovec.bytes, Mem.length_load]

/-! ### Comparing -/

theorem getD_append_add {α : Type} {l m : List α} {x : α} {i : ℕ} :
    (l ++ m).getD (l.length + i) x = m.getD i x := by
  rw [List.getD_append_right _ _ _ _ (Nat.le_add_right _ _), Nat.add_sub_cancel_left]

/-- **Comparing finds the first difference**, if the entries cover what is to be compared. -/
theorem tcmuCompareWithIovec_eq (h : n ≤ iovTotal iov) :
    tcmuCompareWithIovec mem a iov n =
      (List.range n).find? fun i => mem (a + i) ≠ (gather iov mem).getD i 0 := by
  induction iov generalizing a n with
  | nil =>
    obtain rfl : n = 0 := Nat.le_zero.mp h
    rfl
  | cons v iov ih =>
    rw [iovTotal_cons] at h
    rw [tcmuCompareWithIovec]
    split
    · rename_i hn
      rw [hn]
      rfl
    · dsimp only
      have hlen : (mem.load v.base v.len).length = v.len := Mem.length_load ..
      have hin : ∀ i < min n v.len, (gather (v :: iov) mem).getD i 0 = mem (v.base + i) := by
        intro i hi
        rw [gather_cons, List.getD_append _ _ _ _ (by omega)]
        simp [Mem.load, (lt_min_iff.mp hi).2]
      have hrest : ∀ i < n - min n v.len,
          (gather (v :: iov) mem).getD (min n v.len + i) 0 = (gather iov mem).getD i 0 := by
        intro i hi
        have hmin : min n v.len = (mem.load v.base v.len).length := by omega
        rw [gather_cons, hmin, getD_append_add]
      -- the indices of this entry come first, then those of the others
      have hrange : List.range n = List.range (min n v.len) ++
          (List.range (n - min n v.len)).map (min n v.len + ·) := by
        rw [← List.range_add, Nat.add_sub_cancel' (Nat.min_le_left _ _)]
      rw [ih (by omega), hrange, List.find?_append, List.find?_map]
      have hfst : (List.range (min n v.len)).find?
            (fun i => decide (mem (a + i) ≠ (gather (v :: iov) mem).getD i 0)) =
          (List.range (min n v.len)).find? fun i => decide (mem (a + i) ≠ mem (v.base + i)) := by
        refine List.find?_congr fun i hi => ?_
        rw [hin i (List.mem_range.mp hi)]
      have hsnd : (List.range (n - min n v.len)).find?
            ((fun i => decide (mem (a + i) ≠ (gather (v :: iov) mem).getD i 0)) ∘
              (min n v.len + ·)) =
          (List.range (n - min n v.len)).find? fun i =>
            decide (mem (a + min n v.len + i) ≠ (gather iov mem).getD i 0) := by
        refine List.find?_congr fun i hi => ?_
        rw [Function.comp_apply, hrest i (List.mem_range.mp hi), Nat.add_assoc]
      rw [hfst, hsnd]
      cases (List.range (min n v.len)).find? fun i =>
          decide (mem (a + i) ≠ mem (v.base + i)) with
      | none => rfl
      | some pos => rfl

/-- There is no difference, and none is taken for one. -/
theorem cmpOffset_compare_none (h : n ≤ iovTotal iov) (hn : n < 2 ^ 32) :
    cmpOffset (tcmuCompareWithIovec mem a iov n) = none ↔
      mem.load a n = (gather iov mem).take n := by
  have hlen : n ≤ (gather iov mem).length := by rwa [length_gather]
  have hload : mem.load a n = (gather iov mem).take n ↔
      ∀ i < n, mem (a + i) = (gather iov mem).getD i 0 := by
    constructor
    · intro heq i hi
      have hget := congrArg (fun l => l.getD i 0) heq
      simpa [Mem.load, hi] using hget
    · intro hall
      refine List.ext_getElem (by simp; omega) fun i hi hi' => ?_
      have hi : i < n := by simpa using hi
      simpa [Mem.load, List.getElem?_eq_getElem (hi.trans_le hlen)] using hall i hi
  rw [hload, tcmuCompareWithIovec_eq h]
  cases hfind : (List.range n).find? fun i => decide (mem (a + i) ≠ (gather iov mem).getD i 0) with
  | none =>
    simp only [cmpOffset, Option.bind_none, true_iff]
    intro i hi
    simpa using List.find?_eq_none.mp hfind i (List.mem_range.mpr hi)
  | some i =>
    have hi := List.mem_range.mp (List.mem_of_find?_eq_some hfind)
    have hne := List.find?_some hfind
    rw [cmpOffset, Option.bind_some, Nat.mod_eq_of_lt (by omega), if_neg (by omega)]
    simp only [reduceCtorEq, false_iff, not_forall]
    exact ⟨i, hi, by simpa using hne⟩

/-! ### Seeking -/

/-- How many entries the first `n` bytes use up: an entry is used up if the bytes do not end before
it, and do not end inside it. -/
def usedUp (iov : List Iovec) (n : ℕ) : ℕ :=
  (List.range iov.length).countP fun i =>
    iovTotal (iov.take i) < n ∧ iovTotal (iov.take (i + 1)) ≤ n

theorem usedUp_cons (v : Iovec) :
    usedUp (v :: iov) n =
      if n = 0 then 0 else if v.len ≤ n then usedUp iov (n - v.len) + 1 else 0 := by
  rw [usedUp, List.length_cons, List.range_succ_eq_map, List.countP_cons, List.countP_map]
  have htail : (List.range iov.length).countP
        ((fun i => decide (iovTotal ((v :: iov).take i) < n ∧
          iovTotal ((v :: iov).take (i + 1)) ≤ n)) ∘ Nat.succ) =
      if v.len ≤ n then usedUp iov (n - v.len) else 0 := by
    split
    · rename_i hle
      refine List.countP_congr fun i _ => ?_
      simp only [Function.comp_apply, Nat.succ_eq_add_one, List.take_succ_cons, iovTotal_cons,
        decide_eq_true_eq]
      omega
    · rename_i hlt
      refine List.countP_eq_zero.mpr fun i _ => ?_
      simp only [Function.comp_apply, Nat.succ_eq_add_one, List.take_succ_cons, iovTotal_cons,
        decide_eq_true_eq]
      omega
  have hhead : iovTotal ((v :: iov).take 0) < n ∧ iovTotal ((v :: iov).take (0 + 1)) ≤ n ↔
      n ≠ 0 ∧ v.len ≤ n := by
    simp [iovTotal, Nat.pos_iff_ne_zero]
  rw [htail]
  simp only [hhead, decide_eq_true_eq]
  by_cases hn : n = 0
  · have hused : usedUp iov (n - v.len) = 0 := by
      rw [hn, Nat.zero_sub]
      exact List.countP_eq_zero.mpr fun i _ => by simp
    rw [hused, ite_self, if_pos hn, if_neg fun h : n ≠ 0 ∧ v.len ≤ n => h.1 hn]
  · rw [if_neg hn]
    split
    · rename_i hle
      rw [if_pos ⟨hn, hle⟩]
    · rename_i hle
      rw [if_neg fun h => hle h.2]

theorem tcmuSeekInIovec_snd : (tcmuSeekInIovec iov n).2 = usedUp iov n := by
  induction iov generalizing n with
  | nil => rfl
  | cons v iov ih =>
    rw [usedUp_cons, tcmuSeekInIovec]
    split
    · rfl
    · split
      · rw [ih]
      · rfl

/-- Entries that are used up are empty, and others are as empty as they were. -/
theorem tcmuSeekInIovec_drop_empty (k : ℕ) :
    (∀ v ∈ (tcmuSeekInIovec iov n).1.drop k, v.len = 0) ↔
      ∀ v ∈ iov.drop (max (usedUp iov n) k), v.len = 0 := by
  induction iov generalizing n k with
  | nil => simp [tcmuSeekInIovec]
  | cons v iov ih =>
    rw [usedUp_cons, tcmuSeekInIovec]
    split
    · rw [Nat.zero_max]
    · split
      · cases k with
        | zero =>
          have hzero := ih (n := n - v.len) (k := 0)
          rw [Nat.max_zero] at hzero ⊢
          rw [List.drop_succ_cons, ← hzero]
          simp
        | succ k => rw [← Nat.succ_eq_add_one, ← Nat.succ_eq_add_one, Nat.succ_max_succ,
            List.drop_succ_cons, List.drop_succ_cons, ih]
      · rename_i hlt
        rw [Nat.zero_max]
        cases k with
        | zero =>
          simp only [List.drop_zero, List.forall_mem_cons]
          omega
        | succ k => rfl

/-- The entries that are lost at the end of the scatter list have no bytes left. -/
def SeekKeeps (iov : List Iovec) (n : ℕ) : Prop :=
  ∀ v ∈ iov.drop (max (usedUp iov n) (iov.length - usedUp iov n)), v.len = 0

instance (iov : List Iovec) (n : ℕ) : Decidable (SeekKeeps iov n) :=
  inferInstanceAs (Decidable (∀ v ∈ _, _))

/-- **Seeking** leaves the bytes behind the first `n` if and only if the lost entries are empty. -/
theorem gather_tcmuSeekInCmdIovec_iff (mem : Mem) :
    gather (tcmuSeekInCmdIovec iov n) mem = (gather iov mem).drop n ↔ SeekKeeps iov n := by
  rw [tcmuSeekInCmdIovec, tcmuSeekInIovec_snd, SeekKeeps, ← tcmuSeekInIovec_drop_empty,
    ← gather_tcmuSeekInIovec, ← gather_eq_nil mem]
  generalize iov.length - usedUp iov n = k
  have hsplit : gather (tcmuSeekInIovec iov n).1 mem =
      gather ((tcmuSeekInIovec iov n).1.take k) mem ++
        gather ((tcmuSeekInIovec iov n).1.drop k) mem := by
    rw [← gather_append, List.take_append_drop]
  rw [hsplit]
  exact List.self_eq_append_right

end Gather

/-! ### The callback of the read -/

section Callback

variable {c : Request} {mem : Mem} {buf : ℕ} {s t : Life}

/-- The number of bytes that are compared and written. -/
def Request.cawBytes (c : Request) : ℕ := byteAt c.cdb 13 * c.dev.geo.blockSize

/-- The call is a write of the given bytes to the given place of the device, with all bytes of the
scatter list and no others. -/
def Callout.Presents (dev : TcmuDev) (mem : Mem) (bytes : List UInt8) (offset : ℕ) : Callout → Prop
  | .write d _ iov length off =>
    d = dev ∧ gather iov mem = bytes ∧ length = bytes.length ∧ off = offset
  | _ => False

/-- What is in the read buffer equals the first half of the Data-Out buffer. -/
def Request.CawEqual (c : Request) (mem : Mem) (buf : ℕ) : Prop :=
  mem.load buf c.cawBytes = (gather c.cmd.iov mem).take c.cawBytes

/-- The write could not be handed on, and the command ends with the reason: the handler has been
given the write and has refused it, or there was no memory for an entry of the work queue. -/
def WriteFails (env : Prog.Env Op Ans) (s t : Life) : Prop :=
  t.jobs = [] ∧
    ((∃ n j co e, env n (.io j co) = .failed e ∧ t.calls = s.calls ++ [co] ∧
        t.completions = s.completions ++ [e.sts]) ∨
      ((∃ n, env n .alloc = false) ∧ t.calls = s.calls ∧
        t.completions = s.completions ++ [.noResource]))

/-- What the callback of the read is to do with a command in state `s`: hand on a write of the
second half, or write nothing and complete the command. -/
structure CawStores (c : Request) (mem : Mem) (buf : ℕ) (env : Prog.Env Op Ans) (s t : Life) :
    Prop where
  /-- Whatever is queued or has been accepted is the right write. -/
  jobs : c.CawEqual mem buf → ∀ x ∈ t.jobs, (x.2.callout c).Presents c.dev mem
    ((gather c.cmd.iov mem).drop c.cawBytes) (lbaOf c.cdb * c.dev.geo.blockSize)
  /-- So is whatever has been handed to the handler. -/
  calls : c.CawEqual mem buf → ∀ co ∈ t.calls.drop s.calls.length, co.Presents c.dev mem
    ((gather c.cmd.iov mem).drop c.cawBytes) (lbaOf c.cdb * c.dev.geo.blockSize)
  /-- One write is under way and the command goes on, unless the write could not be handed on. -/
  goes : c.CawEqual mem buf →
    ((∃ x, t.jobs = [x]) ∧ t.completions = s.completions) ∨ WriteFails env s t
  /-- Nothing is written, and the command ends. -/
  differ : ¬ c.CawEqual mem buf →
    t.jobs = [] ∧ t.calls = s.calls ∧ t.completions = s.completions ++ [.miscompare]

/-- The answers are those of the environment. -/
def AnswerOf (env : Prog.Env Op Ans) (o : Op) (a : Ans o) : Prop := ∃ n, env n o = a

/-- What dispatching a sub-command leaves behind. -/
def Dispatches (c : Request) (j : Job) (env : Prog.Env Op Ans) (s : Life) (ret : TcmuSts)
    (t : Life) : Prop :=
  (ret = .asyncHandled ∧ ∃ b, t = s.dispatched c j b) ∨
    ret ≠ .asyncHandled ∧ t.jobs = s.jobs ∧ t.completions = s.completions ∧
      ((∃ e, AnswerOf env (.io j (j.callout c)) (.failed e) ∧ ret = e.sts ∧
          t.calls = s.calls ++ [j.callout c]) ∨
        (AnswerOf env .alloc false ∧ ret = .noResource ∧ t.calls = s.calls))

theorem wp_asyncHandleCmd {env : Prog.Env Op Ans} {j : Job}
    (hdefined : (j.callout c).defined = true) (hjob : j.isUnmap = false) (s : Life) :
    Prog.wp lifeInterp (AnswerOf env) (fun _ _ => False) (asyncHandleCmd c j)
      (Dispatches c j env s) s := by
  rw [asyncHandleCmd]
  split
  · rw [Job.work, if_pos hdefined]
    intro a ha r t ht
    obtain ⟨rfl, rfl⟩ := Prod.mk.inj (Option.some.inj ht)
    cases a with
    | queued now =>
      change Prog.wp _ _ _ (if (now && j.isUnmap) = true then _ else _) _ _
      rw [if_neg (by simp [hjob])]
      exact Or.inl ⟨rfl, true, rfl⟩
    | failed e => exact Or.inr ⟨e.ne_async, rfl, rfl, Or.inl ⟨e, ha, rfl, rfl⟩⟩
  · intro a ha r t ht
    obtain ⟨rfl, rfl⟩ := Prod.mk.inj (Option.some.inj ht)
    cases a with
    | false => exact Or.inr ⟨by simp, rfl, rfl, Or.inr ⟨ha, rfl, rfl⟩⟩
    | true =>
      intro a _ r t ht
      obtain ⟨-, rfl⟩ := Prod.mk.inj (Option.some.inj ht)
      exact Or.inl ⟨rfl, false, rfl⟩

/-- The handler is called for the sub-command, or not at all. -/
theorem Dispatches.calls {env : Prog.Env Op Ans} {j : Job} {ret : TcmuSts}
    (h : Dispatches c j env s ret t) : t.calls = s.calls ∨ t.calls = s.calls ++ [j.callout c] := by
  rcases h with ⟨-, b, rfl⟩ | ⟨-, -, -, ⟨e, -, -, hcalls⟩ | ⟨-, -, hcalls⟩⟩
  · cases b with
    | true => exact Or.inr rfl
    | false => exact Or.inl rfl
  · exact Or.inr hcalls
  · exact Or.inl hcalls

theorem wp_cawFinish {A : (o : Op) → Ans o → Prop} (ret : TcmuSts) (s : Life) :
    Prog.wp lifeInterp A (fun _ _ => False) (cawFinish ret) (fun _ t => t.jobs = s.jobs ∧
      t.calls = s.calls ∧ t.completions = s.completions ++ [ret]) s := by
  intro a _ r t ht
  obtain ⟨-, rfl⟩ := Prod.mk.inj (Option.some.inj ht)
  intro a _ r t ht
  obtain ⟨-, rfl⟩ := Prod.mk.inj (Option.some.inj ht)
  intro a _ r t ht
  obtain ⟨-, rfl⟩ := Prod.mk.inj (Option.some.inj ht)
  exact ⟨rfl, rfl, rfl⟩

/-- A command whose buffer has the size that its CDB says, and which passes its checks. -/
structure Request.CawAccepted (c : Request) : Prop where
  /-- `dev_added` has made the device. -/
  added : ∃ size, c.dev.geo.Added size
  /-- The checks pass. -/
  check : handleCawCheck c = .ok
  /-- There are two halves. -/
  total : iovTotal c.cmd.iov = 2 * c.cawBytes

theorem Request.CawAccepted.bytes_lt (h : c.CawAccepted) : c.cawBytes < 2 ^ 31 := by
  obtain ⟨size, hd⟩ := h.added
  have hcheck := h.check
  rw [handleCawCheck] at hcheck
  split at hcheck
  · rename_i hne
    exact absurd hcheck hne
  · rename_i hok
    have hlen := checkIovecLength_ok.mp (not_not.mp hok)
    have hsectors : byteAt c.cdb 13 < 2 ^ 8 := UInt8.toNat_lt _
    have hlt : c.cawBytes < 2 ^ 8 * 2 ^ 31 := Nat.mul_lt_mul'' hsectors hd.blockSize_lt
    have htwo : byteAt c.cdb 13 * 2 * c.dev.geo.blockSize = 2 * c.cawBytes := by
      rw [Request.cawBytes, Nat.mul_comm (byteAt c.cdb 13) 2, Nat.mul_assoc]
    rw [h.total, htwo] at hlen
    omega

theorem Request.CawAccepted.half (h : c.CawAccepted) :
    tcmuIovecLength c.cmd.iov / 2 = c.cawBytes := by
  have hlt := h.bytes_lt
  rw [tcmuIovecLength_eq, h.total, Nat.mod_eq_of_lt (by omega),
    Nat.mul_div_cancel_left _ (by omega)]

/-- The place of the command can be computed in 64 bits. -/
theorem Request.CawAccepted.offset (h : c.CawAccepted) :
    c.dev.geo.blockSize * lbaOf c.cdb % 2 ^ 64 = lbaOf c.cdb * c.dev.geo.blockSize := by
  obtain ⟨size, hd⟩ := h.added
  have hcheck := h.check
  rw [handleCawCheck] at hcheck
  split at hcheck
  · rename_i hne
    exact absurd hcheck hne
  · have hsectors : byteAt c.cdb 13 < 2 ^ 8 := UInt8.toNat_lt _
    have hle := checkLbas_ok (lbaOf_lt c.cdb) (hsectors.trans (by norm_num)) hcheck
    have hbytes : lbaOf c.cdb * c.dev.geo.blockSize ≤ size :=
      (Nat.mul_le_mul_right _ ((Nat.le_add_right _ _).trans hle)).trans hd.blocks_le
    have hsize := hd.size_lt
    rw [Nat.mul_comm, Nat.mod_eq_of_lt (by omega)]

theorem Request.CawAccepted.equal_iff (h : c.CawAccepted) :
    cmpOffset (tcmuCompareWithIovec mem buf c.cmd.iov c.cawBytes) = none ↔ c.CawEqual mem buf := by
  have hlt := h.bytes_lt
  refine cmpOffset_compare_none ?_ (by omega)
  rw [h.total]
  omega

/-- The write that is handed on presents the second half if and only if seeking keeps it. -/
theorem Request.CawAccepted.presents_iff (h : c.CawAccepted) (mem : Mem) :
    ((Job.cawWrite (tcmuSeekInCmdIovec c.cmd.iov c.cawBytes)).callout c).Presents c.dev mem
        ((gather c.cmd.iov mem).drop c.cawBytes) (lbaOf c.cdb * c.dev.geo.blockSize) ↔
      SeekKeeps c.cmd.iov c.cawBytes := by
  have hlt := h.bytes_lt
  rw [← gather_tcmuSeekInCmdIovec_iff mem]
  constructor
  · rintro ⟨-, hgather, -, -⟩
    exact hgather
  · intro hgather
    refine ⟨rfl, hgather, ?_, h.offset⟩
    have hlen : iovTotal (tcmuSeekInCmdIovec c.cmd.iov c.cawBytes) = c.cawBytes := by
      rw [← length_gather _ mem, hgather, List.length_drop, length_gather, h.total]
      omega
    rw [tcmuIovecLength_eq, ← hgather, length_gather, hlen, Nat.mod_eq_of_lt (by omega)]

/-- What the callback does, whether or not it is right. -/
theorem wp_handleCawReadCbk {env : Prog.Env Op Ans} (h : c.CawAccepted)
    (hwrite : c.dev.handler.write = true) (hmem : ∀ k, env k .mem = mem) (s : Life) :
    Prog.wp lifeInterp (AnswerOf env) (fun _ _ => False)
      (handleCawReadCbk c ⟨c.cawBytes, buf⟩ .ok) (fun _ t =>
        (¬ c.CawEqual mem buf ∧ t.jobs = s.jobs ∧ t.calls = s.calls ∧
          t.completions = s.completions ++ [.miscompare]) ∨
        (c.CawEqual mem buf ∧ ∃ ret u,
          Dispatches c (.cawWrite (tcmuSeekInCmdIovec c.cmd.iov c.cawBytes)) env s ret u ∧
          t.jobs = u.jobs ∧ t.calls = u.calls ∧
          t.completions = if ret = .asyncHandled then u.completions else u.completions ++ [ret]))
      s := by
  rw [handleCawReadCbk, if_neg (by simp)]
  refine Prog.wp_ask_bind.mpr fun m hm r u hu => ?_
  obtain rfl : mem = m := by
    obtain ⟨k, hk⟩ := hm
    exact (hmem k).symm.trans hk
  obtain ⟨rfl, rfl⟩ := Prod.mk.inj (Option.some.inj hu)
  cases hcmp : cmpOffset (tcmuCompareWithIovec mem buf c.cmd.iov c.cawBytes) with
  | some offset =>
    have hne : ¬ c.CawEqual mem buf := by
      rw [← h.equal_iff, hcmp]
      simp
    refine Prog.wp_ask_bind.mpr fun _ _ r t ht => ?_
    obtain ⟨-, rfl⟩ := Prod.mk.inj (Option.some.inj ht)
    exact Prog.wp_mono (wp_cawFinish .miscompare s) fun _ t ht => Or.inl ⟨hne, ht⟩
  | none =>
    have heq := h.equal_iff.mp hcmp
    refine Prog.wp_seq (wp_asyncHandleCmd (j := .cawWrite _) hwrite rfl s) fun ret u hu => ?_
    split
    · rename_i hret
      refine Prog.wp_mono (wp_cawFinish ret u) fun _ t ht => Or.inr ⟨heq, ret, u, hu, ?_⟩
      rw [if_neg hret]
      exact ht
    · rename_i hret
      exact Or.inr ⟨heq, ret, u, hu, rfl, rfl, (if_pos (not_not.mp hret)).symm⟩

/-- The callback of the read happens in the life of the command. -/
theorem caw_done {env : Prog.Env Op Ans} (h : c.CawAccepted) (hwrite : c.dev.handler.write = true)
    (hjobs : s.jobs = [(true, .cawRead ⟨c.cawBytes, buf⟩)]) (hmem : ∀ k, env k .mem = mem)
    (hstep : lifeStep c s (.done 0 .ok env) = some t) :
    (¬ c.CawEqual mem buf ∧ t.jobs = [] ∧ t.calls = s.calls ∧
        t.completions = s.completions ++ [.miscompare]) ∨
      (c.CawEqual mem buf ∧ ∃ ret u,
        Dispatches c (.cawWrite (tcmuSeekInCmdIovec c.cmd.iov c.cawBytes)) env
          { s with jobs := [] } ret u ∧ t.jobs = u.jobs ∧ t.calls = u.calls ∧
        t.completions = if ret = .asyncHandled then u.completions else u.completions ++ [ret]) := by
  obtain ⟨-, p, u, x, v, hprog, hexec, rfl⟩ := lifeStep_cases hstep
  rw [LifeEvent.prog, hjobs] at hprog
  obtain ⟨rfl, rfl⟩ := Prod.mk.inj (Option.some.inj hprog)
  have henv : ∀ n o, AnswerOf env o (env n o) := fun n o => ⟨n, rfl⟩
  rcases Prog.exec_of_wp (wp_handleCawReadCbk h hwrite hmem _) henv hexec with
    ⟨a, rfl, hv⟩ | ⟨_, _, hfalse⟩
  · exact hv
  · exact hfalse.elim

/-- A command that has handed its read to the handler. -/
def cawReading (c : Request) (buf : ℕ) : Life :=
  { Life.init with begun := true, jobs := [(true, .cawRead ⟨c.cawBytes, buf⟩)] }

/-- In calm surroundings the write is dispatched. -/
theorem caw_done_calm (h : c.CawAccepted) (hwrite : c.dev.handler.write = true)
    (heq : c.CawEqual mem buf) : ∃ b t,
      lifeStep c (cawReading c buf) (.done 0 .ok (calm mem)) = some t ∧
        t.jobs = [(b, .cawWrite (tcmuSeekInCmdIovec c.cmd.iov c.cawBytes))] := by
  obtain ⟨b, hexec⟩ := exec_asyncHandleCmd mem (c := c)
    (j := .cawWrite (tcmuSeekInCmdIovec c.cmd.iov c.cawBytes)) hwrite
    { cawReading c buf with jobs := [] }
  have hcmp := h.equal_iff.mpr heq
  have hcbk : (handleCawReadCbk c ⟨c.cawBytes, buf⟩ .ok).exec lifeInterp (calm mem)
      { cawReading c buf with jobs := [] } = some (.ok (), ({ cawReading c buf with jobs := [] } :
        Life).dispatched c (.cawWrite (tcmuSeekInCmdIovec c.cmd.iov c.cawBytes)) b) := by
    rw [handleCawReadCbk, if_neg (by simp)]
    refine (exec_calm_bind mem (p := ask .mem) _ rfl).trans ?_
    dsimp only
    rw [show calm mem 0 .mem = mem from rfl, hcmp]
    exact exec_calm_bind mem _ hexec
  exact ⟨b, _, lifeStep_eq rfl rfl hcbk, rfl⟩

/-- **Compare-and-write stores the second half.** For every accepted command, whatever has been read
and wherever the scatter list is cut, the callback of the read does what it is to do if and only if
the bytes differ, or the entries that seeking loses have no bytes. After seeking by `k` bytes the
scatter list describes what is behind them if and only if the lost entries have no bytes. -/
theorem caw_stores_iff (h : c.CawAccepted) (hwrite : c.dev.handler.write = true) :
    ((∀ s t env, s.jobs = [(true, .cawRead ⟨tcmuIovecLength c.cmd.iov / 2, buf⟩)] →
        (∀ k, env k .mem = mem) → lifeStep c s (.done 0 .ok env) = some t →
        CawStores c mem buf env s t) ↔
      (c.CawEqual mem buf → SeekKeeps c.cmd.iov c.cawBytes)) ∧
    ∀ k ≤ iovTotal c.cmd.iov,
      (gather (tcmuSeekInCmdIovec c.cmd.iov k) mem = (gather c.cmd.iov mem).drop k ↔
        SeekKeeps c.cmd.iov k) := by
  refine ⟨?_, fun k _ => gather_tcmuSeekInCmdIovec_iff mem⟩
  rw [h.half]
  constructor
  · intro hall heq
    obtain ⟨b, t, hstep, htjobs⟩ := caw_done_calm h hwrite heq
    have hstores := hall _ t _ rfl (fun _ => rfl) hstep
    refine (h.presents_iff mem).mp (hstores.jobs heq (b, _) ?_)
    rw [htjobs]
    exact List.mem_singleton_self _
  · intro hkeeps s t env hjobs hmem hstep
    rcases caw_done h hwrite hjobs hmem hstep with
      ⟨hne, ht⟩ | ⟨heq, ret, u, hu, htjobs, htcalls, ht⟩
    · exact ⟨fun heq => absurd heq hne, fun heq => absurd heq hne, fun heq => absurd heq hne,
        fun _ => ht⟩
    · have hpresents := (h.presents_iff mem).mpr (hkeeps heq)
      refine ⟨fun _ x hx => ?_, fun _ co hco => ?_, fun _ => ?_, fun hne => absurd heq hne⟩
      · rw [htjobs] at hx
        rcases hu with ⟨-, b, rfl⟩ | ⟨-, hujobs, -⟩
        · rw [List.mem_singleton.mp hx]
          exact hpresents
        · rw [hujobs] at hx
          exact absurd hx (by simp)
      · rcases hu.calls with hcalls | hcalls
        · rw [htcalls, hcalls, List.drop_length] at hco
          exact absurd hco (by simp)
        · rw [htcalls, hcalls, List.drop_left, List.mem_singleton] at hco
          rw [hco]
          exact hpresents
      · rcases hu with ⟨hret, b, rfl⟩ | ⟨hret, hujobs, hucompletions, hfails⟩
        · rw [if_pos hret] at ht
          exact Or.inl ⟨⟨_, htjobs⟩, ht⟩
        · rw [if_neg hret, hucompletions] at ht
          refine Or.inr ⟨htjobs.trans hujobs, ?_⟩
          rcases hfails with ⟨e, ⟨n, he⟩, rfl, hcalls⟩ | ⟨hno, rfl, hcalls⟩
          · exact Or.inl ⟨n, _, _, e, he, htcalls.trans hcalls, ht⟩
          · exact Or.inr ⟨hno, htcalls.trans hcalls, ht⟩

end Callback

/-! ### Two scatter lists -/

/-- A device with blocks of four bytes. -/
def cawDev : TcmuDev := ⟨0, ⟨4, 8, 128, 128, 0⟩, allocHandler, none⟩

/-- `COMPARE AND WRITE` of one block. -/
def cawCdb : Cdb := [0x89, 0, 0, 0, 0, 0, 0, 0, 0, 0, 0, 0, 0, 1, 0, 0]

/-- The command with the given scatter list. -/
def cawOf (iov : List Iovec) : Request :=
  { dev := cawDev
    ctx := []
    cmd := ⟨0, some cawCdb, iov, iov.length, []⟩
    cdb := cawCdb
    hcdb := rfl }

theorem cawOf_accepted {iov : List Iovec} (h : iovTotal iov = 8) : (cawOf iov).CawAccepted := by
  have hiov : (cawOf iov).cmd.iov = iov := List.take_length
  have hadded : cawDev.geo.Added 32 :=
    ⟨by decide, by decide, by decide, by decide, by decide, rfl, rfl⟩
  refine ⟨⟨32, hadded⟩, ?_, ?_⟩
  · have hlen : checkIovecLength cawDev.geo (cawOf iov).cmd (byteAt cawCdb 13 * 2) = .ok := by
      rw [checkIovecLength_ok, hiov, h]
      decide
    have hlbas : checkLbas cawDev.geo (lbaOf cawCdb) (byteAt cawCdb 13) = .ok := by decide
    have hif : handleCawCheck (cawOf iov) =
        if checkIovecLength cawDev.geo (cawOf iov).cmd (byteAt cawCdb 13 * 2) ≠ .ok then
          checkIovecLength cawDev.geo (cawOf iov).cmd (byteAt cawCdb 13 * 2)
        else checkLbas cawDev.geo (lbaOf cawCdb) (byteAt cawCdb 13) := rfl
    rw [hif, hlen, if_neg (by simp), hlbas]
  · have hbytes : (cawOf iov).cawBytes = byteAt cawCdb 13 * cawDev.geo.blockSize := rfl
    rw [hiov, h, hbytes]
    decide

/-- A buffer in one piece. In calm surroundings its second half is queued to be written. -/
theorem caw_stores_whole :
    SeekKeeps [⟨0x2000, 8⟩] 4 ∧ ∃ t,
      lifeStep (cawOf [⟨0x2000, 8⟩]) (cawReading (cawOf [⟨0x2000, 8⟩]) 0x1000)
          (.done 0 .ok (calm fun _ => 0)) = some t ∧
        t.jobs = [(false, .cawWrite [⟨0x2004, 4⟩])] ∧
        CawStores (cawOf [⟨0x2000, 8⟩]) (fun _ => 0) 0x1000 (calm fun _ => 0)
          (cawReading (cawOf [⟨0x2000, 8⟩]) 0x1000) t := by
  have hkeeps : SeekKeeps [⟨0x2000, 8⟩] 4 := by decide
  have haccepted : (cawOf [⟨0x2000, 8⟩]).CawAccepted := cawOf_accepted rfl
  exact ⟨hkeeps, _, rfl, rfl, (caw_stores_iff haccepted rfl).1.mpr (fun _ => hkeeps) _ _ _ rfl
    (fun _ => rfl) rfl⟩

/-- A buffer whose halves are entries of their own. The write presents nothing. -/
theorem caw_split_loses_second_half :
    (cawOf [⟨0x2000, 4⟩, ⟨0x3000, 4⟩]).CawAccepted ∧
    (cawOf [⟨0x2000, 4⟩, ⟨0x3000, 4⟩]).CawEqual (fun _ => 0) 0x1000 ∧
    ∃ t, lifeStep (cawOf [⟨0x2000, 4⟩, ⟨0x3000, 4⟩])
        (cawReading (cawOf [⟨0x2000, 4⟩, ⟨0x3000, 4⟩]) 0x1000) (.done 0 .ok (calm fun _ => 0)) =
          some t ∧
      t.jobs = [(false, .cawWrite [⟨0x2000, 0⟩])] ∧
      ¬ CawStores (cawOf [⟨0x2000, 4⟩, ⟨0x3000, 4⟩]) (fun _ => 0) 0x1000 (calm fun _ => 0)
        (cawReading (cawOf [⟨0x2000, 4⟩, ⟨0x3000, 4⟩]) 0x1000) t := by
  have heq : (cawOf [⟨0x2000, 4⟩, ⟨0x3000, 4⟩]).CawEqual (fun _ => 0) 0x1000 := rfl
  refine ⟨cawOf_accepted rfl, heq, _, rfl, rfl, fun h => ?_⟩
  obtain ⟨-, hgather, -⟩ := h.jobs heq _ (List.mem_singleton_self _)
  exact absurd (congrArg List.length hgather) (by decide)

end Tcmu

end LioProject
