import LioProject.Tcmu.Cdb
import LioProject.Tcmu.Status

/-!
# Commands and scatter lists

`struct iovec` and `struct tcmulib_cmd`. A scatter list describes memory, it does not contain it:
an entry is an address and a length, and the bytes are looked up in a memory `Mem`.

`cmdstate` and `done` are not fields here. They carry a command from one callback to the next, and
each of the multi-step commands is modelled with its own state instead.
-/

namespace LioProject

namespace Tcmu

/-- The memory of the process, byte by byte. -/
abbrev Mem := ℕ → UInt8

/-- `struct iovec`. -/
structure Iovec where
  /-- `iov_base`, an address. -/
  base : ℕ
  /-- `iov_len`, a `size_t`. -/
  len : ℕ
  deriving DecidableEq, Repr

/-- `n` bytes of memory from address `a` on. -/
def Mem.load (mem : Mem) (a n : ℕ) : List UInt8 := (List.range n).map fun i => mem (a + i)

/-- The bytes that a scatter-list entry describes. -/
def Iovec.bytes (v : Iovec) (mem : Mem) : List UInt8 := mem.load v.base v.len

/-- The memory with `bs` from address `a` on. -/
def Mem.store (mem : Mem) (a : ℕ) (bs : List UInt8) : Mem :=
  fun x => if a ≤ x then bs.getD (x - a) (mem x) else mem x

/-- All bytes that a scatter list describes, one entry after the other. -/
def gather (iov : List Iovec) (mem : Mem) : List UInt8 := iov.flatMap fun v => v.bytes mem

/-- The number of bytes a scatter list describes, over the natural numbers. -/
def iovTotal (iov : List Iovec) : ℕ := (iov.map Iovec.len).sum

/-- `tcmu_iovec_length`: the same sum in a `size_t`. -/
def tcmuIovecLength (iov : List Iovec) : ℕ := iov.foldl (fun n v => (n + v.len) % 2 ^ 64) 0

/-- `struct tcmulib_cmd`. `cdb` is `none` for a `NULL` pointer: commands that the runner allocates
for itself start out that way. -/
structure TcmulibCmd where
  /-- The kernel's identifier of the command. -/
  cmdId : ℕ
  /-- The command descriptor block. -/
  cdb : Option Cdb
  /-- The scatter list, which has at least `iovCnt` entries. -/
  iovec : List Iovec
  /-- `iov_cnt`. -/
  iovCnt : ℕ
  /-- `sense_buf`. -/
  sense : Sense
  deriving DecidableEq, Repr

@[simp] theorem Mem.length_load (mem : Mem) (a n : ℕ) : (mem.load a n).length = n := by
  simp [Mem.load]

theorem Mem.load_take (mem : Mem) (a : ℕ) {k n : ℕ} (h : k ≤ n) :
    (mem.load a n).take k = mem.load a k := by
  rw [Mem.load, ← List.map_take, List.take_range, Nat.min_eq_left h, Mem.load]

theorem Mem.load_drop (mem : Mem) (a k n : ℕ) :
    (mem.load a n).drop k = mem.load (a + k) (n - k) := by
  refine List.ext_getElem (by simp) fun i hi hi' => ?_
  simp [Mem.load, Nat.add_assoc]

theorem Mem.load_add (mem : Mem) (a m n : ℕ) :
    mem.load a (m + n) = mem.load a m ++ mem.load (a + m) n := by
  refine (List.take_append_drop m _).symm.trans ?_
  rw [Mem.load_take _ _ (Nat.le_add_right _ _), Mem.load_drop, Nat.add_sub_cancel_left]

theorem Mem.load_succ (mem : Mem) (a n : ℕ) :
    mem.load a (n + 1) = mem a :: mem.load (a + 1) n := by
  rw [Nat.add_comm n 1, Mem.load_add]
  rfl

theorem Mem.store_of_out {mem : Mem} {a x : ℕ} {bs : List UInt8}
    (h : x < a ∨ a + bs.length ≤ x) : mem.store a bs x = mem x := by
  rw [Mem.store]
  split
  · exact List.getD_eq_default _ _ (by omega)
  · rfl

/-- What has been stored is loaded again. -/
theorem Mem.load_store (mem : Mem) (a : ℕ) {n : ℕ} {bs : List UInt8} (h : bs.length = n) :
    (mem.store a bs).load a n = bs := by
  subst h
  refine List.ext_getElem (by simp) fun i hi hi' => ?_
  simp [Mem.load, Mem.store, List.getElem?_eq_getElem hi']

/-- Storing elsewhere does not change what is loaded. -/
theorem Mem.load_store_of_disjoint (mem : Mem) {a b n : ℕ} {bs : List UInt8}
    (h : a + bs.length ≤ b ∨ b + n ≤ a) : (mem.store a bs).load b n = mem.load b n := by
  refine List.map_congr_left fun i hi => Mem.store_of_out ?_
  have hi := List.mem_range.mp hi
  omega

/-- What has been stored in the front of a range, and what was behind it. -/
theorem Mem.load_store_front (mem : Mem) (a : ℕ) {n : ℕ} {bs : List UInt8} (h : bs.length ≤ n) :
    (mem.store a bs).load a n = bs ++ (mem.load a n).drop bs.length := by
  obtain ⟨k, rfl⟩ := Nat.exists_eq_add_of_le h
  rw [Mem.load_add, Mem.load_store mem a rfl, Mem.load_store_of_disjoint mem (by omega),
    Mem.load_drop, Nat.add_sub_cancel_left]

/-- Of two stores to the same place the second remains. -/
theorem Mem.store_store (mem : Mem) (a : ℕ) {bs cs : List UInt8} (h : cs.length = bs.length) :
    (mem.store a bs).store a cs = mem.store a cs := by
  funext x
  simp only [Mem.store]
  split
  · rcases Nat.lt_or_ge (x - a) cs.length with hlt | hge
    · simp [List.getElem?_eq_getElem hlt]
    · rw [List.getD_eq_default _ _ hge, List.getD_eq_default _ _ hge,
        List.getD_eq_default _ _ (h ▸ hge)]
  · rfl

/-- Storing what is there changes nothing. -/
theorem Mem.store_load (mem : Mem) (a n : ℕ) : mem.store a (mem.load a n) = mem := by
  funext x
  rw [Mem.store]
  split
  · rename_i hle
    rcases Nat.lt_or_ge (x - a) n with hlt | hge
    · simp [Mem.load, hlt, Nat.add_sub_cancel' hle]
    · exact List.getD_eq_default _ _ (by simpa using hge)
  · rfl

theorem Mem.load_eq_load {mem mem' : Mem} {a b n : ℕ} :
    mem.load a n = mem'.load b n ↔ ∀ i < n, mem (a + i) = mem' (b + i) := by
  simp [Mem.load, List.map_inj_left]

/-- Equal ranges have equal parts. -/
theorem Mem.load_part {mem mem' : Mem} {a n k l : ℕ} (h : mem.load a n = mem'.load a n)
    (hkl : k + l ≤ n) : mem.load (a + k) l = mem'.load (a + k) l := by
  rw [Mem.load_eq_load] at h ⊢
  intro i hi
  rw [Nat.add_assoc]
  exact h (k + i) (by omega)

end Tcmu

end LioProject
