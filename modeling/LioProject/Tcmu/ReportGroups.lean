import LioProject.Lib.Disk
import LioProject.Tcmu.Alua
import LioProject.Tcmu.Scatter

/-!
# Reporting target port groups

The response of `tcmu_emulate_report_tgt_port_grps` (`alua.c`). The loop puts the descriptor of each
group into a buffer of the size that the initiator has allocated. A group that does not fit is
skipped, and only its size is counted. The loop goes on behind it, so that a shorter group later in
the list may still be put there, in the place of the one that was skipped.

RETURN DATA LENGTH counts the descriptors. The four bytes of the extended header, which follow it
as well, are not counted.

Offsets are `uint32_t`.
-/

namespace LioProject

namespace Tcmu

/-! ### Groups -/

/-- `struct tgt_port`, as far as the report shows it. -/
structure GroupPort where
  /-- `rel_port_id`. -/
  relPortId : UInt16
  /-- `enabled`. -/
  enabled : Bool
  deriving DecidableEq, Repr

/-- `struct alua_grp`, as far as the report shows it. -/
structure ReportedGroup where
  /-- `state`. -/
  state : UInt8
  /-- `supported_states`. -/
  supportedStates : UInt8
  /-- `status`. -/
  status : UInt8
  /-- `implicit_trans_secs`. -/
  implicitTransSecs : UInt8
  /-- `pref`. -/
  pref : Bool
  /-- `id`. -/
  id : UInt16
  /-- `num_tgt_ports`. -/
  numTgtPorts : UInt8
  /-- `tgt_ports`. -/
  tgtPorts : List GroupPort
  deriving DecidableEq, Repr

/-- The two bytes of an identifier. -/
def idBytes (id : UInt16) : List UInt8 :=
  [UInt8.ofNat (id.toNat >>> 8 &&& 0xff), UInt8.ofNat (id.toNat &&& 0xff)]

/-! ### The loop -/

/-- `buf`, `off` and `ret_data_len`, and which groups have been put into the buffer. -/
structure Report where
  /-- `buf`. -/
  buf : List UInt8
  /-- `off`. -/
  off : ℕ
  /-- `ret_data_len`. -/
  retDataLen : ℕ
  /-- The groups in the buffer, in order. -/
  reported : List ReportedGroup

/-- `buf[i] = b`, with an index of 32 bits. -/
def setByte (buf : List UInt8) (i : ℕ) (b : UInt8) : Option (List UInt8) :=
  place buf (i % 2 ^ 32) [b]

/-- Consecutive bytes, from index `i` on. -/
def setBytes (buf : List UInt8) (i : ℕ) : List UInt8 → Option (List UInt8)
  | [] => some buf
  | b :: bs => (setByte buf i b).bind fun buf => setBytes buf (i + 1) bs

/-- The descriptor of a port: two reserved bytes, and the relative port identifier. -/
def reportPort (r : Report) (port : GroupPort) : Option Report :=
  (setBytes r.buf (r.off + 2) (idBytes port.relPortId)).map fun buf =>
    ⟨buf, (r.off + 4) % 2 ^ 32, (r.retDataLen + 4) % 2 ^ 32, r.reported⟩

/-- The loop over the ports of a group. -/
def reportPorts (r : Report) : List GroupPort → Option Report
  | [] => some r
  | port :: ports => (reportPort r port).bind fun r => reportPorts r ports

/-- The bytes of a group in front of its ports. Bytes 4 and 6 are left as they are. -/
def reportHeader (buf : List UInt8) (off : ℕ) (group : ReportedGroup) : Option (List UInt8) :=
  (if group.pref then setByte buf off 0x80 else some buf).bind fun buf =>
  (setByte buf off (buf.getD (off % 2 ^ 32) 0 ||| group.state)).bind fun buf =>
  (setByte buf (off + 1)
    (buf.getD ((off + 1) % 2 ^ 32) 0 ||| group.supportedStates)).bind fun buf =>
  (setBytes buf (off + 2) (idBytes group.id)).bind fun buf =>
  (setByte buf (off + 5) group.status).bind fun buf =>
  setByte buf (off + 7) group.numTgtPorts

/-- A group is put into the buffer. -/
def reportGroup (r : Report) (group : ReportedGroup) : Option Report :=
  (reportHeader r.buf r.off group).bind fun buf =>
    reportPorts ⟨buf, (r.off + 8) % 2 ^ 32, (r.retDataLen + 8) % 2 ^ 32, r.reported ++ [group]⟩
      group.tgtPorts

/-- The size of a descriptor, as `num_tgt_ports` has it. -/
def ReportedGroup.countedSize (group : ReportedGroup) : ℕ := 8 + group.numTgtPorts.toNat * 4

/-- The loop over the groups. -/
def reportGroups (allocLen : ℕ) : List ReportedGroup → Report → Option Report
  | [], r => some r
  | group :: groups, r =>
    let nextOff := (r.off + group.countedSize) % 2 ^ 32
    if nextOff > allocLen then
      reportGroups allocLen groups
        { r with retDataLen := (r.retDataLen + group.countedSize) % 2 ^ 32 }
    else (reportGroup r group).bind fun r => reportGroups allocLen groups r

/-- The buffer before the loop. With the extended header, byte 5 is the transition time of the
first group. -/
def reportStart (extHdr : Bool) (allocLen : ℕ) (groups : List ReportedGroup) : Option Report :=
  let buf := List.replicate allocLen 0
  if extHdr ∧ allocLen > 5 then
    (setByte buf 4 0x10).bind fun buf =>
    (match groups.head? with
      | some group => setByte buf 5 group.implicitTransSecs
      | none => some buf).map fun buf => ⟨buf, 8, 0, []⟩
  else some ⟨buf, 4, 0, []⟩

/-- `htobe32`. -/
def be32Bytes (n : ℕ) : List UInt8 :=
  [UInt8.ofNat (n / 2 ^ 24), UInt8.ofNat (n / 2 ^ 16), UInt8.ofNat (n / 2 ^ 8), UInt8.ofNat n]

/-- The report, and the buffer with RETURN DATA LENGTH in front. -/
def reportTgtPortGrps (extHdr : Bool) (allocLen : ℕ) (groups : List ReportedGroup) :
    Option (Report × List UInt8) :=
  (reportStart extHdr allocLen groups).bind fun r =>
  (reportGroups allocLen groups r).bind fun r =>
  (place r.buf 0 (be32Bytes r.retDataLen)).map fun data => (r, data)

/-- What the commands see of a group. -/
def ReportedGroup.toAluaGrp (group : ReportedGroup) : AluaGrp :=
  ⟨group.id.toNat, group.state.toNat, group.supportedStates.toNat,
    group.tgtPorts.map GroupPort.enabled⟩

/-- `tcmu_emulate_report_tgt_port_grps`, with the text of the report. The groups are as
`alua_sync_state` leaves them, which changes nothing but states, and `sync` is what it returns.
There is no result if something is written outside the buffer, or if the CDB has no allocation
length. -/
def reportResponse (cdb : Cdb) (groups : List ReportedGroup) (sync : TcmuSts)
    (calloc : Bool) (mem : Mem) (iov : List Iovec) : Option (TcmuSts × Mem) :=
  match tcmuGetXferLength cdb with
  | none => none
  | some allocLen =>
    if tcmuGetEnabledPort (groups.map ReportedGroup.toAluaGrp) = none then some (.invalidCmd, mem)
    else if allocLen < 4 then some (.invalidCdb, mem)
    else if calloc = false then some (.noResource, mem)
    else if sync ≠ .ok then some (sync, mem)
    else
      (reportTgtPortGrps (byteAt cdb 1 &&& 0x20 ≠ 0) allocLen groups).map fun (_, data) =>
        (.ok, (tcmuMemcpyIntoIovec mem iov data).1)

/-! ### Descriptors -/

/-- The descriptor of a port. -/
def GroupPort.descriptor (port : GroupPort) : List UInt8 := [0, 0] ++ idBytes port.relPortId

/-- The descriptor of a group. -/
def ReportedGroup.descriptor (group : ReportedGroup) : List UInt8 :=
  [(if group.pref then 0x80 else 0) ||| group.state, group.supportedStates] ++ idBytes group.id ++
    [0, group.status, 0, group.numTgtPorts] ++ group.tgtPorts.flatMap GroupPort.descriptor

/-- Its size. -/
def ReportedGroup.size (group : ReportedGroup) : ℕ := 8 + group.tgtPorts.length * 4

/-- The size of all descriptors. -/
def totalSize (groups : List ReportedGroup) : ℕ := (groups.map ReportedGroup.size).sum

/-- The ports are counted right. -/
def Counted (groups : List ReportedGroup) : Prop :=
  ∀ group ∈ groups, group.numTgtPorts.toNat = group.tgtPorts.length

section Descriptors

variable {group : ReportedGroup} {groups : List ReportedGroup}

theorem length_descriptor (group : ReportedGroup) : group.descriptor.length = group.size := by
  have hports : (group.tgtPorts.flatMap GroupPort.descriptor).length
      = group.tgtPorts.length * 4 := by
    induction group.tgtPorts with
    | nil => rfl
    | cons port ports ih =>
      rw [List.flatMap_cons, List.length_append, ih, List.length_cons]
      simp only [GroupPort.descriptor, idBytes, List.length_append, List.length_cons,
        List.length_nil]
      omega
  rw [ReportedGroup.descriptor, ReportedGroup.size, List.length_append, hports]
  rfl

theorem countedSize_eq (h : group.numTgtPorts.toNat = group.tgtPorts.length) :
    group.countedSize = group.size := by
  rw [ReportedGroup.countedSize, ReportedGroup.size, h]

theorem totalSize_cons (group : ReportedGroup) (groups : List ReportedGroup) :
    totalSize (group :: groups) = group.size + totalSize groups := List.sum_cons

theorem length_flatMap_descriptor (groups : List ReportedGroup) :
    (groups.flatMap ReportedGroup.descriptor).length = totalSize groups := by
  rw [List.length_flatMap, totalSize]
  exact congrArg _ (List.map_congr_left fun group _ => length_descriptor group)

end Descriptors

/-! ### Writing -/

section Writing

variable {buf buf' c mid back : List UInt8} {i : ℕ}

/-- A byte that is set is in the buffer, and the buffer keeps its size. -/
theorem setByte_bounds {b : UInt8} (h : setByte buf i b = some buf') :
    i % 2 ^ 32 < buf.length ∧ buf'.length = buf.length := by
  rw [setByte, place] at h
  split at h
  · rename_i hle
    obtain rfl := Option.some.inj h
    exact ⟨by rw [List.length_singleton] at hle; omega, length_splice hle⟩
  · exact absurd h (by simp)

theorem setBytes_bounds {id : UInt16} (h : setBytes buf i (idBytes id) = some buf') :
    (i + 1) % 2 ^ 32 < buf.length ∧ buf'.length = buf.length := by
  obtain ⟨buf₁, hfirst, hrest⟩ := Option.bind_eq_some_iff.mp h
  obtain ⟨buf₂, hsecond, hdone⟩ := Option.bind_eq_some_iff.mp hrest
  obtain rfl := Option.some.inj hdone
  rw [(setByte_bounds hsecond).2, ← (setByte_bounds hfirst).2]
  exact ⟨(setByte_bounds hsecond).1, rfl⟩

/-- Setting a byte behind the front of a buffer. -/
theorem setByte_append {k : ℕ} {b : UInt8} (hk : k < back.length) (h32 : c.length + k < 2 ^ 32) :
    setByte (c ++ back) (c.length + k) b = some (c ++ back.set k b) := by
  have hle : c.length + k + [b].length ≤ (c ++ back).length := by
    rw [List.length_append, List.length_singleton]
    omega
  rw [setByte, Nat.mod_eq_of_lt h32, place, if_pos hle, splice, List.take_append,
    List.take_of_length_le (Nat.le_add_right _ _), Nat.add_sub_cancel_left, List.drop_append,
    List.drop_eq_nil_of_le (by omega), List.set_eq_take_append_cons_drop, if_pos hk,
    List.length_singleton, Nat.add_assoc, Nat.add_sub_cancel_left]
  simp

/-- Reading a byte behind the front of a buffer. -/
theorem getD_append_mod {k : ℕ} (h32 : c.length + k < 2 ^ 32) :
    (c ++ back).getD ((c.length + k) % 2 ^ 32) 0 = back.getD k 0 := by
  rw [Nat.mod_eq_of_lt h32, List.getD_append_right _ _ _ _ (Nat.le_add_right _ _),
    Nat.add_sub_cancel_left]

/-- Setting the two bytes of an identifier. -/
theorem setBytes_idBytes {k : ℕ} {id : UInt16} (hk : k + 1 < back.length)
    (h32 : c.length + (k + 1) < 2 ^ 32) :
    setBytes (c ++ back) (c.length + k) (idBytes id)
      = some (c ++ (back.set k (UInt8.ofNat (id.toNat >>> 8 &&& 0xff))).set (k + 1)
          (UInt8.ofNat (id.toNat &&& 0xff))) := by
  rw [idBytes, setBytes, setByte_append (by omega) (by omega), Option.bind_some, setBytes,
    Nat.add_assoc, setByte_append (by rwa [List.length_set]) h32]
  rfl

/-- The bytes of a group in front of its ports. -/
def headerBytes (group : ReportedGroup) : List UInt8 :=
  [(if group.pref then 0x80 else 0) ||| group.state, group.supportedStates] ++ idBytes group.id ++
    [0, group.status, 0, group.numTgtPorts]

theorem reportHeader_eq (group : ReportedGroup) (h32 : c.length + 8 ≤ 2 ^ 32) :
    reportHeader (c ++ (List.replicate 8 0 ++ back)) c.length group
      = some (c ++ (headerBytes group ++ back)) := by
  have hfirst : ∀ (b b' : UInt8) (m : List UInt8),
      setByte (c ++ (b :: m)) c.length b' = some (c ++ (b' :: m)) := fun b b' m =>
    setByte_append (k := 0) (Nat.succ_pos _) (by omega)
  have hread : ∀ (b : UInt8) (m : List UInt8),
      (c ++ (b :: m)).getD (c.length % 2 ^ 32) 0 = b := fun b m =>
    getD_append_mod (k := 0) (by omega)
  have hpref : (if group.pref then setByte (c ++ (List.replicate 8 0 ++ back)) c.length 0x80
      else some (c ++ (List.replicate 8 0 ++ back)))
      = some (c ++ ((if group.pref then 0x80 else 0) :: (List.replicate 7 0 ++ back))) := by
    cases group.pref with
    | true => exact hfirst _ _ _
    | false => rfl
  rw [reportHeader, hpref, Option.bind_some, hread, hfirst, Option.bind_some,
    getD_append_mod (by omega), setByte_append (by simp) (by omega), Option.bind_some,
    setBytes_idBytes (by simp) (by omega), Option.bind_some, setByte_append (by simp) (by omega),
    Option.bind_some, setByte_append (by simp) (by omega), headerBytes, idBytes]
  simp [List.replicate_succ]

end Writing

/-! ### What the loop does -/

section Loop

variable {r t : Report} {allocLen : ℕ} {c : List UInt8} {group : ReportedGroup}
  {groups : List ReportedGroup}

/-- The buffer holds `c` and zeros behind it, and the offset is there. -/
structure Report.Holds (r : Report) (allocLen : ℕ) (c : List UInt8) : Prop where
  /-- The contents. -/
  buf : r.buf = fit 0 allocLen c
  /-- The offset. -/
  off : r.off = c.length
  /-- It fits. -/
  fits : c.length ≤ allocLen

/-- The buffer where something is going to be put. -/
theorem fit_split {n : ℕ} (h : c.length + n ≤ allocLen) :
    fit (0 : UInt8) allocLen c
      = c ++ (List.replicate n 0 ++ List.replicate (allocLen - c.length - n) 0) := by
  rw [List.replicate_append_replicate, fit, List.take_of_length_le (by omega)]
  congr 2
  omega

theorem Report.Holds.reportPort (h : r.Holds allocLen c) (port : GroupPort)
    (hfit : c.length + 4 ≤ allocLen) (h32 : allocLen < 2 ^ 32) :
    ∃ t, Tcmu.reportPort r port = some t ∧ t.Holds allocLen (c ++ port.descriptor) ∧
      t.reported = r.reported := by
  obtain ⟨hbuf, hoff, hle⟩ := h
  have hwrite : setBytes (c ++ (List.replicate 4 0 ++ List.replicate (allocLen - c.length - 4) 0))
      (c.length + 2) (idBytes port.relPortId) = _ := setBytes_idBytes (by simp) (by omega)
  refine ⟨⟨fit 0 allocLen (c ++ port.descriptor), (r.off + 4) % 2 ^ 32,
    (r.retDataLen + 4) % 2 ^ 32, r.reported⟩, ?_, ⟨rfl, ?_, ?_⟩, rfl⟩
  · rw [Tcmu.reportPort, hbuf, hoff, fit_split hfit, hwrite, fit_append 0 _ hle, fit,
      List.take_of_length_le (by simp [GroupPort.descriptor, idBytes]; omega)]
    simp [GroupPort.descriptor, idBytes, List.replicate_succ]
  · rw [List.length_append, hoff]
    exact Nat.mod_eq_of_lt (by omega)
  · rw [List.length_append]
    exact hfit

theorem Report.Holds.reportPorts (h : r.Holds allocLen c) (ports : List GroupPort)
    (hfit : c.length + ports.length * 4 ≤ allocLen) (h32 : allocLen < 2 ^ 32) :
    ∃ t, Tcmu.reportPorts r ports = some t ∧
      t.Holds allocLen (c ++ ports.flatMap GroupPort.descriptor) ∧ t.reported = r.reported := by
  induction ports generalizing r c with
  | nil =>
    rw [List.flatMap_nil, List.append_nil]
    exact ⟨r, rfl, h, rfl⟩
  | cons port ports ih =>
    rw [List.length_cons] at hfit
    obtain ⟨t, hrun, ht, heq⟩ := h.reportPort port (by omega) h32
    have hlen : (c ++ port.descriptor).length = c.length + 4 := List.length_append
    obtain ⟨u, hrun', hu, heq'⟩ := ih ht (by omega)
    refine ⟨u, ?_, by rwa [List.flatMap_cons, ← List.append_assoc], heq'.trans heq⟩
    rw [Tcmu.reportPorts, hrun, Option.bind_some, hrun']

/-- A group that fits is put behind what is there. -/
theorem Report.Holds.reportGroup (h : r.Holds allocLen c) (group : ReportedGroup)
    (hfit : c.length + group.size ≤ allocLen) (h32 : allocLen < 2 ^ 32) :
    ∃ t, Tcmu.reportGroup r group = some t ∧ t.Holds allocLen (c ++ group.descriptor) ∧
      t.reported = r.reported ++ [group] := by
  obtain ⟨hbuf, hoff, hle⟩ := h
  rw [ReportedGroup.size] at hfit
  have hheader : (headerBytes group).length = 8 := rfl
  have hholds : (Report.mk (fit 0 allocLen (c ++ headerBytes group)) ((r.off + 8) % 2 ^ 32)
      ((r.retDataLen + 8) % 2 ^ 32) (r.reported ++ [group])).Holds allocLen
      (c ++ headerBytes group) := by
    refine ⟨rfl, ?_, ?_⟩
    · rw [List.length_append, hheader, hoff]
      exact Nat.mod_eq_of_lt (by omega)
    · rw [List.length_append, hheader]
      omega
  obtain ⟨t, hrun, ht, heq⟩ := hholds.reportPorts group.tgtPorts
    (by rw [List.length_append, hheader]; omega) h32
  refine ⟨t, ?_, by rwa [List.append_assoc] at ht, heq⟩
  have hwrite : reportHeader (c ++ (List.replicate 8 0 ++
      List.replicate (allocLen - c.length - 8) 0)) c.length group = _ :=
    reportHeader_eq group (by omega)
  have hsplit := fit_split (show c.length + 8 ≤ allocLen by omega)
  rw [Tcmu.reportGroup, hbuf, hoff, hsplit, hwrite, Option.bind_some, ← hrun, hoff,
    fit_append 0 _ hle, fit, List.take_of_length_le (by rw [hheader]; omega), hheader]

/-- `ret_data_len` counts every group, whether it fits or not. -/
theorem reportPorts_retDataLen {ports : List GroupPort} (h : reportPorts r ports = some t) :
    t.retDataLen % 2 ^ 32 = (r.retDataLen + ports.length * 4) % 2 ^ 32 := by
  induction ports generalizing r with
  | nil =>
    obtain rfl := Option.some.inj h
    rfl
  | cons port ports ih =>
    obtain ⟨u, hport, hrest⟩ := Option.bind_eq_some_iff.mp h
    obtain ⟨buf, -, rfl⟩ := Option.map_eq_some_iff.mp hport
    rw [ih hrest, List.length_cons]
    dsimp only
    omega

theorem reportGroups_retDataLen (hcounted : Counted groups)
    (h : reportGroups allocLen groups r = some t) :
    t.retDataLen % 2 ^ 32 = (r.retDataLen + totalSize groups) % 2 ^ 32 := by
  induction groups generalizing r with
  | nil =>
    obtain rfl := Option.some.inj h
    rfl
  | cons group groups ih =>
    obtain ⟨hgroup, hgroups⟩ := List.forall_mem_cons.mp hcounted
    rw [reportGroups] at h
    split at h
    · rw [ih hgroups h, totalSize_cons, countedSize_eq hgroup]
      dsimp only
      omega
    · obtain ⟨u, hrun, hrest⟩ := Option.bind_eq_some_iff.mp h
      obtain ⟨buf, -, hports⟩ := Option.bind_eq_some_iff.mp hrun
      have hlen := reportPorts_retDataLen hports
      dsimp only at hlen
      rw [ih hgroups hrest, totalSize_cons, ReportedGroup.size]
      omega

/-! ### Prefixes -/

/-- The groups that fit come first: from some group on, none fits behind those before it. -/
def Orderly (allocLen off : ℕ) (groups : List ReportedGroup) : Prop :=
  ∃ written rest, groups = written ++ rest ∧ off + totalSize written ≤ allocLen ∧
    ∀ group ∈ rest, allocLen < off + totalSize written + group.size ∧
      off + totalSize written + group.size < 2 ^ 32

/-- Groups that fit are all put into the buffer. -/
theorem Report.Holds.reportGroups (h : r.Holds allocLen c) (hcounted : Counted groups)
    (hfit : c.length + totalSize groups ≤ allocLen) (h32 : allocLen < 2 ^ 32)
    (rest : List ReportedGroup) :
    ∃ t, Tcmu.reportGroups allocLen (groups ++ rest) r = Tcmu.reportGroups allocLen rest t ∧
      t.Holds allocLen (c ++ groups.flatMap ReportedGroup.descriptor) ∧
      t.reported = r.reported ++ groups := by
  induction groups generalizing r c with
  | nil => exact ⟨r, rfl, by rwa [List.flatMap_nil, List.append_nil], (List.append_nil _).symm⟩
  | cons group groups ih =>
    obtain ⟨hgroup, hgroups⟩ := List.forall_mem_cons.mp hcounted
    rw [totalSize_cons] at hfit
    obtain ⟨t, hrun, ht, heq⟩ := h.reportGroup group (by omega) h32
    have hlen : (c ++ group.descriptor).length = c.length + group.size := by
      rw [List.length_append, length_descriptor]
    obtain ⟨u, hrun', hu, heq'⟩ := ih ht hgroups (by omega)
    refine ⟨u, ?_, by rwa [List.flatMap_cons, ← List.append_assoc], ?_⟩
    · rw [List.cons_append, Tcmu.reportGroups, countedSize_eq hgroup, h.off, if_neg (by omega),
        hrun, Option.bind_some, hrun']
    · rw [heq', heq, List.append_assoc]
      rfl

/-- Groups that do not fit are skipped, and leave the buffer as it is. -/
theorem reportGroups_skip (hcounted : Counted groups)
    (hskip : ∀ group ∈ groups, allocLen < r.off + group.size ∧ r.off + group.size < 2 ^ 32) :
    ∃ n, reportGroups allocLen groups r = some ⟨r.buf, r.off, n, r.reported⟩ := by
  induction groups generalizing r with
  | nil => exact ⟨r.retDataLen, rfl⟩
  | cons group groups ih =>
    obtain ⟨hgroup, hgroups⟩ := List.forall_mem_cons.mp hcounted
    obtain ⟨⟨hlt, h32⟩, hrest⟩ := List.forall_mem_cons.mp hskip
    obtain ⟨n, hrun⟩ := ih (r := ⟨r.buf, r.off, (r.retDataLen + group.countedSize) % 2 ^ 32,
      r.reported⟩) hgroups hrest
    refine ⟨n, ?_⟩
    rw [reportGroups, countedSize_eq hgroup, if_pos (by omega), ← countedSize_eq hgroup, hrun]

/-- Ports that are put into the buffer end in it. -/
theorem reportPorts_bounds {ports : List GroupPort} (h : reportPorts r ports = some t)
    (h32 : r.off + ports.length * 4 ≤ 2 ^ 32) (hle : r.off ≤ r.buf.length) :
    r.off + ports.length * 4 ≤ r.buf.length := by
  induction ports generalizing r with
  | nil => exact hle
  | cons port ports ih =>
    obtain ⟨u, hport, hrest⟩ := Option.bind_eq_some_iff.mp h
    obtain ⟨buf, hbytes, rfl⟩ := Option.map_eq_some_iff.mp hport
    rw [List.length_cons] at h32 ⊢
    obtain ⟨hin, hlen⟩ := setBytes_bounds hbytes
    rw [Nat.mod_eq_of_lt (by omega)] at hin
    rcases Nat.eq_zero_or_pos ports.length with hzero | hpos
    · omega
    · have hoff : (r.off + 4) % 2 ^ 32 = r.off + 4 := Nat.mod_eq_of_lt (by omega)
      have hih := ih hrest (by dsimp only; omega) (by dsimp only; omega)
      dsimp only at hih
      omega

/-- The bytes of a group in front of its ports end in the buffer. -/
theorem reportHeader_bounds {buf buf' : List UInt8} {off : ℕ}
    (h : reportHeader buf off group = some buf') (h32 : off + 8 ≤ 2 ^ 32) :
    off + 8 ≤ buf.length ∧ buf'.length = buf.length := by
  obtain ⟨buf₁, h₁, h⟩ := Option.bind_eq_some_iff.mp h
  obtain ⟨buf₂, h₂, h⟩ := Option.bind_eq_some_iff.mp h
  obtain ⟨buf₃, h₃, h⟩ := Option.bind_eq_some_iff.mp h
  obtain ⟨buf₄, h₄, h⟩ := Option.bind_eq_some_iff.mp h
  obtain ⟨buf₅, h₅, h⟩ := Option.bind_eq_some_iff.mp h
  have hpref : buf₁.length = buf.length := by
    split at h₁
    · exact (setByte_bounds h₁).2
    · rw [Option.some.inj h₁]
  have hlen : buf₅.length = buf.length := by
    rw [(setByte_bounds h₅).2, (setBytes_bounds h₄).2, (setByte_bounds h₃).2, (setByte_bounds h₂).2,
      hpref]
  obtain ⟨hin, hlast⟩ := setByte_bounds h
  exact ⟨by omega, hlast.trans hlen⟩

theorem reportGroup_bounds (h : reportGroup r group = some t)
    (h32 : r.off + group.size ≤ 2 ^ 32) : r.off + group.size ≤ r.buf.length := by
  obtain ⟨buf, hheader, hports⟩ := Option.bind_eq_some_iff.mp h
  rw [ReportedGroup.size] at h32 ⊢
  obtain ⟨hin, hlen⟩ := reportHeader_bounds hheader (by omega)
  rcases Nat.eq_zero_or_pos group.tgtPorts.length with hzero | hpos
  · omega
  · have hoff : (r.off + 8) % 2 ^ 32 = r.off + 8 := Nat.mod_eq_of_lt (by omega)
    have hbounds := reportPorts_bounds hports (by dsimp only; omega) (by dsimp only; omega)
    dsimp only at hbounds
    omega

theorem reportPorts_reported {ports : List GroupPort} (h : reportPorts r ports = some t) :
    t.reported = r.reported := by
  induction ports generalizing r with
  | nil => rw [Option.some.inj h]
  | cons port ports ih =>
    obtain ⟨u, hport, hrest⟩ := Option.bind_eq_some_iff.mp h
    obtain ⟨buf, -, rfl⟩ := Option.map_eq_some_iff.mp hport
    have hih := ih hrest
    exact hih

theorem reportGroup_reported (h : reportGroup r group = some t) :
    t.reported = r.reported ++ [group] := by
  obtain ⟨buf, -, hports⟩ := Option.bind_eq_some_iff.mp h
  exact reportPorts_reported hports

theorem reportGroups_reported (h : reportGroups allocLen groups r = some t) :
    ∃ new, t.reported = r.reported ++ new := by
  induction groups generalizing r with
  | nil => exact ⟨[], by rw [List.append_nil, Option.some.inj h]⟩
  | cons group groups ih =>
    rw [reportGroups] at h
    split at h
    · have hih := ih h
      exact hih
    · obtain ⟨u, hrun, hrest⟩ := Option.bind_eq_some_iff.mp h
      obtain ⟨new, hnew⟩ := ih hrest
      refine ⟨group :: new, ?_⟩
      rw [hnew, reportGroup_reported hrun, List.append_assoc]
      rfl

/-- The first group that is put into the buffer fits. If there is none, no group fits. -/
theorem reported_first (hcounted : Counted groups) (hsum : r.off + totalSize groups ≤ 2 ^ 32)
    (hlen : r.buf.length = allocLen) (h32 : allocLen < 2 ^ 32)
    (h : reportGroups allocLen groups r = some t) :
    (∀ group ∈ groups, allocLen < r.off + group.size ∧ r.off + group.size < 2 ^ 32) ∨
      ∃ group rest, r.off + group.size ≤ allocLen ∧ t.reported = r.reported ++ group :: rest := by
  induction groups generalizing r with
  | nil => exact Or.inl fun group hgroup => absurd hgroup (List.not_mem_nil)
  | cons group groups ih =>
    obtain ⟨hgroup, hgroups⟩ := List.forall_mem_cons.mp hcounted
    rw [totalSize_cons] at hsum
    rw [reportGroups, countedSize_eq hgroup] at h
    split at h
    · rename_i hskip
      have hend : r.off + group.size < 2 ^ 32 := by
        by_contra hge
        have heq : r.off + group.size = 2 ^ 32 := by omega
        rw [heq, Nat.mod_self] at hskip
        omega
      rw [Nat.mod_eq_of_lt hend] at hskip
      have hih := ih (r := ⟨r.buf, r.off, (r.retDataLen + group.size) % 2 ^ 32, r.reported⟩) hgroups
        (by dsimp only; omega) hlen h
      rcases hih with hnone | hsome
      · exact Or.inl (List.forall_mem_cons.mpr ⟨⟨hskip, hend⟩, hnone⟩)
      · exact Or.inr hsome
    · obtain ⟨u, hrun, hrest⟩ := Option.bind_eq_some_iff.mp h
      have hfit := reportGroup_bounds hrun (by omega)
      obtain ⟨new, hnew⟩ := reportGroups_reported hrest
      refine Or.inr ⟨group, new, by omega, ?_⟩
      rw [hnew, reportGroup_reported hrun, List.append_assoc]
      rfl

/-- If what has been put into the buffer is a prefix, the groups that fit come first. -/
theorem Report.Holds.orderly (h : r.Holds allocLen c) (hcounted : Counted groups)
    (hsum : c.length + totalSize groups ≤ 2 ^ 32) (h32 : allocLen < 2 ^ 32)
    (hrun : Tcmu.reportGroups allocLen groups r = some t) {new : List ReportedGroup}
    (hnew : t.reported = r.reported ++ new)
    (hfront : new.map ReportedGroup.descriptor <+: groups.map ReportedGroup.descriptor) :
    Orderly allocLen c.length groups := by
  induction groups generalizing r c new with
  | nil => exact ⟨[], [], rfl, h.fits, fun group hgroup => absurd hgroup (List.not_mem_nil)⟩
  | cons group groups ih =>
    have hlen : r.buf.length = allocLen := by rw [h.buf, length_fit]
    rcases Nat.lt_or_ge allocLen (c.length + group.size) with hlt | hge
    · -- the first group does not fit: no group does, or the first one reported is another
      rcases reported_first hcounted (by rw [h.off]; exact hsum) hlen h32 hrun with hnone | hsome
      · rw [h.off] at hnone
        exact ⟨[], group :: groups, rfl, h.fits, hnone⟩
      · obtain ⟨first, rest, hfit, hreported⟩ := hsome
        rw [hnew] at hreported
        obtain rfl := List.append_cancel_left hreported
        rw [List.map_cons, List.map_cons, List.cons_prefix_cons] at hfront
        have hsize : first.size = group.size := by
          rw [← length_descriptor, ← length_descriptor, hfront.1]
        rw [h.off] at hfit
        omega
    · obtain ⟨hgroup, hgroups⟩ := List.forall_mem_cons.mp hcounted
      rw [totalSize_cons] at hsum
      obtain ⟨u, hfirst, hu, hreported⟩ := h.reportGroup group hge h32
      have hlen' : (c ++ group.descriptor).length = c.length + group.size := by
        rw [List.length_append, length_descriptor]
      rw [Tcmu.reportGroups, countedSize_eq hgroup, h.off, if_neg (by omega), hfirst,
        Option.bind_some] at hrun
      obtain ⟨new', hnew'⟩ := reportGroups_reported hrun
      have hcons : new = group :: new' := by
        rw [hnew, hreported, List.append_assoc] at hnew'
        exact List.append_cancel_left hnew'
      rw [hcons, List.map_cons, List.map_cons, List.cons_prefix_cons] at hfront
      obtain ⟨written, rest, rfl, hfits, hrest⟩ := ih hu hgroups (by omega) hrun hnew' hfront.2
      rw [hlen'] at hfits hrest
      refine ⟨group :: written, rest, rfl, by rw [totalSize_cons]; omega, fun g hg => ?_⟩
      rw [totalSize_cons, ← Nat.add_assoc]
      exact hrest g hg

end Loop

/-! ### The response -/

/-- Nothing is written outside the buffer. Behind the header there are descriptors and zeros, the
descriptors are the first ones of all groups, and RETURN DATA LENGTH is the number of bytes that
follow it in the response to a large enough allocation length. -/
def ReportSound (extHdr : Bool) (allocLen : ℕ) (groups : List ReportedGroup) : Prop :=
  ∃ r data header, reportTgtPortGrps extHdr allocLen groups = some (r, data) ∧
    header.length = (if extHdr ∧ allocLen > 5 then 8 else 4) ∧
    data = fit 0 allocLen (header ++ r.reported.flatMap ReportedGroup.descriptor) ∧
    r.reported.map ReportedGroup.descriptor <+: groups.map ReportedGroup.descriptor ∧
    beAt data 0 4 = (if extHdr then 4 else 0) + totalSize groups

/-- The standard header, fewer than `2 ^ 32` bytes of descriptors, and the groups that fit come
first. -/
structure ReportFits (extHdr : Bool) (allocLen : ℕ) (groups : List ReportedGroup) : Prop where
  /-- The header. -/
  standard : extHdr = false
  /-- The descriptors. -/
  total : totalSize groups < 2 ^ 32
  /-- The groups. -/
  orderly : Orderly allocLen 4 groups

section Response

variable {extHdr : Bool} {allocLen : ℕ} {groups : List ReportedGroup}

/-- The length is read back. -/
theorem beAt_place {buf data : List UInt8} {n : ℕ} (h : place buf 0 (be32Bytes n) = some data) :
    beAt data 0 4 = n % 2 ^ 32 := by
  rw [place] at h
  split at h
  · obtain rfl := Option.some.inj h
    rw [splice_zero]
    simp only [be32Bytes, beAt, byteAt, List.cons_append, Nat.zero_add, List.getD_cons_zero,
      List.getD_cons_succ, UInt8.toNat_ofNat']
    omega
  · exact absurd h (by simp)

theorem reportStart_retDataLen {r : Report} (h : reportStart extHdr allocLen groups = some r) :
    r.retDataLen = 0 := by
  rw [reportStart] at h
  split at h
  · obtain ⟨buf, -, hmap⟩ := Option.bind_eq_some_iff.mp h
    obtain ⟨buf', -, rfl⟩ := Option.map_eq_some_iff.mp hmap
    rfl
  · rw [← Option.some.inj h]

/-- RETURN DATA LENGTH is the size of all descriptors, in 32 bits. -/
theorem beAt_reportTgtPortGrps (hcounted : Counted groups) {r : Report} {data : List UInt8}
    (h : reportTgtPortGrps extHdr allocLen groups = some (r, data)) :
    beAt data 0 4 = totalSize groups % 2 ^ 32 := by
  obtain ⟨s, hstart, hrest⟩ := Option.bind_eq_some_iff.mp h
  obtain ⟨t, hloop, hmap⟩ := Option.bind_eq_some_iff.mp hrest
  obtain ⟨data', hplace, heq⟩ := Option.map_eq_some_iff.mp hmap
  obtain ⟨rfl, rfl⟩ := Prod.mk.inj heq
  rw [beAt_place hplace, reportGroups_retDataLen hcounted hloop, reportStart_retDataLen hstart,
    Nat.zero_add]

/-- With the standard header, the response is made from what the loop leaves. -/
theorem reportTgtPortGrps_standard (allocLen : ℕ) (groups : List ReportedGroup) :
    reportTgtPortGrps false allocLen groups =
      (reportGroups allocLen groups ⟨List.replicate allocLen 0, 4, 0, []⟩).bind fun r =>
        (place r.buf 0 (be32Bytes r.retDataLen)).map fun data => (r, data) := by
  rw [reportTgtPortGrps, reportStart, if_neg (by simp)]
  rfl

theorem four_dvd_totalSize (groups : List ReportedGroup) : 4 ∣ totalSize groups := by
  induction groups with
  | nil => exact Nat.dvd_zero 4
  | cons group groups ih =>
    rw [totalSize_cons, ReportedGroup.size]
    omega

/-- **The report is sound if and only if everything fits in order.** -/
theorem reportSound_iff (hcounted : Counted groups) (h4 : 4 ≤ allocLen)
    (h32 : allocLen < 2 ^ 32) :
    ReportSound extHdr allocLen groups ↔ ReportFits extHdr allocLen groups := by
  have hstart : (Report.mk (List.replicate allocLen 0) 4 0 []).Holds allocLen
      (List.replicate 4 0) := by
    refine ⟨?_, rfl, h4⟩
    rw [fit, List.take_of_length_le (by rwa [List.length_replicate]), List.length_replicate,
      List.replicate_append_replicate, Nat.add_sub_cancel' h4]
  constructor
  · rintro ⟨r, data, header, hrun, -, -, hfront, hlen⟩
    rw [beAt_reportTgtPortGrps hcounted hrun] at hlen
    have hlt : totalSize groups % 2 ^ 32 < 2 ^ 32 := Nat.mod_lt _ (by decide)
    have hle : totalSize groups % 2 ^ 32 ≤ totalSize groups := Nat.mod_le ..
    cases extHdr with
    | true =>
      rw [if_pos rfl] at hlen
      omega
    | false =>
      rw [if_neg (by decide), Nat.zero_add] at hlen
      refine ⟨rfl, by omega, ?_⟩
      rw [reportTgtPortGrps_standard] at hrun
      obtain ⟨t, hloop, hplace⟩ := Option.bind_eq_some_iff.mp hrun
      obtain ⟨data', -, heq⟩ := Option.map_eq_some_iff.mp hplace
      obtain ⟨rfl, -⟩ := Prod.mk.inj heq
      have hsize := four_dvd_totalSize groups
      exact hstart.orderly hcounted (by rw [List.length_replicate]; omega) h32 hloop
        (List.nil_append _).symm hfront
  · rintro ⟨rfl, htotal, written, rest, rfl, hfits, hrest⟩
    have hwritten : Counted written :=
      fun group hgroup => hcounted group (List.mem_append_left _ hgroup)
    have hskipped : Counted rest :=
      fun group hgroup => hcounted group (List.mem_append_right _ hgroup)
    obtain ⟨t, hloop, ht, hreported⟩ := hstart.reportGroups hwritten
      (by rw [List.length_replicate]; exact hfits) h32 rest
    have hoff : t.off = 4 + totalSize written := by
      rw [ht.off, List.length_append, List.length_replicate, length_flatMap_descriptor]
    obtain ⟨n, hskip⟩ := reportGroups_skip (r := t) hskipped (by rw [hoff]; exact hrest)
    have hplace : place t.buf 0 (be32Bytes n) =
        some (fit 0 allocLen (be32Bytes n ++ written.flatMap ReportedGroup.descriptor)) := by
      rw [ht.buf]
      exact place_fit_front 0 _ rfl (by rwa [List.length_replicate])
    have hrun : reportTgtPortGrps false allocLen (written ++ rest) =
        some (⟨t.buf, t.off, n, t.reported⟩,
          fit 0 allocLen (be32Bytes n ++ written.flatMap ReportedGroup.descriptor)) := by
      rw [reportTgtPortGrps_standard, hloop, hskip, Option.bind_some, hplace]
      rfl
    have hnew : t.reported = written := hreported
    refine ⟨_, _, be32Bytes n, hrun, rfl, by rw [hnew], ?_, ?_⟩
    · rw [hnew, List.map_append]
      exact List.prefix_append _ _
    · rw [beAt_reportTgtPortGrps hcounted hrun, Nat.mod_eq_of_lt htotal, if_neg (by decide),
        Nat.zero_add]

/-- **The response to REPORT TARGET PORT GROUPS.** The buffer that is copied to the initiator is
sound if and only if the standard header is asked for, the descriptors come to fewer than `2 ^ 32`
bytes, and the groups that fit come first. -/
theorem report_groups_sound_iff {cdb : Cdb} (halloc : tcmuGetXferLength cdb = some allocLen)
    (h4 : 4 ≤ allocLen) (henabled : ∃ group ∈ groups, ∃ port ∈ group.tgtPorts, port.enabled = true)
    (hcounted : Counted groups) (mem : Mem) (iov : List Iovec) :
    reportResponse cdb groups .ok true mem iov =
        (reportTgtPortGrps (byteAt cdb 1 &&& 0x20 ≠ 0) allocLen groups).map
          (fun p => (.ok, scatter mem iov p.2)) ∧
      (ReportSound (byteAt cdb 1 &&& 0x20 ≠ 0) allocLen groups ↔
        ReportFits (byteAt cdb 1 &&& 0x20 ≠ 0) allocLen groups) := by
  refine ⟨?_, reportSound_iff hcounted h4 (tcmuGetXferLength_lt halloc)⟩
  obtain ⟨group, hgroup, port, hport, hon⟩ := henabled
  have hnone : tcmuGetEnabledPort (groups.map ReportedGroup.toAluaGrp) ≠ none := by
    intro hall
    have hoff := List.findIdx?_eq_none_iff.mp hall _ (List.mem_map_of_mem hgroup)
    exact absurd (List.any_eq_true.mpr ⟨true, List.mem_map.mpr ⟨port, hport, hon⟩, rfl⟩)
      (Bool.eq_false_iff.mp hoff)
  rw [reportResponse, halloc]
  dsimp only
  rw [if_neg hnone, if_neg (by omega), if_neg (by decide), if_neg (by decide)]
  congr 1
  funext p
  rw [tcmuMemcpyIntoIovec_fst]

end Response

/-- A group with `n` ports, all of them enabled. -/
def groupOf (id : UInt16) (n : ℕ) : ReportedGroup :=
  ⟨0, 0x0f, 0, 0, false, id, UInt8.ofNat n, List.replicate n ⟨id, true⟩⟩

/-- REPORT TARGET PORT GROUPS with the standard header and room for 20 bytes. -/
def reportCdb : Cdb := [0xa3, 0x0a, 0, 0, 0, 0, 0, 0, 0, 20, 0, 0]

/-- Two groups, of which the first one fits. -/
theorem report_groups_sound_two :
    ReportSound false 20 [groupOf 1 1, groupOf 2 1] := by
  have halloc : tcmuGetXferLength reportCdb = some 20 := rfl
  have henabled : ∃ group ∈ [groupOf 1 1, groupOf 2 1], ∃ port ∈ group.tgtPorts,
      port.enabled = true := ⟨groupOf 1 1, by decide, ⟨1, true⟩, by decide, rfl⟩
  have hcounted : Counted [groupOf 1 1, groupOf 2 1] :=
    show ∀ group ∈ [groupOf 1 1, groupOf 2 1],
      group.numTgtPorts.toNat = group.tgtPorts.length by decide
  have hiff := (report_groups_sound_iff halloc (by decide) henabled hcounted (fun _ => 0) []).2
  exact hiff.mpr ⟨by decide, by decide, [groupOf 1 1], [groupOf 2 1], rfl, by decide, by decide⟩

/-- The first group does not fit, and the second one is put in its place. -/
theorem report_groups_out_of_order :
    ((reportTgtPortGrps false 20 [groupOf 1 3, groupOf 2 1]).map fun p => p.1.reported)
        = some [groupOf 2 1] ∧
      ¬ ReportSound false 20 [groupOf 1 3, groupOf 2 1] := by
  have hrun : ((reportTgtPortGrps false 20 [groupOf 1 3, groupOf 2 1]).map fun p => p.1.reported)
      = some [groupOf 2 1] := by decide +kernel
  refine ⟨hrun, ?_⟩
  rintro ⟨r, data, header, hreport, -, -, hfront, -⟩
  rw [hreport] at hrun
  have hreported : r.reported = [groupOf 2 1] := Option.some.inj hrun
  rw [hreported, List.map_cons, List.map_cons, List.cons_prefix_cons] at hfront
  exact absurd hfront.1 (by decide)

end Tcmu

end LioProject
