import LioProject.Tcmu.RingSafety

/-!
# What becomes of the sense information

A command that fails with more to say than a status says it in two steps. It fills in part of its
sense buffer (`tcmu_set_sense_info` for the offset of a miscompare,
`tcmu_set_sense_key_specific_info` for the progress of a format), and it is completed with a status
for which `tcmu_sts_to_scsi` calls `__tcmu_set_sense_data`. That one leaves the buffer as it is
but for five bytes, so that the first step survives.

Byte 0 is one of the five. The progress does survive, as its SKSV bit is in byte 15; of a miscompare
the offset survives in bytes 3 to 6, but its VALID bit was in byte 0.
-/

namespace LioProject

namespace Tcmu

/-! ### Reading fixed-format sense data -/

/-- The VALID bit: the INFORMATION field means something. -/
def senseValid (sense : Sense) : Bool := (byteAt sense 0).testBit 7

/-- The INFORMATION field. -/
def senseInformation (sense : Sense) : ℕ := beAt sense 3 4

/-- The sense key, in the low four bits of byte 2. -/
def senseKey (sense : Sense) : ℕ := byteAt sense 2 % 16

/-- ADDITIONAL SENSE CODE and its qualifier. -/
def senseAscAscq (sense : Sense) : ℕ := beAt sense 12 2

/-- The SKSV bit: the sense-key specific bytes mean something. -/
def senseSksv (sense : Sense) : Bool := (byteAt sense 15).testBit 7

/-- The progress field of the sense-key specific bytes. -/
def senseProgress (sense : Sense) : ℕ := beAt sense 16 2

/-! ### The two reports -/

/-- What a command has to say beyond its status. -/
inductive SenseReport where
  | miscompare (offset : UInt32)
  | formatProgress (progress : UInt16)
  deriving DecidableEq, Repr

/-- The sense buffer after the first step. -/
def SenseReport.fill (sense : Sense) : SenseReport → Sense
  | .miscompare offset => tcmuSetSenseInfo sense offset
  | .formatProgress progress => tcmuSetSenseKeySpecificInfo sense progress

/-- The status that the command is then completed with. -/
def SenseReport.status : SenseReport → TcmuSts
  | .miscompare _ => .miscompare
  | .formatProgress _ => .frmtInProgress

/-- The report is about the progress of a format. -/
def SenseReport.isProgress : SenseReport → Bool
  | .miscompare _ => false
  | .formatProgress _ => true

/-- What an initiator has to find in the sense data. -/
def SenseReport.ToldBy (sense : Sense) : SenseReport → Prop
  | .miscompare offset =>
    senseValid sense ∧ senseInformation sense = offset.toNat ∧
      senseKey sense = SenseKey.miscompare.code.toNat ∧ senseAscAscq sense = 0x1d00
  | .formatProgress progress =>
    senseSksv sense ∧ senseProgress sense = progress.toNat ∧
      senseKey sense = SenseKey.notReady.code.toNat ∧ senseAscAscq sense = 0x0404

/-! ### The header that the translation writes -/

theorem length_clearSense {sense : Sense} (h : 18 ≤ sense.length) :
    (clearSense sense).length = sense.length := by
  simp only [clearSense, List.length_append, List.length_replicate, List.length_drop]
  omega

/-- The bytes that `__tcmu_set_sense_data` does not write are the ones it found. -/
theorem byteAt_setSenseDataRaw_of_ne {i : ℕ} (sense : Sense) (key : SenseKey) (ascAscq : ℕ)
    (h0 : i ≠ 0) (h2 : i ≠ 2) (h7 : i ≠ 7) (h12 : i ≠ 12) (h13 : i ≠ 13) :
    byteAt (setSenseDataRaw sense key ascAscq) i = byteAt sense i := by
  rw [setSenseDataRaw, byteAt_set_of_ne _ _ h13.symm, byteAt_set_of_ne _ _ h12.symm,
    byteAt_set_of_ne _ _ h7.symm, byteAt_set_of_ne _ _ h2.symm, byteAt_set_of_ne _ _ h0.symm]

/-- Byte 0 is overwritten as a whole, the VALID bit with it. -/
theorem not_senseValid_setSenseDataRaw {sense : Sense} (h : 0 < sense.length) (key : SenseKey)
    (ascAscq : ℕ) : senseValid (setSenseDataRaw sense key ascAscq) = false := by
  rw [senseValid, setSenseDataRaw, byteAt_set_of_ne _ _ (by decide),
    byteAt_set_of_ne _ _ (by decide), byteAt_set_of_ne _ _ (by decide),
    byteAt_set_of_ne _ _ (by decide), byteAt_set_self h]
  rfl

theorem senseKey_setSenseDataRaw {sense : Sense} (h : 2 < sense.length) (key : SenseKey)
    (ascAscq : ℕ) : senseKey (setSenseDataRaw sense key ascAscq) = key.code.toNat := by
  rw [senseKey, setSenseDataRaw, byteAt_set_of_ne _ _ (by decide),
    byteAt_set_of_ne _ _ (by decide), byteAt_set_of_ne _ _ (by decide),
    byteAt_set_self (by rwa [List.length_set])]
  cases key <;> rfl

theorem senseAscAscq_setSenseDataRaw {sense : Sense} (h : 13 < sense.length) (key : SenseKey)
    {ascAscq : ℕ} (hlt : ascAscq < 2 ^ 16) :
    senseAscAscq (setSenseDataRaw sense key ascAscq) = ascAscq := by
  have hhigh : (UInt8.ofNat (ascAscq / 256 % 256)).toNat = ascAscq / 256 % 256 :=
    UInt8.toNat_ofNat_of_lt' (Nat.mod_lt _ (by decide))
  have hlow : (UInt8.ofNat (ascAscq % 256)).toNat = ascAscq % 256 :=
    UInt8.toNat_ofNat_of_lt' (Nat.mod_lt _ (by decide))
  rw [senseAscAscq, setSenseDataRaw, beAt, beAt, beAt, byteAt_set_of_ne _ _ (by decide),
    byteAt_set_self (by simp only [List.length_set]; omega), hhigh,
    byteAt_set_self (by simp only [List.length_set]; omega), hlow]
  omega

/-- SKSV and the progress are out of its reach. -/
theorem senseSksv_setSenseDataRaw (sense : Sense) (key : SenseKey) (ascAscq : ℕ) :
    senseSksv (setSenseDataRaw sense key ascAscq) = senseSksv sense := by
  rw [senseSksv, byteAt_setSenseDataRaw_of_ne _ _ _ (by decide) (by decide) (by decide)
    (by decide) (by decide)]
  rfl

theorem senseProgress_setSenseDataRaw (sense : Sense) (key : SenseKey) (ascAscq : ℕ) :
    senseProgress (setSenseDataRaw sense key ascAscq) = senseProgress sense := by
  simp only [senseProgress, beAt]
  rw [byteAt_setSenseDataRaw_of_ne _ _ _ (by decide) (by decide) (by decide) (by decide)
    (by decide), byteAt_setSenseDataRaw_of_ne _ _ _ (by decide) (by decide) (by decide)
    (by decide) (by decide)]

theorem senseInformation_setSenseDataRaw (sense : Sense) (key : SenseKey) (ascAscq : ℕ) :
    senseInformation (setSenseDataRaw sense key ascAscq) = senseInformation sense := by
  have hbyte : ∀ i, 3 ≤ i → i < 7 →
      byteAt (setSenseDataRaw sense key ascAscq) i = byteAt sense i := fun i h3 h7 =>
    byteAt_setSenseDataRaw_of_ne _ _ _ (by omega) (by omega) (by omega) (by omega) (by omega)
  simp only [senseInformation, beAt]
  rw [hbyte 3 (by decide) (by decide), hbyte (3 + 1) (by decide) (by decide),
    hbyte (3 + 2) (by decide) (by decide), hbyte (3 + 3) (by decide) (by decide)]

/-! ### The two first steps -/

/-- Setting bit 7 of a byte sets it. -/
theorem testBit_toNat_or_0x80 (b : UInt8) : (b ||| 0x80).toNat.testBit 7 = true := by
  rw [UInt8.toNat_or, Nat.testBit_or]
  exact Bool.or_true _

/-- `tcmu_set_sense_key_specific_info` sets SKSV and the progress. -/
theorem tcmuSetSenseKeySpecificInfo_told {sense : Sense} (h : 18 ≤ sense.length)
    (progress : UInt16) :
    senseSksv (tcmuSetSenseKeySpecificInfo sense progress) = true ∧
      senseProgress (tcmuSetSenseKeySpecificInfo sense progress) = progress.toNat := by
  have hlen : (putBe (clearSense sense) 16 progress.toNat 2).length = sense.length := by
    rw [length_putBe, length_clearSense h]
  refine ⟨?_, ?_⟩
  · rw [senseSksv, tcmuSetSenseKeySpecificInfo, byteAt_set_self (by omega)]
    exact testBit_toNat_or_0x80 _
  · rw [senseProgress, tcmuSetSenseKeySpecificInfo, beAt_set_of_outside _ _ (by omega)]
    exact beAt_putBe (by rw [length_clearSense h]; omega) progress.toNat_lt

/-- `tcmu_set_sense_info` sets VALID and the INFORMATION field. -/
theorem tcmuSetSenseInfo_told {sense : Sense} (h : 18 ≤ sense.length) (offset : UInt32) :
    senseValid (tcmuSetSenseInfo sense offset) = true ∧
      senseInformation (tcmuSetSenseInfo sense offset) = offset.toNat := by
  have hlen : (putBe (clearSense sense) 3 offset.toNat 4).length = sense.length := by
    rw [length_putBe, length_clearSense h]
  refine ⟨?_, ?_⟩
  · rw [senseValid, tcmuSetSenseInfo, byteAt_set_self (by omega)]
    exact testBit_toNat_or_0x80 _
  · rw [senseInformation, tcmuSetSenseInfo, beAt_set_of_outside _ _ (by omega)]
    exact beAt_putBe (by rw [length_clearSense h]; omega) offset.toNat_lt

/-! ### What is posted -/

/-- All of a miscompare but the VALID bit is there. -/
theorem miscompare_posted {sense : Sense} (h : 18 ≤ sense.length) (offset : UInt32) :
    senseValid (tcmuStsToScsi .miscompare (tcmuSetSenseInfo sense offset)).2 = false ∧
      senseInformation (tcmuStsToScsi .miscompare (tcmuSetSenseInfo sense offset)).2
        = offset.toNat ∧
      senseKey (tcmuStsToScsi .miscompare (tcmuSetSenseInfo sense offset)).2
        = SenseKey.miscompare.code.toNat ∧
      senseAscAscq (tcmuStsToScsi .miscompare (tcmuSetSenseInfo sense offset)).2 = 0x1d00 := by
  have hlen : (tcmuSetSenseInfo sense offset).length = sense.length := by
    simp only [tcmuSetSenseInfo, List.length_set, length_putBe, length_clearSense h]
  refine ⟨?_, ?_, ?_, ?_⟩
  · exact not_senseValid_setSenseDataRaw (by omega) _ _
  · exact (senseInformation_setSenseDataRaw _ _ _).trans (tcmuSetSenseInfo_told h offset).2
  · exact senseKey_setSenseDataRaw (by omega) _ _
  · exact senseAscAscq_setSenseDataRaw (by omega) _ (by decide)

/-- A report about a format is told by the sense data that the translation leaves, and a report
about a miscompare is not. -/
theorem SenseReport.toldBy_translation_iff {sense : Sense} (h : 18 ≤ sense.length)
    (rep : SenseReport) :
    rep.ToldBy (tcmuStsToScsi rep.status (rep.fill sense)).2 ↔ rep.isProgress = true := by
  cases rep with
  | miscompare offset =>
    refine ⟨fun htold => ?_, fun hp => Bool.noConfusion hp⟩
    have hvalid : senseValid (tcmuStsToScsi .miscompare (tcmuSetSenseInfo sense offset)).2 = true :=
      htold.1
    rw [(miscompare_posted h offset).1] at hvalid
    exact absurd hvalid (by decide)
  | formatProgress progress =>
    have hlen : (tcmuSetSenseKeySpecificInfo sense progress).length = sense.length := by
      simp only [tcmuSetSenseKeySpecificInfo, List.length_set, length_putBe, length_clearSense h]
    obtain ⟨hsksv, hprogress⟩ := tcmuSetSenseKeySpecificInfo_told h progress
    refine ⟨fun _ => rfl, fun _ => ⟨?_, ?_, ?_, ?_⟩⟩
    · exact (senseSksv_setSenseDataRaw _ _ _).trans hsksv
    · exact (senseProgress_setSenseDataRaw _ _ _).trans hprogress
    · exact senseKey_setSenseDataRaw (by rw [fill, hlen]; omega) _ _
    · exact senseAscAscq_setSenseDataRaw (by rw [fill, hlen]; omega) _ (by decide)

/-- A command in hand can be completed, and the last entry that the kernel is then given has its
identifier, with the response. -/
theorem Safe.complete {s : Sys} {consumed fresh : List CmdEntry} (h : Safe s consumed fresh)
    {i : ℕ} {cmd : TcmulibCmd} (hcmd : s.outstanding[i]? = some cmd) (result : TcmuSts)
    (sense : Sense) :
    ∃ s' front e, Tcmu.step s (.complete i result sense) = some s' ∧ s'.passed = front ++ [e] ∧
      e.cmdId = cmd.cmdId ∧ e.body = responseBody result sense := by
  obtain ⟨hi, -⟩ := List.getElem?_eq_some_iff.mp hcmd
  have henough := h.enough
  obtain ⟨skipped, e, rest, rfl, hskipped, he⟩ := exists_first_cmd consumed (by omega)
  obtain ⟨r', hrun, -⟩ :=
    tcmulibCommandComplete_sim { cmd with sense := sense } result h.rep hskipped he
  refine ⟨⟨r', s.outstanding.eraseIdx i,
      s.passed ++ (skipped ++ [e.respond cmd.cmdId (responseBody result sense)]),
      s.completed ++ [⟨cmd.cmdId, result, sense⟩]⟩,
    s.passed ++ skipped, e.respond cmd.cmdId (responseBody result sense), ?_,
    (List.append_assoc ..).symm, rfl, rfl⟩
  rw [Tcmu.step, hcmd]
  simp only [hrun, Option.map_some]

/-- **The progress of a format reaches the initiator, and the offset of a miscompare does not.** In
every state of every run of the ring, a command whose handler has filled in its sense buffer is
completed with a check condition, and what the kernel is given tells the report exactly if it is
about a format. -/
theorem posted_sense_iff {s₀ s : Sys} {es : List Event} (h₀ : Init s₀)
    (hrun : run step s₀ es = some s) {i : ℕ} {cmd : TcmulibCmd}
    (hcmd : s.outstanding[i]? = some cmd) {sense : Sense} (hlen : sense.length = senseBufferSize)
    (rep : SenseReport) :
    ∃ s' front e posted, step s (.complete i rep.status (rep.fill sense)) = some s' ∧
      s'.passed = front ++ [e] ∧ e.cmdId = cmd.cmdId ∧
      e.body = .rsp .checkCondition (some posted) ∧
      (rep.ToldBy posted ↔ rep.isProgress = true) := by
  obtain ⟨consumed, fresh, h⟩ := safe_of_run h₀ hrun
  obtain ⟨s', front, e, hstep, hpassed, hid, hbody⟩ :=
    h.complete hcmd rep.status (rep.fill sense)
  have hlong : 18 ≤ sense.length := by rw [hlen]; decide
  refine ⟨s', front, e, _, hstep, hpassed, hid, ?_, rep.toldBy_translation_iff hlong⟩
  rw [hbody]
  cases rep <;> rfl

/-- One read command, fetched and in hand. -/
def inHandRun : List Event := [.append (readEntry 7), .fetch (some [])]

/-- A sense buffer as `malloc` may leave it. -/
def zeroSense : Sense := List.replicate senseBufferSize 0

theorem posted_sense_progress :
    ∃ s s' front e posted, run step ⟨emptyRing, [], [], []⟩ inHandRun = some s ∧
      step s (.complete 0 .frmtInProgress (tcmuSetSenseKeySpecificInfo zeroSense 0x4000))
        = some s' ∧
      s'.passed = front ++ [e] ∧ e.body = .rsp .checkCondition (some posted) ∧
      (SenseReport.formatProgress 0x4000).ToldBy posted := by
  have hsome : (run step ⟨emptyRing, [], [], []⟩ inHandRun).isSome := by decide
  obtain ⟨s, hs⟩ := Option.isSome_iff_exists.mp hsome
  have hcmds : ((run step ⟨emptyRing, [], [], []⟩ inHandRun).map fun s => s.outstanding.length)
      = some 1 := by decide
  rw [hs] at hcmds
  have hone : s.outstanding.length = 1 := Option.some.inj hcmds
  have hlen : 0 < s.outstanding.length := by omega
  obtain ⟨s', front, e, posted, hstep, hpassed, -, hbody, htold⟩ :=
    posted_sense_iff ⟨⟨[], rep_emptyRing⟩, rfl, rfl, rfl⟩ hs (List.getElem?_eq_getElem hlen)
      (show zeroSense.length = senseBufferSize from List.length_replicate) (.formatProgress 0x4000)
  exact ⟨s, s', front, e, posted, hs, hstep, hpassed, hbody, htold.mpr rfl⟩

/-- A miscompare at offset 512: the response has the offset, and its VALID bit is off. -/
theorem posted_sense_not_valid :
    ∃ posted, ((run step ⟨emptyRing, [], [], []⟩
        (inHandRun ++ [.complete 0 .miscompare (tcmuSetSenseInfo zeroSense 512)])).map
          fun s => s.passed.map CmdEntry.body) = some [.rsp .checkCondition (some posted)] ∧
      senseInformation posted = 512 ∧ senseValid posted = false ∧
      ¬ (SenseReport.miscompare 512).ToldBy posted :=
  ⟨setSenseDataRaw (tcmuSetSenseInfo zeroSense 512) .miscompare 0x1d00, by decide +kernel,
    by decide +kernel, by decide +kernel, fun htold => absurd htold.1 (by decide +kernel)⟩

end Tcmu

end LioProject
