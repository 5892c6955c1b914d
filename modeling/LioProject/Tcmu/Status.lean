import LioProject.Lib.Bytes

/-!
# Statuses and sense data

The status codes of `libtcmu_common.h`, and their translation into a SCSI status and sense data
in `libtcmu.c` (`tcmu_sts_to_scsi`).

A C status is an `int`. Besides the enumerators there may be any other number, for instance an
errno that a callout returns; `TcmuSts.other` stands for those, and the translation treats them as
its `default` branch does.
-/

namespace LioProject

namespace Tcmu

/-- The `TCMU_STS_*` codes. `other` is an `int` outside the enumeration. -/
inductive TcmuSts where
  | asyncHandled
  | notHandled
  | ok
  | noResource
  | passthroughErr
  | busy
  | wrErr
  | rdErr
  | miscompare
  | invalidCmd
  | invalidCdb
  | invalidParamList
  | invalidParamListLen
  | timeout
  | fenced
  | hwErr
  | range
  | frmtInProgress
  | capacityChanged
  | notsuppSaveParams
  | wrErrIncompatFrmt
  | transition
  | implTransitionErr
  | explTransitionErr
  | noLockHolders
  | notsuppSegDescType
  | notsuppTgtDescType
  | cpTgtDevNotconn
  | invalidCpTgtDevType
  | other (code : ℤ)
  deriving DecidableEq, Repr

/-- The SAM status codes that tcmu-runner returns. -/
inductive SamStat where
  | good
  | checkCondition
  | busy
  | taskSetFull
  deriving DecidableEq, Repr

/-! ### Sense data -/

/-- Sense keys of `scsi/scsi.h`. -/
inductive SenseKey where
  | notReady
  | mediumError
  | hardwareError
  | illegalRequest
  | unitAttention
  | copyAborted
  | miscompare
  deriving DecidableEq, Repr

/-- The code of a sense key. -/
def SenseKey.code : SenseKey → UInt8
  | .notReady => 0x02
  | .mediumError => 0x03
  | .hardwareError => 0x04
  | .illegalRequest => 0x05
  | .unitAttention => 0x06
  | .copyAborted => 0x0a
  | .miscompare => 0x0e

/-- A sense buffer: `SENSE_BUFFERSIZE` bytes. -/
abbrev Sense := List UInt8

/-- `__tcmu_set_sense_data`: fill in a fixed-format header, leaving every other byte alone. -/
def setSenseDataRaw (sense : Sense) (key : SenseKey) (ascAscq : ℕ) : Sense :=
  ((((sense.set 0 0x70).set 2 key.code).set 7 0x0a).set 12 (UInt8.ofNat (ascAscq / 256 % 256))).set
    13 (UInt8.ofNat (ascAscq % 256))

/-- `memset(sense_buf, 0, 18)`. -/
def clearSense (sense : Sense) : Sense := List.replicate (min 18 sense.length) 0 ++ sense.drop 18

/-- `tcmu_set_sense_data`: clear the header first. -/
def setSenseData (sense : Sense) (key : SenseKey) (ascAscq : ℕ) : Sense :=
  setSenseDataRaw (clearSense sense) key ascAscq

/-- `SENSE_BUFFERSIZE`, which is also `TCMU_SENSE_BUFFERSIZE`. -/
def senseBufferSize : ℕ := 96

/-- `tcmu_set_sense_key_specific_info`: two bytes of progress, and the SKSV bit. -/
def tcmuSetSenseKeySpecificInfo (sense : Sense) (info : UInt16) : Sense :=
  let sense := putBe (clearSense sense) 16 info.toNat 2
  sense.set 15 (sense.getD 15 0 ||| 0x80)

/-- `tcmu_set_sense_info`: the INFORMATION field, and the VALID bit. -/
def tcmuSetSenseInfo (sense : Sense) (info : UInt32) : Sense :=
  let sense := putBe (clearSense sense) 3 info.toNat 4
  sense.set 0 (sense.getD 0 0 ||| 0x80)

/-- `tcmu_sts_to_scsi`: the SCSI status of a result, and the sense buffer it leaves behind. -/
def tcmuStsToScsi (sts : TcmuSts) (sense : Sense) : SamStat × Sense :=
  match sts with
  | .ok => (.good, sense)
  | .noResource => (.taskSetFull, sense)
  | .timeout => (.busy, sense)
  | .busy => (.busy, sense)
  | .passthroughErr => (.checkCondition, sense)
  | .range => (.checkCondition, setSenseData sense .illegalRequest 0x2100)
  | .hwErr => (.checkCondition, setSenseData sense .hardwareError 0x4400)
  | .miscompare => (.checkCondition, setSenseDataRaw sense .miscompare 0x1d00)
  | .rdErr => (.checkCondition, setSenseData sense .mediumError 0x1100)
  | .wrErr => (.checkCondition, setSenseData sense .mediumError 0x0c00)
  | .invalidCdb => (.checkCondition, setSenseData sense .illegalRequest 0x2400)
  | .invalidParamList => (.checkCondition, setSenseData sense .illegalRequest 0x2600)
  | .invalidParamListLen => (.checkCondition, setSenseData sense .illegalRequest 0x1a00)
  | .notsuppSegDescType => (.checkCondition, setSenseData sense .illegalRequest 0x2609)
  | .notsuppTgtDescType => (.checkCondition, setSenseData sense .illegalRequest 0x2607)
  | .cpTgtDevNotconn => (.checkCondition, setSenseData sense .copyAborted 0x0d02)
  | .invalidCpTgtDevType => (.checkCondition, setSenseData sense .copyAborted 0x0d03)
  | .capacityChanged => (.checkCondition, setSenseData sense .unitAttention 0x2a09)
  | .transition => (.checkCondition, setSenseData sense .notReady 0x040a)
  | .implTransitionErr => (.checkCondition, setSenseData sense .unitAttention 0x2a07)
  | .explTransitionErr => (.checkCondition, setSenseData sense .hardwareError 0x670a)
  | .fenced => (.checkCondition, setSenseData sense .notReady 0x040b)
  | .wrErrIncompatFrmt => (.checkCondition, setSenseData sense .illegalRequest 0x3005)
  | .notsuppSaveParams => (.checkCondition, setSenseData sense .illegalRequest 0x3900)
  | .frmtInProgress => (.checkCondition, setSenseDataRaw sense .notReady 0x0404)
  | .notHandled => (.checkCondition, setSenseData sense .illegalRequest 0x2000)
  | .invalidCmd => (.checkCondition, setSenseData sense .illegalRequest 0x2000)
  -- `default`: the kernel turns this into a LUN communication failure
  | .asyncHandled => (.checkCondition, sense)
  | .noLockHolders => (.checkCondition, sense)
  | .other _ => (.checkCondition, sense)

end Tcmu

end LioProject
