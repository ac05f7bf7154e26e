import QubController.System

/-! # The motor driver

`robstride.hpp` and `robstride.cpp`: the private protocol's constants, the linear map between
a range and 16-bit codes, the frames of the commands and the parser of feedback frames.
`Robstride` holds the fields of the class; a command is one `CAN_Write` on the driver's
channel, and parsing a feedback frame reads the clock only when the frame is accepted. -/

namespace Qub

open Interaction

/-! ### Protocol constants -/

/-- `Bit[28:24]` of the identifier. -/
inductive CommType
  | getId | mitControl | feedback | enable | stop | setZero | setCanId | paramRead | paramWrite
  | fault | save
deriving DecidableEq

def CommType.code : CommType → UInt8
  | getId => 0x00
  | mitControl => 0x01
  | feedback => 0x02
  | enable => 0x03
  | stop => 0x04
  | setZero => 0x06
  | setCanId => 0x07
  | paramRead => 0x11
  | paramWrite => 0x12
  | fault => 0x15
  | save => 0x16

theorem CommType.code_and (t : CommType) : t.code &&& 0x1F = t.code := by cases t <;> decide

theorem CommType.code_inj {t t' : CommType} : t.code = t'.code ↔ t = t' := by
  cases t <;> cases t' <;> decide

inductive RunMode
  | mit | position | velocity | current | csp
deriving DecidableEq

def RunMode.code : RunMode → UInt8
  | mit => 0
  | position => 1
  | velocity => 2
  | current => 3
  | csp => 5

def paramCanId : UInt16 := 0x200A
def paramRunMode : UInt16 := 0x7005
def paramMechPos : UInt16 := 0x7019

def pMin : CFloat := .rat (-1257 / 100)
def pMax : CFloat := .rat (1257 / 100)
def vMin : CFloat := .rat (-44)
def vMax : CFloat := .rat 44
def kpMin : CFloat := .rat 0
def kpMax : CFloat := .rat 500
def kdMin : CFloat := .rat 0
def kdMax : CFloat := .rat 5
def tMin : CFloat := .rat (-17)
def tMax : CFloat := .rat 17

def hostIdDefault : UInt8 := 0xFD

/-! ### The driver -/

structure MotorFeedback where
  position : CFloat := .rat 0
  velocity : CFloat := .rat 0
  torque : CFloat := .rat 0
  temperature : CFloat := .rat 0
  modeStatus : UInt8 := 0
  faultFlags : UInt8 := 0
  timestampNs : UInt64 := 0
deriving DecidableEq

/-- The feedback without its time stamp. -/
def MotorFeedback.values (fb : MotorFeedback) : MotorFeedback := { fb with timestampNs := 0 }

structure Robstride where
  can : Fin numChannels
  motorId : UInt8
  hostId : UInt8 := hostIdDefault
  lastFeedback : MotorFeedback := {}
deriving DecidableEq

/-- `float_to_uint`. -/
def floatToUint (x xMin xMax : CFloat) : UInt16 :=
  let x := if x.gt xMax then xMax else x
  let x := if x.lt xMin then xMin else x
  ((x - xMin) * .rat 65535 / (xMax - xMin)).toUInt16

/-- `uint_to_float`. -/
def uintToFloat (x : UInt16) (xMin xMax : CFloat) : CFloat :=
  CFloat.ofNat x.toNat * (xMax - xMin) / .rat 65535 + xMin

/-- The big-endian word at bytes `i` and `i + 1`. -/
def bigEndian (data : Fin 8 → UInt8) (i j : Fin 8) : UInt16 :=
  ((data i).toUInt16 <<< 8) ||| (data j).toUInt16

/-- The little-endian word at bytes `i` and `j`. -/
def littleEndian (data : Fin 8 → UInt8) (i j : Fin 8) : UInt16 :=
  (data i).toUInt16 ||| ((data j).toUInt16 <<< 8)

/-- All data bytes zero. -/
def zeroData : Fin 8 → UInt8 := fun _ => 0

/-- The data bytes of a `PARAM_READ` of `mechPos`. -/
def mechPosQuery : Fin 8 → UInt8 :=
  ![(paramMechPos &&& 0xFF).toUInt8, (paramMechPos >>> 8).toUInt8, 0, 0, 0, 0, 0, 0]

/-- The `float` in the data bytes 4 to 7. -/
def paramValue (data : Fin 8 → UInt8) : CFloat :=
  CFloat.ofBits ((data 4).toUInt32 ||| ((data 5).toUInt32 <<< 8) ||| ((data 6).toUInt32 <<< 16) |||
    ((data 7).toUInt32 <<< 24))

namespace Robstride

variable (m : Robstride)

/-- `can_->write_extended(..) == PCAN_ERROR_OK`. -/
def writeFrame (frame : TPCANMsg) : SysM Bool := do
  let sts ← canWrite m.can frame
  return sts == pcanErrorOk

/-- The frame of a command whose data field is the host ID. -/
def hostFrame (t : CommType) (data : Fin 8 → UInt8) : TPCANMsg :=
  extendedFrame (buildExtId t.code m.hostId.toUInt16 m.motorId) data

def enable : SysM Bool := m.writeFrame (m.hostFrame .enable zeroData)

def stop (clearFault : Bool) : SysM Bool :=
  m.writeFrame (m.hostFrame .stop (if clearFault then Function.update zeroData 0 1 else zeroData))

/-- The data bytes of `send_mit_command`: four big-endian words. -/
def mitData (posU velU kpU kdU : UInt16) : Fin 8 → UInt8 :=
  ![(posU >>> 8).toUInt8, (posU &&& 0xFF).toUInt8, (velU >>> 8).toUInt8, (velU &&& 0xFF).toUInt8,
    (kpU >>> 8).toUInt8, (kpU &&& 0xFF).toUInt8, (kdU >>> 8).toUInt8, (kdU &&& 0xFF).toUInt8]

/-- The frame of `send_mit_command`; the torque word stands in the identifier. -/
def mitFrame (position velocity kp kd torqueFf : CFloat) : TPCANMsg :=
  extendedFrame (buildExtId CommType.mitControl.code (floatToUint torqueFf tMin tMax) m.motorId)
    (mitData (floatToUint position pMin pMax) (floatToUint velocity vMin vMax)
      (floatToUint kp kpMin kpMax) (floatToUint kd kdMin kdMax))

def sendMitCommand (position velocity kp kd torqueFf : CFloat) : SysM Bool :=
  m.writeFrame (m.mitFrame position velocity kp kd torqueFf)

/-- `write_param_u8`: the index little-endian in bytes 0 and 1, the value in byte 4. -/
def writeParamU8 (index : UInt16) (value : UInt8) : SysM Bool :=
  m.writeFrame (m.hostFrame .paramWrite
    ![(index &&& 0xFF).toUInt8, (index >>> 8).toUInt8, 0, 0, value, 0, 0, 0])

def setRunMode (mode : RunMode) : SysM Bool := m.writeParamU8 paramRunMode mode.code

@[simp] theorem hostFrame_commType (t : CommType) (data : Fin 8 → UInt8) :
    (m.hostFrame t data).commType = t.code := by
  rw [hostFrame, commType_buildExtId, CommType.code_and]

@[simp] theorem hostFrame_destinationId (t : CommType) (data : Fin 8 → UInt8) :
    (m.hostFrame t data).destinationId = m.motorId := destinationId_buildExtId _ _ _ _

section mit
variable (position velocity kp kd torqueFf : CFloat)

@[simp] theorem mitFrame_commType :
    (m.mitFrame position velocity kp kd torqueFf).commType = CommType.mitControl.code := by
  rw [mitFrame, commType_buildExtId, CommType.code_and]

@[simp] theorem mitFrame_destinationId :
    (m.mitFrame position velocity kp kd torqueFf).destinationId = m.motorId :=
  destinationId_buildExtId _ _ _ _

@[simp] theorem mitFrame_dataField :
    (m.mitFrame position velocity kp kd torqueFf).dataField = floatToUint torqueFf tMin tMax :=
  dataField_buildExtId _ _ _ _

end mit

/-! ### Feedback -/

/-- The guards of `try_parse_feedback` for motor ID `m`: an extended frame of type 2 from it. -/
def isFeedbackFrom (m : UInt8) (msg : TPCANMsg) : Bool :=
  msg.extended && msg.commType == CommType.feedback.code && msg.sourceMotorId == m

/-- Is the frame this motor's feedback? -/
abbrev accepts (msg : TPCANMsg) : Bool := isFeedbackFrom m.motorId msg

def feedbackPosition (msg : TPCANMsg) : CFloat := uintToFloat (bigEndian msg.data 0 1) pMin pMax
def feedbackVelocity (msg : TPCANMsg) : CFloat := uintToFloat (bigEndian msg.data 2 3) vMin vMax
def feedbackTorque (msg : TPCANMsg) : CFloat := uintToFloat (bigEndian msg.data 4 5) tMin tMax

/-- The feedback that an accepted frame carries, stamped with the time `now`. -/
def decodeFeedback (msg : TPCANMsg) (now : Timespec) : MotorFeedback where
  modeStatus := ((msg.id >>> 22) &&& 0x03).toUInt8
  faultFlags := ((msg.id >>> 16) &&& 0x3F).toUInt8
  position := feedbackPosition msg
  velocity := feedbackVelocity msg
  torque := feedbackTorque msg
  temperature := CFloat.ofNat (bigEndian msg.data 6 7).toNat * .rat (1 / 10)
  timestampNs := now.toNs

/-- `try_parse_feedback`: is the frame this motor's feedback, and the driver after it.  The
caller's `out` is the driver's `lastFeedback` when it is. -/
def tryParseFeedback (msg : TPCANMsg) : SysM (Bool × Robstride) := do
  if m.accepts msg then
    let ts ← clockGettime
    return (true, { m with lastFeedback := decodeFeedback msg ts })
  else
    return (false, m)

theorem isFeedbackFrom_iff {m : UInt8} {msg : TPCANMsg} :
    isFeedbackFrom m msg = true ↔ msg.extended = true ∧
      msg.commType = CommType.feedback.code ∧ msg.sourceMotorId = m := by
  simp [isFeedbackFrom, and_assoc]

end Robstride

end Qub
