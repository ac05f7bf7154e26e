import QubController.MitCodec
import QubController.MotorConfig

/-! # The command frames

All commands of the repository go out as extended frames with eight data bytes: the communication
type, the data field and the motor's ID in the identifier, the arguments in the data field or in
the data bytes.  `HostCommand` lists them, those of the driver and of the tools, and `ofFrame` reads
one back.  `commands_unambiguous`: what a method of the driver writes is one frame, and it is the
frame of no other command, motor, host or argument. -/

namespace Qub

/-- A command with what its frame carries; floats stand for their codes or their bits. -/
inductive HostCommand
  | getId (host motor : UInt8)
  | mit (motor : UInt8) (position velocity kp kd torque : UInt16)
  | enable (host motor : UInt8)
  | stop (host motor : UInt8) (clearFault : Bool)
  | setZero (host motor : UInt8)
  | setCanId (host oldId newId : UInt8)
  | paramRead (host motor : UInt8) (index : UInt16)
  | paramWrite (host motor : UInt8) (index : UInt16) (value : UInt32)
deriving DecidableEq

/-- The data bytes of a parameter access: index and value, both little-endian. -/
def paramData (index : UInt16) (value : UInt32) : Fin 8 → UInt8 :=
  ![(index &&& 0xFF).toUInt8, (index >>> 8).toUInt8, 0, 0, value.toUInt8, (value >>> 8).toUInt8,
    (value >>> 16).toUInt8, (value >>> 24).toUInt8]

/-- The value in the data bytes 4 to 7. -/
def paramBits (data : Fin 8 → UInt8) : UInt32 :=
  (data 4).toUInt32 ||| ((data 5).toUInt32 <<< 8) ||| ((data 6).toUInt32 <<< 16) |||
    ((data 7).toUInt32 <<< 24)

/-- The type with a given code. -/
def CommType.ofCode (code : UInt8) : Option CommType :=
  [getId, mitControl, feedback, enable, stop, setZero, setCanId, paramRead, paramWrite, fault,
    save].find? fun t => t.code == code

/-! ### The driver's parameter and zero commands -/

namespace Robstride
variable (m : Robstride)

/-- `set_mechanical_zero`. -/
def setMechanicalZero : SysM Bool :=
  m.writeFrame (m.hostFrame .setZero (Function.update zeroData 0 1))

/-- `write_param_float` of a value with the bits `value`, which `memcpy` copies. -/
def writeParamFloat (index : UInt16) (value : UInt32) : SysM Bool :=
  m.writeFrame (m.hostFrame .paramWrite (paramData index value))

end Robstride

namespace HostCommand

/-- The frame of a command. -/
def frame : HostCommand → TPCANMsg
  | getId host motor =>
      extendedFrame (buildExtId CommType.getId.code host.toUInt16 motor) zeroData
  | mit motor position velocity kp kd torque =>
      extendedFrame (buildExtId CommType.mitControl.code torque motor)
        (Robstride.mitData position velocity kp kd)
  | enable host motor =>
      extendedFrame (buildExtId CommType.enable.code host.toUInt16 motor) zeroData
  | stop host motor clearFault =>
      extendedFrame (buildExtId CommType.stop.code host.toUInt16 motor)
        (if clearFault then Function.update zeroData 0 1 else zeroData)
  | setZero host motor =>
      extendedFrame (buildExtId CommType.setZero.code host.toUInt16 motor)
        (Function.update zeroData 0 1)
  | setCanId host oldId newId =>
      extendedFrame (buildExtId CommType.setCanId.code
        ((newId.toUInt16 <<< 8) ||| host.toUInt16) oldId) zeroData
  | paramRead host motor index =>
      extendedFrame (buildExtId CommType.paramRead.code host.toUInt16 motor) (paramData index 0)
  | paramWrite host motor index value =>
      extendedFrame (buildExtId CommType.paramWrite.code host.toUInt16 motor)
        (paramData index value)

/-- The command that a frame of a given type would be. -/
def candidate (msg : TPCANMsg) : CommType → Option HostCommand
  | .getId => some (.getId msg.sourceMotorId msg.destinationId)
  | .mitControl => some (.mit msg.destinationId (bigEndian msg.data 0 1) (bigEndian msg.data 2 3)
      (bigEndian msg.data 4 5) (bigEndian msg.data 6 7) msg.dataField)
  | .enable => some (.enable msg.sourceMotorId msg.destinationId)
  | .stop => some (.stop msg.sourceMotorId msg.destinationId (msg.data 0 == 1))
  | .setZero => some (.setZero msg.sourceMotorId msg.destinationId)
  | .setCanId =>
      some (.setCanId msg.sourceMotorId msg.destinationId (msg.dataField >>> 8).toUInt8)
  | .paramRead => some (.paramRead msg.sourceMotorId msg.destinationId (littleEndian msg.data 0 1))
  | .paramWrite => some (.paramWrite msg.sourceMotorId msg.destinationId
      (littleEndian msg.data 0 1) (paramBits msg.data))
  | _ => none

/-- The command whose frame this is. -/
def ofFrame (msg : TPCANMsg) : Option HostCommand :=
  ((CommType.ofCode msg.commType).bind (candidate msg)).filter fun c => c.frame = msg

/-! ### Reading the fields back -/

theorem ofCode_code (t : CommType) : CommType.ofCode t.code = some t := by cases t <;> rfl

theorem littleEndian_paramData (index : UInt16) (value : UInt32) :
    littleEndian (paramData index value) 0 1 = index := by
  apply UInt16.toBitVec_inj.mp
  simp only [littleEndian, paramData]
  ext i hi
  simp [-UInt16.toUInt16_toUInt8]
  interval_cases i <;> simp

theorem paramBits_paramData (index : UInt16) (value : UInt32) :
    paramBits (paramData index value) = value := by
  apply UInt32.toBitVec_inj.mp
  simp only [paramBits, paramData]
  ext i hi
  simp [-UInt32.toUInt32_toUInt8]
  interval_cases i <;> simp

theorem toUInt8_setIdField (host newId : UInt8) :
    ((newId.toUInt16 <<< 8) ||| host.toUInt16).toUInt8 = host := by
  apply UInt8.toBitVec_inj.mp
  ext i hi
  simp

theorem newId_setIdField (host newId : UInt8) :
    (((newId.toUInt16 <<< 8) ||| host.toUInt16) >>> 8).toUInt8 = newId := by
  apply UInt8.toBitVec_inj.mp
  ext i hi
  simp
  interval_cases i <;> simp

/-- The communication type of a command. -/
def type : HostCommand → CommType
  | getId _ _ => .getId
  | mit _ _ _ _ _ _ => .mitControl
  | enable _ _ => .enable
  | stop _ _ _ => .stop
  | setZero _ _ => .setZero
  | setCanId _ _ _ => .setCanId
  | paramRead _ _ _ => .paramRead
  | paramWrite _ _ _ _ => .paramWrite

theorem frame_commType (c : HostCommand) : c.frame.commType = c.type.code := by
  cases c <;> exact (commType_buildExtId _ _ _ _).trans (CommType.code_and _)

/-- Each field is read back. -/
theorem candidate_frame (c : HostCommand) : candidate c.frame c.type = some c := by
  cases c with
  | mit motor position velocity kp kd torque =>
      have hwords : ∀ u : UInt16, ((u >>> 8).toUInt8.toUInt16 <<< 8) |||
          (u &&& 0xFF).toUInt8.toUInt16 = u := bigEndian_bytes
      simp only [frame, type, candidate, dataField_buildExtId, destinationId_buildExtId,
        extendedFrame_data, bigEndian, Robstride.mitData]
      exact congrArg some (HostCommand.mit.injEq .. ▸
        ⟨rfl, hwords position, hwords velocity, hwords kp, hwords kd, rfl⟩)
  | stop host motor clearFault =>
      cases clearFault <;> simp [frame, type, candidate, zeroData]
  | setCanId host oldId newId =>
      simp only [frame, type, candidate, sourceMotorId_buildExtId, destinationId_buildExtId,
        dataField_buildExtId, toUInt8_setIdField, newId_setIdField]
  | paramRead host motor index =>
      simp [frame, type, candidate, littleEndian_paramData]
  | paramWrite host motor index value =>
      simp [frame, type, candidate, littleEndian_paramData, paramBits_paramData]
  | _ => simp [frame, type, candidate]

theorem ofFrame_frame (c : HostCommand) : ofFrame c.frame = some c := by
  rw [ofFrame, frame_commType, ofCode_code, Option.bind_some, candidate_frame]
  simp

/-- What is accepted is the frame of what is returned. -/
theorem ofFrame_eq_some_iff {msg : TPCANMsg} {c : HostCommand} :
    ofFrame msg = some c ↔ c.frame = msg := by
  constructor
  · intro h
    exact of_decide_eq_true (Option.filter_eq_some_iff.mp h).2
  · rintro rfl
    exact ofFrame_frame c

theorem frame_injective : Function.Injective frame := fun c c' h => by
  have hc := ofFrame_frame c
  rw [h, ofFrame_frame] at hc
  exact (Option.some.inj hc).symm

end HostCommand

/-! ### What the methods of the driver write -/

inductive DriverCall
  | enable
  | stop (clearFault : Bool)
  | sendMitCommand (x : MitField → CFloat)
  | setRunMode (mode : RunMode)
  | setMechanicalZero
  | writeParamU8 (index : UInt16) (value : UInt8)
  | writeParamFloat (index : UInt16) (value : UInt32)

namespace DriverCall
variable (m : Robstride)

def run : DriverCall → SysM Bool
  | enable => m.enable
  | stop clearFault => m.stop clearFault
  | sendMitCommand x => m.sendMit x
  | setRunMode mode => m.setRunMode mode
  | setMechanicalZero => m.setMechanicalZero
  | writeParamU8 index value => m.writeParamU8 index value
  | writeParamFloat index value => m.writeParamFloat index value

/-- The command that a call stands for. -/
def command : DriverCall → HostCommand
  | enable => .enable m.hostId m.motorId
  | stop clearFault => .stop m.hostId m.motorId clearFault
  | sendMitCommand x => .mit m.motorId
      (floatToUint (x .position) pMin pMax) (floatToUint (x .velocity) vMin vMax)
      (floatToUint (x .kp) kpMin kpMax) (floatToUint (x .kd) kdMin kdMax)
      (floatToUint (x .torque) tMin tMax)
  | setRunMode mode => .paramWrite m.hostId m.motorId paramRunMode mode.code.toUInt32
  | setMechanicalZero => .setZero m.hostId m.motorId
  | writeParamU8 index value => .paramWrite m.hostId m.motorId index value.toUInt32
  | writeParamFloat index value => .paramWrite m.hostId m.motorId index value

theorem paramData_toUInt32 (index : UInt16) (value : UInt8) :
    paramData index value.toUInt32 =
      ![(index &&& 0xFF).toUInt8, (index >>> 8).toUInt8, 0, 0, value, 0, 0, 0] := by
  have hshift : ∀ n : UInt32, 8 ≤ n.toNat → n.toNat < 32 →
      (value.toUInt32 >>> n).toUInt8 = 0 := by
    intro n hle hlt
    have hvalue := value.toNat_lt
    apply UInt8.toNat_inj.mp
    rw [UInt32.toNat_toUInt8, UInt32.toNat_shiftRight, UInt8.toNat_toUInt32, Nat.mod_eq_of_lt hlt,
      Nat.shiftRight_eq_div_pow, Nat.div_eq_of_lt]
    · rfl
    · exact hvalue.trans_le (Nat.pow_le_pow_right (by norm_num) hle)
  rw [paramData, hshift 8 (by decide) (by decide), hshift 16 (by decide) (by decide),
    hshift 24 (by decide) (by decide), UInt8.toUInt8_toUInt32]

theorem run_eq (call : DriverCall) :
    call.run m = m.writeFrame (call.command m).frame := by
  cases call with
  | setRunMode mode =>
      simp only [run, command, HostCommand.frame, paramData_toUInt32]
      rfl
  | writeParamU8 index value =>
      simp only [run, command, HostCommand.frame, paramData_toUInt32]
      rfl
  | _ => rfl

end DriverCall

section tools
variable (bus : MotorConfig.CanBus) (motorId newId : UInt8)

theorem mechPosQuery_eq : mechPosQuery = paramData paramMechPos 0 := by decide

/-- The frames of `motor_config`. -/
theorem tool_frames :
    bus.getIdFrame motorId = (HostCommand.getId bus.config.hostId motorId).frame ∧
      bus.stopFrame motorId = (HostCommand.stop bus.config.hostId motorId false).frame ∧
      bus.setIdFrame motorId newId = (HostCommand.setCanId bus.config.hostId motorId newId).frame ∧
      bus.setZeroFrame motorId = (HostCommand.setZero bus.config.hostId motorId).frame ∧
      bus.mechPosFrame motorId =
        (HostCommand.paramRead bus.config.hostId motorId paramMechPos).frame := by
  refine ⟨rfl, rfl, rfl, rfl, ?_⟩
  rw [MotorConfig.CanBus.mechPosFrame, mechPosQuery_eq]
  rfl

end tools

/-- **No command is mistaken for another.**  Each method of the driver writes one frame and each
frame of `motor_config` is one of these; from a frame the command, its motor, its host and its
arguments are read back; what is read back has exactly that frame; and so no two commands, of
whichever tool, share one.  A float that was written as a parameter is read back bit by bit. -/
theorem commands_unambiguous :
    (∀ (m : Robstride) (call : DriverCall),
      call.run m = m.writeFrame (call.command m).frame) ∧
    (∀ (bus : MotorConfig.CanBus) (motorId newId : UInt8),
      bus.getIdFrame motorId = (HostCommand.getId bus.config.hostId motorId).frame ∧
      bus.stopFrame motorId = (HostCommand.stop bus.config.hostId motorId false).frame ∧
      bus.setIdFrame motorId newId = (HostCommand.setCanId bus.config.hostId motorId newId).frame ∧
      bus.setZeroFrame motorId = (HostCommand.setZero bus.config.hostId motorId).frame ∧
      bus.mechPosFrame motorId =
        (HostCommand.paramRead bus.config.hostId motorId paramMechPos).frame) ∧
    (∀ c : HostCommand, HostCommand.ofFrame c.frame = some c) ∧
    (∀ (msg : TPCANMsg) (c : HostCommand), HostCommand.ofFrame msg = some c → c.frame = msg) ∧
    (∀ c c' : HostCommand, c.frame = c'.frame → c = c') ∧
    ∀ (host motor : UInt8) (index : UInt16) (value : UInt32),
      paramValue (HostCommand.paramWrite host motor index value).frame.data =
        CFloat.ofBits value := by
  refine ⟨fun m call => call.run_eq m, fun bus motorId newId => tool_frames bus motorId newId,
    HostCommand.ofFrame_frame, fun _ _ h => HostCommand.ofFrame_eq_some_iff.mp h,
    fun _ _ h => HostCommand.frame_injective h, fun host motor index value => ?_⟩
  exact congrArg CFloat.ofBits (HostCommand.paramBits_paramData index value)

end Qub
