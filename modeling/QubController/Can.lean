import Mathlib.Data.Fin.VecNotation
import Mathlib.Data.Fintype.Basic
import Mathlib.Tactic.IntervalCases

/-! # CAN frames

The part of `PCANBasic.h` that the repository uses, `PcanChannel::read` and
`PcanChannel::write_extended` as far as they transform frames, and the private protocol's
29-bit identifier:

    Bit[28:24] = communication type, Bit[23:8] = data field, Bit[7:0] = target ID.

In a reply the low byte of the data field is the source motor's ID and the target is the
host. -/

namespace Qub

abbrev TPCANStatus := UInt32

def pcanErrorOk : TPCANStatus := 0x00000
def pcanErrorQrcvEmpty : TPCANStatus := 0x00020

/-- The message-type bit of a frame with a 29-bit identifier. -/
def pcanMessageExtended : UInt8 := 0x02

/-- Data bytes are indexed by numerals. -/
instance neZeroEight : NeZero 8 := ⟨by decide⟩

structure TPCANMsg where
  id : UInt32 := 0
  msgType : UInt8 := 0
  len : UInt8 := 0
  data : Fin 8 → UInt8 := fun _ => 0
deriving DecidableEq

namespace TPCANMsg

/-- `CAN_Read` into the buffer `buf`: identifier, type, length and the first `len` data bytes
come from the frame, the other data bytes stay what they were. -/
def fill (buf frame : TPCANMsg) : TPCANMsg :=
  { frame with data := fun i => if i.val < frame.len.toNat then frame.data i else buf.data i }

/-- `(msg.MSGTYPE & PCAN_MESSAGE_EXTENDED) != 0`. -/
def extended (msg : TPCANMsg) : Bool := msg.msgType &&& pcanMessageExtended != 0

def commType (msg : TPCANMsg) : UInt8 := ((msg.id >>> 24) &&& 0x1F).toUInt8
def sourceMotorId (msg : TPCANMsg) : UInt8 := ((msg.id >>> 8) &&& 0xFF).toUInt8
def destinationId (msg : TPCANMsg) : UInt8 := (msg.id &&& 0xFF).toUInt8

/-- The 16-bit data field, `Bit[23:8]`. -/
def dataField (msg : TPCANMsg) : UInt16 := ((msg.id >>> 8) &&& 0xFFFF).toUInt16

@[simp] theorem fill_id (buf frame : TPCANMsg) : (buf.fill frame).id = frame.id := rfl
@[simp] theorem fill_extended (buf frame : TPCANMsg) :
    (buf.fill frame).extended = frame.extended := rfl
@[simp] theorem fill_commType (buf frame : TPCANMsg) :
    (buf.fill frame).commType = frame.commType := rfl
@[simp] theorem fill_sourceMotorId (buf frame : TPCANMsg) :
    (buf.fill frame).sourceMotorId = frame.sourceMotorId := rfl
@[simp] theorem fill_destinationId (buf frame : TPCANMsg) :
    (buf.fill frame).destinationId = frame.destinationId := rfl

theorem fill_data_of_len {buf frame : TPCANMsg} (h : frame.len = 8) :
    (buf.fill frame).data = frame.data := by
  funext i
  have : i.val < frame.len.toNat := by rw [h]; exact i.isLt
  simp [fill, this]

/-- A frame with eight data bytes replaces the whole buffer. -/
theorem fill_of_len {buf frame : TPCANMsg} (h : frame.len = 8) : buf.fill frame = frame := by
  show { frame with data := (buf.fill frame).data } = frame
  rw [fill_data_of_len h]

end TPCANMsg

/-- `build_ext_id`. -/
def buildExtId (commType : UInt8) (dataField : UInt16) (motorId : UInt8) : UInt32 :=
  ((commType &&& 0x1F).toUInt32 <<< 24) ||| (dataField.toUInt32 <<< 8) ||| motorId.toUInt32

/-- The frame that `PcanChannel::write_extended` hands to `CAN_Write`. -/
def extendedFrame (extId : UInt32) (data : Fin 8 → UInt8) : TPCANMsg :=
  { id := extId, msgType := pcanMessageExtended, len := 8, data }

@[simp] theorem fill_extendedFrame (buf : TPCANMsg) (extId : UInt32) (data : Fin 8 → UInt8) :
    buf.fill (extendedFrame extId data) = extendedFrame extId data := TPCANMsg.fill_of_len rfl

section fields
variable (t : UInt8) (d : UInt16) (m : UInt8) (data : Fin 8 → UInt8)

@[simp] theorem extendedFrame_extended (i : UInt32) : (extendedFrame i data).extended = true := by
  simp only [TPCANMsg.extended, extendedFrame]
  decide

@[simp] theorem extendedFrame_data (i : UInt32) : (extendedFrame i data).data = data := rfl

@[simp] theorem extendedFrame_len (i : UInt32) : (extendedFrame i data).len = 8 := rfl

@[simp] theorem commType_buildExtId :
    (extendedFrame (buildExtId t d m) data).commType = t &&& 0x1F := by
  apply UInt8.toBitVec_inj.mp
  simp only [TPCANMsg.commType, extendedFrame, buildExtId]
  ext i hi
  simp
  interval_cases i <;> simp

@[simp] theorem dataField_buildExtId :
    (extendedFrame (buildExtId t d m) data).dataField = d := by
  apply UInt16.toBitVec_inj.mp
  simp only [TPCANMsg.dataField, extendedFrame, buildExtId]
  ext i hi
  simp
  interval_cases i <;> simp

@[simp] theorem sourceMotorId_buildExtId :
    (extendedFrame (buildExtId t d m) data).sourceMotorId = d.toUInt8 := by
  apply UInt8.toBitVec_inj.mp
  simp only [TPCANMsg.sourceMotorId, extendedFrame, buildExtId]
  ext i hi
  simp
  interval_cases i <;> simp

@[simp] theorem destinationId_buildExtId :
    (extendedFrame (buildExtId t d m) data).destinationId = m := by
  apply UInt8.toBitVec_inj.mp
  simp only [TPCANMsg.destinationId, extendedFrame, buildExtId]
  ext i hi
  simp
  interval_cases i <;> simp

/-- The identifier fits its 29 bits. -/
theorem buildExtId_lt : (buildExtId t d m).toNat < 2 ^ 29 := by
  have ht : (t &&& 0x1F).toNat ≤ 0x1F := by
    rw [UInt8.toNat_and]
    exact Nat.and_le_right
  have hd := d.toNat_lt
  have hm := m.toNat_lt
  unfold buildExtId
  simp only [UInt32.toNat_or, UInt32.toNat_shiftLeft, UInt8.toNat_toUInt32, UInt16.toNat_toUInt32]
  refine Nat.or_lt_two_pow (Nat.or_lt_two_pow ?_ ?_) ?_
  · rw [Nat.shiftLeft_eq]
    apply lt_of_le_of_lt (Nat.mod_le _ _)
    show (t &&& 0x1F).toNat * 2 ^ 24 < 2 ^ 29
    omega
  · rw [Nat.shiftLeft_eq]
    apply lt_of_le_of_lt (Nat.mod_le _ _)
    show d.toNat * 2 ^ 8 < 2 ^ 29
    omega
  · omega

end fields

end Qub
