import Mathlib.Data.List.Nodup
import QubController.CFloat
import QubController.Can

/-! # Robot configuration and shared state

`robot_config.hpp` and the data types of `shared_state.hpp`.  A channel index is a
`Fin numChannels` and a joint index a `Fin numJoints`, as the comments of the header
promise; the channel-local `jointIdx` array of `ChannelState` is an array of plain integers,
as its reader checks its range. -/

namespace Qub

abbrev numJoints : ℕ := 13
abbrev numChannels : ℕ := 4
abbrev maxMotorsPerChannel : ℕ := 4

/-- Joints and channels are given by numerals. -/
instance neZeroJoints : NeZero numJoints := ⟨by decide⟩
instance neZeroChannels : NeZero numChannels := ⟨by decide⟩

/-- `MOTOR_PERIOD_NS = 1'000'000'000 / MOTOR_LOOP_HZ`. -/
def motorPeriodNs : ℤ := 1000000000 / 500
/-- `IMU_PERIOD_NS = 1'000'000'000 / IMU_LOOP_HZ`. -/
def imuPeriodNs : ℤ := 1000000000 / 200
def motorTimeoutCycles : ℕ := 10

/-! ### The motor map -/

namespace JointIdx
def torsoYaw : Fin numJoints := 0
def lHipPitch : Fin numJoints := 1
def lHipRoll : Fin numJoints := 2
def lHipYaw : Fin numJoints := 3
def lKneePitch : Fin numJoints := 4
def lAnklePitch : Fin numJoints := 5
def lAnkleRoll : Fin numJoints := 6
def rHipPitch : Fin numJoints := 7
def rHipRoll : Fin numJoints := 8
def rHipYaw : Fin numJoints := 9
def rKneePitch : Fin numJoints := 10
def rAnklePitch : Fin numJoints := 11
def rAnkleRoll : Fin numJoints := 12
end JointIdx

structure MotorMapEntry where
  channelIdx : Fin numChannels
  motorId : UInt8
  jointIdx : Fin numJoints
  name : String
deriving DecidableEq

/-- The position of an entry's motor: its channel and its ID on that channel. -/
def MotorMapEntry.key (e : MotorMapEntry) : Fin numChannels × UInt8 := (e.channelIdx, e.motorId)

/-- `MOTOR_MAP`. -/
def motorMap : List MotorMapEntry :=
  [⟨1, 0, JointIdx.torsoYaw, "torso_yaw"⟩,
   ⟨1, 1, JointIdx.rHipPitch, "R_hip_pitch"⟩,
   ⟨1, 2, JointIdx.rHipRoll, "R_hip_roll"⟩,
   ⟨1, 3, JointIdx.rHipYaw, "R_hip_yaw"⟩,
   ⟨0, 4, JointIdx.rKneePitch, "R_knee_pitch"⟩,
   ⟨0, 5, JointIdx.rAnklePitch, "R_ankle_pitch"⟩,
   ⟨0, 6, JointIdx.rAnkleRoll, "R_ankle_roll"⟩,
   ⟨2, 1, JointIdx.lHipPitch, "L_hip_pitch"⟩,
   ⟨2, 2, JointIdx.lHipRoll, "L_hip_roll"⟩,
   ⟨2, 3, JointIdx.lHipYaw, "L_hip_yaw"⟩,
   ⟨3, 4, JointIdx.lKneePitch, "L_knee_pitch"⟩,
   ⟨3, 5, JointIdx.lAnklePitch, "L_ankle_pitch"⟩,
   ⟨3, 6, JointIdx.lAnkleRoll, "L_ankle_roll"⟩]

/-- A motor table that describes a robot: no joint and no motor occurs twice, and every
channel has room for its motors. -/
structure MotorTable where
  entries : List MotorMapEntry
  joints_nodup : (entries.map (·.jointIdx)).Nodup
  keys_nodup : (entries.map MotorMapEntry.key).Nodup
  channel_le : ∀ c, (entries.filter (·.channelIdx = c)).length ≤ maxMotorsPerChannel

/-- The shipped table is one. -/
def motorMapTable : MotorTable :=
  ⟨motorMap, by decide, by decide, by decide⟩

/-! ### Shared slots -/

/-- The state of one channel's motors, indexed locally by `0..numMotors-1`. -/
structure ChannelState where
  numMotors : ℕ := 0
  jointIdx : Fin maxMotorsPerChannel → ℤ := fun _ => 0
  q : Fin maxMotorsPerChannel → CFloat := fun _ => .rat 0
  dq : Fin maxMotorsPerChannel → CFloat := fun _ => .rat 0
  tauEst : Fin maxMotorsPerChannel → CFloat := fun _ => .rat 0
  online : Fin maxMotorsPerChannel → Bool := fun _ => false
  timestampNs : UInt64 := 0

structure ActionState where
  qDes : Fin numJoints → CFloat := fun _ => .rat 0
  dqDes : Fin numJoints → CFloat := fun _ => .rat 0
  kp : Fin numJoints → CFloat := fun _ => .rat 0
  kd : Fin numJoints → CFloat := fun _ => .rat 0
  tauFf : Fin numJoints → CFloat := fun _ => .rat 0
  timestampNs : UInt64 := 0
  valid : Bool := false

structure ImuState where
  quat : Fin 4 → CFloat := ![.rat 1, .rat 0, .rat 0, .rat 0]
  gyro : Fin 3 → CFloat := fun _ => .rat 0
  accel : Fin 3 → CFloat := fun _ => .rat 0
  baseLinV : Fin 3 → CFloat := fun _ => .rat 0
  timestampNs : UInt64 := 0

end Qub
