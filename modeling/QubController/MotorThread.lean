import QubController.Robstride

/-! # The motor thread

`motor_thread.cpp`: one thread for one CAN channel.  `sendCommands`, `drainFeedback` and
`publishState` are the three parts of a cycle, `run` is the thread's loop, and `start`, `stop`
and `destroy` are called by the owner of the object.

The drivers of the bound motors belong to the object's state and are threaded through.  One
thing is added for the statements about the loop: `run` takes a bound on the number of cycles. -/

namespace Qub

open Interaction

structure MotorBinding where
  motor : Robstride
  jointIdx : Fin numJoints
deriving DecidableEq

/-- Where a motor sits: its channel and its ID there. -/
def MotorBinding.key (b : MotorBinding) : Fin numChannels × UInt8 := (b.motor.can, b.motor.motorId)

structure MotorThread where
  channelIdx : Fin numChannels
  motors : List MotorBinding
  started : Bool := false
  loopCount : UInt64 := 0
  lastPeriodNs : ℤ := 0
  missedDeadlines : ℕ := 0

namespace MotorThread

/-! ### The parts of a cycle -/

/-- The command to one motor: its joint's entry of the action, or a free joint. -/
def sendCommand (act : ActionState) (bind : MotorBinding) : SysM Bool :=
  let j := bind.jointIdx
  if !act.valid then
    bind.motor.sendMitCommand (.rat 0) (.rat 0) (.rat 0) (.rat 0) (.rat 0)
  else
    bind.motor.sendMitCommand (act.qDes j) (act.dqDes j) (act.kp j) (act.kd j) (act.tauFf j)

/-- The loop of `send_commands`; the results of the writes are not looked at. -/
def sendAll (act : ActionState) : List MotorBinding → SysM Unit
  | [] => return
  | bind :: rest => do
      let _ ← sendCommand act bind
      sendAll act rest

def sendCommands (motors : List MotorBinding) : SysM Unit := do
  let act ← loadAction
  sendAll act motors

/-- The inner loop of `drain_feedback`: the first motor that takes the frame ends it. -/
def dispatch (msg : TPCANMsg) : List MotorBinding → SysM (List MotorBinding)
  | [] => return []
  | bind :: rest => do
      let (parsed, motor) ← bind.motor.tryParseFeedback msg
      if parsed then
        return { bind with motor } :: rest
      else
        let rest ← dispatch msg rest
        return bind :: rest

def maxFramesPerCycle : ℕ := 32

/-- What `drain_feedback` leaves: the last status, the motors and the message buffer. -/
structure Drained where
  sts : TPCANStatus
  motors : List MotorBinding
  msg : TPCANMsg

/-- The read loop of `drain_feedback` with `left = MAX_FRAMES_PER_CYCLE - count`.  Its condition
reads first and looks at the count afterwards. -/
def drainLoop (ch : Fin numChannels) (left : ℕ) (d : Drained) : SysM Drained := do
  let (sts, frame) ← canRead ch
  if sts == pcanErrorOk then
    let msg := d.msg.fill frame
    match left with
    | 0 => return { d with sts, msg }
    | left + 1 =>
        let motors ← dispatch msg d.motors
        drainLoop ch left { sts, motors, msg }
  else
    return { d with sts }

/-- `drain_feedback`, with the contents `msg` of its uninitialised message buffer. -/
def drainFeedback (ch : Fin numChannels) (motors : List MotorBinding) (msg : TPCANMsg) :
    SysM Drained :=
  drainLoop ch maxFramesPerCycle ⟨pcanErrorOk, motors, msg⟩

/-- `MOTOR_PERIOD_NS * MOTOR_TIMEOUT_CYCLES`, in the type of the comparison. -/
def motorTimeoutNs : UInt64 := UInt64.ofInt motorPeriodNs * UInt64.ofNat motorTimeoutCycles

/-- Is a motor with this feedback online at time `now`? -/
def isOnline (fb : MotorFeedback) (now : UInt64) : Bool :=
  let age := if fb.timestampNs == 0 then UInt64.ofNat (2 ^ 64 - 1) else now - fb.timestampNs
  decide (age < motorTimeoutNs)

/-- A motor that was never heard is offline. -/
theorem isOnline_untouched (now : UInt64) : isOnline {} now = false := by
  have h : ¬ UInt64.ofNat (2 ^ 64 - 1) < motorTimeoutNs := by decide
  simpa [isOnline] using h

/-- An online motor's feedback is younger than the timeout. -/
theorem age_of_isOnline {fb : MotorFeedback} {now : UInt64} (h : isOnline fb now = true)
    (hle : fb.timestampNs.toNat ≤ now.toNat) :
    now.toNat - fb.timestampNs.toNat < (motorPeriodNs * motorTimeoutCycles).toNat := by
  unfold isOnline at h
  by_cases h0 : fb.timestampNs = 0
  · have hmax : ¬ UInt64.ofNat (2 ^ 64 - 1) < motorTimeoutNs := by decide
    rw [h0] at h
    exact absurd (of_decide_eq_true h) hmax
  · have hage : now - fb.timestampNs < motorTimeoutNs := by simpa [h0] using h
    have htimeout : motorTimeoutNs.toNat = (motorPeriodNs * motorTimeoutCycles).toNat := by decide
    rw [UInt64.lt_iff_toNat_lt, htimeout,
      UInt64.toNat_sub_of_le _ _ (UInt64.le_iff_toNat_le.mpr hle)] at hage
    exact hage

/-- Entry `i` of a channel-local array filled from the bindings. -/
def localArray {α : Type} (motors : List MotorBinding) (f : MotorBinding → α) (dflt : α) :
    Fin maxMotorsPerChannel → α :=
  fun i => (motors[i.val]?.map f).getD dflt

/-- The state that `publish_state` builds. -/
def channelState (motors : List MotorBinding) (now : UInt64) : ChannelState where
  numMotors := motors.length
  jointIdx := localArray motors (fun b => (b.jointIdx : ℤ)) 0
  q := localArray motors (·.motor.lastFeedback.position) (.rat 0)
  dq := localArray motors (·.motor.lastFeedback.velocity) (.rat 0)
  tauEst := localArray motors (·.motor.lastFeedback.torque) (.rat 0)
  online := localArray motors (fun b => isOnline b.motor.lastFeedback now) false
  timestampNs := now

def publishState (ch : Fin numChannels) (motors : List MotorBinding) : SysM Unit := do
  let ts ← clockGettime
  storeChannel ch (channelState motors ts.toNs)

/-! ### The loop -/

/-- Commands, feedback, publication. -/
def cycle (t : MotorThread) (msg : TPCANMsg) : SysM MotorThread := do
  sendCommands t.motors
  let d ← drainFeedback t.channelIdx t.motors msg
  publishState t.channelIdx d.motors
  return { t with motors := d.motors }

/-- The loop of `run`, for at most `n` cycles; `buf` is what the message buffer of each cycle
holds before it is written. -/
def runLoop (buf : ℕ → TPCANMsg) : ℕ → MotorThread → Timespec → Timespec → SysM MotorThread
  | 0, _, _, _ => .cut
  | n + 1, t, next, prevWake => do
      let shutdown ← loadShutdown
      if shutdown then
        return t
      else
        let t ← cycle t (buf n)
        let now ← clockGettime
        let period := timespecDiffNs now prevWake
        let next ← sleepUntilNextPeriod next motorPeriodNs
        runLoop buf n
          { t with
            lastPeriodNs := period
            missedDeadlines :=
              if motorPeriodNs * 3 / 2 < period then t.missedDeadlines + 1 else t.missedDeadlines
            loopCount := t.loopCount + 1 }
          next now

def run (buf : ℕ → TPCANMsg) (n : ℕ) (t : MotorThread) : SysM MotorThread := do
  let next ← clockGettime
  runLoop buf n t next next

/-! ### The owner's calls -/

/-- The enabling loop of `start`; a failed write only prints a warning. -/
def enableAll : List MotorBinding → SysM Unit
  | [] => return
  | bind :: rest => do
      let _ ← bind.motor.enable
      enableAll rest

/-- `start`: `0`, or the error of `pthread_create`. -/
def start (t : MotorThread) : SysM (ℤ × MotorThread) := do
  if t.started then
    return (0, t)
  else
    enableAll t.motors
    let err ← pthreadCreate
    if err ≠ 0 then
      return (err, t)
    else
      return (0, { t with started := true })

/-- The stopping loop of `stop`: two frames for every motor. -/
def stopAll : List MotorBinding → SysM Unit
  | [] => return
  | bind :: rest => do
      let _ ← bind.motor.stop false
      let _ ← bind.motor.stop false
      stopAll rest

def stop (t : MotorThread) : SysM MotorThread := do
  if !t.started then
    return t
  else
    storeShutdown true
    pthreadJoin
    stopAll t.motors
    return { t with started := false }

/-- The destructor. -/
def destroy (t : MotorThread) : SysM MotorThread := do
  if t.started then stop t else return t

end MotorThread

end Qub
