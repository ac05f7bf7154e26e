import Mathlib.Data.List.FinRange
import QubController.Robstride

/-! # The position monitor

`apps/position_read.cpp`: the scan of the four channels, the handling of received frames, the
requests that turn a motor ON and OFF, and the loop of the terminal program.

The vector of the motors is a function on `Fin n`, whose length never changes.  A function
that may throw returns `Except.error` with the motors as the exception leaves them; the
allocations that may throw are those of the status line and of the screen.  Loops without a
bound of their own take the number `fuel` of their iterations. -/

namespace Qub

open Interaction

namespace PositionRead

/-! ### Constants and data -/

def minMotorId : ℕ := 0
def maxMotorId : ℕ := 127

/-- Milliseconds in nanoseconds. -/
def ms (n : ℤ) : ℤ := n * 1000000

def positionTimeoutMs : ℤ := 30
def controlPeriodMs : ℤ := 20
def offPollDivider : ℕ := 5
def uiRefreshDivider : ℕ := 5
def emptyQueueSleepNs : ℤ := 100000

structure Config where
  hostId : UInt8 := hostIdDefault
  scanTimeoutMs : ℤ := 8
  kp : CFloat := .rat 10
  kd : CFloat := .rat (1 / 2)

structure DeviceInfo where
  channelIdx : Fin numChannels
  motorId : UInt8
  uid : Fin 8 → UInt8

structure MotorState where
  channelIdx : Fin numChannels
  motorId : UInt8
  uid : Fin 8 → UInt8
  driver : Robstride
  enabled : Bool := false
  positionValid : Bool := false
  positionRad : CFloat := .rat 0
  velocityRadS : CFloat := .rat 0
  torqueNm : CFloat := .rat 0
  temperatureC : CFloat := .rat 0
  holdPositionRad : CFloat := .rat 0
  modeStatus : UInt8 := 0
  faultFlags : UInt8 := 0
  positionGeneration : UInt64 := 0
  lastUpdate : ℤ := 0

/-- `std::vector<MotorState>` of `n` motors. -/
abbrev Motors (n : ℕ) := Fin n → MotorState

/-- Which of the channel pointers are set. -/
abbrev Channels := Fin numChannels → Bool

/-! ### The scan -/

/-- `drain_channel` with `left = 256 - count`. -/
def drainChannel (ch : Fin numChannels) : ℕ → SysM Unit
  | 0 => return
  | left + 1 => do
      let (status, _) ← canRead ch
      if status != pcanErrorOk then return else drainChannel ch left

/-- Does the frame answer the query of `motorId`? -/
def isDeviceReply (hostId motorId : UInt8) (msg : TPCANMsg) : Bool :=
  msg.extended && msg.len == 8 && msg.commType == CommType.getId.code &&
    msg.sourceMotorId == motorId && (msg.destinationId == 0xFE || msg.destinationId == hostId)

/-- The loop of `query_device`. -/
def queryLoop (config : Config) (ch : Fin numChannels) (motorId : UInt8) (deadline : ℤ) :
    ℕ → SysM (Option DeviceInfo)
  | 0 => .cut
  | fuel + 1 => do
      let now ← steadyNow
      if now < deadline then
        let (status, frame) ← canRead ch
        if status == pcanErrorOk then
          let msg := ({} : TPCANMsg).fill frame
          if isDeviceReply config.hostId motorId msg then
            return some ⟨ch, msg.sourceMotorId, msg.data⟩
          else
            queryLoop config ch motorId deadline fuel
        else if status != pcanErrorQrcvEmpty then
          return none
        else
          sleepFor emptyQueueSleepNs
          queryLoop config ch motorId deadline fuel
      else
        return none

def queryDevice (config : Config) (fuel : ℕ) (ch : Fin numChannels) (motorId : UInt8) :
    SysM (Option DeviceInfo) := do
  drainChannel ch 256
  let status ← canWrite ch
    (extendedFrame (buildExtId CommType.getId.code config.hostId.toUInt16 motorId) zeroData)
  if status != pcanErrorOk then
    return none
  else
    let now ← steadyNow
    queryLoop config ch motorId (now + ms config.scanTimeoutMs) fuel

/-- The IDs of the scan. -/
def scannedIds : List UInt8 :=
  (List.range' minMotorId (maxMotorId + 1 - minMotorId)).map UInt8.ofNat

/-- The loop over the IDs of a channel. -/
def scanIds (config : Config) (fuel : ℕ) (ch : Fin numChannels) :
    List UInt8 → SysM (List DeviceInfo)
  | [] => return []
  | id :: rest => do
      let running ← loadRunning
      if running then
        let device ← queryDevice config fuel ch id
        let devices ← scanIds config fuel ch rest
        return device.toList ++ devices
      else
        return []

/-- The loop over the channels.  A channel that cannot be initialized is skipped. -/
def scanLoop (config : Config) (fuel : ℕ) :
    List (Fin numChannels) → Channels → List DeviceInfo → SysM (Channels × List DeviceInfo)
  | [], channels, devices => return (channels, devices)
  | ch :: rest, channels, devices => do
      let status ← canInitialize ch
      if status == pcanErrorOk then
        let found ← scanIds config fuel ch scannedIds
        scanLoop config fuel rest (Function.update channels ch true) (devices ++ found)
      else
        scanLoop config fuel rest channels devices

/-- The order of the motors on the screen. -/
def deviceLess (lhs rhs : DeviceInfo) : Bool :=
  if lhs.channelIdx != rhs.channelIdx then decide (lhs.channelIdx < rhs.channelIdx)
  else decide (lhs.motorId < rhs.motorId)

def scanChannels (config : Config) (fuel : ℕ) : SysM (Channels × List DeviceInfo) := do
  let (channels, devices) ← scanLoop config fuel (List.finRange numChannels) (fun _ => false) []
  return (channels, devices.mergeSort fun lhs rhs => !deviceLess rhs lhs)

def makeMotorStates (config : Config) (devices : List DeviceInfo) : Motors devices.length :=
  fun i =>
    let device := devices.get i
    { channelIdx := device.channelIdx
      motorId := device.motorId
      uid := device.uid
      driver := ⟨device.channelIdx, device.motorId, config.hostId, {}⟩ }

/-! ### Received frames -/

def requestMechanicalPosition (ch : Fin numChannels) (hostId motorId : UInt8) :
    SysM TPCANStatus :=
  canWrite ch (extendedFrame (buildExtId CommType.paramRead.code hostId.toUInt16 motorId)
    mechPosQuery)

/-- `parse_mechanical_position`: the motor's ID and its position. -/
def parseMechanicalPosition (msg : TPCANMsg) (hostId : UInt8) : Option (UInt8 × CFloat) :=
  if !msg.extended || msg.len != 8 then none
  else if msg.commType != CommType.paramRead.code || msg.destinationId != hostId then none
  else if littleEndian msg.data 0 1 != paramMechPos then none
  else if (paramValue msg.data).isFinite then some (msg.sourceMotorId, paramValue msg.data)
  else none

/-- The assignments for a feedback that `driver` has just parsed. -/
def MotorState.withFeedback (motor : MotorState) (driver : Robstride) (now : ℤ) : MotorState :=
  { motor with
    driver := driver
    positionValid := true
    positionRad := driver.lastFeedback.position
    velocityRadS := driver.lastFeedback.velocity
    torqueNm := driver.lastFeedback.torque
    temperatureC := driver.lastFeedback.temperature
    modeStatus := driver.lastFeedback.modeStatus
    faultFlags := driver.lastFeedback.faultFlags
    positionGeneration := motor.positionGeneration + 1
    lastUpdate := now }

/-- The assignments for a position that was read. -/
def MotorState.withPosition (motor : MotorState) (position : CFloat) (now : ℤ) : MotorState :=
  { motor with
    positionValid := true
    positionRad := position
    positionGeneration := motor.positionGeneration + 1
    lastUpdate := now }

variable {n : ℕ}

/-- The loop over the motors in the feedback branch of `process_message`: the motors if one of
them has taken the frame. -/
def takeFeedback (ch : Fin numChannels) (msg : TPCANMsg) (motors : Motors n) :
    List (Fin n) → SysM (Option (Motors n))
  | [] => return none
  | i :: rest => do
      if (motors i).channelIdx != ch then
        takeFeedback ch msg motors rest
      else
        let (parsed, driver) ← (motors i).driver.tryParseFeedback msg
        if !parsed then
          takeFeedback ch msg motors rest
        else
          let now ← steadyNow
          return some (Function.update motors i ((motors i).withFeedback driver now))

/-- The loop over the motors for a position that was read. -/
def takePosition (ch : Fin numChannels) (motorId : UInt8) (position : CFloat) (motors : Motors n) :
    List (Fin n) → SysM (Motors n)
  | [] => return motors
  | i :: rest => do
      if (motors i).channelIdx == ch && (motors i).motorId == motorId then
        let now ← steadyNow
        return Function.update motors i ((motors i).withPosition position now)
      else
        takePosition ch motorId position motors rest

/-- `process_message` after its feedback branch. -/
def processPosition (ch : Fin numChannels) (msg : TPCANMsg) (hostId : UInt8) (motors : Motors n) :
    SysM (Motors n) :=
  match parseMechanicalPosition msg hostId with
  | none => return motors
  | some (motorId, position) => takePosition ch motorId position motors (List.finRange n)

def processMessage (ch : Fin numChannels) (msg : TPCANMsg) (hostId : UInt8) (motors : Motors n) :
    SysM (Motors n) := do
  if !msg.extended then
    return motors
  else if msg.commType == CommType.feedback.code then
    match ← takeFeedback ch msg motors (List.finRange n) with
    | some motors => return motors
    | none => processPosition ch msg hostId motors
  else
    processPosition ch msg hostId motors

/-- The reads of one channel with `left = 256 - count`. -/
def processQueue (ch : Fin numChannels) (hostId : UInt8) : ℕ → Motors n → SysM (Motors n)
  | 0, motors => return motors
  | left + 1, motors => do
      let (status, frame) ← canRead ch
      if status == pcanErrorOk then
        let motors ← processMessage ch (({} : TPCANMsg).fill frame) hostId motors
        processQueue ch hostId left motors
      else
        return motors

/-- The loop over the channels of `drain_and_process`. -/
def processChannels (channels : Channels) (hostId : UInt8) :
    List (Fin numChannels) → Motors n → SysM (Motors n)
  | [], motors => return motors
  | ch :: rest, motors => do
      if channels ch then
        let motors ← processQueue ch hostId 256 motors
        processChannels channels hostId rest motors
      else
        processChannels channels hostId rest motors

def drainAndProcess (channels : Channels) (hostId : UInt8) (motors : Motors n) : SysM (Motors n) :=
  processChannels channels hostId (List.finRange numChannels) motors

/-- The loop of `refresh_position_sync`: has the target's generation changed, and the motors. -/
def refreshLoop (hostId : UInt8) (target : Fin n) (previousGeneration : UInt64) (deadline : ℤ) :
    ℕ → Motors n → SysM (Bool × Motors n)
  | 0, _ => .cut
  | fuel + 1, motors => do
      let now ← steadyNow
      if now < deadline then
        let (status, frame) ← canRead (motors target).channelIdx
        if status == pcanErrorOk then
          let motors ← processMessage (motors target).channelIdx (({} : TPCANMsg).fill frame)
            hostId motors
          if (motors target).positionGeneration != previousGeneration then
            return (true, motors)
          else
            refreshLoop hostId target previousGeneration deadline fuel motors
        else if status != pcanErrorQrcvEmpty then
          return (false, motors)
        else
          sleepFor emptyQueueSleepNs
          refreshLoop hostId target previousGeneration deadline fuel motors
      else
        return (false, motors)

def refreshPositionSync (channels : Channels) (hostId : UInt8) (timeoutMs : ℤ) (fuel : ℕ)
    (target : Fin n) (motors : Motors n) : SysM (Bool × Motors n) := do
  let motor := motors target
  if !channels motor.channelIdx then
    return (false, motors)
  else
    let status ← requestMechanicalPosition motor.channelIdx hostId motor.motorId
    if status != pcanErrorOk then
      return (false, motors)
    else
      let now ← steadyNow
      refreshLoop hostId target motor.positionGeneration (now + ms timeoutMs) fuel motors

/-- The loop of `refresh_initial_positions`. -/
def refreshInitialPositions (channels : Channels) (config : Config) (fuel : ℕ) :
    List (Fin n) → Motors n → SysM (Motors n)
  | [], motors => return motors
  | i :: rest, motors => do
      let running ← loadRunning
      if running then
        let (_, motors) ←
          refreshPositionSync channels config.hostId positionTimeoutMs fuel i motors
        refreshInitialPositions channels config fuel rest motors
      else
        return motors

/-! ### ON and OFF -/

/-- An assignment to the status line, which may throw, and the return of `result`. -/
def finish (result : Bool) (statusMessage : String) (motors : Motors n) :
    SysM (Except (Motors n) (Bool × Motors n × String)) := do
  let throws ← allocThrows
  if throws then return .error motors else return .ok (result, motors, statusMessage)

/-- The command that holds a motor. -/
def holdCommand (config : Config) (motor : MotorState) : SysM Bool :=
  motor.driver.sendMitCommand motor.holdPositionRad (.rat 0) config.kp config.kd (.rat 0)

/-- `send_mit_command(..) && enable()`. -/
def primeAndEnable (config : Config) (motor : MotorState) : SysM Bool := do
  let primed ← holdCommand config motor
  if primed then motor.driver.enable else return false

/-- `enable_selected_motor` from its STOP on. -/
def enableAt (config : Config) (i : Fin n) (motors : Motors n) :
    SysM (Except (Motors n) (Bool × Motors n × String)) := do
  let stopped ← (motors i).driver.stop false
  if !stopped then
    finish false "ON failed: STOP frame could not be sent." motors
  else
    sleepFor (ms 10)
    let moded ← (motors i).driver.setRunMode .mit
    if !moded then
      finish false "ON failed: MIT run_mode could not be set." motors
    else
      sleepFor (ms 10)
      let on ← primeAndEnable config (motors i)
      if !on then
        let _ ← (motors i).driver.stop false
        finish false "ON failed: hold or ENABLE frame could not be sent." motors
      else
        finish true "Motor enabled at its measured hold position."
          (Function.update motors i { motors i with enabled := true })

def enableSelectedMotor (channels : Channels) (config : Config) (fuel : ℕ) (i : Fin n)
    (motors : Motors n) : SysM (Except (Motors n) (Bool × Motors n × String)) := do
  let (refreshed, motors) ←
    refreshPositionSync channels config.hostId positionTimeoutMs fuel i motors
  if !refreshed then
    finish false "ON refused: current position could not be read." motors
  else if (motors i).positionRad.lt pMin || (motors i).positionRad.gt pMax then
    finish false "ON refused: measured position is outside the MIT range." motors
  else
    enableAt config i
      (Function.update motors i { motors i with holdPositionRad := (motors i).positionRad })

def disableSelectedMotor (i : Fin n) (motors : Motors n) :
    SysM (Except (Motors n) (Bool × Motors n × String)) := do
  let stopped ← (motors i).driver.stop false
  if !stopped then
    finish false "OFF failed: STOP frame could not be sent." motors
  else
    finish true "Motor stopped; position polling continues."
      (Function.update motors i { motors i with enabled := false })

/-- The loop of `stop_all`. -/
def stopLoop : List (Fin n) → Motors n → SysM (Motors n)
  | [], motors => return motors
  | i :: rest, motors => do
      if !(motors i).enabled then
        stopLoop rest motors
      else
        let _ ← (motors i).driver.stop false
        stopLoop rest (Function.update motors i { motors i with enabled := false })

def stopAll (motors : Motors n) : SysM (Motors n) := stopLoop (List.finRange n) motors

/-- The loop of `send_hold_commands`. -/
def holdLoop (config : Config) : List (Fin n) → Motors n → String →
    SysM (Except (Motors n) (Motors n × String))
  | [], motors, statusMessage => return .ok (motors, statusMessage)
  | i :: rest, motors, statusMessage => do
      if !(motors i).enabled then
        holdLoop config rest motors statusMessage
      else
        let sent ← holdCommand config (motors i)
        if !sent then
          let _ ← (motors i).driver.stop false
          let motors := Function.update motors i { motors i with enabled := false }
          let throws ← allocThrows
          if throws then
            return .error motors
          else
            holdLoop config rest motors
              ("Hold TX failed on ch" ++ toString (motors i).channelIdx ++ ", ID " ++
                toString (motors i).motorId ++ "; STOP requested.")
        else
          holdLoop config rest motors statusMessage

def sendHoldCommands (config : Config) (motors : Motors n) (statusMessage : String) :
    SysM (Except (Motors n) (Motors n × String)) :=
  holdLoop config (List.finRange n) motors statusMessage

/-! ### Polling -/

/-- The search of `poll_disabled_positions` on one channel, with the values of `checked` that
are left: the cursor after it. -/
def pollChannel [NeZero n] (hostId : UInt8) (ch : Fin numChannels) (motors : Motors n)
    (cursor : ℕ) : List ℕ → SysM ℕ
  | [] => return cursor
  | checked :: rest => do
      let index := Fin.ofNat n (cursor + checked)
      if (motors index).channelIdx != ch || (motors index).enabled then
        pollChannel hostId ch motors cursor rest
      else
        let _ ← requestMechanicalPosition ch hostId (motors index).motorId
        return (index.val + 1) % n

/-- The loop over the channels of `poll_disabled_positions`. -/
def pollChannels [NeZero n] (channels : Channels) (hostId : UInt8) (motors : Motors n) :
    List (Fin numChannels) → (Fin numChannels → ℕ) → SysM (Fin numChannels → ℕ)
  | [], cursors => return cursors
  | ch :: rest, cursors => do
      if channels ch then
        let cursor ← pollChannel hostId ch motors (cursors ch) (List.range n)
        pollChannels channels hostId motors rest (Function.update cursors ch cursor)
      else
        pollChannels channels hostId motors rest cursors

def pollDisabledPositions (channels : Channels) (hostId : UInt8) (motors : Motors n)
    (cursors : Fin numChannels → ℕ) : SysM (Fin numChannels → ℕ) :=
  if h : n = 0 then return cursors
  else
    have : NeZero n := ⟨h⟩
    pollChannels channels hostId motors (List.finRange numChannels) cursors

/-! ### The terminal program -/

inductive Key
  | none | up | down | toggle | quit
deriving DecidableEq

def escape : Char := Char.ofNat 27

/-- `read_key` on the bytes that one read of the terminal has returned. -/
def readKey : List Char → Key
  | [] => .none
  | byte :: rest =>
      if byte == 'q' || byte == 'Q' then .quit
      else if byte == ' ' then .toggle
      else if byte == 'k' || byte == 'K' || (byte == escape && ['[', 'A'].isPrefixOf rest) then .up
      else if byte == 'j' || byte == 'J' || (byte == escape && ['[', 'B'].isPrefixOf rest) then
        .down
      else .none

/-- The variables of `main` that the loop changes. -/
structure Gui (n : ℕ) where
  motors : Motors n
  statusMessage : String
  selected : ℕ := 0
  pollCursors : Fin numChannels → ℕ := fun _ => 0

def toggleMotor (channels : Channels) (config : Config) (fuel : ℕ) (i : Fin n)
    (motors : Motors n) : SysM (Except (Motors n) (Bool × Motors n × String)) :=
  if (motors i).enabled then disableSelectedMotor i motors
  else enableSelectedMotor channels config fuel i motors

/-- What a key does; `selected` is an index unless there are no motors. -/
def handleKey (channels : Channels) (config : Config) (fuel : ℕ) (key : Key) (g : Gui n) :
    SysM (Except (Motors n) (Gui n)) :=
  if h : g.selected < n then
    let i : Fin n := ⟨g.selected, h⟩
    match key with
    | .up => return .ok { g with selected := (g.selected + n - 1) % n }
    | .down => return .ok { g with selected := (g.selected + 1) % n }
    | .toggle => do
        match ← toggleMotor channels config fuel i g.motors with
        | .error motors => return .error motors
        | .ok (_, motors, statusMessage) => return .ok { g with motors, statusMessage }
    | _ => return .ok g
  else return .ok g

/-- `render`, which may throw: has it returned? -/
def renderGui : SysM Bool := do
  let throws ← allocThrows
  if throws then
    return false
  else
    render
    return true

def pollWhenDue (channels : Channels) (config : Config) (tick : ℕ) (motors : Motors n)
    (cursors : Fin numChannels → ℕ) : SysM (Fin numChannels → ℕ) :=
  if tick % offPollDivider == 0 then pollDisabledPositions channels config.hostId motors cursors
  else return cursors

def renderWhenDue (tick : ℕ) (key : Key) : SysM Bool :=
  if tick % uiRefreshDivider == 0 || key != .none then renderGui else return true

/-- The body of the loop from the hold commands on. -/
def serviceMotors (channels : Channels) (config : Config) (tick : ℕ) (key : Key) (g : Gui n) :
    SysM (Except (Motors n) (Gui n)) := do
  match ← sendHoldCommands config g.motors g.statusMessage with
  | .error motors => return .error motors
  | .ok (motors, statusMessage) =>
      let pollCursors ← pollWhenDue channels config tick motors g.pollCursors
      let motors ← drainAndProcess channels config.hostId motors
      let rendered ← renderWhenDue tick key
      if !rendered then
        return .error motors
      else
        return .ok { g with motors, statusMessage, pollCursors }

/-- `while (g_running)`; `running` is `false` once this loop has cleared the flag itself. -/
def guiLoop (channels : Channels) (config : Config) (fuel : ℕ) :
    ℕ → ℕ → ℤ → Bool → Gui n → SysM (Except (Motors n) (Motors n))
  | 0, _, _, _, _ => .cut
  | left + 1, tick, nextTick, running, g => do
      let flag ← loadRunning
      if !(running && flag) then
        return .ok g.motors
      else
        let nextTick := nextTick + ms controlPeriodMs
        let bytes ← readStdin
        let key := readKey bytes
        match ← handleKey channels config fuel key g with
        | .error motors => return .error motors
        | .ok g =>
            match ← serviceMotors channels config tick key g with
            | .error motors => return .error motors
            | .ok g =>
                let now ← steadyNow
                if now < nextTick then
                  sleepFor (nextTick - now)
                  guiLoop channels config fuel left (tick + 1) nextTick (key != .quit) g
                else
                  guiLoop channels config fuel left (tick + 1) now (key != .quit) g

/-- The inner `try` block: the motors when it is left, by the end of the loop or by an exception.
The constructor of `TerminalGui` throws without a terminal. -/
def guiSession (channels : Channels) (config : Config) (fuel : ℕ) (motors : Motors n) :
    SysM (Except (Motors n) (Motors n)) := do
  let statusMessage :=
    if n = 0 then "Scan completed: no motors found."
    else "Scan completed: select a motor and press Space."
  let terminal ← isatty
  if !terminal then
    return .error motors
  else
    let rendered ← renderGui
    if !rendered then
      return .error motors
    else
      let nextTick ← steadyNow
      guiLoop channels config fuel fuel 0 nextTick true { motors, statusMessage }

/-- The inner `try` block with its handler and the `stop_all` after it: the exit code. -/
def runGui (channels : Channels) (config : Config) (fuel : ℕ) (motors : Motors n) : SysM ℤ := do
  match ← guiSession channels config fuel motors with
  | .error motors =>
      let _ ← stopAll motors
      return 1
  | .ok motors =>
      let _ ← stopAll motors
      return 0

/-- `main` with parsed arguments. -/
def main (config : Config) (fuel : ℕ) : SysM ℤ := do
  let terminal ← isatty
  if !terminal then
    return 1
  else
    let (channels, devices) ← scanChannels config fuel
    let motors ← refreshInitialPositions channels config fuel (List.finRange devices.length)
      (makeMotorStates config devices)
    runGui channels config fuel motors

end PositionRead

end Qub
