import QubController.Robstride

/-! # The connection test

`apps/test_connection.cpp`: the probe of one motor and the scan of a channel's IDs.  The loops
that read the channel take a bound on the number of their iterations; what the program prints
of a result is left out, and `scanChannelIds` returns the hits instead. -/

namespace Qub

open Interaction

namespace TestConnection

/-- `PROBE_HOST_ID`. -/
def probeHostId : UInt8 := hostIdDefault

/-- `PROBE_TIMEOUT_MS`, in nanoseconds. -/
def probeTimeoutNs : ℤ := 20 * 1000000

/-- `GET_ID_SCAN_TIMEOUT_MS`, in nanoseconds. -/
def getIdScanTimeoutNs : ℤ := 5 * 1000000

/-- The pause between two looks at the queue, 500 microseconds. -/
def pollPauseNs : ℤ := 500 * 1000

/-- The attempts of a probe, up to `PROBE_RETRIES`. -/
def probeAttempts : List ℤ := [1, 2]

/-- `PROBE_PARAMS`. -/
def probeParams : List UInt16 := [paramCanId, paramRunMode, paramMechPos]

/-- The IDs of a scan, from `SCAN_ID_MIN` to `SCAN_ID_MAX`. -/
def scanIds : List UInt8 := [0, 1, 2, 3, 4, 5, 6, 7, 8, 9, 10, 11, 12, 13, 14, 15]

structure ProbeResult where
  channelReady : Bool := false
  txOk : Bool := false
  responded : Bool := false
  attempt : ℤ := 0
  stage : String := "none"
  lastStatus : TPCANStatus := pcanErrorOk
  responseMsg : TPCANMsg := {}
  currentIdValid : Bool := false
  currentId : UInt8 := 0
  queriedIdMismatch : Bool := false
deriving DecidableEq

structure GetIdHit where
  requestedId : UInt8 := 0
  reportedId : UInt8 := 0
  extraData : UInt16 := 0
  checkByte : UInt8 := 0
  responseMsg : TPCANMsg := {}
deriving DecidableEq

/-! ### Requests and replies -/

/-- `send_get_id`. -/
def sendGetId (ch : Fin numChannels) (motorId : UInt8) : SysM TPCANStatus :=
  canWrite ch (extendedFrame (buildExtId CommType.getId.code probeHostId.toUInt16 motorId) zeroData)

/-- `send_param_read`. -/
def sendParamRead (ch : Fin numChannels) (motorId : UInt8) (index : UInt16) : SysM TPCANStatus :=
  canWrite ch (extendedFrame (buildExtId CommType.paramRead.code probeHostId.toUInt16 motorId)
    ![(index &&& 0xFF).toUInt8, (index >>> 8).toUInt8, 0, 0, 0, 0, 0, 0])

/-- `is_reply_for_motor`; the communication type is not looked at. -/
def isReplyForMotor (motorId : UInt8) (msg : TPCANMsg) : Bool :=
  if !msg.extended then false
  else msg.destinationId == probeHostId && msg.sourceMotorId == motorId

/-- `is_get_id_reply`. -/
def isGetIdReply (msg : TPCANMsg) : Bool :=
  if !msg.extended then false else msg.commType == CommType.getId.code

/-- A frame from the motor to the host. -/
structure IsReplyFrom (motorId : UInt8) (msg : TPCANMsg) : Prop where
  extended : msg.extended = true
  destination : msg.destinationId = 0xFD
  source : msg.sourceMotorId = motorId

theorem isReplyForMotor_iff {motorId : UInt8} {msg : TPCANMsg} :
    isReplyForMotor motorId msg = true ↔ IsReplyFrom motorId msg := by
  unfold isReplyForMotor
  constructor
  · intro h
    cases hext : msg.extended with
    | false => simp [hext] at h
    | true =>
        simp only [hext, Bool.not_true, Bool.false_eq_true, if_false, Bool.and_eq_true,
          beq_iff_eq] at h
        exact ⟨hext, h.1, h.2⟩
  · rintro ⟨hext, hdest, hsource⟩
    simp [hext, hdest, hsource, probeHostId, hostIdDefault]

theorem isGetIdReply_iff {msg : TPCANMsg} : isGetIdReply msg = true ↔
    msg.extended = true ∧ msg.commType = CommType.getId.code := by
  unfold isGetIdReply
  cases msg.extended <;> simp

/-- The ID that a parameter reply reports: the guards of
`capture_current_id_from_param_response` and the value that passes them. -/
def reportedCanId (msg : TPCANMsg) : Option CFloat :=
  if !msg.extended || msg.len < 8 then none
  else if msg.commType != CommType.paramRead.code then none
  else if littleEndian msg.data 0 1 != paramCanId then none
  else
    let canId := paramValue msg.data
    if canId.lt (.rat 0) || canId.gt (.rat 255) then none else some canId

/-- The operand of the conversion of a reported ID to `uint8_t`. -/
def canIdOperand (canId : CFloat) : CFloat := canId + .rat (1 / 2)

/-- `capture_current_id_from_param_response`. -/
def captureCurrentId (msg : TPCANMsg) (result : ProbeResult) : ProbeResult :=
  match reportedCanId msg with
  | none => result
  | some canId =>
      { result with currentIdValid := true, currentId := (canIdOperand canId).toUInt8 }

/-! ### Reading the channel -/

section channel
variable (ch : Fin numChannels)

/-- `drain_rx_queue`. -/
def drainRxQueue : ℕ → SysM Unit
  | 0 => .cut
  | n + 1 => do
      let (sts, _) ← canRead ch
      if sts == pcanErrorOk then drainRxQueue n else return

/-- The inner loop of the two waits: the first frame that `isReply` accepts, or the status with
which the reading stopped. -/
def readReply (isReply : TPCANMsg → Bool) :
    ℕ → TPCANMsg → SysM (Except TPCANStatus TPCANMsg)
  | 0, _ => .cut
  | n + 1, buf => do
      let (sts, frame) ← canRead ch
      if sts == pcanErrorOk then
        let msg := buf.fill frame
        if isReply msg then return .ok msg else readReply isReply n msg
      else
        return .error sts

/-- The outer loop of the two waits.  `onReply` and `onStatus` are what a wait does to its
result; the flag says whether there was a reply. -/
def waitLoop {α : Type} (isReply : TPCANMsg → Bool) (onReply : TPCANMsg → α → α)
    (onStatus : TPCANStatus → α → α) (n : ℕ) (deadline : ℤ) : ℕ → α → SysM (Bool × α)
  | 0, _ => .cut
  | left + 1, result => do
      let now ← steadyNow
      if now < deadline then
        match ← readReply ch isReply n {} with
        | .ok msg => return (true, onReply msg result)
        | .error sts =>
            sleepFor pollPauseNs
            waitLoop isReply onReply onStatus n deadline left (onStatus sts result)
      else
        return (false, result)

def onReplyForMotor (msg : TPCANMsg) (result : ProbeResult) : ProbeResult :=
  captureCurrentId msg
    { result with responded := true, responseMsg := msg, lastStatus := pcanErrorOk }

def onProbeStatus (sts : TPCANStatus) (result : ProbeResult) : ProbeResult :=
  if sts != pcanErrorQrcvEmpty then { result with lastStatus := sts } else result

/-- `wait_for_reply`. -/
def waitForReply (n : ℕ) (motorId : UInt8) (timeoutNs : ℤ) (result : ProbeResult) :
    SysM (Bool × ProbeResult) := do
  let now ← steadyNow
  waitLoop ch (isReplyForMotor motorId) onReplyForMotor onProbeStatus n (now + timeoutNs) n result

def onGetIdReply (msg : TPCANMsg) (hit : GetIdHit) : GetIdHit :=
  { hit with
    responseMsg := msg
    extraData := msg.dataField
    reportedId := msg.sourceMotorId
    checkByte := msg.destinationId }

/-- `wait_for_get_id_reply`. -/
def waitForGetIdReply (n : ℕ) (timeoutNs : ℤ) (hit : GetIdHit) : SysM (Bool × GetIdHit) := do
  let now ← steadyNow
  waitLoop ch isGetIdReply onGetIdReply (fun _ hit => hit) n (now + timeoutNs) n hit

/-! ### Probe and scan -/

/-- The text that `probe_motor` stores for a parameter. -/
def paramStage (index : UInt16) : String :=
  if index = paramCanId then "PARAM_READ(can_id)"
  else if index = paramRunMode then "PARAM_READ(run_mode)"
  else "PARAM_READ(mech_pos)"

/-- The loop over `PROBE_PARAMS`; the flag says whether `probe_motor` returns there. -/
def probeParamLoop (n : ℕ) (motorId : UInt8) :
    List UInt16 → ProbeResult → SysM (Bool × ProbeResult)
  | [], result => return (false, result)
  | index :: rest, result => do
      let sts ← sendParamRead ch motorId index
      let result :=
        { result with lastStatus := sts, txOk := sts == pcanErrorOk, stage := paramStage index }
      if !result.txOk then
        return (false, result)
      else
        let (replied, result) ← waitForReply ch n motorId probeTimeoutNs result
        if replied then
          return (true, if result.currentIdValid then
              { result with queriedIdMismatch := result.currentId != motorId }
            else result)
        else
          probeParamLoop n motorId rest result

/-- The attempts of `probe_motor`. -/
def probeLoop (n : ℕ) (motorId : UInt8) : List ℤ → ProbeResult → SysM ProbeResult
  | [], result => return result
  | attempt :: rest, result => do
      drainRxQueue ch n
      let sts ← sendGetId ch motorId
      let result :=
        { result with attempt, lastStatus := sts, txOk := sts == pcanErrorOk, stage := "GET_ID" }
      if !result.txOk then
        probeLoop n motorId rest result
      else
        let (replied, result) ← waitForReply ch n motorId probeTimeoutNs result
        if replied then
          return result
        else
          let (replied, result) ← probeParamLoop ch n motorId probeParams result
          if replied then return result else probeLoop n motorId rest result

def probeMotor (n : ℕ) (motorId : UInt8) : SysM ProbeResult :=
  probeLoop ch n motorId probeAttempts { channelReady := true }

/-- The loop of `scan_channel_ids`, with the hits so far. -/
def scanLoop (n : ℕ) : List UInt8 → List GetIdHit → SysM (List GetIdHit)
  | [], hits => return hits
  | requestedId :: rest, hits => do
      drainRxQueue ch n
      let sts ← sendGetId ch requestedId
      if sts != pcanErrorOk then
        scanLoop n rest hits
      else
        let (replied, hit) ← waitForGetIdReply ch n getIdScanTimeoutNs { requestedId }
        scanLoop n rest (if replied then hits ++ [hit] else hits)

def scanChannelIds (n : ℕ) : SysM (List GetIdHit) := scanLoop ch n scanIds []

end channel

end TestConnection

end Qub
