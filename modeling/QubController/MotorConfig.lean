import QubController.Robstride

/-! # The maintenance tool

`apps/motor_config.cpp`: the channel as the tool uses it (`send`, `receive`, `drain`,
`wait_for`), the queries and requests to one motor, and the commands `scan`, `get`, `set-id` and
`set-zero`.  The last two return their exit points, whose `exitCode` is what the program
returns; the lines that a command prints are left out, except those of a dry run.

The loops that wait take a bound `n` on the number of their iterations.  `Receives` collects
what a world must guarantee for the receiving functions, and `receive_sat`, `drain_sat` and
`waitFor_sat` are their rules. -/

namespace Qub

open Interaction

namespace MotorConfig

/-! ### The channel -/

/-- `EMPTY_QUEUE_SLEEP`. -/
def emptyQueueSleepNs : ℤ := 100000

def nsPerMs : ℤ := 1000000

structure Config where
  hostId : UInt8 := hostIdDefault
  timeoutMs : ℤ := 20
  retries : ℕ := 2
  assumeYes : Bool := false
  dryRun : Bool := false

structure DeviceInfo where
  motorId : UInt8
  uid : Fin 8 → UInt8
deriving DecidableEq

structure CanBus where
  config : Config
  channelIdx : Fin numChannels

namespace CanBus

/-- The constructor, which throws (`none`) when the channel cannot be initialized. -/
def init (config : Config) (channelIdx : Fin numChannels) : SysM (Option CanBus) := do
  if config.dryRun then
    return some ⟨config, channelIdx⟩
  else
    let status ← canInitialize channelIdx
    return if status == pcanErrorOk then some ⟨config, channelIdx⟩ else none

variable (bus : CanBus)

/-- `send`: was the frame written?  A dry run prints it instead. -/
def send (rawId : UInt32) (data : Fin 8 → UInt8) : SysM Bool := do
  if bus.config.dryRun then
    printDryRun bus.channelIdx rawId data
    return true
  else
    let status ← canWrite bus.channelIdx (extendedFrame rawId data)
    return status == pcanErrorOk

/-- The body of the loop of `receive`: what it returns, or `none` if it goes on to the loop's
condition. -/
def receiveOnce (timeoutMs : ℤ) : SysM (Option (Option TPCANMsg)) := do
  let (status, frame) ← canRead bus.channelIdx
  if status == pcanErrorOk then
    let candidate := ({} : TPCANMsg).fill frame
    if candidate.extended then
      return some (some candidate)
    else
      return none
  else if status != pcanErrorQrcvEmpty then
    return some none
  else if timeoutMs ≤ 0 then
    return some none
  else
    sleepFor emptyQueueSleepNs
    return none

/-- The loop of `receive`. -/
def receiveLoop (timeoutMs deadline : ℤ) : ℕ → SysM (Option TPCANMsg)
  | 0 => .cut
  | n + 1 => do
      match ← bus.receiveOnce timeoutMs with
      | some received => return received
      | none =>
          let now ← steadyNow
          if now < deadline then receiveLoop timeoutMs deadline n else return none

def receive (n : ℕ) (timeoutMs : ℤ) : SysM (Option TPCANMsg) := do
  if bus.config.dryRun then
    return none
  else
    let now ← steadyNow
    bus.receiveLoop timeoutMs (now + max 0 timeoutMs * nsPerMs) n

/-- The loop of `drain`, with at most `left` frames to go. -/
def drainLoop (n : ℕ) : ℕ → SysM Unit
  | 0 => return
  | left + 1 => do
      let received ← bus.receive n 0
      if received.isSome then drainLoop n left else return

def drain (n : ℕ) : SysM Unit := bus.drainLoop n 256

/-- The loop of `wait_for`. -/
def waitLoop (n : ℕ) (deadline : ℤ) (predicate : TPCANMsg → Bool) : ℕ → SysM (Option TPCANMsg)
  | 0 => .cut
  | left + 1 => do
      let now ← steadyNow
      if now < deadline then
        let now ← steadyNow
        let remaining := (deadline - now).tdiv nsPerMs
        match ← bus.receive n (max 1 remaining) with
        | none => waitLoop n deadline predicate left
        | some msg =>
            if predicate msg then return some msg else waitLoop n deadline predicate left
      else
        return none

/-- `wait_for`. -/
def waitFor (n : ℕ) (timeoutMs : ℤ) (predicate : TPCANMsg → Bool) : SysM (Option TPCANMsg) := do
  let now ← steadyNow
  bus.waitLoop n (now + timeoutMs * nsPerMs) predicate n

/-! ### Requests to one motor -/

/-- The identifier of a request whose data field is the host ID. -/
def hostExtId (t : CommType) (motorId : UInt8) : UInt32 :=
  buildExtId t.code bus.config.hostId.toUInt16 motorId

/-- The identifier of `SET_CAN_ID`: the new ID stands above the host ID. -/
def setIdExtId (oldId newId : UInt8) : UInt32 :=
  buildExtId CommType.setCanId.code ((newId.toUInt16 <<< 8) ||| bus.config.hostId.toUInt16) oldId

/-- Does the frame answer `GET_ID` for `motorId`?  The destination may be `0xFE` or the host. -/
def isIdReply (motorId : UInt8) (msg : TPCANMsg) : Bool :=
  msg.commType == CommType.getId.code && msg.sourceMotorId == motorId &&
    (msg.destinationId == 0xFE || msg.destinationId == bus.config.hostId)

/-- The attempts of `get_device`. -/
def getDeviceLoop (n : ℕ) (motorId : UInt8) : ℕ → SysM (Option DeviceInfo)
  | 0 => return none
  | attempts + 1 => do
      bus.drain n
      let sent ← bus.send (bus.hostExtId .getId motorId) zeroData
      if !sent then
        return none
      else if bus.config.dryRun then
        return some ⟨motorId, zeroData⟩
      else
        match ← bus.waitFor n bus.config.timeoutMs (bus.isIdReply motorId) with
        | some reply => return some ⟨reply.sourceMotorId, reply.data⟩
        | none => getDeviceLoop n motorId attempts

def getDevice (n : ℕ) (motorId : UInt8) : SysM (Option DeviceInfo) :=
  bus.getDeviceLoop n motorId bus.config.retries

def sendStop (n : ℕ) (motorId : UInt8) : SysM Bool := do
  bus.drain n
  bus.send (bus.hostExtId .stop motorId) zeroData

def sendSetId (n : ℕ) (oldId newId : UInt8) : SysM Bool := do
  bus.drain n
  bus.send (bus.setIdExtId oldId newId) zeroData

def sendSetZero (n : ℕ) (motorId : UInt8) : SysM Bool := do
  bus.drain n
  bus.send (bus.hostExtId .setZero motorId) (Function.update zeroData 0 1)

def isMechPosReply (motorId : UInt8) (msg : TPCANMsg) : Bool :=
  msg.commType == CommType.paramRead.code && msg.sourceMotorId == motorId &&
    msg.destinationId == bus.config.hostId && msg.len == 8 &&
    msg.data 0 == mechPosQuery 0 && msg.data 1 == mechPosQuery 1

def readMechanicalPosition (n : ℕ) (motorId : UInt8) : SysM (Option CFloat) := do
  bus.drain n
  let sent ← bus.send (bus.hostExtId .paramRead motorId) mechPosQuery
  if !sent then
    return none
  else if bus.config.dryRun then
    return some (.rat 0)
  else
    let reply ← bus.waitFor n (bus.config.timeoutMs * 3) (bus.isMechPosReply motorId)
    return reply.map fun msg => paramValue msg.data

/-- `confirm_destructive`. -/
def confirmDestructive : SysM Bool := do
  if bus.config.assumeYes || bus.config.dryRun then
    return true
  else
    let tty ← isatty
    if !tty then
      return false
    else
      let answer ← getline
      return answer == "y" || answer == "Y" || answer == "yes" || answer == "YES"

end CanBus

/-! ### set-id -/

/-- Where `command_set_id` ends. -/
inductive SetIdExit
  /-- `OLD_ID and NEW_ID are identical`, thrown. -/
  | identicalIds
  | oldSilent
  | newInUse
  | cancelled
  | writeFailed
  | dryRun
  | unverified
  | otherUid
  /-- The ID was changed and verified, for the device that was reported as the target. -/
  | changed (target : DeviceInfo)

def SetIdExit.exitCode : SetIdExit → ℤ
  | identicalIds => 2
  | dryRun | changed _ => 0
  | _ => 1

namespace CanBus

variable (bus : CanBus)

/-- From the confirmation on; `oldDevice` is the device with the old ID, if it was asked. -/
def changeId (n : ℕ) (oldId newId : UInt8) (oldDevice : Option DeviceInfo) : SysM SetIdExit := do
  let confirmed ← bus.confirmDestructive
  if !confirmed then
    return .cancelled
  else
    let stopped ← bus.sendStop n oldId
    if !stopped then
      return .writeFailed
    else
      let sent ← bus.sendSetId n oldId newId
      if !sent then
        return .writeFailed
      else if bus.config.dryRun then
        return .dryRun
      else
        sleepFor 30000000
        match ← bus.getDevice n newId, oldDevice with
        | none, _ => return .unverified
        | some changed, some target =>
            if changed.uid ≠ target.uid then return .otherUid else return .changed target
        | some changed, none => return .changed changed

/-- `command_set_id` for IDs that have been parsed. -/
def commandSetId (n : ℕ) (oldId newId : UInt8) : SysM SetIdExit := do
  if oldId = newId then
    return .identicalIds
  else if bus.config.dryRun then
    bus.changeId n oldId newId none
  else
    match ← bus.getDevice n oldId with
    | none => return .oldSilent
    | some target =>
        match ← bus.getDevice n newId with
        | some _ => return .newInUse
        | none => bus.changeId n oldId newId (some target)

end CanBus

/-- The part of `main` that runs `set-id`, with its exit code. -/
def mainSetId (config : Config) (channelIdx : Fin numChannels) (n : ℕ) (oldId newId : UInt8) :
    SysM ℤ := do
  match ← CanBus.init config channelIdx with
  | none => return 2
  | some bus =>
      let x ← bus.commandSetId n oldId newId
      return x.exitCode

/-! ### set-zero -/

/-- Where `command_set_zero` ends. -/
inductive SetZeroExit
  | silent
  | cancelled
  | writeFailed
  | dryRun
  | noAcknowledgement
  | badReadBack (position : CFloat)
  | verified (position : CFloat)
  /-- Acknowledged, but the read-back was unavailable. -/
  | acknowledged

def SetZeroExit.exitCode : SetZeroExit → ℤ
  | dryRun | verified _ | acknowledged => 0
  | _ => 1

namespace CanBus

variable (bus : CanBus)

/-- The read-back, in at most `attempts` attempts. -/
def readBack (n : ℕ) (motorId : UInt8) : ℕ → SysM (Option CFloat)
  | 0 => return none
  | attempts + 1 => do
      sleepFor 30000000
      match ← bus.readMechanicalPosition n motorId with
      | some position => return some position
      | none => readBack n motorId attempts

/-- The acknowledgement that `command_set_zero` waits for. -/
def isZeroAck (motorId : UInt8) (msg : TPCANMsg) : Bool :=
  msg.commType == CommType.feedback.code && msg.sourceMotorId == motorId &&
    msg.destinationId == bus.config.hostId

/-- From the frame SET_ZERO on. -/
def setZero (n : ℕ) (motorId : UInt8) : SysM SetZeroExit := do
  let sent ← bus.sendSetZero n motorId
  if !sent then
    return .writeFailed
  else if bus.config.dryRun then
    return .dryRun
  else
    match ← bus.waitFor n (bus.config.timeoutMs * 3) (bus.isZeroAck motorId) with
    | none => return .noAcknowledgement
    | some _ =>
        match ← bus.readBack n motorId 3 with
        | none => return .acknowledged
        | some position =>
            if position.abs.gt (.rat (1 / 10)) then
              return .badReadBack position
            else
              return .verified position

/-- From the confirmation on. -/
def stopAndSetZero (n : ℕ) (motorId : UInt8) : SysM SetZeroExit := do
  let confirmed ← bus.confirmDestructive
  if !confirmed then
    return .cancelled
  else
    let stopped ← bus.sendStop n motorId
    if !stopped then
      return .writeFailed
    else
      sleepFor 20000000
      bus.setZero n motorId

/-- `command_set_zero` for an ID that has been parsed. -/
def commandSetZero (n : ℕ) (motorId : UInt8) : SysM SetZeroExit := do
  if bus.config.dryRun then
    bus.stopAndSetZero n motorId
  else
    match ← bus.getDevice n motorId with
    | none => return .silent
    | some _ =>
        let _ ← bus.readMechanicalPosition n motorId
        bus.stopAndSetZero n motorId

end CanBus

/-! ### scan and get -/

/-- The loop of `command_scan` over the IDs of one channel: how many devices answered. -/
def CanBus.scanIds (bus : CanBus) (n : ℕ) : List UInt8 → SysM ℕ
  | [] => return 0
  | motorId :: rest => do
      let device ← bus.getDevice n motorId
      let found ← bus.scanIds n rest
      return if device.isSome then found + 1 else found

/-- The IDs from `minimum` to `maximum`. -/
def idsBetween (minimum maximum : ℕ) : List UInt8 :=
  (List.range' minimum (maximum + 1 - minimum)).map UInt8.ofNat

/-- The loop of `command_scan` over the channels.  A channel that cannot be initialized is
skipped, and a dry run makes one representative query. -/
def scanChannels (config : Config) (n minimum maximum : ℕ) : List (Fin numChannels) → SysM ℕ
  | [] => return 0
  | channelIdx :: rest => do
      match ← CanBus.init config channelIdx with
      | none => scanChannels config n minimum maximum rest
      | some bus =>
          if config.dryRun then
            let _ ← bus.getDevice n (UInt8.ofNat minimum)
            scanChannels config n minimum maximum rest
          else
            let found ← bus.scanIds n (idsBetween minimum maximum)
            let total ← scanChannels config n minimum maximum rest
            return found + total

/-- `command_scan` for arguments that have been parsed, on one channel or on all. -/
def commandScan (config : Config) (channelIdx : Option (Fin numChannels)) (n minimum maximum : ℕ) :
    SysM ℤ := do
  if maximum < minimum then
    return 2
  else
    let channels := channelIdx.elim (List.finRange numChannels) fun c => [c]
    let total ← scanChannels config n minimum maximum channels
    if config.dryRun then return 0 else return if total = 0 then 1 else 0

/-- `command_get` for an ID that has been parsed. -/
def CanBus.commandGet (bus : CanBus) (n : ℕ) (motorId : UInt8) : SysM ℤ := do
  let device ← bus.getDevice n motorId
  return if device.isSome then 0 else 1

/-! ### The program -/

/-- A command with the arguments that have been parsed. -/
inductive Command
  | scan (channelIdx : Option (Fin numChannels)) (minimum maximum : ℕ)
  | get (channelIdx : Fin numChannels) (motorId : UInt8)
  | setId (channelIdx : Fin numChannels) (oldId newId : UInt8)
  | setZero (channelIdx : Fin numChannels) (motorId : UInt8)

/-- The part of `main` behind the arguments, with the exit code. -/
def runCommand (config : Config) (n : ℕ) : Command → SysM ℤ
  | .scan channelIdx minimum maximum => commandScan config channelIdx n minimum maximum
  | .get channelIdx motorId => do
      match ← CanBus.init config channelIdx with
      | none => return 2
      | some bus => bus.commandGet n motorId
  | .setId channelIdx oldId newId => mainSetId config channelIdx n oldId newId
  | .setZero channelIdx motorId => do
      match ← CanBus.init config channelIdx with
      | none => return 2
      | some bus =>
          let x ← bus.commandSetZero n motorId
          return x.exitCode

/-! ### Frames -/

namespace CanBus

variable (bus : CanBus)

def getIdFrame (motorId : UInt8) : TPCANMsg := extendedFrame (bus.hostExtId .getId motorId) zeroData
def stopFrame (motorId : UInt8) : TPCANMsg := extendedFrame (bus.hostExtId .stop motorId) zeroData
def setIdFrame (oldId newId : UInt8) : TPCANMsg :=
  extendedFrame (bus.setIdExtId oldId newId) zeroData
def setZeroFrame (motorId : UInt8) : TPCANMsg :=
  extendedFrame (bus.hostExtId .setZero motorId) (Function.update zeroData 0 1)
def mechPosFrame (motorId : UInt8) : TPCANMsg :=
  extendedFrame (bus.hostExtId .paramRead motorId) mechPosQuery

end CanBus

/-- The reply to `GET_ID` of a motor. -/
def idReply (motorId : UInt8) (uid : Fin 8 → UInt8) : TPCANMsg :=
  extendedFrame (buildExtId CommType.getId.code motorId.toUInt16 0xFE) uid

section frames
variable (bus : CanBus) (motorId : UInt8)

@[simp] theorem commType_hostExtId (t : CommType) (data : Fin 8 → UInt8) :
    (extendedFrame (bus.hostExtId t motorId) data).commType = t.code := by
  rw [CanBus.hostExtId, commType_buildExtId, CommType.code_and]

@[simp] theorem destinationId_hostExtId (t : CommType) (data : Fin 8 → UInt8) :
    (extendedFrame (bus.hostExtId t motorId) data).destinationId = motorId :=
  destinationId_buildExtId _ _ _ _

theorem fill_idReply (buf : TPCANMsg) (uid : Fin 8 → UInt8) :
    buf.fill (idReply motorId uid) = idReply motorId uid := fill_extendedFrame _ _ _

theorem idReply_source (uid : Fin 8 → UInt8) : (idReply motorId uid).sourceMotorId = motorId := by
  unfold idReply
  rw [sourceMotorId_buildExtId]
  exact UInt8.toUInt8_toUInt16 motorId

theorem isIdReply_idReply (uid : Fin 8 → UInt8) :
    bus.isIdReply motorId (idReply motorId uid) = true := by
  unfold CanBus.isIdReply
  rw [idReply_source]
  unfold idReply
  rw [commType_buildExtId, destinationId_buildExtId, CommType.code_and]
  simp

end frames

/-! ### What the receiving functions do -/

/-- What one read on channel `ch` does in the states `J`: an extended frame `msg` leads to
`K msg`, and any other result to `N`. -/
structure Reads {σ : Type} (W : World Sys σ) (Inv : σ → Prop) (ch : Fin numChannels)
    (J N : σ → Prop) (K : TPCANMsg → σ → Prop) : Prop where
  frame : ∀ s frame s', J s → W s (.canRead ch) (pcanErrorOk, frame) s' →
    frame.extended = true → Inv s' ∧ K (({} : TPCANMsg).fill frame) s'
  other : ∀ s status frame s', J s → W s (.canRead ch) (status, frame) s' →
    (status = pcanErrorOk → frame.extended = false) → Inv s' ∧ N s'

/-- What a world guarantees while the program receives: reads that bring no extended frame,
the clock and a pause keep `J`. -/
structure Receives {σ : Type} (W : World Sys σ) (Inv : σ → Prop) (ch : Fin numChannels)
    (J : σ → Prop) (K : TPCANMsg → σ → Prop) : Prop extends Reads W Inv ch J J K where
  clock : ∀ s now s', J s → W s .steadyNow now s' → Inv s' ∧ J s'
  sleep : ∀ s s', J s → W s (.sleepFor emptyQueueSleepNs) () s' → Inv s' ∧ J s'

namespace CanBus

section rules
variable {bus : CanBus} {σ : Type} {W : World Sys σ} {Inv : σ → Prop} {J N : σ → Prop}
  {K : TPCANMsg → σ → Prop} {s : σ}

theorem receiveOnce_sat (hF : Reads W Inv bus.channelIdx J N K)
    (hsleep : ∀ s s', N s → W s (.sleepFor emptyQueueSleepNs) () s' → Inv s' ∧ N s')
    (timeoutMs : ℤ) (hs : J s) :
    Sat W Inv (bus.receiveOnce timeoutMs) (fun r s' => r.join.elim (N s') (K · s')) s := by
  rw [receiveOnce, canRead_bind, sat_call]
  rintro ⟨status, frame⟩ s' hread
  by_cases hok : status = pcanErrorOk
  · subst hok
    simp only [beq_self_eq_true, if_true]
    by_cases hext : (({} : TPCANMsg).fill frame).extended = true
    · rw [if_pos hext]
      exact hF.frame s frame s' hs hread hext
    · rw [if_neg hext]
      exact hF.other s _ frame s' hs hread fun _ => Bool.eq_false_iff.mpr hext
  · obtain ⟨hinv, hN⟩ := hF.other s _ frame s' hs hread fun h => absurd h hok
    refine ⟨hinv, ?_⟩
    simp only [beq_iff_eq, hok, if_false]
    split
    · exact hN
    · split
      · exact hN
      · exact fun _ s₂ hpause => hsleep s' s₂ hN hpause

/-- The loop that `receive` may go on with after its first read. -/
theorem receiveLoop_sat (hR : Receives W Inv bus.channelIdx N K) (timeoutMs deadline : ℤ) :
    ∀ (n : ℕ) (J : σ → Prop), Reads W Inv bus.channelIdx J N K → ∀ s, J s →
      Sat W Inv (bus.receiveLoop timeoutMs deadline n) (fun r s' => r.elim (N s') (K · s')) s
  | 0, _, _, _, _ => trivial
  | n + 1, J, hF, s, hs => by
      rw [receiveLoop]
      refine (receiveOnce_sat hF hR.sleep timeoutMs hs).bind fun r s' hr => ?_
      cases r with
      | some received => exact hr
      | none =>
          simp only [steadyNow_bind, sat_call]
          intro now s₂ hnow
          obtain ⟨hinv, hN⟩ := hR.clock s' now s₂ hr hnow
          refine ⟨hinv, ?_⟩
          by_cases hlt : now < deadline
          · rw [if_pos hlt]
            exact receiveLoop_sat hR timeoutMs deadline n N hR.toReads s₂ hN
          · rw [if_neg hlt]
            exact hN

/-- `receive` on an open channel reads at least once. -/
theorem receive_real_sat (hreal : bus.config.dryRun = false)
    (hclock : ∀ s now s', J s → W s .steadyNow now s' → Inv s' ∧ J s')
    (hF : Reads W Inv bus.channelIdx J N K) (hR : Receives W Inv bus.channelIdx N K) (n : ℕ)
    (timeoutMs : ℤ) (hs : J s) :
    Sat W Inv (bus.receive n timeoutMs) (fun r s' => r.elim (N s') (K · s')) s := by
  unfold receive
  rw [hreal]
  intro now s' hnow
  obtain ⟨hinv, hJ⟩ := hclock s now s' hs hnow
  exact ⟨hinv, receiveLoop_sat hR timeoutMs _ n J hF s' hJ⟩

/-- **`receive`.**  Without a frame `J` still holds; a frame brings what `K` says of it. -/
theorem receive_sat (hR : Receives W Inv bus.channelIdx J K) (n : ℕ) (timeoutMs : ℤ)
    (hs : J s) :
    Sat W Inv (bus.receive n timeoutMs) (fun r s' => r.elim (J s') (K · s')) s := by
  cases hdry : bus.config.dryRun with
  | true =>
      unfold receive
      rw [hdry]
      exact hs
  | false => exact receive_real_sat hdry hR.clock hR.toReads hR n timeoutMs hs

theorem drainLoop_sat (hR : Receives W Inv bus.channelIdx J fun _ => J) (n left : ℕ) (hs : J s) :
    Sat W Inv (bus.drainLoop n left) (fun _ => J) s := by
  induction left generalizing s with
  | zero => exact hs
  | succ left ih =>
      rw [drainLoop]
      refine (receive_sat hR n 0 hs).bind fun r s' hr => ?_
      cases r with
      | none => exact hr
      | some msg => exact ih hr

/-- **`drain`** keeps what no frame destroys. -/
theorem drain_sat (hR : Receives W Inv bus.channelIdx J fun _ => J) (n : ℕ) (hs : J s) :
    Sat W Inv (bus.drain n) (fun _ => J) s :=
  drainLoop_sat hR n 256 hs

/-- The waiting loop: `N` is what `J` and a clock past the deadline give. -/
theorem waitLoop_sat (hR : Receives W Inv bus.channelIdx J K) {deadline : ℤ}
    {predicate : TPCANMsg → Bool} (n : ℕ)
    (hskip : ∀ msg s, predicate msg = false → K msg s → J s)
    (hexpire : ∀ s now s', J s → deadline ≤ now → W s .steadyNow now s' → N s') :
    ∀ (left : ℕ) (s : σ), J s → Sat W Inv (bus.waitLoop n deadline predicate left)
      (fun r s' => r.elim (N s') fun msg => predicate msg = true ∧ K msg s') s
  | 0, _, _ => trivial
  | left + 1, s, hs => by
      rw [waitLoop, steadyNow_bind, sat_call]
      intro now s₁ hnow
      obtain ⟨hinv₁, hJ₁⟩ := hR.clock s now s₁ hs hnow
      refine ⟨hinv₁, ?_⟩
      by_cases hlt : now < deadline
      · rw [if_pos hlt, steadyNow_bind, sat_call]
        intro now' s₂ hnow'
        obtain ⟨hinv₂, hJ₂⟩ := hR.clock s₁ now' s₂ hJ₁ hnow'
        refine ⟨hinv₂, ?_⟩
        refine (receive_sat hR n _ hJ₂).bind fun r s' hr => ?_
        cases r with
        | none => exact waitLoop_sat hR n hskip hexpire left s' hr
        | some msg =>
            cases hpred : predicate msg with
            | true =>
                simp only [hpred, if_true]
                exact ⟨hpred, hr⟩
            | false =>
                simp only [hpred, Bool.false_eq_true, if_false]
                exact waitLoop_sat hR n hskip hexpire left s' (hskip msg s' hpred hr)
      · rw [if_neg hlt]
        exact hexpire s now s₁ hs (not_lt.mp hlt) hnow

/-- **`wait_for`** returns a frame that fits the predicate, or `J` still holds. -/
theorem waitFor_sat (hR : Receives W Inv bus.channelIdx J K) {predicate : TPCANMsg → Bool}
    (n : ℕ) (timeoutMs : ℤ) (hskip : ∀ msg s, predicate msg = false → K msg s → J s) (hs : J s) :
    Sat W Inv (bus.waitFor n timeoutMs predicate)
      (fun r s' => r.elim (J s') fun msg => predicate msg = true ∧ K msg s') s := by
  unfold waitFor
  intro now s₁ hnow
  obtain ⟨hinv, hJ⟩ := hR.clock s now s₁ hs hnow
  have hexpire : ∀ s now' s', J s → now + timeoutMs * nsPerMs ≤ now' →
      W s .steadyNow now' s' → J s' := fun s now' s' h _ hw => (hR.clock s now' s' h hw).2
  exact ⟨hinv, waitLoop_sat hR n hskip hexpire n s₁ hJ⟩

end rules

/-! ### The calls they make -/

/-- The calls of the receiving functions. -/
structure Polls (P : SysCall → Prop) (bus : CanBus) : Prop where
  read : P (.canRead bus.channelIdx)
  clock : P .steadyNow
  sleep : P (.sleepFor emptyQueueSleepNs)

/-- The call of `send`. -/
structure Sends (P : SysCall → Prop) (bus : CanBus) (rawId : UInt32) (data : Fin 8 → UInt8) :
    Prop where
  print : bus.config.dryRun = true → P (.printDryRun bus.channelIdx rawId data)
  write : bus.config.dryRun = false → P (.canWrite bus.channelIdx (extendedFrame rawId data))

section calls
variable {bus : CanBus} {P : SysCall → Prop} {n : ℕ}

theorem receiveLoop_only (h : Polls P bus) (timeoutMs deadline : ℤ) :
    ∀ n, (bus.receiveLoop timeoutMs deadline n).Only P
  | 0 => trivial
  | n + 1 => by
      have honce : (bus.receiveOnce timeoutMs).Only P := by
        unfold receiveOnce
        refine ⟨h.read, fun r => ?_⟩
        obtain ⟨status, frame⟩ := r
        by_cases hok : (status == pcanErrorOk) = true
        · simp only [Prog.bind, hok, if_true]
          split <;> trivial
        · simp only [Prog.bind, hok, Bool.false_eq_true, if_false]
          split
          · trivial
          · split
            · trivial
            · exact ⟨h.sleep, fun _ => trivial⟩
      unfold receiveLoop
      refine honce.bind fun r => ?_
      cases r with
      | some received => trivial
      | none =>
          refine ⟨h.clock, fun now => ?_⟩
          by_cases hlt : now < deadline
          · simp only [Prog.bind, if_pos hlt]
            exact receiveLoop_only h timeoutMs deadline n
          · simp only [Prog.bind, if_neg hlt]
            trivial

theorem receive_only (h : bus.config.dryRun = false → Polls P bus) (timeoutMs : ℤ) :
    (bus.receive n timeoutMs).Only P := by
  unfold receive
  cases hdry : bus.config.dryRun with
  | true => trivial
  | false => exact ⟨(h hdry).clock, fun _ => receiveLoop_only (h hdry) timeoutMs _ n⟩

theorem drain_only (h : bus.config.dryRun = false → Polls P bus) : (bus.drain n).Only P := by
  have hloop : ∀ left, (bus.drainLoop n left).Only P := by
    intro left
    induction left with
    | zero => trivial
    | succ left ih =>
        unfold drainLoop
        refine (receive_only h 0).bind fun r => ?_
        cases r with
        | none => trivial
        | some msg => exact ih
  exact hloop 256

theorem waitFor_only (h : Polls P bus) (timeoutMs : ℤ) (predicate : TPCANMsg → Bool) :
    (bus.waitFor n timeoutMs predicate).Only P := by
  have hloop : ∀ deadline left, (bus.waitLoop n deadline predicate left).Only P := by
    intro deadline left
    induction left with
    | zero => trivial
    | succ left ih =>
        unfold waitLoop
        refine ⟨h.clock, fun now => ?_⟩
        by_cases hlt : now < deadline
        · simp only [Prog.bind, if_pos hlt]
          refine ⟨h.clock, fun now => ?_⟩
          refine (receive_only (fun _ => h) _).bind fun r => ?_
          cases r with
          | none => exact ih
          | some msg =>
              by_cases hpred : predicate msg = true
              · simp only [hpred, if_true]
                trivial
              · simp only [hpred, Bool.false_eq_true, if_false]
                exact ih
        · simp only [Prog.bind, if_neg hlt]
          trivial
  exact ⟨h.clock, fun now => hloop _ n⟩

theorem send_only {rawId : UInt32} {data : Fin 8 → UInt8} (h : Sends P bus rawId data) :
    (bus.send rawId data).Only P := by
  unfold send
  cases hdry : bus.config.dryRun with
  | true => exact ⟨h.print hdry, fun _ => trivial⟩
  | false => exact ⟨h.write hdry, fun _ => trivial⟩

theorem getDevice_only {motorId : UInt8} (hpoll : bus.config.dryRun = false → Polls P bus)
    (hsend : Sends P bus (bus.hostExtId .getId motorId) zeroData) :
    (bus.getDevice n motorId).Only P := by
  have hloop : ∀ attempts, (bus.getDeviceLoop n motorId attempts).Only P := by
    intro attempts
    induction attempts with
    | zero => trivial
    | succ attempts ih =>
        unfold getDeviceLoop
        refine (drain_only hpoll).bind fun _ => (send_only hsend).bind fun sent => ?_
        split
        · trivial
        · cases hdry : bus.config.dryRun with
          | true => trivial
          | false =>
              refine (waitFor_only (hpoll hdry) _ _).bind fun r => ?_
              cases r with
              | some reply => trivial
              | none => exact ih
  exact hloop bus.config.retries

theorem readMechanicalPosition_only {motorId : UInt8}
    (hpoll : bus.config.dryRun = false → Polls P bus)
    (hsend : Sends P bus (bus.hostExtId .paramRead motorId) mechPosQuery) :
    (bus.readMechanicalPosition n motorId).Only P := by
  unfold readMechanicalPosition
  refine (drain_only hpoll).bind fun _ => (send_only hsend).bind fun sent => ?_
  split
  · trivial
  · cases hdry : bus.config.dryRun with
    | true => trivial
    | false => exact (waitFor_only (hpoll hdry) _ _).bind fun _ => trivial

theorem confirmDestructive_only (htty : bus.config.dryRun = false → P .isatty)
    (hline : bus.config.dryRun = false → P .getline) : bus.confirmDestructive.Only P := by
  unfold confirmDestructive
  cases hdry : bus.config.dryRun with
  | true =>
      rw [Bool.or_true]
      trivial
  | false =>
      split
      · trivial
      · refine ⟨htty hdry, fun tty => ?_⟩
        cases tty with
        | false => trivial
        | true => exact ⟨hline hdry, fun _ => trivial⟩

theorem readBack_only {motorId : UInt8} (hpoll : bus.config.dryRun = false → Polls P bus)
    (hsend : Sends P bus (bus.hostExtId .paramRead motorId) mechPosQuery)
    (hpause : P (.sleepFor 30000000)) : ∀ attempts, (bus.readBack n motorId attempts).Only P
  | 0 => trivial
  | attempts + 1 => by
      unfold readBack
      refine ⟨hpause, fun _ => ?_⟩
      refine (readMechanicalPosition_only hpoll hsend).bind fun r => ?_
      cases r with
      | some position => trivial
      | none => exact readBack_only hpoll hsend hpause attempts

end calls

/-! ### What they may do -/

section runs
variable {bus : CanBus} {σ : Type} {W : World Sys σ} {s s₁ s₂ s₃ s₄ s₅ : σ} {n : ℕ} {now : ℤ}
  {frame : TPCANMsg}

/-- `drain` may find an empty queue. -/
theorem drain_empty (hreal : bus.config.dryRun = false) (hclock : W s .steadyNow now s₁)
    (hread : W s₁ (.canRead bus.channelIdx) (pcanErrorQrcvEmpty, frame) s₂) :
    Runs W (bus.drain (n + 1)) s s₂ (some ()) := by
  have hreceive : Runs W (bus.receive (n + 1) 0) s s₂ (some none) := by
    unfold receive
    rw [hreal]
    exact .call hclock (.call hread (.ret _ _))
  exact hreceive.bind (.ret _ _)

/-- `wait_for` may read a frame at once. -/
theorem waitFor_frame (hreal : bus.config.dryRun = false) {timeoutMs : ℤ} (ht : 0 < timeoutMs)
    {predicate : TPCANMsg → Bool} (h₁ : W s .steadyNow now s₁) (h₂ : W s₁ .steadyNow now s₂)
    (h₃ : W s₂ .steadyNow now s₃) (h₄ : W s₃ .steadyNow now s₄)
    (hread : W s₄ (.canRead bus.channelIdx) (pcanErrorOk, frame) s₅)
    (hext : frame.extended = true) (hpred : predicate (({} : TPCANMsg).fill frame) = true) :
    Runs W (bus.waitFor (n + 1) timeoutMs predicate) s s₅
      (some (some (({} : TPCANMsg).fill frame))) := by
  have hlt : now < now + timeoutMs * nsPerMs := by
    unfold nsPerMs
    omega
  have honce : ∀ t, Runs W (bus.receiveOnce t) s₄ s₅
      (some (some (some (({} : TPCANMsg).fill frame)))) := by
    intro t
    unfold receiveOnce
    rw [canRead_bind]
    refine .call hread ?_
    have hext' : (({} : TPCANMsg).fill frame).extended = true := hext
    simp only [beq_self_eq_true, if_true, hext']
    exact .ret _ _
  have hreceive : ∀ t, Runs W (bus.receive (n + 1) t) s₃ s₅
      (some (some (({} : TPCANMsg).fill frame))) := by
    intro t
    unfold receive
    rw [hreal]
    exact .call h₄ ((honce t).bind (.ret _ _))
  unfold waitFor
  refine .call h₁ (.call h₂ ?_)
  rw [Prog.bind, if_pos hlt]
  refine .call h₃ ((hreceive _).bind ?_)
  simp only [hpred, if_true]
  exact .ret _ _

/-- `wait_for` may end without a frame. -/
theorem waitFor_expired {timeoutMs now' : ℤ} {predicate : TPCANMsg → Bool}
    (h₁ : W s .steadyNow now s₁) (hlate : now + timeoutMs * nsPerMs ≤ now')
    (h₂ : W s₁ .steadyNow now' s₂) :
    Runs W (bus.waitFor (n + 1) timeoutMs predicate) s s₂ (some none) := by
  unfold waitFor
  refine .call h₁ (.call h₂ ?_)
  rw [Prog.bind, if_neg (not_lt.mpr hlate)]
  exact .ret _ _

/-- `get_device` may get an answer at once. -/
theorem getDevice_answer (hreal : bus.config.dryRun = false) (hretries : bus.config.retries = 1)
    (ht : 0 < bus.config.timeoutMs) {motorId : UInt8} {uid : Fin 8 → UInt8}
    (hdrain : Runs W (bus.drain (n + 1)) s s₁ (some ()))
    (hwrite : W s₁ (.canWrite bus.channelIdx (bus.getIdFrame motorId)) pcanErrorOk s₂)
    (hclock : W s₂ .steadyNow now s₂)
    (hread : W s₂ (.canRead bus.channelIdx) (pcanErrorOk, idReply motorId uid) s₃) :
    Runs W (bus.getDevice (n + 1) motorId) s s₃ (some (some ⟨motorId, uid⟩)) := by
  unfold getDevice
  rw [hretries]
  unfold getDeviceLoop send
  refine hdrain.bind ?_
  simp only [hreal, Bool.false_eq_true, if_false, canWrite_bind, Prog.call_bind]
  refine .call hwrite ?_
  refine (waitFor_frame hreal ht hclock hclock hclock hclock hread (extendedFrame_extended _ _)
    ?_).bind ?_
  · rw [fill_idReply]
    exact isIdReply_idReply bus motorId uid
  · have hret : (⟨(idReply motorId uid).sourceMotorId, (idReply motorId uid).data⟩ :
        DeviceInfo) = ⟨motorId, uid⟩ := by rw [idReply_source]; rfl
    simp only [fill_idReply]
    rw [← hret]
    exact .ret _ _

/-- `get_device` may get no answer. -/
theorem getDevice_expired (hreal : bus.config.dryRun = false)
    (hretries : bus.config.retries = 1) {motorId : UInt8} {now' : ℤ}
    (hdrain : Runs W (bus.drain (n + 1)) s s₁ (some ()))
    (hwrite : W s₁ (.canWrite bus.channelIdx (bus.getIdFrame motorId)) pcanErrorOk s₂)
    (hclock : W s₂ .steadyNow now s₃) (hlate : now + bus.config.timeoutMs * nsPerMs ≤ now')
    (hclock' : W s₃ .steadyNow now' s₄) :
    Runs W (bus.getDevice (n + 1) motorId) s s₄ (some none) := by
  unfold getDevice
  rw [hretries]
  unfold getDeviceLoop send
  refine hdrain.bind ?_
  simp only [hreal, Bool.false_eq_true, if_false, canWrite_bind, Prog.call_bind]
  exact .call hwrite ((waitFor_expired hclock hlate hclock').bind (.ret _ _))

end runs

end CanBus

/-- A channel with the default settings, one attempt for each query, and no prompt. -/
def benchBus : CanBus := ⟨{ assumeYes := true, retries := 1 }, 1⟩

end MotorConfig

end Qub
