import Mathlib.Logic.Relation
import QubController.JointWiring
import QubController.ThreadPool

/-! # Four motor threads at once

`test_4ch.cpp`: `main` opens the four channels, stores one action, starts a motor thread for each
channel, reports the merged state once a second until the flag is up or the time is over, and
stops the threads.  When a channel cannot be opened or a thread cannot be started it returns
early, and what was made so far is destroyed in the reverse order.

The calls of `main` are its own, or those of a method of `threads[ch]` (`RobotCall.onThread`).
The threads run beside it in a `Pool`, and a signal handler may raise the flag at any moment
(`Background`).  The trace has who used which channel, slot and thread. -/

namespace Qub

open Interaction

namespace FourChannels

/-! ### Calls -/

inductive RobotCall
  | sys (c : SysCall)
  /-- A call that a method of `threads[ch]` makes for `main`. -/
  | onThread (ch : Fin numChannels) (c : SysCall)
  /-- `CAN_Uninitialize` in the destructor of `PcanChannel`. -/
  | canUnInitialize (ch : Fin numChannels)
  | storeAction (act : ActionState)
  | loadChannel (ch : Fin numChannels)
  /-- The line with the merged state. -/
  | report (state : CombinedState)

@[reducible] def RobotCall.Resp : RobotCall → Type
  | sys c => c.Resp
  | onThread _ c => c.Resp
  | loadChannel _ => ChannelState
  | _ => Unit

abbrev RobotI : Interface := ⟨RobotCall, RobotCall.Resp⟩

abbrev RobotM := Prog RobotI

abbrev robot (c : RobotCall) : RobotM c.Resp := Prog.perform (I := RobotI) c

/-- The methods of `threads[ch]`. -/
def onThread (ch : Fin numChannels) : Embedding Sys RobotI := ⟨.onThread ch, fun _ r => r⟩

/-! ### The program -/

/-- `TEST_DURATION_SEC`. -/
def testDurationSec : ℤ := 10

/-- The action that `main` stores: all joints hold zero with `HOLD_KP` and `HOLD_KD`. -/
def holdAction (now : UInt64) : ActionState where
  qDes := fun _ => .rat 0
  dqDes := fun _ => .rat 0
  kp := fun _ => .rat 5
  kd := fun _ => .rat (3 / 10)
  tauFf := fun _ => .rat 0
  valid := true
  timestampNs := now

/-- The object `threads[ch]`. -/
def threadOf (table : List MotorMapEntry) (ch : Fin numChannels) : MotorThread where
  channelIdx := ch
  motors := bindingsPerCh table ch

/-- The constructors of the channels, up to the first that throws: did none throw, and what was
opened, the last first. -/
def openChannels :
    List (Fin numChannels) → List (Fin numChannels) → RobotM (Bool × List (Fin numChannels))
  | [], opened => return (true, opened)
  | ch :: rest, opened => do
      let sts ← robot (.sys (.canInitialize ch))
      if sts == pcanErrorOk then openChannels rest (ch :: opened) else return (false, opened)

/-- The destructors of the channels. -/
def closeChannels : List (Fin numChannels) → RobotM Unit
  | [] => return
  | ch :: rest => do
      robot (.canUnInitialize ch)
      closeChannels rest

/-- The objects that were made, the last first. -/
abbrev Objects := List (Fin numChannels × MotorThread)

/-- The threads are started, up to the first that cannot be. -/
def startThreads (table : List MotorMapEntry) :
    List (Fin numChannels) → Objects → RobotM (Bool × Objects)
  | [], threads => return (true, threads)
  | ch :: rest, threads => do
      let (err, t) ← (MotorThread.start (threadOf table ch)).through (onThread ch)
      if err ≠ 0 then
        robot (.sys (.storeShutdown true))
        return (false, (ch, t) :: threads)
      else startThreads table rest ((ch, t) :: threads)

def stopThreads : Objects → RobotM Objects
  | [] => return []
  | (ch, t) :: rest => do
      let t ← (MotorThread.stop t).through (onThread ch)
      let rest ← stopThreads rest
      return (ch, t) :: rest

/-- The destructors of the threads. -/
def destroyThreads : Objects → RobotM Unit
  | [] => return
  | (ch, t) :: rest => do
      let _ ← (MotorThread.destroy t).through (onThread ch)
      destroyThreads rest

/-- The four snapshots of `combine_channels`, in their order. -/
def loadChannels : List (Fin numChannels) → (Fin numChannels → ChannelState) →
    RobotM (Fin numChannels → ChannelState)
  | [], states => return states
  | ch :: rest, states => do
      let state ← robot (.loadChannel ch)
      loadChannels rest (Function.update states ch state)

/-- The monitoring loop, at most `n` times. -/
def monitor (start : ℤ) : ℕ → RobotM Unit
  | 0 => .cut
  | n + 1 => do
      let shutdown ← robot (.sys .loadShutdown)
      if shutdown then
        return
      else
        let now ← robot (.sys .steadyNow)
        let elapsed := (now - start).tdiv nsPerSec
        if testDurationSec ≤ elapsed then
          return
        else
          let states ← loadChannels (List.finRange numChannels) fun _ => {}
          robot (.report (combineChannels states))
          robot (.sys (.sleepFor nsPerSec))
          monitor start n

/-- The part of `main` in which all channels are open. -/
def session (table : List MotorMapEntry) (n : ℕ) : RobotM ℤ := do
  let now ← robot (.sys .clockGettime)
  robot (.storeAction (holdAction now.toNs))
  let (ok, threads) ← startThreads table (List.finRange numChannels) []
  if !ok then
    destroyThreads threads
    return 1
  else
    let start ← robot (.sys .steadyNow)
    monitor start n
    robot (.sys (.storeShutdown true))
    let threads ← stopThreads threads.reverse
    destroyThreads threads.reverse
    return 0

/-- `main`, for a motor table. -/
def main (table : List MotorMapEntry) (n : ℕ) : RobotM ℤ := do
  let (ok, opened) ← openChannels (List.finRange numChannels) []
  if !ok then
    closeChannels opened
    return 1
  else
    let code ← session table n
    closeChannels opened
    return code

/-! ### Threads and signals -/

/-- Who makes a call: `main`, or the thread of a channel. -/
abbrev Actor := Option (Fin numChannels)

inductive RobotEvent
  | opened (ch : Fin numChannels)
  | closed (ch : Fin numChannels)
  | created (ch : Fin numChannels) (ok : Bool)
  | joined (ch : Fin numChannels)
  | raised
  | read (a : Actor) (ch : Fin numChannels)
  | wrote (a : Actor) (ch : Fin numChannels) (msg : TPCANMsg)
  | published (a : Actor) (ch : Fin numChannels)
  /-- `main` stores the action. -/
  | acted

/-- `SharedState`, the trace, and for each thread the cycles that it started since it was created
and the flag was up. -/
structure Shared where
  flag : Bool := false
  action : ActionState := {}
  slot : Fin numChannels → ChannelState := fun _ => {}
  log : List RobotEvent := []
  startedSince : Fin numChannels → ℕ := fun _ => 0

def Shared.note (s : Shared) (e : RobotEvent) : Shared := { s with log := e :: s.log }

/-- The calls of thread `ch`. -/
def threadWorld (ch : Fin numChannels) : World Sys Shared := fun s c r s' =>
  match c, r with
  | .loadShutdown, r => r = s.flag ∧ s' = s
  | .loadAction, r => r = s.action ∧
      s' = { s with
        startedSince := Function.update s.startedSince ch
          (if s.flag then s.startedSince ch + 1 else s.startedSince ch) }
  | .storeChannel ch' state, _ =>
      s' = { s with slot := Function.update s.slot ch' state }.note (.published (some ch) ch')
  | .canWrite ch' msg, _ => s' = s.note (.wrote (some ch) ch' msg)
  | .canRead ch', _ => s' = s.note (.read (some ch) ch')
  | _, _ => s' = s

/-- The four threads and what they share with `main`. -/
abbrev Robot := Pool Sys (Fin numChannels) MotorThread Shared

/-- What happens beside `main`. -/
inductive Beside : Robot → Robot → Prop
  | thread {s s' : Robot} : Pool.Step threadWorld s s' → Beside s s'
  | signal {s : Robot} : Beside s ⟨s.threads, { s.shared.note .raised with flag := true }⟩

abbrev Background : Robot → Robot → Prop := Relation.ReflTransGen Beside

def Robot.note (s : Robot) (e : RobotEvent) : Robot := ⟨s.threads, s.shared.note e⟩

/-- A store to the flag. -/
def Robot.store (s : Robot) (value : Bool) : Robot :=
  if value then ⟨s.threads, { s.shared.note .raised with flag := true }⟩
  else ⟨s.threads, { s.shared with flag := false }⟩

/-- What a call of `main` does. -/
def mainEffect (table : List MotorMapEntry) (s : Robot) (c : RobotCall) (r : c.Resp) (s' : Robot) :
    Prop :=
  match c, r with
  | .sys (.canInitialize ch), r => s' = if r = pcanErrorOk then s.note (.opened ch) else s
  | .sys .loadShutdown, r => r = s.shared.flag ∧ s' = s
  | .sys (.storeShutdown value), _ => s' = s.store value
  | .onThread _ (.storeShutdown value), _ => s' = s.store value
  | .onThread _ (.canWrite ch' msg), _ => s' = s.note (.wrote none ch' msg)
  | .onThread _ (.canRead ch'), _ => s' = s.note (.read none ch')
  | .onThread _ (.storeChannel ch' state), _ =>
      s' = ⟨s.threads, { s.shared.note (.published none ch') with
        slot := Function.update s.shared.slot ch' state }⟩
  | .onThread ch .pthreadCreate, r =>
      if r = 0 then
        ∃ buf n, s' =
          ⟨Function.update s.threads ch (some (MotorThread.run buf n (threadOf table ch))),
            { s.shared.note (.created ch true) with
              startedSince := Function.update s.shared.startedSince ch 0 }⟩
      else s' = s.note (.created ch false)
  | .onThread ch .pthreadJoin, _ => ∃ t, s.threads ch = some (.ret t) ∧
      s' = ⟨Function.update s.threads ch none, s.shared.note (.joined ch)⟩
  | .canUnInitialize ch, _ => s' = s.note (.closed ch)
  | .storeAction act, _ => s' = ⟨s.threads, { s.shared.note .acted with action := act }⟩
  | .loadChannel ch, r => r = s.shared.slot ch ∧ s' = s
  | _, _ => s' = s

/-- The world of `main`: between two of its calls the threads and signals go on. -/
def robotWorld (table : List MotorMapEntry) : World RobotI Robot := fun s c r s' =>
  ∃ s₁, Background s s₁ ∧ mainEffect table s₁ c r s'

/-- Before the program. -/
def Robot.init : Robot := ⟨fun _ => none, {}⟩

end FourChannels

end Qub
