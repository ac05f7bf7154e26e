import QubController.ImuThread
import QubController.Trace

/-! # The IMU's connection

`ImuDriver` holds a serial connection, an interface of the `mip` SDK that is bound to one, and the
flag `connected_`.  `configure` replaces the connection, then the interface, and may fail at any
later point; it raises the flag at its end, and `disconnect` lowers it.  `ImuThread` configures the
driver in `start()`, before it creates the thread, and disconnects it in `stop()`; the destructor
of the driver disconnects it again.

The members of the driver live in the surroundings (`Link`), since the owner and the loop share
them.  Each connection gets a fresh name, and the trace has what became of it.
`connected_iff_clean` says that the flag tells the truth and the device is never used over a dead
connection, exactly if no `configure` that directly follows a failed `pthread_create` is refused
anything. -/

namespace Qub

open Interaction

namespace ImuLink

/-! ### Calls -/

/-- The commands of the `mip` SDK whose result is an acknowledgement. -/
inductive MipCommand
  | ping
  | setIdle
  | defaultDeviceSettings
  | writeMessageFormat (descriptors : List (UInt8 × UInt16))
  | writeAidingMeasurementEnable
  | reset
  | resume
deriving DecidableEq

inductive LinkEvent
  /-- A new connection is in `conn_`. -/
  | opened
  /-- `connect` or a command failed, or the base rate is too low. -/
  | refused
  | created (ok : Bool)
  | configured (ok : Bool)
  | disconnected
deriving DecidableEq

inductive ImuCall
  | sys (c : SysCall)
  /-- `conn_ = make_unique<SerialConnection>(..)`. -/
  | makeConnection
  /-- `conn_->connect()`. -/
  | connect
  /-- `device_ = make_unique<Interface>(conn_.get(), ..)`. -/
  | makeInterface
  /-- A command to `*device_`: was it acknowledged? -/
  | command (c : MipCommand)
  /-- `getBaseRate` of the filter's descriptor set. -/
  | getBaseRate
  /-- `device_->update(0, false)`. -/
  | update
  /-- Is there a `device_`? -/
  | hasDevice
  /-- `conn_ && conn_->isConnected()`. -/
  | isConnected
  /-- `conn_->disconnect()`. -/
  | closeConnection
  | loadConnected
  | storeConnected (value : Bool)
  /-- A function of the driver returns. -/
  | note (e : LinkEvent)

@[reducible] def ImuCall.Resp : ImuCall → Type
  | sys c => c.Resp
  | connect => Bool
  | command _ => Bool
  | getBaseRate => Bool × UInt16
  | update => Bool × MipData
  | hasDevice => Bool
  | isConnected => Bool
  | loadConnected => Bool
  | _ => Unit

abbrev Imu : Interface := ⟨ImuCall, ImuCall.Resp⟩

abbrev ImuM := Prog Imu

abbrev imu (c : ImuCall) : ImuM c.Resp := Prog.perform (I := Imu) c

/-! ### The driver -/

/-- `IMU_STREAM_HZ`. -/
def imuStreamHz : UInt16 := 250

/-- The four fields of the stream: attitude, angular rate, acceleration, filter status. -/
def streamFields : List UInt8 := [0x03, 0x0E, 0x1C, 0x10]

/-- Steps in their order, up to the first that fails. -/
def inSequence : List (ImuM Bool) → ImuM Bool
  | [] => return true
  | step :: rest => do
      let ok ← step
      if !ok then return false else inSequence rest

def pingAndIdle : ImuM Bool :=
  inSequence [imu (.command .ping), imu (.command .setIdle)]

def loadDefaultSettings : ImuM Bool :=
  inSequence [imu (.command .defaultDeviceSettings)]

/-- The check that `configure_filter_stream` makes of the base rate. -/
def rateOk (baseRate : UInt16) : Bool := !(baseRate == 0 || decide (baseRate < imuStreamHz))

def configureFilterStream : ImuM Bool := do
  let (ack, baseRate) ← imu .getBaseRate
  if !ack then
    return false
  else if !rateOk baseRate then
    return false
  else
    let decimation := baseRate / imuStreamHz
    inSequence [imu (.command (.writeMessageFormat (streamFields.map (·, decimation))))]

def enableAhrsFilter : ImuM Bool :=
  inSequence [imu (.command .writeAidingMeasurementEnable), imu (.command .reset)]

def startStream : ImuM Bool :=
  inSequence [imu (.command .resume)]

def configureDevice : ImuM Bool :=
  inSequence
    [pingAndIdle, loadDefaultSettings, configureFilterStream, enableAhrsFilter, startStream]

/-- `configure`, up to its return. -/
def configureSteps : ImuM Bool := do
  imu .makeConnection
  let ok ← imu .connect
  if !ok then
    return false
  else
    imu .makeInterface
    let ok ← configureDevice
    if !ok then
      return false
    else
      imu (.storeConnected true)
      return true

def configure : ImuM Bool := do
  let ok ← configureSteps
  imu (.note (.configured ok))
  return ok

/-- `disconnect` stops the stream if there is a device. -/
def idleDevice : ImuM Unit := do
  let device ← imu .hasDevice
  if device then
    let _ ← imu (.command .setIdle)
    return
  else
    return

/-- It closes the connection if it is open. -/
def closePort : ImuM Unit := do
  let isOpen ← imu .isConnected
  if isOpen then imu .closeConnection else return

def disconnect : ImuM Unit := do
  let connected ← imu .loadConnected
  if !connected then
    imu (.note .disconnected)
  else
    idleDevice
    closePort
    imu (.storeConnected false)
    imu (.note .disconnected)

/-- `poll_and_publish`; the driver's other members belong to the loop alone. -/
def pollAndPublish (d : ImuDriver) : ImuM (Bool × ImuDriver) := do
  let device ← imu .hasDevice
  if !device then
    return (false, d)
  else
    let connected ← imu .loadConnected
    if !connected then
      return (false, d)
    else
      let (ok, data) ← imu .update
      if !ok then
        return (false, { d with data })
      else
        let ts ← imu (.sys .clockGettime)
        imu (.sys (.storeImu (ImuDriver.imuState data ts.toNs)))
        return (true, { d with
          data, updateCount := d.updateCount + 1, filterMode := data.filterState.toUInt32 })

/-! ### The thread -/

/-- The loop that waits for AHRS mode. -/
def waitLoop (waitStart : ℤ) : ℕ → ImuDriver → ImuM ImuDriver
  | 0, _ => .cut
  | n + 1, d => do
      if d.filterMode < filterModeAhrs then
        let (_, d) ← pollAndPublish d
        let now ← imu (.sys .steadyNow)
        if ImuThread.ahrsTimeoutNs < now - waitStart then
          return d
        else
          imu (.sys (.sleepFor 10000000))
          waitLoop waitStart n d
      else
        return d

/-- The loop at 200 Hz. -/
def mainLoop : ℕ → ImuThread → Timespec → Timespec → ImuM ImuThread
  | 0, _, _, _ => .cut
  | n + 1, t, next, prevWake => do
      let (ok, driver) ← pollAndPublish t.driver
      if !ok then
        return { t with driver }
      else
        let now ← imu (.sys .clockGettime)
        let period := timespecDiffNs now prevWake
        -- `sleep_until_next_period`
        let next := timespecAddNs next imuPeriodNs
        imu (.sys (.clockNanosleep next))
        mainLoop n
          { driver
            lastPeriodNs := period
            missedDeadlines :=
              if imuPeriodNs * 3 / 2 < period then t.missedDeadlines + 1 else t.missedDeadlines
            loopCount := t.loopCount + 1 }
          next now

/-- `run`, with at most `n` iterations of each loop. -/
def run (n : ℕ) (t : ImuThread) : ImuM ImuThread := do
  let next ← imu (.sys .clockGettime)
  let waitStart ← imu (.sys .steadyNow)
  let driver ← waitLoop waitStart n t.driver
  mainLoop n { t with driver } next next

/-- `start()`, on `started_`. -/
def start (started : Bool) : ImuM (ℤ × Bool) := do
  if started then
    return (0, started)
  else
    let ok ← configure
    if !ok then
      return (-1, started)
    else
      let err ← imu (.sys .pthreadCreate)
      if err ≠ 0 then return (err, started) else return (0, true)

def stop (started : Bool) : ImuM Bool := do
  if !started then
    return started
  else
    imu (.sys .pthreadJoin)
    disconnect
    return false

/-- `~ImuThread`. -/
def destroyThread (started : Bool) : ImuM Bool := do
  if started then stop started else return started

/-- `~ImuThread`, and then `~ImuDriver` of its member. -/
def destroy (started : Bool) : ImuM Unit := do
  let _ ← destroyThread started
  disconnect

inductive OwnerCall
  | start
  | stop

/-- The calls of the owner, then the destructor. -/
def lifetime : List OwnerCall → Bool → ImuM Unit
  | [], started => destroy started
  | .start :: calls, started => do
      let (_, started) ← start started
      lifetime calls started
  | .stop :: calls, started => do
      let started ← stop started
      lifetime calls started

/-! ### The loop is the IMU thread's -/

/-- `Erases R p q`: where there is a device and the flag is up, `p` makes the calls of `q` and
returns what `q` returns, a result in `R`. -/
inductive Erases {α : Type} (R : α → Prop) : ImuM α → SysM α → Prop
  | ret {a : α} : R a → Erases R (.ret a) (.ret a)
  | cut : Erases R .cut .cut
  | sys {c : SysCall} {k : c.Resp → ImuM α} {k' : c.Resp → SysM α} :
      (∀ r, Erases R (k r) (k' r)) → Erases R (.call (I := Imu) (.sys c) k) (.call (I := Sys) c k')
  | update {k : Bool × MipData → ImuM α} {k' : Bool × MipData → SysM α} :
      (∀ r, Erases R (k r) (k' r)) →
      Erases R (.call (I := Imu) .update k) (.call (I := Sys) .imuUpdate k')
  | hasDevice {k : Bool → ImuM α} {q : SysM α} :
      Erases R (k true) q → Erases R (.call (I := Imu) .hasDevice k) q
  | loadConnected {k : Bool → ImuM α} {q : SysM α} :
      Erases R (k true) q → Erases R (.call (I := Imu) .loadConnected k) q

theorem Erases.bind {α β : Type} {R : α → Prop} {R' : β → Prop} {p : ImuM α} {q : SysM α}
    {f : α → ImuM β} {g : α → SysM β} (h : Erases R p q) (hf : ∀ a, R a → Erases R' (f a) (g a)) :
    Erases R' (p >>= f) (q >>= g) := by
  induction h with
  | ret ha => exact hf _ ha
  | cut => exact .cut
  | sys _ ih => exact .sys ih
  | update _ ih => exact .update ih
  | hasDevice _ ih => exact .hasDevice ih
  | loadConnected _ ih => exact .loadConnected ih

theorem pollAndPublish_erases {d : ImuDriver} (hd : d.connected = true) :
    Erases (fun r => r.2.connected = true) (pollAndPublish d) d.pollAndPublish := by
  obtain ⟨data, connected, updateCount, filterMode⟩ := d
  obtain rfl : connected = true := hd
  refine .hasDevice (.loadConnected (.update ?_))
  rintro ⟨ok, data'⟩
  cases ok with
  | false => exact .ret rfl
  | true => exact .sys fun ts => .sys fun _ => .ret rfl

theorem waitLoop_erases (waitStart : ℤ) (n : ℕ) {d : ImuDriver} (hd : d.connected = true) :
    Erases (fun d' => d'.connected = true) (waitLoop waitStart n d)
      (ImuThread.waitLoop waitStart n d) := by
  induction n generalizing d with
  | zero => exact .cut
  | succ n ih =>
      unfold waitLoop ImuThread.waitLoop
      split
      · refine (pollAndPublish_erases hd).bind ?_
        rintro ⟨_, d'⟩ hd'
        refine .sys fun now => ?_
        show Erases _ (ite _ _ _) (ite _ _ _)
        split
        · exact .ret hd'
        · exact .sys fun _ => ih hd'
      · exact .ret hd

theorem mainLoop_erases (n : ℕ) {t : ImuThread} (ht : t.driver.connected = true)
    (next prevWake : Timespec) :
    Erases (fun t' => t'.driver.connected = true) (mainLoop n t next prevWake)
      (ImuThread.mainLoop n t next prevWake) := by
  induction n generalizing t next prevWake with
  | zero => exact .cut
  | succ n ih =>
      unfold mainLoop ImuThread.mainLoop
      refine (pollAndPublish_erases ht).bind ?_
      rintro ⟨ok, d'⟩ hd'
      cases ok with
      | false => exact .ret hd'
      | true => exact .sys fun now => .sys fun _ => ih (t := ⟨d', _, _, _⟩) hd' _ _

/-- While the flag is up and there is a device, the loop is that of `ImuThread`. -/
theorem run_erases (n : ℕ) {t : ImuThread} (ht : t.driver.connected = true) :
    Erases (fun t' => t'.driver.connected = true) (run n t) (ImuThread.run n t) := by
  refine .sys fun next => .sys fun waitStart => ?_
  refine (waitLoop_erases waitStart n ht).bind fun d hd => ?_
  exact mainLoop_erases n (t := { t with driver := d }) hd next next

/-! ### The owner, the loop and the driver's members -/

/-- The connection in `conn_`, the connection to which the interface in `device_` is bound, the
flag, the next fresh name, what is left of the loop while there is a thread, the events, each with
the flag, and for each use of the device the connection it is bound to and the one in `conn_`. -/
structure Link where
  conn : Option ℕ := none
  device : Option ℕ := none
  connected : Bool := false
  fresh : ℕ := 0
  worker : Option (ImuM ImuThread) := none
  trace : List (LinkEvent × Bool) := []
  uses : List (Option ℕ × Option ℕ) := []

namespace Link

def log (s : Link) (e : LinkEvent) : Link := { s with trace := (e, s.connected) :: s.trace }

def use (s : Link) : Link := { s with uses := (s.device, s.conn) :: s.uses }

/-- A step of `configure` or `disconnect` has the result `ok`. -/
def answered (s : Link) (ok : Bool) : Link := if ok then s else s.log .refused

/-- The members after a call of the driver. -/
def after (s : Link) (c : ImuCall) (r : c.Resp) : Link :=
  match c, r with
  | .makeConnection, _ => { s with conn := some s.fresh, fresh := s.fresh + 1 }.log .opened
  | .connect, ok => s.answered ok
  | .makeInterface, _ => { s with device := s.conn }
  | .command _, ack => s.use.answered ack
  | .getBaseRate, (ack, baseRate) => s.use.answered (ack && rateOk baseRate)
  | .update, _ => s.use
  | .storeConnected value, _ => { s with connected := value }
  | .note e, _ => s.log e
  | _, _ => s

end Link

def Answers (s : Link) (c : ImuCall) (r : c.Resp) : Prop :=
  match c, r with
  | .hasDevice, r => r = s.device.isSome
  | .isConnected, r => r = true → s.conn.isSome
  | .loadConnected, r => r = s.connected
  | _, _ => True

inductive OwnStep : Link → Link → Prop
  | call {s : Link} {c : ImuCall} {k : c.Resp → ImuM ImuThread} (r : c.Resp) :
      s.worker = some (.call (I := Imu) c k) → Answers s c r →
      OwnStep s { s.after c r with worker := some (k r) }

abbrev OwnSteps : Link → Link → Prop := Relation.ReflTransGen OwnStep

def Effect (s : Link) (c : ImuCall) (r : c.Resp) (s' : Link) : Prop :=
  match c, r with
  | .sys .pthreadCreate, r =>
      if r = 0 then ∃ n t, s' = { s.log (.created true) with worker := some (run n t) }
      else s' = s.log (.created false)
  | .sys .pthreadJoin, _ => (∃ t, s.worker = some (.ret t)) ∧ s' = { s with worker := none }
  | c, r => Answers s c r ∧ s' = s.after c r

/-- The world of the owner: the loop goes on between its calls. -/
def link : World Imu Link := fun s c r s' => ∃ s₁, OwnSteps s s₁ ∧ Effect s₁ c r s'

/-! ### The properties -/

/-- Did the last `configure` succeed, without a completed `disconnect` since? -/
def established : List (LinkEvent × Bool) → Bool
  | [] => false
  | (.configured ok, _) :: _ => ok
  | (.disconnected, _) :: _ => false
  | _ :: past => established past

/-- At each event the flag told the truth. -/
def Consistent : List (LinkEvent × Bool) → Prop :=
  Each fun e past => e.2 = established (e :: past)

/-- The device was bound to the connection in `conn_`. -/
def Aligned (u : Option ℕ × Option ℕ) : Prop := ∃ c, u = (some c, some c)

/-- A `configure` that directly followed a failed `pthread_create` was refused something. -/
def RefusedRetry (e : LinkEvent × Bool) (past : List (LinkEvent × Bool)) : Prop :=
  ∃ ok, e.1 = .configured ok ∧ [.refused, .opened, .created false] <+: past.map Prod.fst

/-- There was no such `configure`. -/
def Clean : List (LinkEvent × Bool) → Prop := Each fun e past => ¬ RefusedRetry e past

instance (e : LinkEvent × Bool) (past : List (LinkEvent × Bool)) :
    Decidable (RefusedRetry e past) :=
  inferInstanceAs (Decidable (∃ ok, e.1 = .configured ok ∧ _ <+: past.map Prod.fst))

instance (trace : List (LinkEvent × Bool)) : Decidable (Consistent trace) :=
  Each.decidable trace

instance (trace : List (LinkEvent × Bool)) : Decidable (Clean trace) :=
  Each.decidable trace

theorem consistent_cons {e : LinkEvent × Bool} {past : List (LinkEvent × Bool)} :
    Consistent (e :: past) ↔ e.2 = established (e :: past) ∧ Consistent past := each_cons

theorem clean_cons {e : LinkEvent × Bool} {past : List (LinkEvent × Bool)} :
    Clean (e :: past) ↔ ¬ RefusedRetry e past ∧ Clean past := each_cons

/-- The flag has told a lie, after a refused retry. -/
def Broken (s : Link) : Prop := ¬ Consistent s.trace ∧ ¬ Clean s.trace

structure Sound (s : Link) : Prop where
  consistent : Consistent s.trace
  clean : Clean s.trace
  aligned : ∀ u ∈ s.uses, Aligned u

structure Established (s : Link) : Prop where
  connected : s.connected = true
  bound : Aligned (s.device, s.conn)

/-- A call of the loop. -/
def IsLoopCall : ImuCall → Prop
  | .sys _ | .hasDevice | .loadConnected | .update => True
  | _ => False

/-- There is a thread; nobody but the loop goes on, and it leaves the members as they are. -/
structure Running (s : Link) : Prop extends Sound s, Established s where
  synced : s.connected = established s.trace
  loop : ∀ p, s.worker = some p → p.Only IsLoopCall

/-- The invariant. -/
def Kept (s : Link) : Prop := Broken s ∨ Running s ∨ (Sound s ∧ s.worker = none)

/-! ### Broken runs -/

section broken
variable {s s' : Link}

theorem Broken.cons {e : LinkEvent × Bool} (h : Broken s) (ht : s'.trace = e :: s.trace) :
    Broken s' := by
  constructor
  · intro hs
    rw [ht] at hs
    exact h.1 (consistent_cons.mp hs).2
  · intro hs
    rw [ht] at hs
    exact h.2 (clean_cons.mp hs).2

theorem Broken.answered (h : Broken s) (ok : Bool) : Broken (s.answered ok) := by
  cases ok with
  | true => exact h
  | false => exact h.cons rfl

theorem Broken.after (h : Broken s) (c : ImuCall) (r : c.Resp) : Broken (s.after c r) := by
  cases c with
  | connect => exact h.answered r
  | command c => exact Broken.answered (s := s.use) h r
  | getBaseRate => exact Broken.answered (s := s.use) h _
  | makeConnection => exact h.cons rfl
  | note e => exact h.cons rfl
  | _ => exact h

theorem Broken.ownStep (h : Broken s) (hstep : OwnStep s s') : Broken s' := by
  cases hstep with
  | call r _ _ => exact h.after _ r

theorem Broken.effect (h : Broken s) {c : ImuCall} {r : c.Resp} (heff : Effect s c r s') :
    Broken s' := by
  unfold Effect at heff
  split at heff
  · split at heff
    · obtain ⟨n, t, rfl⟩ := heff
      exact h.cons rfl
    · obtain rfl := heff
      exact h.cons rfl
  · obtain ⟨-, rfl⟩ := heff
    exact h
  · obtain ⟨-, rfl⟩ := heff
    exact h.after _ _

theorem Broken.ownSteps (h : Broken s) (hsteps : OwnSteps s s') : Broken s' := by
  induction hsteps with
  | refl => exact h
  | tail _ hstep ih => exact ih.ownStep hstep

/-- What is broken stays broken. -/
theorem Broken.sat (h : Broken s) {α : Type} (p : ImuM α) :
    Sat link Kept p (fun _ s' => Broken s') s := by
  induction p generalizing s with
  | ret a => exact h
  | cut => trivial
  | call c k ih =>
      rintro r s' ⟨s₁, hsteps, heff⟩
      have h' := (h.ownSteps hsteps).effect heff
      exact ⟨.inl h', ih r h'⟩

end broken

/-! ### The loop -/

theorem pollAndPublish_loopCalls (d : ImuDriver) : (pollAndPublish d).Only IsLoopCall := by
  refine ⟨trivial, fun device => ?_⟩
  cases device with
  | false => trivial
  | true =>
      refine ⟨trivial, fun connected => ?_⟩
      cases connected with
      | false => trivial
      | true =>
          refine ⟨trivial, ?_⟩
          rintro ⟨ok, data⟩
          cases ok with
          | false => trivial
          | true => exact ⟨trivial, fun ts => ⟨trivial, fun _ => trivial⟩⟩

theorem waitLoop_loopCalls (waitStart : ℤ) (n : ℕ) (d : ImuDriver) :
    (waitLoop waitStart n d).Only IsLoopCall := by
  induction n generalizing d with
  | zero => trivial
  | succ n ih =>
      unfold waitLoop
      split
      · refine (pollAndPublish_loopCalls d).bind ?_
        rintro ⟨_, d'⟩
        refine ⟨trivial, fun now => ?_⟩
        show (ite _ _ _ : ImuM ImuDriver).Only IsLoopCall
        split
        · trivial
        · exact ⟨trivial, fun _ => ih d'⟩
      · trivial

theorem mainLoop_loopCalls (n : ℕ) (t : ImuThread) (next prevWake : Timespec) :
    (mainLoop n t next prevWake).Only IsLoopCall := by
  induction n generalizing t next prevWake with
  | zero => trivial
  | succ n ih =>
      unfold mainLoop
      refine (pollAndPublish_loopCalls t.driver).bind ?_
      rintro ⟨ok, d'⟩
      cases ok with
      | false => trivial
      | true => exact ⟨trivial, fun now => ⟨trivial, fun _ => ih _ _ _⟩⟩

theorem run_loopCalls (n : ℕ) (t : ImuThread) : (run n t).Only IsLoopCall := by
  refine ⟨trivial, fun next => ⟨trivial, fun waitStart => ?_⟩⟩
  exact (waitLoop_loopCalls waitStart n t.driver).bind fun d => mainLoop_loopCalls n _ next next

section loop
variable {s s' : Link}

theorem after_loopCall {c : ImuCall} (hc : IsLoopCall c) (r : c.Resp) :
    s.after c r = s ∨ s.after c r = s.use := by
  cases c with
  | update => exact .inr rfl
  | sys c => exact .inl rfl
  | hasDevice => exact .inl rfl
  | loadConnected => exact .inl rfl
  | _ => exact hc.elim

/-- A use of the device while it is bound to the connection. -/
theorem Sound.use (h : Sound s) (hbound : Aligned (s.device, s.conn)) : Sound s.use := by
  refine ⟨h.consistent, h.clean, fun u hu => ?_⟩
  rcases List.mem_cons.mp hu with rfl | hu
  · exact hbound
  · exact h.aligned u hu

theorem Running.use (h : Running s) : Running s.use := by
  have hsound := h.toSound.use h.bound
  exact ⟨⟨hsound.consistent, hsound.clean, hsound.aligned⟩, ⟨h.connected, h.bound⟩, h.synced,
    h.loop⟩

theorem Running.next (h : Running s) {p : ImuM ImuThread} (hp : p.Only IsLoopCall) :
    Running { s with worker := some p } := by
  refine ⟨⟨h.consistent, h.clean, h.aligned⟩, ⟨h.connected, h.bound⟩, h.synced, fun q hq => ?_⟩
  cases hq
  exact hp

/-- Step lemma: one call of the loop. -/
theorem Running.ownStep (h : Running s) (hstep : OwnStep s s') : Running s' := by
  cases hstep with
  | @call c k r hw hr =>
      obtain ⟨hc, hk⟩ := h.loop _ hw
      rcases after_loopCall (s := s) hc r with hafter | hafter
      · rw [hafter]
        exact h.next (hk r)
      · rw [hafter]
        exact h.use.next (hk r)

/-- Run lemma: the loop alone. -/
theorem Running.ownSteps (h : Running s) (hsteps : OwnSteps s s') : Running s' := by
  induction hsteps with
  | refl => exact h
  | tail _ hstep ih => exact ih.ownStep hstep

theorem ownSteps_none (hw : s.worker = none) (hsteps : OwnSteps s s') : s' = s := by
  induction hsteps with
  | refl => rfl
  | tail _ hstep ih =>
      subst ih
      cases hstep with
      | call r hcall hr => cases hw.symm.trans hcall

theorem effect_of_link (hw : s.worker = none) {c : ImuCall} {r : c.Resp}
    (hstep : link s c r s') : Effect s c r s' := by
  obtain ⟨s₁, hsteps, heff⟩ := hstep
  rwa [ownSteps_none hw hsteps] at heff

end loop

/-! ### The driver without a thread -/

/-- There is no thread, and the flag tells the truth. -/
structure Idle (s : Link) : Prop extends Sound s where
  no_worker : s.worker = none
  synced : s.connected = established s.trace
  bound : s.connected = true → Aligned (s.device, s.conn)

/-- Between two calls of the owner the flag is up only after a failed `pthread_create`. -/
structure Ready (s : Link) : Prop extends Idle s where
  retry : s.connected = true ↔ s.trace.head?.map Prod.fst = some (.created false)

/-- Inside of `configure`, which began in `s₀`. -/
structure Begun (s₀ s : Link) : Prop where
  no_worker : s.worker = none
  connected : s.connected = s₀.connected
  aligned : ∀ u ∈ s.uses, Aligned u

structure Opened (s₀ s : Link) : Prop extends Begun s₀ s where
  trace : s.trace = (.opened, s₀.connected) :: s₀.trace
  held : ∃ c, s.conn = some c

structure Linked (s₀ s : Link) : Prop extends Opened s₀ s where
  bound : Aligned (s.device, s.conn)

structure Denied (s₀ s : Link) : Prop extends Begun s₀ s where
  trace : s.trace = (.refused, s₀.connected) :: (.opened, s₀.connected) :: s₀.trace

/-- After a step with the result `ok`. -/
def Stepped (s₀ : Link) (ok : Bool) (s : Link) : Prop := if ok then Linked s₀ s else Denied s₀ s

theorem not_refusedRetry {e : LinkEvent × Bool} {past : List (LinkEvent × Bool)}
    (he : ∀ ok, e.1 ≠ .configured ok) : ¬ RefusedRetry e past := fun ⟨ok, h, _⟩ => he ok h

section configure
variable {s₀ s s' : Link}

theorem Idle.kept (h : Idle s) : Kept s := .inr (.inr ⟨h.toSound, h.no_worker⟩)

theorem Opened.sound (h₀ : Ready s₀) (h : Opened s₀ s) : Sound s := by
  refine ⟨?_, ?_, h.aligned⟩
  · rw [h.trace]
    exact consistent_cons.mpr ⟨h₀.synced, h₀.consistent⟩
  · rw [h.trace]
    exact clean_cons.mpr ⟨not_refusedRetry (by simp), h₀.clean⟩

theorem Denied.sound (h₀ : Ready s₀) (h : Denied s₀ s) : Sound s := by
  refine ⟨?_, ?_, h.aligned⟩
  · rw [h.trace]
    exact consistent_cons.mpr
      ⟨h₀.synced, consistent_cons.mpr ⟨h₀.synced, h₀.consistent⟩⟩
  · rw [h.trace]
    exact clean_cons.mpr
      ⟨not_refusedRetry (by simp), clean_cons.mpr ⟨not_refusedRetry (by simp), h₀.clean⟩⟩

theorem Begun.kept (h : Begun s₀ s) (hs : Sound s) : Kept s := .inr (.inr ⟨hs, h.no_worker⟩)

theorem Stepped.kept (h₀ : Ready s₀) {ok : Bool} (h : Stepped s₀ ok s) : Kept s := by
  cases ok with
  | true =>
      have hlinked : Linked s₀ s := h
      exact hlinked.toBegun.kept (hlinked.sound h₀)
  | false =>
      have hdenied : Denied s₀ s := h
      exact hdenied.toBegun.kept (hdenied.sound h₀)

theorem Opened.denied (h : Opened s₀ s) : Denied s₀ (s.log .refused) := by
  refine ⟨⟨h.no_worker, h.connected, h.aligned⟩, ?_⟩
  show (LinkEvent.refused, s.connected) :: s.trace = _
  rw [h.connected, h.trace]

theorem Linked.use (h : Linked s₀ s) : Linked s₀ s.use := by
  refine ⟨⟨⟨h.no_worker, h.connected, fun u hu => ?_⟩, h.trace, h.held⟩, h.bound⟩
  rcases List.mem_cons.mp hu with rfl | hu
  · exact h.bound
  · exact h.aligned u hu

theorem Linked.answered (h : Linked s₀ s) (ok : Bool) : Stepped s₀ ok (s.answered ok) := by
  cases ok with
  | true => exact h
  | false => exact h.toOpened.denied

theorem command_sat (h₀ : Ready s₀) (h : Linked s₀ s) (c : MipCommand) :
    Sat link Kept (imu (.command c)) (Stepped s₀) s := by
  intro ack s' hstep
  obtain ⟨-, rfl⟩ := effect_of_link h.no_worker hstep
  have h' : Stepped s₀ ack (s.after (.command c) ack) := h.use.answered ack
  exact ⟨h'.kept h₀, h'⟩

/-- Run lemma: steps in their order. -/
theorem inSequence_sat {steps : List (ImuM Bool)}
    (hsteps : ∀ p ∈ steps, ∀ s, Linked s₀ s → Sat link Kept p (Stepped s₀) s)
    (h : Linked s₀ s) : Sat link Kept (inSequence steps) (Stepped s₀) s := by
  induction steps generalizing s with
  | nil => exact h
  | cons p rest ih =>
      refine (hsteps p List.mem_cons_self s h).bind ?_
      intro ok s' hok
      cases ok with
      | false => exact hok
      | true => exact ih (fun q hq => hsteps q (List.mem_cons_of_mem _ hq)) hok

theorem commands_sat (h₀ : Ready s₀) (h : Linked s₀ s) (commands : List MipCommand) :
    Sat link Kept (inSequence (commands.map fun c => imu (.command c))) (Stepped s₀) s := by
  refine inSequence_sat (fun p hp s hs => ?_) h
  obtain ⟨c, -, rfl⟩ := List.mem_map.mp hp
  exact command_sat h₀ hs c

theorem configureFilterStream_sat (h₀ : Ready s₀) (h : Linked s₀ s) :
    Sat link Kept configureFilterStream (Stepped s₀) s := by
  unfold configureFilterStream
  rintro ⟨ack, baseRate⟩ s' hstep
  obtain ⟨-, rfl⟩ := effect_of_link h.no_worker hstep
  have h' : Stepped s₀ (ack && rateOk baseRate) (s.after .getBaseRate (ack, baseRate)) :=
    h.use.answered _
  refine ⟨h'.kept h₀, ?_⟩
  cases ack with
  | false => exact h'
  | true =>
      show Sat link Kept (if !rateOk baseRate then .ret false else _) _ _
      cases hrate : rateOk baseRate with
      | false =>
          rw [hrate] at h'
          exact h'
      | true =>
          rw [hrate] at h'
          exact commands_sat h₀ h' [_]

theorem configureDevice_sat (h₀ : Ready s₀) (h : Linked s₀ s) :
    Sat link Kept configureDevice (Stepped s₀) s := by
  refine inSequence_sat (fun p hp s hs => ?_) h
  simp only [List.mem_cons, List.not_mem_nil, or_false] at hp
  rcases hp with rfl | rfl | rfl | rfl | rfl
  · exact commands_sat h₀ hs [_, _]
  · exact commands_sat h₀ hs [_]
  · exact configureFilterStream_sat h₀ hs
  · exact commands_sat h₀ hs [_, _]
  · exact commands_sat h₀ hs [_]

/-- The flag goes up, on a device that is bound to the new connection. -/
structure Raised (s₀ s : Link) : Prop extends Sound s, Established s where
  no_worker : s.worker = none
  trace : s.trace = (.opened, s₀.connected) :: s₀.trace

theorem configureSteps_sat (h₀ : Ready s₀) :
    Sat link Kept configureSteps (fun ok s => if ok then Raised s₀ s else Denied s₀ s) s₀ := by
  intro _ s₁ hmake
  obtain ⟨-, rfl⟩ := effect_of_link h₀.no_worker hmake
  have h₁ : Opened s₀ (s₀.after .makeConnection ()) :=
    ⟨⟨h₀.no_worker, rfl, h₀.aligned⟩, rfl, _, rfl⟩
  refine ⟨h₁.kept (h₁.sound h₀), ?_⟩
  intro ok s₂ hconnect
  obtain ⟨-, rfl⟩ := effect_of_link h₁.no_worker hconnect
  cases ok with
  | false => exact ⟨h₁.denied.kept (h₁.denied.sound h₀), h₁.denied⟩
  | true =>
      refine ⟨h₁.kept (h₁.sound h₀), ?_⟩
      intro _ s₃ hdevice
      obtain ⟨-, rfl⟩ := effect_of_link h₁.no_worker hdevice
      have h₃ : Linked s₀ ((s₀.after .makeConnection ()).after .makeInterface ()) :=
        ⟨⟨⟨h₁.no_worker, h₁.connected, h₁.aligned⟩, h₁.trace, h₁.held⟩, _, rfl⟩
      refine ⟨h₃.kept (h₃.sound h₀), ?_⟩
      refine (configureDevice_sat h₀ h₃).bind ?_
      intro ok s₄ h₄
      cases ok with
      | false => exact h₄
      | true =>
          have hlinked : Linked s₀ s₄ := h₄
          have hsound := hlinked.sound h₀
          intro _ s₅ hstore
          obtain ⟨-, rfl⟩ := effect_of_link hlinked.no_worker hstore
          have h₅ : Raised s₀ (s₄.after (.storeConnected true) ()) :=
            ⟨⟨hsound.consistent, hsound.clean, hsound.aligned⟩, ⟨rfl, hlinked.bound⟩,
              hlinked.no_worker, hlinked.trace⟩
          exact ⟨.inr (.inr ⟨h₅.toSound, h₅.no_worker⟩), h₅⟩

structure Configured (s : Link) : Prop extends Idle s where
  up : s.connected = true

/-- A refused retry leaves the flag up. -/
theorem Denied.broken (hup : s₀.connected = true)
    (hretry : s₀.trace.head?.map Prod.fst = some (.created false)) (h : Denied s₀ s) :
    Broken (s.log (.configured false)) := by
  constructor
  · intro hcon
    have hlie : s.connected = false := (consistent_cons.mp hcon).1
    rw [h.connected, hup] at hlie
    cases hlie
  · intro hclean
    refine (clean_cons.mp hclean).1 ⟨false, rfl, ?_⟩
    rw [h.trace]
    obtain ⟨e, past, htrace⟩ : ∃ e past, s₀.trace = e :: past := by
      cases htrace : s₀.trace with
      | nil => simp [htrace] at hretry
      | cons e past => exact ⟨e, past, rfl⟩
    rw [htrace] at hretry ⊢
    have he : e.1 = .created false := by simpa using hretry
    simp only [List.map_cons, he]
    exact List.prefix_append [_, _, _] _

/-- A refused first attempt leaves it down. -/
theorem Denied.ready (h₀ : Ready s₀) (hdown : s₀.connected = false) (h : Denied s₀ s) :
    Ready (s.log (.configured false)) := by
  have hsound := h.sound h₀
  have hs : s.connected = false := h.connected.trans hdown
  refine ⟨⟨⟨?_, ?_, hsound.aligned⟩, h.no_worker, hs, ?_⟩, ?_⟩
  · exact consistent_cons.mpr ⟨hs, hsound.consistent⟩
  · refine clean_cons.mpr ⟨?_, hsound.clean⟩
    rintro ⟨ok, -, hprefix⟩
    rw [h.trace] at hprefix
    obtain ⟨rest, hrest⟩ := hprefix
    simp only [List.map_cons, List.cons_append, List.nil_append, List.cons.injEq, true_and] at hrest
    have hup := h₀.retry.mpr (by rw [← List.head?_map, ← hrest]; rfl)
    rw [hdown] at hup
    cases hup
  · intro hup
    exact absurd (hs.symm.trans hup) (by simp)
  · show s.connected = true ↔ _
    simp [hs, Link.log]

theorem Raised.configured (h : Raised s₀ s) : Configured (s.log (.configured true)) := by
  refine ⟨⟨⟨?_, ?_, h.aligned⟩, h.no_worker, h.connected, fun _ => h.bound⟩, h.connected⟩
  · exact consistent_cons.mpr ⟨h.connected, h.consistent⟩
  · refine clean_cons.mpr ⟨?_, h.clean⟩
    rintro ⟨ok, -, hprefix⟩
    rw [h.trace] at hprefix
    obtain ⟨rest, hrest⟩ := hprefix
    simp at hrest

theorem configure_sat (h₀ : Ready s₀) :
    Sat link Kept configure
      (fun ok s => Broken s ∨ if ok then Configured s else Ready s) s₀ := by
  refine (configureSteps_sat h₀).bind ?_
  intro ok s h
  cases ok with
  | true =>
      have hraised : Raised s₀ s := h
      intro _ s' hnote
      obtain ⟨-, rfl⟩ := effect_of_link hraised.no_worker hnote
      exact ⟨hraised.configured.toIdle.kept, .inr hraised.configured⟩
  | false =>
      have hdenied : Denied s₀ s := h
      intro _ s' hnote
      obtain ⟨-, rfl⟩ := effect_of_link hdenied.no_worker hnote
      cases hup : s₀.connected with
      | true =>
          have hbroken := hdenied.broken hup (h₀.retry.mp hup)
          exact ⟨.inl hbroken, .inl hbroken⟩
      | false =>
          have hready := hdenied.ready h₀ hup
          exact ⟨hready.toIdle.kept, .inr hready⟩

end configure

/-! ### The owner's calls -/

section owner
variable {s s' : Link}

/-- The thread is created, or the flag stays up without one. -/
theorem create_sat (h : Configured s) :
    Sat link Kept (imu (.sys .pthreadCreate))
      (fun err s' => if err = (0 : ℤ) then Running s' else Ready s') s := by
  have hevent : ∀ ok, Sound (s.log (.created ok)) := fun ok =>
    ⟨consistent_cons.mpr ⟨h.synced, h.consistent⟩,
      clean_cons.mpr ⟨not_refusedRetry (by simp), h.clean⟩, h.aligned⟩
  intro err s' hstep
  have heff := effect_of_link h.no_worker hstep
  by_cases herr : err = (0 : ℤ)
  · subst herr
    obtain ⟨n, t, rfl⟩ : ∃ n t, s' = { s.log (.created true) with worker := some (run n t) } := heff
    have hrun : Running { s.log (.created true) with worker := some (run n t) } := by
      refine ⟨⟨(hevent true).consistent, (hevent true).clean, (hevent true).aligned⟩,
        ⟨h.up, h.bound h.up⟩, h.synced, ?_⟩
      intro p hp
      cases hp
      exact run_loopCalls n t
    exact ⟨.inr (.inl hrun), hrun⟩
  · simp only [Effect, herr, if_false] at heff
    obtain rfl := heff
    have hready : Ready (s.log (.created false)) :=
      ⟨⟨hevent false, h.no_worker, h.synced, h.bound⟩, iff_of_true h.up rfl⟩
    exact ⟨hready.toIdle.kept, by simpa [herr] using hready⟩

/-- The state between two calls of the owner. -/
def Between (started : Bool) (s : Link) : Prop :=
  Broken s ∨ if started then Running s else Ready s

theorem Between.kept {started : Bool} (h : Between started s) : Kept s := by
  rcases h with h | h
  · exact .inl h
  · cases started with
    | true => exact .inr (.inl h)
    | false => exact (Ready.toIdle h).kept

theorem start_sat {started : Bool} (h : Between started s) :
    Sat link Kept (start started) (fun r s' => Between r.2 s') s := by
  rcases h with h | h
  · exact (h.sat _).mono fun _ _ h' => .inl h'
  cases started with
  | true => exact .inr h
  | false =>
      refine (configure_sat h).bind ?_
      rintro ok s₁ (h₁ | h₁)
      · exact (h₁.sat _).mono fun _ _ h' => .inl h'
      cases ok with
      | false => exact .inr h₁
      | true =>
          refine (create_sat h₁).bind ?_
          intro err s₂ h₂
          by_cases herr : err = (0 : ℤ)
          · simp only [herr, if_true] at h₂
            simpa [herr, Between] using Or.inr h₂
          · simp only [herr, if_false] at h₂
            simpa [herr, Between] using Or.inr h₂

/-- The end of `disconnect`. -/
theorem disconnected_sat (hs : Sound s) (hw : s.worker = none) (hdown : s.connected = false) :
    Sat link Kept (imu (.note .disconnected)) (fun _ s' => Ready s') s := by
  intro _ s' hstep
  obtain ⟨-, rfl⟩ := effect_of_link hw hstep
  have hready : Ready (s.log .disconnected) := by
    refine ⟨⟨⟨?_, ?_, hs.aligned⟩, hw, hdown, fun hup => ?_⟩, ?_⟩
    · exact consistent_cons.mpr ⟨hdown, hs.consistent⟩
    · exact clean_cons.mpr ⟨not_refusedRetry (by simp), hs.clean⟩
    · exact absurd (hdown.symm.trans hup) (by simp)
    · show s.connected = true ↔ _
      simp [hdown, Link.log]
  exact ⟨hready.toIdle.kept, hready⟩

theorem idleDevice_sat (h : Configured s) :
    Sat link Kept idleDevice (fun _ s' => Configured s') s := by
  intro device s' hstep
  obtain rfl : s = s' := (effect_of_link h.no_worker hstep).2.symm
  refine ⟨h.toIdle.kept, ?_⟩
  cases device with
  | false => exact h
  | true =>
      intro ack s'' hcommand
      obtain ⟨-, rfl⟩ := effect_of_link h.no_worker hcommand
      have huse : Configured s.use := by
        have hsound := h.toSound.use (h.bound h.up)
        exact ⟨⟨⟨hsound.consistent, hsound.clean, hsound.aligned⟩, h.no_worker, h.synced, h.bound⟩,
          h.up⟩
      have hanswered : Configured (s.use.answered ack) := by
        cases ack with
        | true => exact huse
        | false =>
            refine ⟨⟨⟨?_, ?_, huse.aligned⟩, huse.no_worker, huse.synced, huse.bound⟩, huse.up⟩
            · exact consistent_cons.mpr ⟨huse.synced, huse.consistent⟩
            · exact clean_cons.mpr ⟨not_refusedRetry (by simp), huse.clean⟩
      exact ⟨hanswered.toIdle.kept, hanswered⟩

theorem closePort_sat (h : Configured s) :
    Sat link Kept closePort (fun _ s' => Configured s') s := by
  intro isOpen s' hstep
  obtain rfl : s = s' := (effect_of_link h.no_worker hstep).2.symm
  refine ⟨h.toIdle.kept, ?_⟩
  cases isOpen with
  | false => exact h
  | true =>
      intro _ s'' hclose
      obtain rfl : s = s'' := (effect_of_link h.no_worker hclose).2.symm
      exact ⟨h.toIdle.kept, h⟩

theorem disconnect_sat (h : Idle s) : Sat link Kept disconnect (fun _ s' => Ready s') s := by
  intro connected s' hstep
  obtain ⟨hflag, hs'⟩ := effect_of_link h.no_worker hstep
  obtain rfl : s = s' := hs'.symm
  obtain rfl : connected = s.connected := hflag
  refine ⟨h.kept, ?_⟩
  cases hup : s.connected with
  | false => exact disconnected_sat h.toSound h.no_worker hup
  | true =>
      refine (idleDevice_sat ⟨h, hup⟩).bind fun _ s₁ h₁ => ?_
      refine (closePort_sat h₁).bind fun _ s₂ h₂ => ?_
      intro _ s₃ hstore
      obtain ⟨-, rfl⟩ := effect_of_link h₂.no_worker hstore
      have hsound : Sound (s₂.after (.storeConnected false) ()) :=
        ⟨h₂.consistent, h₂.clean, h₂.aligned⟩
      refine ⟨.inr (.inr ⟨hsound, h₂.no_worker⟩), ?_⟩
      exact disconnected_sat hsound h₂.no_worker rfl

theorem stop_sat {started : Bool} (h : Between started s) :
    Sat link Kept (stop started) (fun started' s' => started' = false ∧ Between false s') s := by
  cases started with
  | false => exact ⟨rfl, h⟩
  | true =>
      rcases h with h | h
      · refine (h.sat _).bind fun _ s₁ h₁ => (h₁.sat _).bind fun _ s₂ h₂ => ⟨rfl, .inl h₂⟩
      rintro _ s₂ ⟨s₁, hsteps, -, rfl⟩
      have h₁ : Running s₁ := Running.ownSteps h hsteps
      have hidle : Idle { s₁ with worker := none } :=
        ⟨⟨h₁.consistent, h₁.clean, h₁.aligned⟩, rfl, h₁.synced, fun _ => h₁.bound⟩
      refine ⟨hidle.kept, ?_⟩
      exact (disconnect_sat hidle).bind fun _ s₃ h₃ => ⟨rfl, .inr h₃⟩

theorem destroy_sat {started : Bool} (h : Between started s) :
    Sat link Kept (destroy started) (fun _ s' => Between false s') s := by
  have hthread : Sat link Kept (destroyThread started) (fun _ s' => Between false s') s := by
    cases started with
    | false => exact h
    | true => exact (stop_sat h).mono fun _ _ h' => h'.2
  refine hthread.bind ?_
  rintro _ s₁ (h₁ | h₁)
  · exact (h₁.sat _).mono fun _ _ h' => .inl h'
  · exact (disconnect_sat (Ready.toIdle h₁)).mono fun _ _ h' => .inr h'

/-- Run lemma: any calls of the owner, then the destructors. -/
theorem lifetime_sat (calls : List OwnerCall) {started : Bool} (h : Between started s) :
    Sat link Kept (lifetime calls started) (fun _ s' => Between false s') s := by
  induction calls generalizing started s with
  | nil => exact destroy_sat h
  | cons c calls ih =>
      cases c with
      | start => exact (start_sat h).bind fun r s' h' => ih h'
      | stop =>
          refine (stop_sat h).bind ?_
          rintro started' s' ⟨rfl, h'⟩
          exact ih h'

theorem Kept.ownSteps (h : Kept s) (hsteps : OwnSteps s s') : Kept s' := by
  rcases h with h | h | ⟨hsound, hw⟩
  · exact .inl (h.ownSteps hsteps)
  · exact .inr (.inl (h.ownSteps hsteps))
  · rw [ownSteps_none hw hsteps]
    exact .inr (.inr ⟨hsound, hw⟩)

/-- Where the invariant holds, the two properties are equivalent to the condition. -/
theorem Kept.iff (h : Kept s) :
    (Consistent s.trace ∧ ∀ u ∈ s.uses, Aligned u) ↔ Clean s.trace := by
  have hsound : Sound s →
      ((Consistent s.trace ∧ ∀ u ∈ s.uses, Aligned u) ↔ Clean s.trace) := fun hs =>
    iff_of_true ⟨hs.consistent, hs.aligned⟩ hs.clean
  rcases h with ⟨hcon, hclean⟩ | h | ⟨h, -⟩
  · exact iff_of_false (fun h' => hcon h'.1) hclean
  · exact hsound h.toSound
  · exact hsound h

end owner

/-- **The connection is alive, if and only if no retry fails.**  For any calls of the owner and any
answers, at every moment (also while the loop goes on): at each event the flag was up exactly if
the last `configure` had succeeded and no `disconnect` had been completed since, and each command
and update went to an interface bound to the connection in `conn_`, if and only if no `configure`
that directly followed a failed `pthread_create` was refused anything. -/
theorem connected_iff_clean {calls : List OwnerCall} {s s' : Link} {o : Option Unit}
    (h : Runs link (lifetime calls false) {} s o) (hsteps : OwnSteps s s') :
    (Consistent s'.trace ∧ ∀ u ∈ s'.uses, Aligned u) ↔ Clean s'.trace := by
  have hinit : Ready {} :=
    ⟨⟨⟨each_nil, each_nil, by simp⟩, rfl, rfl, fun h => by cases h⟩, by simp⟩
  have hkept := (h.sat (lifetime_sat calls (.inr hinit)) hinit.toIdle.kept).1
  exact (hkept.ownSteps hsteps).iff

/-! ### A failed `pthread_create`, and a retry -/

def Link.useTimes (s : Link) (n : ℕ) : Link :=
  { s with uses := List.replicate n (s.device, s.conn) ++ s.uses }

theorem command_link (s : Link) (c : MipCommand) : link s (.command c) true s.use :=
  ⟨s, .refl, trivial, rfl⟩

theorem getBaseRate_link (s : Link) : link s .getBaseRate (true, 500) s.use :=
  ⟨s, .refl, trivial, rfl⟩

/-- All commands are acknowledged, and the base rate is 500 Hz. -/
theorem configureDevice_run (s : Link) :
    Runs link configureDevice s (s.useTimes 8) (some true) := by
  have hcommand (c : MipCommand) (n : ℕ) :
      link (s.useTimes n) (.command c) true (s.useTimes (n + 1)) := command_link _ c
  have hrate (n : ℕ) : link (s.useTimes n) .getBaseRate (true, 500) (s.useTimes (n + 1)) :=
    getBaseRate_link _
  show Runs link configureDevice (s.useTimes 0) (s.useTimes 8) (some true)
  exact .call (hcommand _ 0) (.call (hcommand _ 1) (.call (hcommand _ 2) (.call (hrate 3)
    (.call (hcommand _ 4) (.call (hcommand _ 5) (.call (hcommand _ 6) (.call (hcommand _ 7)
      (.ret _ _))))))))

def Link.opened (s : Link) : Link := s.after .makeConnection ()

def Link.configured (s : Link) : Link :=
  let s := { s.opened with device := s.opened.conn }.useTimes 8
  { s with connected := true }.log (.configured true)

theorem configure_run (s : Link) : Runs link configure s s.configured (some true) := by
  have hmake : link s .makeConnection () s.opened := ⟨s, .refl, trivial, rfl⟩
  have hconnect : link s.opened .connect true s.opened := ⟨_, .refl, trivial, rfl⟩
  have hdevice : link s.opened .makeInterface () { s.opened with device := s.opened.conn } :=
    ⟨_, .refl, trivial, rfl⟩
  have hstore (s' : Link) : link s' (.storeConnected true) () { s' with connected := true } :=
    ⟨s', .refl, trivial, rfl⟩
  have hnote (s' : Link) : link s' (.note (.configured true)) () (s'.log (.configured true)) :=
    ⟨s', .refl, trivial, rfl⟩
  have hsteps : Runs link configureSteps s
      { ({ s.opened with device := s.opened.conn }.useTimes 8) with connected := true }
      (some true) :=
    .call hmake (.call hconnect (.call hdevice
      ((configureDevice_run _).bind (.call (hstore _) (.ret _ _)))))
  exact hsteps.bind (.call (hnote _) (.ret _ _))

theorem threadless_run (s : Link) :
    Runs link (start false) s (s.configured.log (.created false)) (some (11, false)) := by
  have hcreate : link s.configured (.sys .pthreadCreate) (11 : ℤ)
      (s.configured.log (.created false)) := ⟨_, .refl, rfl⟩
  exact (configure_run s).bind (.call hcreate (.ret _ _))

def Link.unplugged (s : Link) : Link := (s.opened.log .refused).log (.configured false)

theorem unplugged_run (s : Link) :
    Runs link (start false) s s.unplugged (some (-1, false)) := by
  have hmake : link s .makeConnection () s.opened := ⟨s, .refl, trivial, rfl⟩
  have hconnect : link s.opened .connect false (s.opened.log .refused) := ⟨_, .refl, trivial, rfl⟩
  have hnote : link (s.opened.log .refused) (.note (.configured false)) () s.unplugged :=
    ⟨_, .refl, trivial, rfl⟩
  exact .call hmake (.call hconnect (.call hnote (.ret _ _)))

def Link.released (s : Link) : Link := { s.use with connected := false }.log .disconnected

theorem disconnect_run {s : Link} (hup : s.connected = true) (hdevice : s.device.isSome = true)
    (hconn : s.conn.isSome = true) : Runs link disconnect s s.released (some ()) := by
  have hload : link s .loadConnected true s := ⟨s, .refl, hup.symm, rfl⟩
  have hhas : link s .hasDevice true s := ⟨s, .refl, hdevice.symm, rfl⟩
  have hopen : link s.use .isConnected true s.use := ⟨_, .refl, fun _ => hconn, rfl⟩
  have hclose : link s.use .closeConnection () s.use := ⟨_, .refl, trivial, rfl⟩
  have hstore : link s.use (.storeConnected false) () { s.use with connected := false } :=
    ⟨_, .refl, trivial, rfl⟩
  have hnote : link { s.use with connected := false } (.note .disconnected) () s.released :=
    ⟨_, .refl, trivial, rfl⟩
  have hidle : Runs link idleDevice s s.use (some ()) :=
    .call hhas (.call (command_link s .setIdle) (.ret _ _))
  have hport : Runs link closePort s.use s.use (some ()) := .call hopen (.call hclose (.ret _ _))
  exact .call hload (hidle.bind (hport.bind (.call hstore (.call hnote (.ret _ _)))))

/-- The members after a first `start()` without a thread. -/
def firstTry : Link := (Link.configured {}).log (.created false)

/-- **The device is used over a dead connection.**  The thread cannot be created, then the
connection cannot be opened again: the flag is up although the last `configure` failed, and the
destructor commands the interface that is bound to the first connection. -/
theorem dead_connection_used : ∃ s,
    Runs link (lifetime [.start, .start] false) {} s (some ()) ∧
    (.configured false, true) ∈ s.trace ∧ ¬ Consistent s.trace ∧
    (some 0, some 1) ∈ s.uses ∧ ¬ Aligned (some 0, some 1) := by
  have hdestroy : Runs link (destroy false) firstTry.unplugged firstTry.unplugged.released
      (some ()) := disconnect_run rfl rfl rfl
  refine ⟨firstTry.unplugged.released, ?_, ?_, ?_, ?_, ?_⟩
  · exact (threadless_run {}).bind ((unplugged_run firstTry).bind hdestroy)
  · exact List.mem_cons_of_mem _ List.mem_cons_self
  · decide
  · exact List.mem_cons_self
  · rintro ⟨c, hc⟩
    cases hc

/-- A retry that is not refused anything uses the new connection. -/
theorem connected_iff_clean_retry : ∃ s,
    Runs link (lifetime [.start, .start] false) {} s (some ()) ∧
    s.device = some 1 ∧ Consistent s.trace ∧ ∀ u ∈ s.uses, Aligned u := by
  have hdestroy : Runs link (destroy false) (firstTry.configured.log (.created false))
      (firstTry.configured.log (.created false)).released (some ()) := disconnect_run rfl rfl rfl
  have hrun : Runs link (lifetime [.start, .start] false) {}
      (firstTry.configured.log (.created false)).released (some ()) :=
    (threadless_run {}).bind ((threadless_run firstTry).bind hdestroy)
  have hclean : Clean (firstTry.configured.log (.created false)).released.trace := by decide
  exact ⟨_, hrun, rfl, (connected_iff_clean hrun .refl).mpr hclean⟩

end ImuLink

end Qub
