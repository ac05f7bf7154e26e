import QubController.ReadBack

/-! # The dry run

A dry run prints the frames that the command would send.  The frames of a run are read off its
record: those that it attempts to write on a channel, or those that it prints.  `plan` lists
the frames of a command that change the state of a motor.  A dry run prints the plan, and a
real run follows it on every path (`runCommand_follows`), so that the preview is right:
`dry_run_predicts`. -/

namespace Qub

open Interaction

namespace MotorConfig

/-! ### The frames of a run -/

/-- A frame as it is printed: channel, identifier and data. -/
structure SentFrame where
  channelIdx : Fin numChannels
  rawId : UInt32
  data : Fin 8 → UInt8
deriving DecidableEq

def SentFrame.commType (f : SentFrame) : UInt8 := (extendedFrame f.rawId f.data).commType

/-- All frames but the queries. -/
def SentFrame.changesState (f : SentFrame) : Bool :=
  f.commType != CommType.getId.code && f.commType != CommType.paramRead.code

/-- The frame that a call attempts to write. -/
def writtenBy : SysCall → Option SentFrame
  | .canWrite ch msg => some ⟨ch, msg.id, msg.data⟩
  | _ => none

/-- The frame that a call prints. -/
def printedBy : SysCall → Option SentFrame
  | .printDryRun ch rawId data => some ⟨ch, rawId, data⟩
  | _ => none

/-- The calls that access a channel. -/
def IsCanAccess : SysCall → Prop
  | .canInitialize _ => True
  | .canWrite _ _ => True
  | .canRead _ => True
  | _ => False

/-- The state-changing frames of a run, in their order. -/
def changes (sent : SysCall → Option SentFrame) (log : List (Event Sys)) : List SentFrame :=
  (log.filterMap fun e => sent e.call).filter SentFrame.changesState

section changes
variable {sent : SysCall → Option SentFrame} {c : SysCall}

theorem changes_append (log : List (Event Sys)) (r : c.Resp) :
    changes sent (log ++ [⟨c, r⟩]) =
      changes sent log ++ (sent c).toList.filter SentFrame.changesState := by
  unfold changes
  rw [List.filterMap_append, List.filter_append]
  cases h : sent c <;> simp [h]

/-- The call sends no state-changing frame. -/
def Neutral (sent : SysCall → Option SentFrame) (c : SysCall) : Prop :=
  ∀ f, sent c = some f → f.changesState = false

theorem Neutral.changes (h : Neutral sent c) (log : List (Event Sys)) (r : c.Resp) :
    changes sent (log ++ [⟨c, r⟩]) = changes sent log := by
  rw [changes_append]
  cases hsent : sent c with
  | none => simp
  | some f => simp [h f hsent]

/-- The call sends a state-changing frame. -/
theorem changes_sent {f : SentFrame} (h : sent c = some f) (hf : f.changesState = true)
    (log : List (Event Sys)) (r : c.Resp) :
    changes sent (log ++ [⟨c, r⟩]) = changes sent log ++ [f] := by
  rw [changes_append]
  simp [h, hf]

theorem neutral_of_none (h : sent c = none) : Neutral sent c := by
  intro f hf
  rw [h] at hf
  cases hf

/-- A program of neutral calls sends no state-changing frame. -/
theorem changes_neutral {α : Type} {p : SysM α} (hp : p.Only (Neutral sent))
    (log : List (Event Sys)) : Sat World.record (fun _ => True) p
      (fun _ log' => changes sent log' = changes sent log) log := by
  refine hp.sat ?_ rfl
  rintro log₁ c r _ hc heq rfl
  exact ⟨trivial, (hc.changes log₁ r).trans heq⟩

end changes

section frames
variable (bus : CanBus) (t : CommType) (motorId : UInt8) (data : Fin 8 → UInt8)

theorem commType_host :
    (⟨bus.channelIdx, bus.hostExtId t motorId, data⟩ : SentFrame).commType = t.code :=
  commType_hostExtId bus motorId t data

theorem commType_setId (oldId newId : UInt8) :
    (⟨bus.channelIdx, bus.setIdExtId oldId newId, data⟩ : SentFrame).commType =
      CommType.setCanId.code := by
  show (extendedFrame _ _).commType = _
  rw [CanBus.setIdExtId, commType_buildExtId, CommType.code_and]

theorem changesState_setId (oldId newId : UInt8) :
    (⟨bus.channelIdx, bus.setIdExtId oldId newId, data⟩ : SentFrame).changesState = true := by
  unfold SentFrame.changesState
  rw [commType_setId]
  rfl

theorem changesState_host :
    (⟨bus.channelIdx, bus.hostExtId t motorId, data⟩ : SentFrame).changesState =
      (t != .getId && t != .paramRead) := by
  unfold SentFrame.changesState
  rw [commType_host]
  cases t <;> rfl

end frames

/-! ### The plan of a command -/

/-- The state-changing frames of a command. -/
def plan (config : Config) : Command → List SentFrame
  | .scan _ _ _ => []
  | .get _ _ => []
  | .setId ch oldId newId =>
      if oldId = newId then []
      else [⟨ch, CanBus.hostExtId ⟨config, ch⟩ .stop oldId, zeroData⟩,
        ⟨ch, CanBus.setIdExtId ⟨config, ch⟩ oldId newId, zeroData⟩]
  | .setZero ch motorId =>
      [⟨ch, CanBus.hostExtId ⟨config, ch⟩ .stop motorId, zeroData⟩,
        ⟨ch, CanBus.hostExtId ⟨config, ch⟩ .setZero motorId, Function.update zeroData 0 1⟩]

/-- A plan never enables, commands or configures a motor. -/
theorem plan_commType {config : Config} {cmd : Command} {f : SentFrame} (h : f ∈ plan config cmd) :
    f.commType = CommType.stop.code ∨ f.commType = CommType.setCanId.code ∨
      f.commType = CommType.setZero.code := by
  cases cmd with
  | scan ch minimum maximum => simp [plan] at h
  | get ch motorId => simp [plan] at h
  | setId ch oldId newId =>
      simp only [plan] at h
      split at h
      · cases h
      · rcases List.mem_pair.mp h with rfl | rfl
        · exact .inl (commType_host ⟨config, ch⟩ _ _ _)
        · exact .inr (.inl (commType_setId ⟨config, ch⟩ _ _ _))
  | setZero ch motorId =>
      rcases List.mem_pair.mp h with rfl | rfl
      · exact .inl (commType_host ⟨config, ch⟩ _ _ _)
      · exact .inr (.inr (commType_host ⟨config, ch⟩ _ _ _))

/-! ### A dry run prints the plan -/

section dry
variable {bus : CanBus}

theorem drain_dry (hdry : bus.config.dryRun = true) (n : ℕ) : bus.drain n = .ret () := by
  unfold CanBus.drain CanBus.drainLoop CanBus.receive
  rw [hdry]
  rfl

theorem send_dry (hdry : bus.config.dryRun = true) (rawId : UInt32) (data : Fin 8 → UInt8) :
    bus.send rawId data =
      Prog.call (I := Sys) (.printDryRun bus.channelIdx rawId data) fun _ => .ret true := by
  unfold CanBus.send
  rw [hdry]
  rfl

/-- A query of a dry run prints its frame, unless there are no attempts. -/
theorem getDevice_dry (hdry : bus.config.dryRun = true) (n : ℕ) (motorId : UInt8) :
    bus.getDevice n motorId = if bus.config.retries = 0 then .ret none else
      Prog.call (I := Sys) (.printDryRun bus.channelIdx (bus.hostExtId .getId motorId) zeroData)
        fun _ => .ret (some ⟨motorId, zeroData⟩) := by
  unfold CanBus.getDevice
  cases bus.config.retries with
  | zero => rfl
  | succ attempts =>
      unfold CanBus.getDeviceLoop
      rw [drain_dry hdry, send_dry hdry, hdry]
      rfl

/-- The calls of a dry run. -/
def IsDry : SysCall → Prop
  | .printDryRun _ _ _ => True
  | .sleepFor _ => True
  | _ => False

/-- The program makes no access to a channel, returns, and prints the frames `frames`. -/
structure Previews {α : Type} (frames : List SentFrame) (p : SysM α) : Prop where
  only : p.Only IsDry
  total : p.Total
  printed : Sat World.record (fun _ => True) p (fun _ log => changes printedBy log = frames) []

/-- A run of calls of a dry run writes nothing. -/
theorem not_written {α : Type} {p : SysM α} (hp : p.Only IsDry) {log : List (Event Sys)}
    {o : Option α} (hrun : Runs World.record p [] log o) : ∀ e ∈ log, writtenBy e.call = none := by
  have hsat : Sat World.record (fun log => ∀ e ∈ log, writtenBy e.call = none) p
      (fun _ log => ∀ e ∈ log, writtenBy e.call = none) [] := by
    refine hp.sat ?_ (by simp)
    rintro log₁ c r _ hc hlog rfl
    have hstep : ∀ e ∈ log₁ ++ [⟨c, r⟩], writtenBy e.call = none := by
      intro e he
      rcases List.mem_append.mp he with he | he
      · exact hlog e he
      · rw [List.mem_singleton.mp he]
        cases c with
        | canWrite ch msg => exact hc.elim
        | _ => rfl
    exact ⟨hstep, hstep⟩
  exact (hrun.sat hsat (by simp)).1

/-- Queries only. -/
theorem previews_nil {α : Type} {p : SysM α}
    (hp : p.Only fun c => IsDry c ∧ Neutral printedBy c) (htotal : p.Total) : Previews [] p where
  only := hp.mono fun _ h => h.1
  total := htotal
  printed := changes_neutral (hp.mono fun _ h => h.2) []

theorem neutral_print (bus : CanBus) (motorId : UInt8) : Neutral printedBy
    (.printDryRun bus.channelIdx (bus.hostExtId .getId motorId) zeroData) := by
  rintro f hf
  obtain rfl := Option.some.inj hf
  exact changesState_host bus .getId motorId zeroData

theorem getDevice_query (bus : CanBus) (hdry : bus.config.dryRun = true) (n : ℕ) (motorId : UInt8) :
    (bus.getDevice n motorId).Only (fun c => IsDry c ∧ Neutral printedBy c) ∧
      (bus.getDevice n motorId).Total := by
  rw [getDevice_dry hdry]
  split
  · exact ⟨trivial, trivial⟩
  · exact ⟨⟨⟨trivial, neutral_print bus motorId⟩, fun _ => trivial⟩, fun _ => trivial⟩

theorem init_dry {config : Config} (hdry : config.dryRun = true) (ch : Fin numChannels) :
    CanBus.init config ch = .ret (some ⟨config, ch⟩) := by
  unfold CanBus.init
  rw [hdry]
  rfl

theorem scanChannels_query {config : Config} (hdry : config.dryRun = true) (n minimum maximum : ℕ)
    (channels : List (Fin numChannels)) :
    (scanChannels config n minimum maximum channels).Only
        (fun c => IsDry c ∧ Neutral printedBy c) ∧
      (scanChannels config n minimum maximum channels).Total := by
  induction channels with
  | nil => exact ⟨trivial, trivial⟩
  | cons ch rest ih =>
      obtain ⟨honly, htotal⟩ :=
        getDevice_query ⟨config, ch⟩ hdry n (UInt8.ofNat minimum)
      rw [scanChannels, init_dry hdry]
      simp only [Prog.ret_bind, hdry, if_true]
      exact ⟨honly.bind fun _ => ih.1, htotal.bind fun _ => ih.2⟩

theorem confirmDestructive_dry (hdry : bus.config.dryRun = true) :
    bus.confirmDestructive = .ret true := by
  unfold CanBus.confirmDestructive
  rw [hdry, Bool.or_true]
  rfl

theorem changeId_dry (bus : CanBus) (hdry : bus.config.dryRun = true) (n : ℕ)
    (oldId newId : UInt8) :
    bus.changeId n oldId newId none =
      Prog.call (I := Sys) (.printDryRun bus.channelIdx (bus.hostExtId .stop oldId) zeroData)
        fun _ => Prog.call (I := Sys)
          (.printDryRun bus.channelIdx (bus.setIdExtId oldId newId) zeroData)
          fun _ => .ret .dryRun := by
  unfold CanBus.changeId CanBus.sendStop CanBus.sendSetId
  rw [confirmDestructive_dry hdry, drain_dry hdry, send_dry hdry, send_dry hdry, hdry]
  rfl

theorem stopAndSetZero_dry (bus : CanBus) (hdry : bus.config.dryRun = true) (n : ℕ)
    (motorId : UInt8) :
    bus.stopAndSetZero n motorId =
      Prog.call (I := Sys) (.printDryRun bus.channelIdx (bus.hostExtId .stop motorId) zeroData)
        fun _ => Prog.call (I := Sys) (.sleepFor 20000000) fun _ => Prog.call (I := Sys)
          (.printDryRun bus.channelIdx (bus.hostExtId .setZero motorId)
            (Function.update zeroData 0 1))
          fun _ => .ret .dryRun := by
  unfold CanBus.stopAndSetZero CanBus.setZero CanBus.sendStop CanBus.sendSetZero
  rw [confirmDestructive_dry hdry, drain_dry hdry, send_dry hdry, send_dry hdry, hdry]
  rfl

theorem scan_previews {config : Config} (hdry : config.dryRun = true) (n : ℕ)
    (channel : Option (Fin numChannels)) (minimum maximum : ℕ) :
    Previews [] (commandScan config channel n minimum maximum) := by
  rw [commandScan]
  apply previews_nil
  · split
    · trivial
    · refine (scanChannels_query hdry n minimum maximum _).1.bind fun total => ?_
      trivial
  · split
    · trivial
    · refine (scanChannels_query hdry n minimum maximum _).2.bind fun total => ?_
      trivial

theorem setId_previews {config : Config} (hdry : config.dryRun = true) (n : ℕ)
    (ch : Fin numChannels) (oldId newId : UInt8) :
    Previews (plan config (.setId ch oldId newId)) (mainSetId config ch n oldId newId) := by
  rw [mainSetId, init_dry hdry]
  simp only [Prog.ret_bind, CanBus.commandSetId, plan]
  by_cases hids : oldId = newId
  · simp only [if_pos hids]
    exact previews_nil trivial trivial
  · simp only [if_neg hids, hdry, if_true, changeId_dry ⟨config, ch⟩ hdry]
    refine ⟨⟨trivial, fun _ => ⟨trivial, fun _ => trivial⟩⟩, fun _ _ => trivial, ?_⟩
    rintro _ _ rfl
    refine ⟨trivial, ?_⟩
    rintro _ _ rfl
    refine ⟨trivial, ?_⟩
    show changes printedBy (([] ++ [_]) ++ [_]) = _
    rw [changes_sent rfl (changesState_setId ⟨config, ch⟩ zeroData oldId newId),
      changes_sent rfl (changesState_host ⟨config, ch⟩ .stop oldId zeroData)]
    rfl

theorem setZero_previews {config : Config} (hdry : config.dryRun = true) (n : ℕ)
    (ch : Fin numChannels) (motorId : UInt8) :
    Previews (plan config (.setZero ch motorId)) (runCommand config n (.setZero ch motorId)) := by
  rw [runCommand, init_dry hdry]
  simp only [Prog.ret_bind, CanBus.commandSetZero, hdry, if_true,
    stopAndSetZero_dry ⟨config, ch⟩ hdry, plan]
  refine ⟨⟨trivial, fun _ => ⟨trivial, fun _ => ⟨trivial, fun _ => trivial⟩⟩⟩,
    fun _ _ _ => trivial, ?_⟩
  rintro _ _ rfl
  refine ⟨trivial, ?_⟩
  rintro _ _ rfl
  refine ⟨trivial, ?_⟩
  rintro _ _ rfl
  refine ⟨trivial, ?_⟩
  have hsleep : Neutral printedBy (.sleepFor 20000000) := neutral_of_none rfl
  show changes printedBy ((([] ++ [_]) ++ [_]) ++ [_]) = _
  rw [changes_sent rfl (changesState_host ⟨config, ch⟩ .setZero motorId _),
    hsleep.changes, changes_sent rfl (changesState_host ⟨config, ch⟩ .stop motorId zeroData)]
  rfl

/-- **What a dry run prints.** -/
theorem runCommand_previews {config : Config} (hdry : config.dryRun = true) (n : ℕ)
    (cmd : Command) : Previews (plan config cmd) (runCommand config n cmd) := by
  cases cmd with
  | scan channel minimum maximum => exact scan_previews hdry n channel minimum maximum
  | get ch motorId =>
      rw [runCommand, init_dry hdry]
      obtain ⟨honly, htotal⟩ := getDevice_query ⟨config, ch⟩ hdry n motorId
      exact previews_nil (honly.bind fun _ => trivial) (htotal.bind fun _ => trivial)
  | setId ch oldId newId => exact setId_previews hdry n ch oldId newId
  | setZero ch motorId => exact setZero_previews hdry n ch motorId

end dry

/-! ### A real run follows the plan -/

/-- After the frames `done` of the plan, `p` keeps to the plan at every moment and ends with
`Q`. -/
def Follows {α : Type} (frames : List SentFrame) (p : SysM α) (Q : α → List SentFrame → Prop)
    (done : List SentFrame) : Prop :=
  ∀ log, changes writtenBy log = done → done <+: frames →
    Sat World.record (fun log => changes writtenBy log <+: frames) p
      (fun a log' => Q a (changes writtenBy log')) log

section follows
variable {α β : Type} {frames done : List SentFrame} {p : SysM α} {f : α → SysM β}
  {Q : α → List SentFrame → Prop} {R : β → List SentFrame → Prop}

theorem Follows.ret {a : α} (h : Q a done) : Follows frames (.ret a) Q done := by
  rintro log rfl _
  exact h

theorem Follows.bind (hp : Follows frames p Q done)
    (hf : ∀ a done', Q a done' → Follows frames (f a) R done') :
    Follows frames (p >>= f) R done := by
  intro log hlog hdone
  have hinv : changes writtenBy log <+: frames := by
    rw [hlog]
    exact hdone
  refine ((hp log hlog hdone).withInv hinv).bind fun a log' h => ?_
  exact hf a _ h.2 log' rfl h.1

theorem Follows.mono {Q' : α → List SentFrame → Prop} (hp : Follows frames p Q done)
    (hQ : ∀ a done', Q a done' → Q' a done') : Follows frames p Q' done :=
  fun log hlog hdone => (hp log hlog hdone).mono fun a _ => hQ a _

/-- What sends no state-changing frame. -/
theorem follows_neutral (hp : p.Only (Neutral writtenBy)) :
    Follows frames p (fun _ done' => done' = done) done := by
  rintro log rfl hdone
  have hstep : ∀ (log₁ : List (Event Sys)) (c : SysCall) (r : c.Resp) (log₂ : List (Event Sys)),
      Neutral writtenBy c → changes writtenBy log₁ = changes writtenBy log →
      World.record log₁ c r log₂ → changes writtenBy log₂ <+: frames ∧
        changes writtenBy log₂ = changes writtenBy log := by
    rintro log₁ c r _ hc heq rfl
    have hkeep := (hc.changes log₁ r).trans heq
    rw [hkeep]
    exact ⟨hdone, rfl⟩
  exact hp.sat hstep rfl

section bus
variable {bus : CanBus} {n : ℕ}

theorem polls_neutral (bus : CanBus) : CanBus.Polls (Neutral writtenBy) bus :=
  ⟨neutral_of_none rfl, neutral_of_none rfl, neutral_of_none rfl⟩

theorem sends_neutral {t : CommType} (ht : t = .getId ∨ t = .paramRead) (motorId : UInt8)
    (data : Fin 8 → UInt8) :
    CanBus.Sends (Neutral writtenBy) bus (bus.hostExtId t motorId) data := by
  refine ⟨fun _ => neutral_of_none rfl, fun _ f hf => ?_⟩
  obtain rfl := Option.some.inj hf
  have hchanges := changesState_host bus t motorId data
  rcases ht with rfl | rfl
  · exact hchanges
  · exact hchanges

theorem getDevice_neutral (motorId : UInt8) :
    (bus.getDevice n motorId).Only (Neutral writtenBy) :=
  CanBus.getDevice_only (fun _ => polls_neutral bus) (sends_neutral (.inl rfl) _ _)

theorem readMechanicalPosition_neutral (motorId : UInt8) :
    (bus.readMechanicalPosition n motorId).Only (Neutral writtenBy) :=
  CanBus.readMechanicalPosition_only (fun _ => polls_neutral bus) (sends_neutral (.inr rfl) _ _)

/-- A request: the queue is drained and one frame of the plan is sent. -/
theorem request_follows (hreal : bus.config.dryRun = false) {rawId : UInt32}
    {data : Fin 8 → UInt8} {request : SentFrame}
    (hrequest : request = ⟨bus.channelIdx, rawId, data⟩)
    (hchanges : request.changesState = true) (hnext : done ++ [request] <+: frames) :
    Follows frames (bus.drain n >>= fun _ => bus.send rawId data)
      (fun _ done' => done' = done ++ [request]) done := by
  subst hrequest
  have hdrain : (bus.drain n).Only (Neutral writtenBy) :=
    CanBus.drain_only fun _ => polls_neutral bus
  refine (follows_neutral hdrain).bind fun _ done' hdone' => ?_
  subst hdone'
  rintro log rfl _
  unfold CanBus.send
  rw [hreal]
  rintro status _ rfl
  have hsent : changes writtenBy
      (log ++ [⟨.canWrite bus.channelIdx (extendedFrame rawId data), status⟩]) =
        changes writtenBy log ++ [⟨bus.channelIdx, rawId, data⟩] :=
    changes_sent rfl hchanges log _
  constructor
  · show changes writtenBy (log ++ [_]) <+: frames
    rw [hsent]
    exact hnext
  · exact hsent

end bus

end follows

section commands
variable {bus : CanBus} {n : ℕ}

theorem changeId_follows (hreal : bus.config.dryRun = false) (oldId newId : UInt8)
    (oldDevice : Option DeviceInfo) {frames : List SentFrame}
    (hplan : frames = [⟨bus.channelIdx, bus.hostExtId .stop oldId, zeroData⟩,
      ⟨bus.channelIdx, bus.setIdExtId oldId newId, zeroData⟩]) :
    Follows frames (bus.changeId n oldId newId oldDevice)
      (fun x done => x.exitCode = 0 → done = frames) [] := by
  subst hplan
  have hconfirm : bus.confirmDestructive.Only (Neutral writtenBy) :=
    CanBus.confirmDestructive_only (fun _ => neutral_of_none rfl) fun _ => neutral_of_none rfl
  unfold CanBus.changeId
  refine (follows_neutral hconfirm).bind fun confirmed done hdone => ?_
  subst hdone
  cases confirmed with
  | false => exact .ret (by simp [SetIdExit.exitCode])
  | true =>
      refine Follows.bind (request_follows hreal rfl (changesState_host bus .stop oldId zeroData)
        ⟨[_], rfl⟩) fun stopped done hdone => ?_
      subst hdone
      cases stopped with
      | false => exact .ret (by simp [SetIdExit.exitCode])
      | true =>
          refine Follows.bind (request_follows hreal rfl
            (changesState_setId bus zeroData oldId newId) ⟨[], rfl⟩) fun sent done hdone => ?_
          subst hdone
          cases sent with
          | false => exact .ret (by simp [SetIdExit.exitCode])
          | true =>
              simp only [Bool.not_true, Bool.false_eq_true, if_false, hreal]
              refine Follows.mono (follows_neutral ?_) fun x done hdone _ => hdone
              refine ⟨neutral_of_none rfl, fun _ => (getDevice_neutral newId).bind fun r => ?_⟩
              cases r with
              | none => trivial
              | some changed =>
                  cases oldDevice with
                  | none => trivial
                  | some target =>
                      simp only
                      split <;> trivial

/-- The commands, on a channel that is open. -/
theorem commandSetId_follows (bus : CanBus) (hreal : bus.config.dryRun = false)
    (oldId newId : UInt8) :
    Follows (plan bus.config (.setId bus.channelIdx oldId newId)) (bus.commandSetId n oldId newId)
      (fun x done => x.exitCode = 0 →
        done = plan bus.config (.setId bus.channelIdx oldId newId)) [] := by
  unfold CanBus.commandSetId
  by_cases hids : oldId = newId
  · rw [if_pos hids]
    exact .ret (by simp [SetIdExit.exitCode])
  · simp only [if_neg hids, hreal, Bool.false_eq_true, if_false]
    refine (follows_neutral (getDevice_neutral oldId)).bind fun r done hdone => ?_
    subst hdone
    cases r with
    | none => exact .ret (by simp [SetIdExit.exitCode])
    | some target =>
        refine (follows_neutral (getDevice_neutral newId)).bind fun r done hdone => ?_
        subst hdone
        cases r with
        | some other => exact .ret (by simp [SetIdExit.exitCode])
        | none => exact changeId_follows hreal oldId newId (some target) (by simp [plan, hids])

theorem setZero_follows (hreal : bus.config.dryRun = false) (motorId : UInt8)
    {frames done : List SentFrame} (hplan : frames = done ++
      [⟨bus.channelIdx, bus.hostExtId .setZero motorId, Function.update zeroData 0 1⟩]) :
    Follows frames (bus.setZero n motorId) (fun x done' => x.exitCode = 0 → done' = frames)
      done := by
  subst hplan
  unfold CanBus.setZero
  refine Follows.bind (request_follows hreal rfl (changesState_host bus .setZero motorId _)
    ⟨[], by simp⟩) fun sent done' hdone' => ?_
  subst hdone'
  cases sent with
  | false => exact .ret (by simp [SetZeroExit.exitCode])
  | true =>
      simp only [Bool.not_true, Bool.false_eq_true, if_false, hreal]
      refine Follows.mono (follows_neutral ?_) fun x done' hdone' _ => hdone'
      refine (CanBus.waitFor_only (polls_neutral bus) _ _).bind fun ack => ?_
      cases ack with
      | none => trivial
      | some msg =>
          refine (CanBus.readBack_only (fun _ => polls_neutral bus) (sends_neutral (.inr rfl) _ _)
            (neutral_of_none rfl) 3).bind fun r => ?_
          cases r with
          | none => trivial
          | some position =>
              simp only
              split <;> trivial

theorem commandSetZero_follows (bus : CanBus) (hreal : bus.config.dryRun = false)
    (motorId : UInt8) :
    Follows (plan bus.config (.setZero bus.channelIdx motorId)) (bus.commandSetZero n motorId)
      (fun x done => x.exitCode = 0 →
        done = plan bus.config (.setZero bus.channelIdx motorId)) [] := by
  have hconfirm : bus.confirmDestructive.Only (Neutral writtenBy) :=
    CanBus.confirmDestructive_only (fun _ => neutral_of_none rfl) fun _ => neutral_of_none rfl
  unfold CanBus.commandSetZero CanBus.stopAndSetZero
  simp only [hreal, Bool.false_eq_true, if_false]
  refine (follows_neutral (getDevice_neutral motorId)).bind fun r done hdone => ?_
  subst hdone
  cases r with
  | none => exact .ret (by simp [SetZeroExit.exitCode])
  | some device =>
      refine (follows_neutral (readMechanicalPosition_neutral motorId)).bind
        fun before done hdone => ?_
      subst hdone
      refine (follows_neutral hconfirm).bind fun confirmed done hdone => ?_
      subst hdone
      cases confirmed with
      | false => exact .ret (by simp [SetZeroExit.exitCode])
      | true =>
          refine Follows.bind (request_follows hreal rfl
            (changesState_host bus .stop motorId zeroData) ⟨[_], rfl⟩) fun stopped done hdone => ?_
          subst hdone
          cases stopped with
          | false => exact .ret (by simp [SetZeroExit.exitCode])
          | true =>
              have hsleep : (sleepFor 20000000).Only (Neutral writtenBy) :=
                ⟨neutral_of_none rfl, fun _ => trivial⟩
              refine (follows_neutral hsleep).bind fun _ done hdone => ?_
              subst hdone
              exact setZero_follows hreal motorId rfl

theorem scanIds_neutral : ∀ ids, (bus.scanIds n ids).Only (Neutral writtenBy)
  | [] => trivial
  | motorId :: rest =>
      (getDevice_neutral motorId).bind fun _ => (scanIds_neutral rest).bind fun _ => trivial

theorem init_neutral (config : Config) (ch : Fin numChannels) :
    (CanBus.init config ch).Only (Neutral writtenBy) := by
  unfold CanBus.init
  split
  · trivial
  · exact ⟨neutral_of_none rfl, fun _ => trivial⟩

theorem scanChannels_neutral (config : Config) (minimum maximum : ℕ) :
    ∀ channels, (scanChannels config n minimum maximum channels).Only (Neutral writtenBy)
  | [] => trivial
  | ch :: rest => by
      have hrest := scanChannels_neutral config minimum maximum rest
      rw [scanChannels]
      refine (init_neutral config ch).bind fun r => ?_
      cases r with
      | none => exact hrest
      | some bus =>
          simp only
          split
          · exact (getDevice_neutral _).bind fun _ => hrest
          · exact (scanIds_neutral _).bind fun _ => hrest.bind fun _ => trivial

/-- The channel is opened, or nothing more happens. -/
theorem init_follows {config : Config} (hreal : config.dryRun = false) (ch : Fin numChannels)
    {frames : List SentFrame} : Follows frames (CanBus.init config ch)
      (fun r done => (∀ bus, r = some bus → bus = ⟨config, ch⟩) ∧ done = []) [] := by
  intro log hlog hdone
  unfold CanBus.init
  rw [hreal]
  rintro status _ rfl
  have hkeep : changes writtenBy (log ++ [⟨.canInitialize ch, status⟩]) = [] :=
    (Neutral.changes (neutral_of_none rfl) log _).trans hlog
  have hbus : ∀ bus, (if status == pcanErrorOk then some (⟨config, ch⟩ : CanBus) else none) =
      some bus → bus = ⟨config, ch⟩ := by
    intro bus h
    split at h
    · exact (Option.some.inj h).symm
    · cases h
  refine ⟨?_, hbus, hkeep⟩
  show changes writtenBy (log ++ [_]) <+: frames
  rw [hkeep]
  exact hdone

end commands

/-- **A real run follows the plan, to its end if it returns 0.** -/
theorem runCommand_follows {config : Config} (hreal : config.dryRun = false) (n : ℕ)
    (cmd : Command) : Follows (plan config cmd) (runCommand config n cmd)
      (fun code done => code = 0 → done = plan config cmd) [] := by
  cases cmd with
  | scan channel minimum maximum =>
      rw [runCommand, commandScan]
      refine Follows.mono (follows_neutral ?_) fun code done hdone _ => hdone
      split
      · trivial
      · refine (scanChannels_neutral config minimum maximum _).bind fun total => ?_
        simp only [hreal, Bool.false_eq_true, if_false]
        trivial
  | get ch motorId =>
      rw [runCommand]
      refine Follows.mono (follows_neutral ?_) fun code done hdone _ => hdone
      refine (init_neutral config ch).bind fun r => ?_
      cases r with
      | none => trivial
      | some bus => exact (getDevice_neutral motorId).bind fun _ => trivial
  | setId ch oldId newId =>
      rw [runCommand, mainSetId]
      refine (init_follows hreal ch).bind fun r done hr => ?_
      obtain ⟨hbus, rfl⟩ := hr
      cases r with
      | none => exact .ret (by simp)
      | some bus =>
          obtain rfl := hbus bus rfl
          exact (commandSetId_follows ⟨config, ch⟩ hreal oldId newId).bind fun x done hx => .ret hx
  | setZero ch motorId =>
      rw [runCommand]
      refine (init_follows hreal ch).bind fun r done hr => ?_
      obtain ⟨hbus, rfl⟩ := hr
      cases r with
      | none => exact .ret (by simp)
      | some bus =>
          obtain rfl := hbus bus rfl
          exact (commandSetZero_follows ⟨config, ch⟩ hreal motorId).bind fun x done hx => .ret hx

/-! ### The preview is right -/

/-- The same configuration as a dry run or not. -/
def Config.asDry (config : Config) (dryRun : Bool) : Config := { config with dryRun }

theorem plan_asDry (config : Config) (dryRun : Bool) (cmd : Command) :
    plan (config.asDry dryRun) cmd = plan config cmd := by cases cmd <;> rfl

/-- A frame of a run that is not on its plan is a query. -/
theorem commType_of_mem {log : List (Event Sys)} {frames : List SentFrame}
    (h : changes writtenBy log <+: frames) {e : Event Sys} (he : e ∈ log) {f : SentFrame}
    (hf : writtenBy e.call = some f) : f ∈ frames ∨ f.commType = CommType.getId.code ∨
      f.commType = CommType.paramRead.code := by
  by_cases hchanges : f.changesState = true
  · refine .inl (h.subset ?_)
    unfold changes
    rw [List.mem_filter, List.mem_filterMap]
    exact ⟨⟨e, he, hf⟩, hchanges⟩
  · simp only [SentFrame.changesState, Bool.and_eq_true, bne_iff_ne, ne_eq, not_and_or,
      not_not] at hchanges
    exact .inr hchanges

/-- **The dry run predicts the real run.**  It makes no access to a channel and returns; the
state-changing frames that a real run attempts to write are the first of those that the dry run
prints, and all of them if it returns 0; and no run enables, commands or configures a motor. -/
theorem dry_run_predicts (config : Config) (cmd : Command) :
    (∀ n, (runCommand (config.asDry true) n cmd).Only (fun c => ¬ IsCanAccess c) ∧
      (runCommand (config.asDry true) n cmd).Total) ∧
    (∀ n n' log log' code o,
      Runs World.record (runCommand (config.asDry true) n cmd) [] log (some code) →
      Runs World.record (runCommand (config.asDry false) n' cmd) [] log' o →
      changes writtenBy log' <+: changes printedBy log ∧
        (o = some 0 → changes writtenBy log' = changes printedBy log)) ∧
    (∀ dryRun n log o, Runs World.record (runCommand (config.asDry dryRun) n cmd) [] log o →
      ∀ e ∈ log, ∀ f, writtenBy e.call = some f →
        f.commType ≠ CommType.enable.code ∧ f.commType ≠ CommType.mitControl.code ∧
          f.commType ≠ CommType.paramWrite.code) := by
  have hdry : ∀ n, Previews (plan config cmd) (runCommand (config.asDry true) n cmd) := by
    intro n
    rw [← plan_asDry config true cmd]
    exact runCommand_previews rfl n cmd
  have hreal : ∀ n log o, Runs World.record (runCommand (config.asDry false) n cmd) [] log o →
      changes writtenBy log <+: plan config cmd ∧
        ∀ code, o = some code → code = 0 → changes writtenBy log = plan config cmd := by
    intro n log o hrun
    rw [← plan_asDry config false cmd]
    exact hrun.sat (runCommand_follows rfl n cmd [] rfl List.nil_prefix) List.nil_prefix
  refine ⟨fun n => ⟨(hdry n).only.mono fun c hc => ?_, (hdry n).total⟩, ?_, ?_⟩
  · cases c <;> simp_all [IsDry, IsCanAccess]
  · intro n n' log log' code o hprinted hwritten
    have hprint : changes printedBy log = plan config cmd := hprinted.post (hdry n).printed
    obtain ⟨hsent, hall⟩ := hreal n' log' o hwritten
    rw [hprint]
    exact ⟨hsent, fun ho => hall 0 ho rfl⟩
  · intro dryRun n log o hrun e he f hf
    cases dryRun with
    | true =>
        rw [not_written (hdry n).only hrun e he] at hf
        cases hf
    | false =>
        rcases commType_of_mem (hreal n log o hrun).1 he hf with hplan | hquery | hquery
        · rcases plan_commType hplan with h | h | h <;> rw [h] <;> decide
        · rw [hquery]
          decide
        · rw [hquery]
          decide

/-- Setting the zero of motor 4 as a dry run, and on a channel where the motor answers. -/
theorem dry_run_predicts_zero : ∃ log log',
    Runs World.record (runCommand (benchBus.config.asDry true) 1 (.setZero 1 4)) [] log (some 0) ∧
    Runs World.record (runCommand (benchBus.config.asDry false) 1 (.setZero 1 4)) [] log'
      (some 0) ∧
    changes writtenBy log' = changes printedBy log := by
  have hdry : (exec (promptBus mechPosQuery)
      (runCommand (benchBus.config.asDry true) 1 (.setZero 1 4)) []).2 = some 0 := rfl
  have hreal : (exec (promptBus mechPosQuery)
      (runCommand (benchBus.config.asDry false) 1 (.setZero 1 4)) []).2 = some 0 := by
    decide +kernel
  obtain ⟨log, hprinted⟩ := promptBus_runs hdry
  obtain ⟨log', hwritten⟩ := promptBus_runs hreal
  refine ⟨log, log', hprinted, hwritten, ?_⟩
  exact ((dry_run_predicts benchBus.config (.setZero 1 4)).2.1 1 1 log log' 0 _ hprinted
    hwritten).2 rfl

end MotorConfig

end Qub
