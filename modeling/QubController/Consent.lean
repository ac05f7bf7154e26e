import QubController.Arguments
import QubController.DryRun
import QubController.Trace

/-! # Consent

Three kinds of frames of `motor_config.cpp` change a motor: STOP, SET_CAN_ID and SET_ZERO.  The
whole program is audited for them.  Whatever the command line, the bus and the user do, such a
frame is written only on behalf of the command that was given, to its motor, after the motor has
answered a query and the user has agreed, and anything but STOP only after the driver took the
STOP (`changes_justified`). -/

namespace Qub

open Interaction

namespace MotorConfig

/-! ### What must come first -/

/-- `--yes`, or one of the four answers at a terminal. -/
def Agreed (config : Config) (past : List (Event Sys)) : Prop :=
  config.assumeYes = true ∨ (⟨.isatty, true⟩ : Event Sys) ∈ past ∧
    ∃ answer ∈ ["y", "Y", "yes", "YES"], (⟨.getline, answer⟩ : Event Sys) ∈ past

/-- A reply of the motor to a query was read. -/
def Answered (bus : CanBus) (motorId : UInt8) (past : List (Event Sys)) : Prop :=
  ∃ frame : TPCANMsg, (⟨.canRead bus.channelIdx, (pcanErrorOk, frame)⟩ : Event Sys) ∈ past ∧
    bus.isIdReply motorId (({} : TPCANMsg).fill frame) = true

/-- The driver took the frame STOP for the motor. -/
def TookStop (bus : CanBus) (motorId : UInt8) (past : List (Event Sys)) : Prop :=
  (⟨.canWrite bus.channelIdx (bus.stopFrame motorId), pcanErrorOk⟩ : Event Sys) ∈ past

/-- The motor that a command changes. -/
def Command.target : Command → Option (Fin numChannels × UInt8)
  | .setId ch oldId _ => some (ch, oldId)
  | .setZero ch motorId => some (ch, motorId)
  | _ => none

/-- All that must come before a frame that changes a motor. -/
structure Justified (config : Config) (cmd : Command) (f : SentFrame) (past : List (Event Sys)) :
    Prop where
  real : config.dryRun = false
  planned : f ∈ plan config cmd
  agreed : Agreed config past
  answered : ∃ motorId, cmd.target = some (f.channelIdx, motorId) ∧
    (extendedFrame f.rawId f.data).destinationId = motorId ∧
    Answered ⟨config, f.channelIdx⟩ motorId past ∧
    (f.commType ≠ CommType.stop.code → TookStop ⟨config, f.channelIdx⟩ motorId past)

section later
variable {past log : List (Event Sys)}

theorem Agreed.later {config : Config} (h : Agreed config past) (hgrows : past <:+ log) :
    Agreed config log :=
  h.imp_right fun ⟨htty, answer, hyes, hline⟩ =>
    ⟨hgrows.subset htty, answer, hyes, hgrows.subset hline⟩

theorem Answered.later {bus : CanBus} {motorId : UInt8} (h : Answered bus motorId past)
    (hgrows : past <:+ log) : Answered bus motorId log :=
  h.imp fun _ hread => ⟨hgrows.subset hread.1, hread.2⟩

end later

/-- The rule for every event of a command. -/
def Permitted (config : Config) (cmd : Command) (e : Event Sys) (past : List (Event Sys)) : Prop :=
  ∀ f, writtenBy e.call = some f → f.changesState = true → Justified config cmd f past

/-- Nothing was written. -/
def Unwritten (log : List (Event Sys)) : Prop := ∀ e ∈ log, writtenBy e.call = none

theorem permitted_of_neutral {config : Config} {cmd : Command} {c : SysCall}
    (h : Neutral writtenBy c) (r : c.Resp) (past : List (Event Sys)) :
    Permitted config cmd ⟨c, r⟩ past := by
  intro f hf hchanges
  rw [h f hf] at hchanges
  cases hchanges

/-! ### The parts of a command -/

section parts
variable {config : Config} {cmd : Command} {bus : CanBus} {n : ℕ} {past : List (Event Sys)}

/-- Nothing is asked of neutral calls. -/
theorem neutral_audit {α : Type} {p : SysM α} (hp : p.Only (Neutral writtenBy))
    (h : Each (Permitted config cmd) past) :
    Sat World.trace (Each (Permitted config cmd)) p
      (fun _ log => Audited (Permitted config cmd) past log) past :=
  Prog.Only.audit (hp.mono fun _ hc r past => permitted_of_neutral hc r past) h

theorem silent_audit {log : List (Event Sys)} (h : Audited (Permitted config cmd) past log)
    {c : SysCall} (hc : writtenBy c = none) (r : c.Resp) :
    Audited (Permitted config cmd) past (⟨c, r⟩ :: log) :=
  h.cons (permitted_of_neutral (neutral_of_none hc) r log)

/-- What the receiving functions bring was read. -/
theorem receives_audit (bus : CanBus) :
    Receives World.trace (Each (Permitted config cmd)) bus.channelIdx
      (Audited (Permitted config cmd) past)
      (fun msg log => Audited (Permitted config cmd) past log ∧
        ∃ frame, (⟨.canRead bus.channelIdx, (pcanErrorOk, frame)⟩ : Event Sys) ∈ log ∧
          msg = ({} : TPCANMsg).fill frame) where
  frame := by
    rintro log frame _ h rfl -
    have h' := silent_audit h (c := .canRead bus.channelIdx) rfl (pcanErrorOk, frame)
    exact ⟨h'.each, h', frame, List.mem_cons_self, rfl⟩
  other := by
    rintro log status frame _ h rfl -
    have h' := silent_audit h (c := .canRead bus.channelIdx) rfl (status, frame)
    exact ⟨h'.each, h'⟩
  clock := by
    rintro log now _ h rfl
    have h' := silent_audit h (c := .steadyNow) rfl now
    exact ⟨h'.each, h'⟩
  sleep := by
    rintro log _ h rfl
    have h' := silent_audit h (c := .sleepFor emptyQueueSleepNs) rfl ()
    exact ⟨h'.each, h'⟩

/-- A device was read off a reply. -/
theorem getDevice_audit (hreal : bus.config.dryRun = false) (n : ℕ) (motorId : UInt8)
    (h : Each (Permitted config cmd) past) :
    Sat World.trace (Each (Permitted config cmd)) (bus.getDevice n motorId)
      (fun r log => Audited (Permitted config cmd) past log ∧
        (r.isSome = true → Answered bus motorId log)) past := by
  have hloop : ∀ attempts log, Audited (Permitted config cmd) past log →
      Sat World.trace (Each (Permitted config cmd)) (bus.getDeviceLoop n motorId attempts)
        (fun r log => Audited (Permitted config cmd) past log ∧
          (r.isSome = true → Answered bus motorId log)) log := by
    intro attempts
    induction attempts with
    | zero => exact fun log hlog => ⟨hlog, by simp⟩
    | succ attempts ih =>
        intro log hlog
        unfold CanBus.getDeviceLoop
        refine (neutral_audit (CanBus.drain_only fun _ => polls_neutral bus) hlog.each).bind
          fun _ log₁ h₁ => ?_
        refine (neutral_audit (CanBus.send_only (sends_neutral (.inl rfl) motorId zeroData))
          h₁.each).bind fun sent log₂ h₂ => ?_
        have h₂' := (hlog.trans h₁).trans h₂
        cases sent with
        | false => exact ⟨h₂', by simp⟩
        | true =>
            simp only [Bool.not_true, Bool.false_eq_true, if_false, hreal]
            refine (CanBus.waitFor_sat (receives_audit bus) n _ (fun msg log _ hk => hk.1)
              h₂').bind fun r log₃ h₃ => ?_
            cases r with
            | none => exact ih log₃ h₃
            | some reply =>
                obtain ⟨hreply, hlog₃, frame, hread, rfl⟩ := h₃
                exact ⟨hlog₃, fun _ => ⟨frame, hread, hreply⟩⟩
  exact hloop _ past (.refl h)

theorem confirmDestructive_audit (hreal : bus.config.dryRun = false)
    (h : Each (Permitted config cmd) past) :
    Sat World.trace (Each (Permitted config cmd)) bus.confirmDestructive
      (fun r log => Audited (Permitted config cmd) past log ∧
        (r = true → Agreed bus.config log)) past := by
  unfold CanBus.confirmDestructive
  rw [hreal, Bool.or_false]
  cases hyes : bus.config.assumeYes with
  | true => exact ⟨.refl h, fun _ => .inl hyes⟩
  | false =>
      refine sat_trace_call.mpr fun tty => ?_
      have h₁ := silent_audit (.refl h) (c := .isatty) rfl tty
      refine ⟨h₁.each, ?_⟩
      cases tty with
      | false => exact ⟨h₁, by simp⟩
      | true =>
          refine sat_trace_call.mpr fun answer => ?_
          have h₂ := silent_audit h₁ (c := .getline) rfl answer
          refine ⟨h₂.each, h₂, fun hanswer => .inr ⟨by simp, answer, ?_, List.mem_cons_self⟩⟩
          simpa [or_assoc] using hanswer

/-- A request that is justified once the queue was drained. -/
theorem request_audit (hreal : bus.config.dryRun = false) {rawId : UInt32}
    {data : Fin 8 → UInt8} (h : Each (Permitted config cmd) past)
    (hjustified : ∀ log, Audited (Permitted config cmd) past log →
      Justified config cmd ⟨bus.channelIdx, rawId, data⟩ log) :
    Sat World.trace (Each (Permitted config cmd)) (bus.drain n >>= fun _ => bus.send rawId data)
      (fun sent log => Audited (Permitted config cmd) past log ∧ (sent = true →
        (⟨.canWrite bus.channelIdx (extendedFrame rawId data), pcanErrorOk⟩ : Event Sys) ∈ log))
      past := by
  refine (neutral_audit (CanBus.drain_only fun _ => polls_neutral bus) h).bind fun _ log hlog => ?_
  unfold CanBus.send
  rw [hreal]
  refine sat_trace_call.mpr fun status => ?_
  have hwrite : Permitted config cmd
      ⟨.canWrite bus.channelIdx (extendedFrame rawId data), status⟩ log := by
    rintro f hf -
    obtain rfl := Option.some.inj hf
    exact hjustified log hlog
  have h' := hlog.cons hwrite
  refine ⟨h'.each, h', fun hsent => ?_⟩
  obtain rfl : status = pcanErrorOk := by simpa using hsent
  exact List.mem_cons_self

end parts

/-! ### The commands -/

section commands
variable {n : ℕ} {past : List (Event Sys)}

/-- `set-id` from the confirmation on. -/
theorem changeId_audit {bus : CanBus} (hreal : bus.config.dryRun = false) {oldId newId : UInt8}
    (hids : oldId ≠ newId) (oldDevice : Option DeviceInfo)
    (h : Each (Permitted bus.config (.setId bus.channelIdx oldId newId)) past)
    (hanswered : Answered bus oldId past) :
    Sat World.trace (Each (Permitted bus.config (.setId bus.channelIdx oldId newId)))
      (bus.changeId n oldId newId oldDevice) (fun x _ => x.exitCode ≠ 2) past := by
  have hplan : plan bus.config (.setId bus.channelIdx oldId newId) =
      [⟨bus.channelIdx, bus.hostExtId .stop oldId, zeroData⟩,
        ⟨bus.channelIdx, bus.setIdExtId oldId newId, zeroData⟩] := if_neg hids
  unfold CanBus.changeId
  refine (confirmDestructive_audit hreal h).bind fun confirmed log₁ h₁ => ?_
  cases confirmed with
  | false => exact (by decide : SetIdExit.exitCode .cancelled ≠ 2)
  | true =>
      obtain ⟨hlog₁, hagreed⟩ := h₁
      refine Sat.bind (request_audit hreal hlog₁.each fun log hlog =>
        ⟨hreal, by simp [hplan], ?_, oldId, rfl, destinationId_hostExtId bus oldId _ _, ?_, ?_⟩)
        fun stopped log₂ h₂ => ?_
      · exact (hagreed rfl).later hlog.grows
      · exact hanswered.later (hlog₁.trans hlog).grows
      · exact fun hne => absurd (commType_host bus _ _ _) hne
      cases stopped with
      | false => exact (by decide : SetIdExit.exitCode .writeFailed ≠ 2)
      | true =>
          refine Sat.bind (request_audit hreal h₂.1.each fun log hlog =>
            ⟨hreal, by simp [hplan], ?_, oldId, rfl, destinationId_buildExtId _ _ _ _, ?_, ?_⟩)
            fun sent log₃ h₃ => ?_
          · exact (hagreed rfl).later (h₂.1.trans hlog).grows
          · exact hanswered.later ((hlog₁.trans h₂.1).trans hlog).grows
          · exact fun _ => hlog.mem (h₂.2 rfl)
          cases sent with
          | false => exact (by decide : SetIdExit.exitCode .writeFailed ≠ 2)
          | true =>
              simp only [Bool.not_true, Bool.false_eq_true, if_false, hreal]
              refine Sat.bind (neutral_audit ⟨neutral_of_none rfl, fun _ => trivial⟩ h₃.1.each)
                fun _ log₄ h₄ => ?_
              refine (neutral_audit (getDevice_neutral newId) h₄.each).bind fun r log₅ _ => ?_
              cases r with
              | none => exact (by decide : SetIdExit.exitCode .unverified ≠ 2)
              | some changed =>
                  cases oldDevice with
                  | none => exact (by simp [SetIdExit.exitCode] :
                      (SetIdExit.changed changed).exitCode ≠ 2)
                  | some target =>
                      simp only
                      split <;> simp [SetIdExit.exitCode]

theorem commandSetId_audit (bus : CanBus) (hreal : bus.config.dryRun = false)
    (oldId newId : UInt8)
    (h : Each (Permitted bus.config (.setId bus.channelIdx oldId newId)) past)
    (hpast : Unwritten past) :
    Sat World.trace (Each (Permitted bus.config (.setId bus.channelIdx oldId newId)))
      (bus.commandSetId n oldId newId) (fun x log => x.exitCode = 2 → Unwritten log) past := by
  unfold CanBus.commandSetId
  by_cases hids : oldId = newId
  · rw [if_pos hids]
    exact fun _ => hpast
  · simp only [if_neg hids, hreal, Bool.false_eq_true, if_false]
    refine (getDevice_audit hreal n oldId h).bind fun r log₁ h₁ => ?_
    cases r with
    | none => exact fun hcode => absurd hcode (by decide)
    | some target =>
        refine (neutral_audit (getDevice_neutral newId) h₁.1.each).bind fun r log₂ h₂ => ?_
        cases r with
        | some other => exact fun hcode => absurd hcode (by decide)
        | none =>
            refine (changeId_audit hreal hids (some target) h₂.each
              ((h₁.2 rfl).later h₂.grows)).mono fun x log hx hcode => absurd hcode hx

theorem commandSetZero_audit (bus : CanBus) (hreal : bus.config.dryRun = false) (motorId : UInt8)
    (h : Each (Permitted bus.config (.setZero bus.channelIdx motorId)) past) :
    Sat World.trace (Each (Permitted bus.config (.setZero bus.channelIdx motorId)))
      (bus.commandSetZero n motorId) (fun x _ => x.exitCode ≠ 2) past := by
  have hplan : plan bus.config (.setZero bus.channelIdx motorId) =
      [⟨bus.channelIdx, bus.hostExtId .stop motorId, zeroData⟩,
        ⟨bus.channelIdx, bus.hostExtId .setZero motorId, Function.update zeroData 0 1⟩] := rfl
  unfold CanBus.commandSetZero CanBus.stopAndSetZero CanBus.setZero
  simp only [hreal, Bool.false_eq_true, if_false]
  refine (getDevice_audit hreal n motorId h).bind fun r log₁ h₁ => ?_
  cases r with
  | none => exact (by decide : SetZeroExit.exitCode .silent ≠ 2)
  | some device =>
      have hanswered := h₁.2 rfl
      refine (neutral_audit (readMechanicalPosition_neutral motorId) h₁.1.each).bind
        fun before log₂ h₂ => ?_
      refine (confirmDestructive_audit hreal h₂.each).bind fun confirmed log₃ h₃ => ?_
      cases confirmed with
      | false => exact (by decide : SetZeroExit.exitCode .cancelled ≠ 2)
      | true =>
          refine Sat.bind (request_audit hreal h₃.1.each fun log hlog =>
            ⟨hreal, by simp [hplan], (h₃.2 rfl).later hlog.grows, motorId, rfl,
              destinationId_hostExtId bus motorId _ _,
              hanswered.later ((h₂.trans h₃.1).trans hlog).grows,
              fun hne => absurd (commType_host bus _ _ _) hne⟩) fun stopped log₄ h₄ => ?_
          cases stopped with
          | false => exact (by decide : SetZeroExit.exitCode .writeFailed ≠ 2)
          | true =>
              refine Sat.bind (neutral_audit (p := sleepFor 20000000)
                ⟨neutral_of_none rfl, fun _ => trivial⟩ h₄.1.each) fun _ log₅ h₅ => ?_
              have hpast := (h₂.trans h₃.1).trans (h₄.1.trans h₅)
              refine Sat.bind (request_audit hreal h₅.each fun log hlog =>
                ⟨hreal, by simp [hplan], (h₃.2 rfl).later ((h₄.1.trans h₅).trans hlog).grows,
                  motorId, rfl, destinationId_hostExtId bus motorId _ _,
                  hanswered.later (hpast.trans hlog).grows,
                  fun _ => (h₅.trans hlog).mem (h₄.2 rfl)⟩) fun sent log₆ h₆ => ?_
              cases sent with
              | false => exact (by decide : SetZeroExit.exitCode .writeFailed ≠ 2)
              | true =>
                  simp only [Bool.not_true, Bool.false_eq_true, if_false]
                  refine (neutral_audit (CanBus.waitFor_only (polls_neutral bus) _ _)
                    h₆.1.each).bind fun ack log₇ h₇ => ?_
                  cases ack with
                  | none => exact (by decide : SetZeroExit.exitCode .noAcknowledgement ≠ 2)
                  | some msg =>
                      refine (neutral_audit (CanBus.readBack_only (fun _ => polls_neutral bus)
                        (sends_neutral (.inr rfl) _ _) (neutral_of_none rfl) 3) h₇.each).bind
                          fun r log₈ h₈ => ?_
                      cases r with
                      | none => exact (by decide : SetZeroExit.exitCode .acknowledged ≠ 2)
                      | some position =>
                          simp only
                          split <;> simp [SetZeroExit.exitCode]

/-- The channel is opened and nothing is written. -/
theorem init_audit {config : Config} {cmd : Command} (ch : Fin numChannels)
    (hreal : config.dryRun = false) :
    Sat World.trace (Each (Permitted config cmd)) (CanBus.init config ch)
      (fun r log => (∀ bus, r = some bus → bus = ⟨config, ch⟩) ∧ Each (Permitted config cmd) log ∧
        Unwritten log) [] := by
  unfold CanBus.init
  rw [hreal]
  refine sat_trace_call.mpr fun status => ?_
  have h : Audited (Permitted config cmd) [] [⟨.canInitialize ch, status⟩] :=
    silent_audit (c := .canInitialize ch) (.refl each_nil) rfl status
  refine ⟨h.each, fun bus hbus => ?_, h.each, fun e he => ?_⟩
  · split at hbus
    · exact (Option.some.inj hbus).symm
    · cases hbus
  · rw [List.mem_singleton.mp he]
    rfl

theorem runCommand_audit {config : Config} (hreal : config.dryRun = false) (n : ℕ)
    (cmd : Command) :
    Sat World.trace (Each (Permitted config cmd)) (runCommand config n cmd)
      (fun code log => code = 2 → Unwritten log) [] := by
  cases cmd with
  | scan channel minimum maximum =>
      rw [runCommand, commandScan]
      split
      · exact fun _ e he => by cases he
      · refine (neutral_audit (scanChannels_neutral config minimum maximum _) each_nil).bind
          fun total log _ => ?_
        simp only [hreal, Bool.false_eq_true, if_false]
        refine fun hcode => absurd hcode ?_
        split <;> decide
  | get ch motorId =>
      rw [runCommand]
      refine (init_audit ch hreal).bind fun r log h => ?_
      cases r with
      | none => exact fun _ => h.2.2
      | some bus =>
          refine (neutral_audit (getDevice_neutral motorId) h.2.1).bind fun device log' _ => ?_
          refine fun hcode => absurd hcode ?_
          split <;> decide
  | setId ch oldId newId =>
      rw [runCommand, mainSetId]
      refine (init_audit ch hreal).bind fun r log h => ?_
      cases r with
      | none => exact fun _ => h.2.2
      | some bus =>
          obtain rfl := h.1 bus rfl
          exact (commandSetId_audit ⟨config, ch⟩ hreal oldId newId h.2.1 h.2.2).bind
            fun x log hx => hx
  | setZero ch motorId =>
      rw [runCommand]
      refine (init_audit ch hreal).bind fun r log h => ?_
      cases r with
      | none => exact fun _ => h.2.2
      | some bus =>
          obtain rfl := h.1 bus rfl
          exact (commandSetZero_audit ⟨config, ch⟩ hreal motorId h.2.1).bind
            fun x log hx hcode => absurd hcode hx

end commands

/-! ### The whole program -/

section main
variable {a : Arguments} {n : ℕ}

theorem mainScan_unasked (h : ∀ cmd, ¬ a.Asks cmd) (hscan : a.command = "scan") :
    mainScan a n = .ret 2 := by
  unfold mainScan
  split
  · rename_i hargs
    exact absurd (.scan hscan hargs) (h _)
  · rename_i minimum hargs
    split
    · rfl
    · rename_i hmin
      exact absurd (.scanFrom hscan hargs hmin) (h _)
  · rename_i minimum maximum hargs
    split
    · rename_i hmin hmax
      exact absurd (.scanBetween hscan hargs hmin hmax) (h _)
    · rfl
  · rfl

theorem mainCommand_unasked (h : ∀ cmd, ¬ a.Asks cmd) {channelIdx : Int32}
    (hchannel : a.channelIdx = some channelIdx)
    (hrequires : commandRequiresChannel a.command = true) (bus : CanBus) :
    bus.mainCommand a.command a.commandArgs n = .ret 2 := by
  unfold CanBus.mainCommand
  by_cases hget : a.command = "get"
  · rw [if_pos (beq_iff_eq.mpr hget)]
    split
    · rename_i hargs
      split
      · rfl
      · rename_i hid
        exact absurd (.get hget hchannel hargs hid) (h _)
    · rfl
  rw [if_neg (by simpa using hget)]
  by_cases hset : a.command = "set-id"
  · rw [if_pos (beq_iff_eq.mpr hset)]
    split
    · rename_i hargs
      split
      · rename_i hold hnew
        exact absurd (.setId hset hchannel hargs hold hnew) (h _)
      · rfl
    · rfl
  rw [if_neg (by simpa using hset)]
  have hzero : a.command = "set-zero" := by
    simpa [commandRequiresChannel, hget, hset] using hrequires
  split
  · rename_i hargs
    split
    · rfl
    · rename_i hid
      exact absurd (.setZero hzero hchannel hargs hid) (h _)
  · rfl

/-- Arguments that ask for nothing get at most as far as the channel. -/
theorem mainArguments_unasked (h : ∀ cmd, ¬ a.Asks cmd) :
    mainArguments a n = .ret 2 ∨
      ∃ ch, mainArguments a n = CanBus.init a.config ch >>= fun _ => .ret 2 := by
  unfold mainArguments
  split
  · exact .inl rfl
  · split
    · rename_i hscan
      exact .inl (mainScan_unasked h (by simpa using hscan))
    · split
      · rename_i hrequires
        cases hchannel : a.channelIdx with
        | none => exact .inl rfl
        | some channelIdx =>
            refine .inr ⟨channelOf channelIdx,
              congrArg (CanBus.init a.config (channelOf channelIdx) >>= ·) (funext fun r => ?_)⟩
            cases r with
            | none => rfl
            | some bus => exact mainCommand_unasked h hchannel hrequires bus
      · exact .inl rfl

theorem unwritten_of_only {α : Type} {p : SysM α} {o : Option α} {log : List (Event Sys)}
    (hp : p.Only fun c => writtenBy c = none) (h : Runs World.trace p [] log o) :
    Unwritten log := by
  refine h.only_keeps hp ?_ fun e he => by cases he
  rintro log c r _ hc hlog rfl
  exact List.forall_mem_cons.mpr ⟨hc, hlog⟩

theorem init_unwritten (config : Config) (ch : Fin numChannels) :
    (CanBus.init config ch).Only fun c => writtenBy c = none := by
  unfold CanBus.init
  split
  · trivial
  · exact ⟨rfl, fun _ => trivial⟩

theorem mainArguments_unwritten (h : ∀ cmd, ¬ a.Asks cmd) :
    (mainArguments a n).Only fun c => writtenBy c = none := by
  rcases mainArguments_unasked h with heq | ⟨ch, heq⟩
  · rw [heq]
    trivial
  · rw [heq]
    exact (init_unwritten a.config ch).bind fun _ => trivial

/-- The rule for every event of the program. -/
def Consented (argv : List String) (e : Event Sys) (past : List (Event Sys)) : Prop :=
  ∀ f, writtenBy e.call = some f → f.changesState = true →
    ∃ a cmd, argLoop argv {} = .ok a ∧ a.Asks cmd ∧ Justified a.config cmd f past

theorem Unwritten.each {log : List (Event Sys)} (h : Unwritten log) (argv : List String) :
    Each (Consented argv) log := by
  rintro later e earlier rfl f hf
  rw [h e (by simp)] at hf
  cases hf

/-- **No motor is changed without consent.**  For every command line, bus and user: each frame
STOP, SET_CAN_ID or SET_ZERO that is written belongs to the plan of the command that was asked
for, after its motor has answered a query and the user has agreed, and the last two only after
the driver took the STOP; and a program that ends with exit code 2, or whose command line asks
for nothing, has not written any frame. -/
theorem no_change_without_consent {argv : List String} {o : Option ℤ} {log : List (Event Sys)}
    (h : Runs World.trace (main argv n) [] log o) :
    Each (Consented argv) log ∧ (o = some 2 → Unwritten log) ∧
    ((∀ a cmd, argLoop argv {} = .ok a → ¬ a.Asks cmd) → Unwritten log) := by
  cases hargs : argLoop argv {} with
  | help =>
      rw [main, hargs] at h
      have hlog := unwritten_of_only (p := .ret _) trivial h
      exact ⟨hlog.each argv, fun _ => hlog, fun _ => hlog⟩
  | error message =>
      rw [main, hargs] at h
      have hlog := unwritten_of_only (p := .ret _) trivial h
      exact ⟨hlog.each argv, fun _ => hlog, fun _ => hlog⟩
  | ok a =>
      by_cases hasks : ∃ cmd, a.Asks cmd
      · obtain ⟨cmd, hcmd⟩ := hasks
        rw [main_of_asks hargs hcmd] at h
        cases hdry : a.config.dryRun with
        | true =>
            have hwrite : ∀ c, IsDry c → writtenBy c = none := fun c hc => by
              cases c with
              | canWrite ch msg => exact hc.elim
              | _ => rfl
            have hlog := unwritten_of_only ((runCommand_previews hdry n cmd).only.mono hwrite) h
            exact ⟨hlog.each argv, fun _ => hlog, fun _ => hlog⟩
        | false =>
            obtain ⟨heach, hcode⟩ := h.sat (runCommand_audit hdry n cmd) each_nil
            refine ⟨fun later e earlier heq f hf hchanges => ⟨a, cmd, hargs, hcmd, ?_⟩,
              fun ho => hcode 2 ho rfl, fun hnone => absurd hcmd (hnone a cmd rfl)⟩
            exact heach later e earlier heq f hf hchanges
      · have hnone : ∀ cmd, ¬ a.Asks cmd := fun cmd hcmd => hasks ⟨cmd, hcmd⟩
        rw [main, hargs] at h
        have hlog := unwritten_of_only (mainArguments_unwritten hnone) h
        exact ⟨hlog.each argv, fun _ => hlog, fun _ => hlog⟩

/-- Motor 4 is set to zero, with `--yes`. -/
theorem no_change_without_consent_zero : ∃ argv log,
    Runs World.trace (main argv 1) [] log (some 0) ∧ Each (Consented argv) log ∧
      ∃ e ∈ log, ∃ f, writtenBy e.call = some f ∧ f.commType = CommType.setZero.code := by
  have hargs : argLoop ["--yes", "set-zero", "--channel", "1", "--retries", "1", "4"] {} =
      .ok ⟨some 1, benchBus.config, false, "set-zero", ["4"]⟩ := by rfl
  have hcmd : Arguments.Asks ⟨some 1, benchBus.config, false, "set-zero", ["4"]⟩
      (.setZero (channelOf 1) 4) := .setZero rfl rfl rfl (by rfl)
  have hexec : (exec (promptBus mechPosQuery)
      (runCommand benchBus.config 1 (.setZero (channelOf 1) 4)) []).2 = some 0 := by
    decide +kernel
  obtain ⟨log, hrun⟩ := promptBus_runs hexec
  have hplan := (hrun.sat (runCommand_follows rfl 1 (.setZero (channelOf 1) 4) [] rfl
    List.nil_prefix) List.nil_prefix).2 0 rfl rfl
  have hzero : (⟨channelOf 1, benchBus.hostExtId .setZero 4, Function.update zeroData 0 1⟩ :
      SentFrame) ∈ changes writtenBy log := by
    rw [hplan]
    exact List.mem_cons_of_mem _ List.mem_cons_self
  obtain ⟨e, he, hf⟩ := List.mem_filterMap.mp (List.mem_filter.mp hzero).1
  have htrace := hrun.trace
  rw [← main_of_asks hargs hcmd] at htrace
  exact ⟨_, _, htrace, (no_change_without_consent htrace).1, e, List.mem_reverse.mpr he, _, hf,
    commType_host benchBus _ _ _⟩

end main

end MotorConfig

end Qub
