import QubController.Queries

/-! # IDs in use

`get_device` returns the same empty result when nobody answers, when the query cannot be written,
and when the reads fail, and `command_set_id` takes it as leave to assign the ID.  A `SET_CAN_ID`
is written with the new ID free if and only if no query for that ID was lost since the `SET_CAN_ID`
before it (`set_id_free_iff`). -/

namespace Qub

open Interaction

namespace MotorConfig

variable {M : Type}

/-! ### The trace -/

/-- `Φ` held of every `SET_CAN_ID`: of the motors' IDs, the new ID and the trace before it. -/
def EachSetId (Φ : (M → UInt8) → UInt8 → List (ProbeEvent M) → Prop) :
    List (ProbeEvent M) → Prop
  | [] => True
  | .lost _ :: past => EachSetId Φ past
  | .setId ids msg :: past => Φ ids (newIdOf msg) past ∧ EachSetId Φ past

def Free (ids : M → UInt8) (newId : UInt8) (_ : List (ProbeEvent M)) : Prop := ¬ Held ids newId

/-- No probe of the new ID was lost since the `SET_CAN_ID` before. -/
def NoneLost (_ : M → UInt8) (newId : UInt8) (past : List (ProbeEvent M)) : Prop :=
  ¬ LostSince newId past

theorem EachSetId.congr {Φ Ψ : (M → UInt8) → UInt8 → List (ProbeEvent M) → Prop} :
    ∀ log, EachSetId (fun ids newId past => Φ ids newId past ↔ Ψ ids newId past) log →
      (EachSetId Φ log ↔ EachSetId Ψ log)
  | [], _ => Iff.rfl
  | .lost _ :: past, h => EachSetId.congr past h
  | .setId _ _ :: past, h => and_congr h.1 (EachSetId.congr past h.2)

/-! ### The invariant -/

/-- What holds of the motors' IDs and the trace. -/
structure Sane (ids : M → UInt8) (log : List (ProbeEvent M)) : Prop where
  /-- The new ID was free exactly if no probe of it was lost. -/
  free : EachSetId (fun ids newId past => Free ids newId past ↔ NoneLost ids newId past) log
  lost : ∀ motorId, LostSince motorId log → Held ids motorId
  distinct : EachSetId NoneLost log → Function.Injective ids

section sane
variable {ids ids' : M → UInt8} {log : List (ProbeEvent M)}

theorem sane_tolerant : Tolerant (M := M) Sane := by
  intro ids log motorId hheld h
  refine ⟨h.free, fun i hi => ?_, h.distinct⟩
  cases hi with
  | inl heq => exact heq ▸ hheld
  | inr hlost => exact h.lost i hlost

theorem Sane.assign (h : Sane ids log) {msg : TPCANMsg}
    (hprobed : Held ids (newIdOf msg) → LostSince (newIdOf msg) log)
    (hmove : Relabels msg.destinationId (newIdOf msg) ids ids') :
    Sane ids' (.setId ids msg :: log) := by
  have hiff : Free ids (newIdOf msg) log ↔ NoneLost ids (newIdOf msg) log := by
    unfold Free NoneLost
    rw [not_iff_not]
    exact ⟨hprobed, h.lost _⟩
  refine ⟨⟨hiff, h.free⟩, fun i hi => hi.elim, fun hnone => ?_⟩
  have hfree : ∀ m, ids m ≠ newIdOf msg := fun m hm => hiff.mpr hnone.1 ⟨m, hm⟩
  exact hmove.injective (h.distinct hnone.2) hfree

end sane

/-! ### The command -/

section parts
variable {bus : CanBus} {replyNs : ℤ} {ids : M → UInt8} {log : List (ProbeEvent M)}
  {motorId : UInt8} {s s' : ProbeBus M}

theorem confirm_idle (hsane : Sane ids log) (h : Idle ids log s) :
    Sat (probeBus replyNs) (Kept Sane) bus.confirmDestructive (fun _ => Idle ids log) s := by
  refine (confirmDestructive_only bus).sat (fun s c r s' hc h hw => ?_) h
  have h' := h.quiet hc hw
  exact ⟨h'.kept hsane, h'⟩

theorem sendStop_idle (hreal : bus.config.dryRun = false) (n : ℕ) (hsane : Sane ids log)
    (h : Idle ids log s) :
    Sat (probeBus replyNs) (Kept Sane) (bus.sendStop n motorId) (fun _ => Idle ids log) s := by
  unfold CanBus.sendStop
  refine (drain_idle n hsane h).bind fun _ s₁ h₁ => ?_
  apply send_idle hreal (not_isSetId_hostExtId bus motorId (by decide) _) ?_ hsane h₁
  rw [commType_hostExtId]
  decide

/-- Assigning an ID after a query that nobody answered. -/
theorem sendSetId_sat (hreal : bus.config.dryRun = false) (n : ℕ) {oldId newId : UInt8}
    (h : Unanswered Sane ids newId s) :
    Sat (probeBus replyNs) (Kept Sane) (bus.sendSetId n oldId newId)
      (fun _ s' => ∃ ids', Ready Sane ids' s') s := by
  obtain ⟨log, hidle, hsane, hlost⟩ := h
  have hset : IsSetId (bus.setIdFrame oldId newId) := isSetId_setIdFrame _ _ _
  have hnew : newIdOf (bus.setIdFrame oldId newId) = newId := newIdOf_setIdFrame _ _ _
  have hget : ¬ (bus.setIdFrame oldId newId).commType = CommType.getId.code := by
    unfold IsSetId at hset
    rw [hset]
    decide
  unfold CanBus.sendSetId
  refine (drain_idle n hsane hidle).bind fun _ s₁ h₁ => ?_
  unfold CanBus.send
  rw [hreal]
  intro status s' hw
  obtain ⟨hcur, hlog, hawaited⟩ := h₁
  obtain ⟨-, -, hwrote⟩ := hw
  change Wrote replyNs (bus.setIdFrame oldId newId) (status == pcanErrorOk) s₁ s' at hwrote
  cases hwrote with
  | setId _ hl ha hmove =>
      rw [hcur, hlog] at hl
      rw [hcur] at hmove
      have hsane' : Sane s'.cur (.setId ids (bus.setIdFrame oldId newId) :: log) :=
        hsane.assign (fun hheld => hnew.symm ▸ hlost (hnew ▸ hheld)) hmove
      have hidle' : Idle s'.cur (.setId ids (bus.setIdFrame oldId newId) :: log) s' :=
        ⟨rfl, hl, ha.trans hawaited⟩
      exact ⟨hidle'.kept hsane', s'.cur, _, hidle', hsane'⟩
  | asked hg => exact absurd hg hget
  | notAsked hg => exact absurd hg hget
  | nobody hno => exact absurd hset hno

/-- From the confirmation on, when the query for the new ID brought nothing. -/
theorem changeId_idle_sat (hreal : bus.config.dryRun = false)
    (htimeout : replyNs ≤ bus.config.timeoutMs * nsPerMs) (n : ℕ) {oldId newId : UInt8}
    (oldDevice : Option DeviceInfo) (h : Unanswered Sane ids newId s) :
    Sat (probeBus replyNs) (Kept Sane) (bus.changeId n oldId newId oldDevice)
      (fun _ s' => ∃ ids', Ready Sane ids' s') s := by
  obtain ⟨log, hidle, hsane, hlost⟩ := h
  have hready : ∀ s', Idle ids log s' → ∃ ids', Ready Sane ids' s' :=
    fun s' h => ⟨ids, log, h, hsane⟩
  unfold CanBus.changeId
  refine (confirm_idle hsane hidle).bind fun confirmed s₁ h₁ => ?_
  cases confirmed with
  | false => exact hready s₁ h₁
  | true =>
      simp only [Bool.not_true, Bool.false_eq_true, if_false]
      refine (sendStop_idle hreal n hsane h₁).bind fun stopped s₂ h₂ => ?_
      cases stopped with
      | false => exact hready s₂ h₂
      | true =>
          simp only [Bool.not_true, Bool.false_eq_true, if_false]
          refine (sendSetId_sat hreal n ⟨log, h₂, hsane, hlost⟩).bind fun sent s₃ h₃ => ?_
          cases sent with
          | false => exact h₃
          | true =>
              obtain ⟨ids', log', hidle', hsane'⟩ := h₃
              simp only [Bool.not_true, Bool.false_eq_true, if_false, hreal]
              rw [sleepFor_bind, sat_call]
              intro _ s₄ hw
              have h₄ := hidle'.quiet (c := .sleepFor _) (by simp) hw
              refine ⟨h₄.kept hsane', ?_⟩
              refine (getDevice_sat sane_tolerant hreal htimeout n ⟨log', h₄, hsane'⟩).bind
                fun r s₅ ⟨h₅, _⟩ => ?_
              cases r with
              | none => exact ⟨ids', h₅⟩
              | some changed =>
                  cases oldDevice with
                  | none => exact ⟨ids', h₅⟩
                  | some target =>
                      simp only
                      split
                      · exact ⟨ids', h₅⟩
                      · exact ⟨ids', h₅⟩

theorem commandSetId_real_sat (hreal : bus.config.dryRun = false)
    (htimeout : replyNs ≤ bus.config.timeoutMs * nsPerMs) (n : ℕ) (oldId newId : UInt8)
    (h : Ready Sane ids s) :
    Sat (probeBus replyNs) (Kept Sane) (bus.commandSetId n oldId newId)
      (fun _ s' => ∃ ids', Ready Sane ids' s') s := by
  unfold CanBus.commandSetId
  by_cases hids : oldId = newId
  · rw [if_pos hids]
    exact ⟨ids, h⟩
  · simp only [if_neg hids, hreal, Bool.false_eq_true, if_false]
    by_cases hretries : 0 < bus.config.retries
    · refine (getDevice_sat sane_tolerant hreal htimeout n h).bind fun r s₁ ⟨h₁, _⟩ => ?_
      cases r with
      | none => exact ⟨ids, h₁⟩
      | some target =>
          refine (getDevice_sat sane_tolerant hreal htimeout n h₁).bind fun r' s₂ ⟨h₂, hnone⟩ => ?_
          cases r' with
          | some d => exact ⟨ids, h₂⟩
          | none => exact changeId_idle_sat hreal htimeout n _ (hnone rfl hretries)
    · have hzero : bus.config.retries = 0 := by omega
      unfold CanBus.getDevice
      rw [hzero]
      exact ⟨ids, h⟩

theorem commandSetId_dryRun_only (hdry : bus.config.dryRun = true) (n : ℕ)
    (oldId newId : UInt8) :
    (bus.commandSetId n oldId newId).Only fun c => ∀ ch msg, c ≠ SysCall.canWrite ch msg := by
  have hdrain : bus.drain n = .ret () := by
    unfold CanBus.drain CanBus.drainLoop CanBus.receive
    rw [hdry]
    rfl
  unfold CanBus.commandSetId
  by_cases hids : oldId = newId
  · rw [if_pos hids]
    trivial
  · rw [if_neg hids, hdry]
    unfold CanBus.changeId CanBus.confirmDestructive CanBus.sendStop CanBus.sendSetId CanBus.send
    rw [hdry, hdrain, Bool.or_true]
    exact ⟨by simp, fun _ => ⟨by simp, fun _ => trivial⟩⟩

theorem commandSetId_ready (htimeout : replyNs ≤ bus.config.timeoutMs * nsPerMs) (n : ℕ)
    (oldId newId : UInt8) (h : Ready Sane ids s) :
    Sat (probeBus replyNs) (Kept Sane) (bus.commandSetId n oldId newId)
      (fun _ s' => ∃ ids', Ready Sane ids' s') s := by
  cases hdry : bus.config.dryRun with
  | false => exact commandSetId_real_sat hdry htimeout n oldId newId h
  | true =>
      obtain ⟨log, hidle, hsane⟩ := h
      have hkeep := (commandSetId_dryRun_only hdry n oldId newId).sat (W := probeBus replyNs)
        (fun _ _ _ _ hc (h : Idle ids log _) hw => ⟨(h.quiet hc hw).kept hsane, h.quiet hc hw⟩)
        hidle
      exact hkeep.mono fun _ s' h' => ⟨ids, log, h', hsane⟩

theorem mainSetId_ready {config : Config} (htimeout : replyNs ≤ config.timeoutMs * nsPerMs)
    (ch : Fin numChannels) (n : ℕ) (oldId newId : UInt8) (h : Ready Sane ids s) :
    Sat (probeBus replyNs) (Kept Sane) (mainSetId config ch n oldId newId)
      (fun _ s' => ∃ ids', Ready Sane ids' s') s := by
  have hcommand : ∀ s', Ready Sane ids s' → Sat (probeBus replyNs) (Kept Sane)
      ((CanBus.mk config ch).commandSetId n oldId newId >>= fun x => pure x.exitCode)
      (fun _ s' => ∃ ids', Ready Sane ids' s') s' := by
    intro s' h'
    refine (commandSetId_ready ?_ n oldId newId h').bind fun _ _ hx => hx
    exact htimeout
  unfold mainSetId CanBus.init
  by_cases hdry : config.dryRun = true
  · rw [if_pos hdry]
    exact hcommand s h
  · rw [if_neg hdry]
    intro status s' hw
    obtain ⟨log, hidle, hsane⟩ := h
    have h' := hidle.quiet (c := .canInitialize ch) (by simp) hw
    refine ⟨h'.kept hsane, ?_⟩
    by_cases hok : (status == pcanErrorOk) = true
    · simp only [Prog.bind, hok, if_true]
      exact hcommand s' ⟨log, h', hsane⟩
    · simp only [Prog.bind, hok]
      exact ⟨ids, log, h', hsane⟩

end parts

/-! ### Sequences of commands -/

structure SetIdCall where
  config : Config
  oldId : UInt8
  newId : UInt8

/-- Calls of the tool on one channel, one after the other; the exit codes are not looked at. -/
def setIdCalls (ch : Fin numChannels) (n : ℕ) : List SetIdCall → SysM Unit
  | [] => return
  | call :: rest => do
      let _ ← mainSetId call.config ch n call.oldId call.newId
      setIdCalls ch n rest

theorem setIdCalls_ready {replyNs : ℤ} (ch : Fin numChannels) (n : ℕ) :
    ∀ (calls : List SetIdCall) (ids : M → UInt8) (s : ProbeBus M),
      (∀ call ∈ calls, replyNs ≤ call.config.timeoutMs * nsPerMs) → Ready Sane ids s →
      Sat (probeBus replyNs) (Kept Sane) (setIdCalls ch n calls)
        (fun _ s' => ∃ ids', Ready Sane ids' s') s
  | [], ids, _, _, h => ⟨ids, h⟩
  | call :: rest, _, _, htimeout, h => by
      have hcall := htimeout call List.mem_cons_self
      have hrest := fun x hx => htimeout x (List.mem_cons_of_mem _ hx)
      unfold setIdCalls
      refine (mainSetId_ready hcall ch n _ _ h).bind fun _ s₁ ⟨ids₁, h₁⟩ => ?_
      exact setIdCalls_ready ch n rest ids₁ s₁ hrest h₁

/-! ### Possible runs -/

section runs
variable {bus : CanBus} {replyNs : ℤ} {s : ProbeBus M} {n : ℕ}

theorem sendStop_probe_runs (hreal : bus.config.dryRun = false) (hs : s.awaited = none)
    (motorId : UInt8) :
    Runs (probeBus replyNs) (bus.sendStop (n + 1) motorId) s s (some true) := by
  have hget : (bus.stopFrame motorId).commType ≠ CommType.getId.code := by
    unfold CanBus.stopFrame
    rw [commType_hostExtId]
    decide
  have hwrite : probeBus replyNs s (.canWrite bus.channelIdx (bus.stopFrame motorId))
      pcanErrorOk s :=
    ⟨le_rfl, not_overdue hs, .nobody (not_isSetId_hostExtId bus motorId (by decide) _)
      (fun h => absurd h hget) rfl rfl rfl⟩
  unfold CanBus.sendStop CanBus.send
  refine (drain_probe_runs hreal hs).bind ?_
  rw [hreal]
  exact .call hwrite (.ret _ _)

def ProbeBus.assigned [DecidableEq M] (s : ProbeBus M) (m : M) (msg : TPCANMsg) : ProbeBus M :=
  { s with cur := Function.update s.cur m (newIdOf msg), log := .setId s.cur msg :: s.log }

/-- After the query for the new ID brought nothing, the motor with the old ID may take it. -/
theorem changeId_runs [DecidableEq M] (hreal : bus.config.dryRun = false)
    (hyes : bus.config.assumeYes = true) (hretries : bus.config.retries = 1)
    (ht : 0 < bus.config.timeoutMs) (hreply : 0 < replyNs) (hs : s.awaited = none) {m : M}
    {oldId newId : UInt8} (hm : s.cur m = oldId) (target : DeviceInfo) :
    ∃ x, Runs (probeBus replyNs) (bus.changeId (n + 1) oldId newId (some target)) s
      (s.assigned m (bus.setIdFrame oldId newId)) (some x) := by
  set s₁ := s.assigned m (bus.setIdFrame oldId newId)
  have hs₁ : s₁.awaited = none := hs
  have hdest : (bus.setIdFrame oldId newId).destinationId = oldId := destinationId_setIdFrame _ _ _
  have hwrite : probeBus replyNs s (.canWrite bus.channelIdx (bus.setIdFrame oldId newId))
      pcanErrorOk s₁ := by
    refine ⟨le_rfl, not_overdue hs₁, .setId (isSetId_setIdFrame _ _ _) rfl rfl ?_⟩
    rw [hdest]
    exact (Relabels.refl _ _ _).update hm
  have hpause : probeBus replyNs s₁ (.sleepFor 30000000) () s₁ :=
    ⟨le_rfl, not_overdue hs₁, rfl, rfl, rfl⟩
  have hheld : Held s₁.cur newId := by
    refine ⟨m, ?_⟩
    show Function.update s.cur m (newIdOf (bus.setIdFrame oldId newId)) m = newId
    rw [Function.update_self, newIdOf_setIdFrame]
  have hfound := getDevice_answered (n := n) hreal hretries ht hreply hs₁ hheld target.uid
  refine ⟨.changed target, ?_⟩
  unfold CanBus.changeId CanBus.confirmDestructive CanBus.sendSetId CanBus.send
  simp only [hyes, Bool.true_or, if_true, Prog.pure_eq, Prog.ret_bind, Bool.not_true,
    Bool.false_eq_true, if_false, hreal]
  refine (sendStop_probe_runs hreal hs oldId).bind ?_
  simp only [Bool.not_true, Bool.false_eq_true, if_false, bind_assoc]
  refine (drain_probe_runs hreal hs).bind (.call hwrite ?_)
  refine .call hpause (hfound.bind ?_)
  simp only [ne_eq, not_true_eq_false, if_false]
  exact .ret _ _

theorem commandSetId_runs_of (hreal : bus.config.dryRun = false) {oldId newId : UInt8}
    (hids : oldId ≠ newId) {s₁ s₂ : ProbeBus M} {target : DeviceInfo} {x : SetIdExit}
    (hold : Runs (probeBus replyNs) (bus.getDevice n oldId) s s (some (some target)))
    (hnew : Runs (probeBus replyNs) (bus.getDevice n newId) s s₁ (some none))
    (hchange : Runs (probeBus replyNs) (bus.changeId n oldId newId (some target)) s₁ s₂
      (some x)) :
    Runs (probeBus replyNs) (bus.commandSetId n oldId newId) s s₂ (some x) := by
  unfold CanBus.commandSetId
  simp only [if_neg hids, hreal, Bool.false_eq_true, if_false]
  exact hold.bind (hnew.bind hchange)

end runs

/-! ### The guarantee -/

/-- **When `set-id` assigns only free IDs.**  In every run of any calls of the tool, whatever
writes fail and whatever reads report errors, every `SET_CAN_ID` was written with the new ID
free if and only if no probe of the new ID was lost since the `SET_CAN_ID` before it; and then
the motors still have distinct IDs. -/
theorem set_id_free_iff {replyNs : ℤ} {ch : Fin numChannels} {n : ℕ} {calls : List SetIdCall}
    (htimeout : ∀ call ∈ calls, replyNs ≤ call.config.timeoutMs * nsPerMs) {s s' : ProbeBus M}
    {o : Option Unit} (hids : Function.Injective s.cur) (hlog : s.log = [])
    (hawaited : s.awaited = none) (hr : Runs (probeBus replyNs) (setIdCalls ch n calls) s s' o) :
    (EachSetId Free s'.log ↔ EachSetId NoneLost s'.log) ∧
      (EachSetId NoneLost s'.log → Function.Injective s'.cur) := by
  have hsane : Sane s.cur s.log := by
    rw [hlog]
    exact ⟨trivial, fun _ h => h.elim, fun _ => hids⟩
  have hready : Ready Sane s.cur s := ⟨s.log, ⟨rfl, rfl, hawaited⟩, hsane⟩
  have hfinal : Sane s'.cur s'.log :=
    (hr.sat (setIdCalls_ready ch n calls _ _ htimeout hready) hsane).1
  exact ⟨EachSetId.congr _ hfinal.free, hfinal.distinct⟩

def motors37 : ProbeBus (Fin 2) := { cur := ![3, 7] }

/-- A reply is read within the default timeout. -/
def defaultReplyNs : ℤ := 20 * nsPerMs

/-- In a channel that can be initialized, what `command_set_id` does is what the tool does. -/
theorem setIdCalls_runs {replyNs : ℤ} {s' : ProbeBus (Fin 2)} {newId : UInt8} {x : SetIdExit}
    (h : Runs (probeBus replyNs) (benchBus.commandSetId 1 3 newId) motors37 s' (some x)) :
    Runs (probeBus replyNs) (setIdCalls 1 1 [⟨benchBus.config, 3, newId⟩]) motors37 s'
      (some ()) := by
  have hinit : probeBus replyNs motors37 (.canInitialize 1) pcanErrorOk motors37 :=
    ⟨le_rfl, not_overdue rfl, rfl, rfl, rfl⟩
  have hmain : Runs (probeBus replyNs) (mainSetId benchBus.config 1 1 3 newId) motors37 s'
      (some x.exitCode) := .call hinit (h.bind (.ret _ _))
  exact hmain.bind (.ret _ _)

/-- `set-id 3 7` beside a motor 7: the probe of 7 cannot be written, and both motors end with
the ID 7. -/
theorem assigned_id_in_use : ∃ s', Runs (probeBus defaultReplyNs)
    (setIdCalls 1 1 [⟨benchBus.config, 3, 7⟩]) motors37 s' (some ()) ∧
    ¬ EachSetId Free s'.log ∧ ¬ Function.Injective s'.cur := by
  have ht : 0 < benchBus.config.timeoutMs := by decide
  have hreply : 0 < defaultReplyNs := by decide
  set s₁ : ProbeBus (Fin 2) := { motors37 with log := [.lost 7] }
  have hheld : Held motors37.cur 3 := ⟨0, rfl⟩
  have hm : s₁.cur 0 = 3 := rfl
  have hold : Runs (probeBus defaultReplyNs) (benchBus.getDevice 1 3) motors37 motors37
      (some (some ⟨3, zeroData⟩)) :=
    getDevice_answered rfl rfl ht hreply rfl hheld zeroData
  have hnew : Runs (probeBus defaultReplyNs) (benchBus.getDevice 1 7) motors37 s₁ (some none) :=
    getDevice_unwritten rfl rfl rfl ⟨1, rfl⟩
  obtain ⟨x, hchange⟩ : ∃ x, Runs (probeBus defaultReplyNs)
      (benchBus.changeId 1 3 7 (some ⟨3, zeroData⟩)) s₁
      (s₁.assigned 0 (benchBus.setIdFrame 3 7)) (some x) :=
    changeId_runs rfl rfl rfl ht hreply rfl hm _
  have hnewId : newIdOf (benchBus.setIdFrame 3 7) = 7 := newIdOf_setIdFrame _ _ _
  refine ⟨_, setIdCalls_runs (commandSetId_runs_of rfl (by decide) hold hnew hchange), ?_, ?_⟩
  · intro hfree
    apply hfree.1
    rw [hnewId]
    exact ⟨1, rfl⟩
  · intro hinj
    have h : (s₁.assigned 0 (benchBus.setIdFrame 3 7)).cur 0 =
        (s₁.assigned 0 (benchBus.setIdFrame 3 7)).cur 1 := hnewId
    exact absurd (hinj h) (by decide)

/-- `set-id 3 9` when every write succeeds. -/
theorem set_id_free_iff_nine : ∃ s', Runs (probeBus defaultReplyNs)
    (setIdCalls 1 1 [⟨benchBus.config, 3, 9⟩]) motors37 s' (some ()) ∧
    EachSetId Free s'.log ∧ Function.Injective s'.cur := by
  have ht : 0 < benchBus.config.timeoutMs := by decide
  have hreply : 0 < defaultReplyNs := by decide
  set s₁ : ProbeBus (Fin 2) :=
    { motors37 with time := motors37.time + benchBus.config.timeoutMs * nsPerMs }
  have hheld : Held motors37.cur 3 := ⟨0, rfl⟩
  have hm : s₁.cur 0 = 3 := rfl
  have hold : Runs (probeBus defaultReplyNs) (benchBus.getDevice 1 3) motors37 motors37
      (some (some ⟨3, zeroData⟩)) :=
    getDevice_answered rfl rfl ht hreply rfl hheld zeroData
  have hfree : ¬ Held motors37.cur 9 := by
    unfold Held motors37
    decide
  have hnew : Runs (probeBus defaultReplyNs) (benchBus.getDevice 1 9) motors37 s₁ (some none) :=
    getDevice_nobody rfl rfl ht rfl hfree
  obtain ⟨x, hchange⟩ : ∃ x, Runs (probeBus defaultReplyNs)
      (benchBus.changeId 1 3 9 (some ⟨3, zeroData⟩)) s₁
      (s₁.assigned 0 (benchBus.setIdFrame 3 9)) (some x) :=
    changeId_runs rfl rfl rfl ht hreply rfl hm _
  have hr := setIdCalls_runs (commandSetId_runs_of rfl (by decide) hold hnew hchange)
  have hinj : Function.Injective motors37.cur := by
    unfold motors37
    decide
  have htimeout : ∀ call ∈ [(⟨benchBus.config, 3, 9⟩ : SetIdCall)],
      defaultReplyNs ≤ call.config.timeoutMs * nsPerMs := by
    simp [benchBus, defaultReplyNs]
  have hnone : EachSetId NoneLost (s₁.assigned 0 (benchBus.setIdFrame 3 9)).log := ⟨id, trivial⟩
  obtain ⟨hiff, hdistinct⟩ := set_id_free_iff htimeout hinj rfl rfl hr
  exact ⟨_, hr, hiff.mpr hnone, hdistinct hnone⟩

end MotorConfig

end Qub
