import QubController.Completion
import QubController.MotorConfig
import QubController.PositionRead
import QubController.TestConnection

/-! # Who answered `GET_ID`

Three programs ask a motor for its ID and decide on their own which frame is the answer:
`get_device` of `motor_config`, `query_device` of `position_read`, and the first stage of
`probe_motor` in `test_connection`.  Each is run against the same frames (`replyWindow`): they
arrive in their order, at any moments of the reply window, and all of them before its end.

`discovery_agrees_iff` says for which frames the three agree. -/

namespace Qub

open Interaction

/-! ### The `GET_ID` stage -/

/-- An attempt of `probe_motor` up to the answer of `GET_ID`: was the query written, and was
there a reply? -/
def TestConnection.getIdStage (ch : Fin numChannels) (n : ℕ) (motorId : UInt8) (attempt : ℤ)
    (result : ProbeResult) : SysM (Bool × Bool × ProbeResult) := do
  drainRxQueue ch n
  let sts ← sendGetId ch motorId
  let result :=
    { result with attempt, lastStatus := sts, txOk := sts == pcanErrorOk, stage := "GET_ID" }
  if !result.txOk then
    return (false, false, result)
  else
    let (replied, result) ← waitForReply ch n motorId probeTimeoutNs result
    return (true, replied, result)

/-- Every attempt begins with this stage. -/
theorem TestConnection.probeLoop_cons (ch : Fin numChannels) (n : ℕ) (motorId : UInt8) (attempt : ℤ)
    (rest : List ℤ) (result : ProbeResult) :
    probeLoop ch n motorId (attempt :: rest) result =
      getIdStage ch n motorId attempt result >>= fun (sent, replied, result) =>
        if !sent then probeLoop ch n motorId rest result
        else if replied then return result
        else probeParamLoop ch n motorId probeParams result >>= fun (replied, result) =>
          if replied then return result else probeLoop ch n motorId rest result := by
  rw [probeLoop, getIdStage, bind_assoc]
  refine congrArg _ (funext fun _ => ?_)
  rw [bind_assoc]
  refine congrArg _ (funext fun sts => ?_)
  by_cases hok : sts = pcanErrorOk
  · simp only [hok, beq_self_eq_true, Bool.not_true, Bool.false_eq_true, if_false, bind_assoc,
      pure_bind]
  · simp [hok]

namespace Discovery

/-! ### The reply window -/

/-- The frames still to be delivered, whether the query was written, and the first reading of the
clock after it. -/
structure Window where
  frames : List TPCANMsg
  sent : Bool := false
  opened : Option ℤ := none

/-- The query is written and no read fails.  The frames come after the query, in their order and
at any reads; while some are left the clock is before the end of the window. -/
def replyWindow (timeoutNs : ℤ) : World Sys Window := fun s c r s' =>
  match c, r with
  | .canWrite _ _, r => r = pcanErrorOk ∧ s' = { s with sent := true }
  | .canRead _, r => r.1 = pcanErrorQrcvEmpty ∧ s' = s ∨
      s.sent = true ∧ ∃ f rest, s.frames = f :: rest ∧ r = (pcanErrorOk, f) ∧
        s' = { s with frames := rest }
  | .steadyNow, r =>
      if s.sent then (∀ t ∈ s.opened, s.frames ≠ [] → r < t + timeoutNs) ∧
        s' = { s with opened := s.opened.or (some r) }
      else s' = s
  | _, _ => s' = s

/-- The answer as a comment in `get_device` describes it: a `GET_ID` reply of the motor to `0xFE`,
as the manual fixes it, or to the host. -/
def isIdAnswer (motorId : UInt8) (msg : TPCANMsg) : Bool :=
  msg.extended && (msg.commType == CommType.getId.code && msg.sourceMotorId == motorId &&
    (msg.destinationId == 0xFE || msg.destinationId == hostIdDefault))

theorem isIdAnswer_source {motorId : UInt8} {msg : TPCANMsg} (h : isIdAnswer motorId msg = true) :
    msg.sourceMotorId = motorId := by
  simp only [isIdAnswer, Bool.and_eq_true, beq_iff_eq] at h
  exact h.2.1.2

/-- The bytes of a frame that was read into an empty buffer. -/
def bytes (msg : TPCANMsg) : Fin 8 → UInt8 := (({} : TPCANMsg).fill msg).data

section runs
variable {timeoutNs t₀ : ℤ} {frames : List TPCANMsg} {accepts : TPCANMsg → Bool} {s s' : Window}

/-- The wait is going on, and the first accepted frame is still to come. -/
structure Ahead (t₀ : ℤ) (accepts : TPCANMsg → Bool) (frames : List TPCANMsg) (s : Window) :
    Prop where
  sent : s.sent = true
  opened : s.opened = some t₀
  find_eq : s.frames.find? accepts = frames.find? accepts

theorem Ahead.skip (h : Ahead t₀ accepts frames s) {f : TPCANMsg} {rest : List TPCANMsg}
    (hs : s.frames = f :: rest) (hf : accepts f = false) :
    Ahead t₀ accepts frames { s with frames := rest } := by
  refine ⟨h.sent, h.opened, ?_⟩
  rw [← h.find_eq, hs, List.find?_cons_of_neg (by simp [hf])]

theorem Ahead.take (h : Ahead t₀ accepts frames s) {f : TPCANMsg} {rest : List TPCANMsg}
    (hs : s.frames = f :: rest) (hf : accepts f = true) : frames.find? accepts = some f := by
  rw [← h.find_eq, hs, List.find?_cons_of_pos hf]

/-- The window is over. -/
theorem Ahead.none_left (h : Ahead t₀ accepts frames s) (hs : s.frames = []) :
    frames.find? accepts = none := by
  rw [← h.find_eq, hs, List.find?_nil]

/-- The clock during the wait. -/
theorem Ahead.clock (h : Ahead t₀ accepts frames s) {now : ℤ}
    (hnow : replyWindow timeoutNs s .steadyNow now s') :
    s' = s ∧ (t₀ + timeoutNs ≤ now → s.frames = []) := by
  obtain ⟨hs, ho, -⟩ := h
  obtain ⟨frames, sent, opened⟩ := s
  simp only at hs ho
  subst hs ho
  obtain ⟨hbefore, rfl⟩ := hnow
  refine ⟨rfl, fun hle => ?_⟩
  by_contra hne
  exact absurd (hbefore t₀ rfl hne) (not_lt.mpr hle)

/-- The clock at the start of the wait. -/
theorem ahead_start {now : ℤ}
    (hnow : replyWindow timeoutNs ⟨frames, true, none⟩ .steadyNow now s') :
    Ahead now accepts frames s' := by
  obtain ⟨-, rfl⟩ := hnow
  exact ⟨rfl, rfl, rfl⟩

/-! ### What each program returns -/

section motorConfig
variable {bus : MotorConfig.CanBus} {motorId : UInt8}

theorem isIdReply_fill (hhost : bus.config.hostId = hostIdDefault) (f : TPCANMsg) :
    isIdAnswer motorId f = (f.extended && bus.isIdReply motorId (({} : TPCANMsg).fill f)) := by
  simp [isIdAnswer, MotorConfig.CanBus.isIdReply, hhost]

/-- Before the query the queue is empty. -/
theorem receives_unsent (ch : Fin numChannels) :
    MotorConfig.Receives (replyWindow timeoutNs) (fun _ => True) ch (· = ⟨frames, false, none⟩)
      (fun _ s => s = ⟨frames, false, none⟩) where
  frame := by
    rintro s frame s' rfl (⟨hempty, -⟩ | ⟨hsent, -⟩) -
    · exact absurd hempty (by simp [pcanErrorOk, pcanErrorQrcvEmpty])
    · cases hsent
  other := by
    rintro s status frame s' rfl (⟨-, rfl⟩ | ⟨hsent, -⟩) -
    · exact ⟨trivial, rfl⟩
    · cases hsent
  clock := by
    rintro s now s' rfl hnow
    exact ⟨trivial, hnow⟩
  sleep := by
    rintro s s' rfl hsleep
    exact ⟨trivial, hsleep⟩

/-- A received frame, which may be the answer. -/
def Received (t₀ : ℤ) (accepts : TPCANMsg → Bool) (frames : List TPCANMsg) (msg : TPCANMsg)
    (s : Window) : Prop :=
  ∃ f, msg = ({} : TPCANMsg).fill f ∧ f.extended = true ∧
    Ahead t₀ accepts frames { s with frames := f :: s.frames }

/-- During the wait frames that are not extended are no answers. -/
theorem receives_sent (ch : Fin numChannels)
    (haccepts : ∀ f, accepts f = true → f.extended = true) :
    MotorConfig.Receives (replyWindow timeoutNs) (fun _ => True) ch (Ahead t₀ accepts frames)
      (Received t₀ accepts frames) where
  frame := by
    rintro s frame s' h (⟨hempty, -⟩ | ⟨-, f, rest, hs, hr, rfl⟩) hext
    · exact absurd hempty (by simp [pcanErrorOk, pcanErrorQrcvEmpty])
    · cases hr
      refine ⟨trivial, frame, rfl, hext, h.sent, h.opened, ?_⟩
      rw [← h.find_eq, hs]
  other := by
    rintro s status frame s' h (⟨-, rfl⟩ | ⟨-, f, rest, hs, hr, rfl⟩) hext
    · exact ⟨trivial, h⟩
    · cases hr
      refine ⟨trivial, h.skip hs ?_⟩
      have hplain := hext rfl
      by_contra htrue
      have hextended := haccepts frame (by simpa using htrue)
      exact absurd hextended (by simp [hplain])
  clock s now s' h hnow := ⟨trivial, (h.clock hnow).1 ▸ h⟩
  sleep := by
    rintro s s' h rfl
    exact ⟨trivial, h⟩

/-- `wait_for`, when the frames come within its time. -/
theorem waitFor_sat (hhost : bus.config.hostId = hostIdDefault) (n : ℕ) (timeoutMs : ℤ) :
    Sat (replyWindow (timeoutMs * MotorConfig.nsPerMs)) (fun _ => True)
      (bus.waitFor n timeoutMs (bus.isIdReply motorId))
      (fun r _ => r = (frames.find? (isIdAnswer motorId)).map ({} : TPCANMsg).fill)
      ⟨frames, true, none⟩ := by
  unfold MotorConfig.CanBus.waitFor
  intro now s₁ hnow
  have h₁ : Ahead now (isIdAnswer motorId) frames s₁ := ahead_start hnow
  refine ⟨trivial, ?_⟩
  have hext : ∀ f, isIdAnswer motorId f = true → f.extended = true := fun f hf => by
    rw [isIdReply_fill hhost, Bool.and_eq_true] at hf
    exact hf.1
  refine (MotorConfig.CanBus.waitLoop_sat (N := fun _ => frames.find? (isIdAnswer motorId) = none)
    (receives_sent bus.channelIdx hext) n ?_ ?_ n s₁ h₁).mono ?_
  · rintro msg s hno ⟨f, rfl, hf, hahead⟩
    refine hahead.skip rfl ?_
    rw [isIdReply_fill hhost, hno, Bool.and_false]
  · intro s now' s' h hle hnow'
    exact h.none_left ((h.clock hnow').2 hle)
  · intro r s' hr
    cases r with
    | none =>
        have hnone : frames.find? (isIdAnswer motorId) = none := hr
        rw [hnone]
        rfl
    | some msg =>
        obtain ⟨hyes, f, rfl, hf, hahead⟩ := hr
        have hfind := hahead.take rfl (by rw [isIdReply_fill hhost, hf, hyes, Bool.and_self])
        simp [hfind]

/-- One attempt of `get_device`. -/
theorem getDevice_sat (hreal : bus.config.dryRun = false)
    (hhost : bus.config.hostId = hostIdDefault) (n : ℕ) :
    Sat (replyWindow (bus.config.timeoutMs * MotorConfig.nsPerMs)) (fun _ => True)
      (bus.getDeviceLoop n motorId 1)
      (fun r _ => r = (frames.find? (isIdAnswer motorId)).map fun f => ⟨motorId, bytes f⟩)
      ⟨frames, false, none⟩ := by
  rw [MotorConfig.CanBus.getDeviceLoop]
  refine (MotorConfig.CanBus.drain_sat (receives_unsent bus.channelIdx) n rfl).bind ?_
  rintro _ s₁ rfl
  simp only [MotorConfig.CanBus.send, hreal, Bool.false_eq_true, if_false, canWrite_bind,
    Prog.call_bind, Prog.pure_eq, Prog.ret_bind, sat_call]
  rintro status s₂ ⟨rfl, rfl⟩
  refine ⟨trivial, ?_⟩
  simp only [beq_self_eq_true, Bool.not_true, Bool.false_eq_true, if_false]
  refine (waitFor_sat hhost n bus.config.timeoutMs).bind ?_
  rintro r s₃ rfl
  cases hfind : frames.find? (isIdAnswer motorId) with
  | none => rfl
  | some f =>
      have hsource : f.sourceMotorId = motorId := isIdAnswer_source (List.find?_some hfind)
      simp [bytes, hsource]

end motorConfig

section positionRead
variable {config : PositionRead.Config} {motorId : UInt8} {ch : Fin numChannels}

/-- A full answer: the only one that `query_device` takes. -/
def isFullAnswer (motorId : UInt8) (msg : TPCANMsg) : Bool := isIdAnswer motorId msg && msg.len == 8

theorem isDeviceReply_fill (hhost : config.hostId = hostIdDefault) (f : TPCANMsg) :
    PositionRead.isDeviceReply config.hostId motorId (({} : TPCANMsg).fill f) =
      isFullAnswer motorId f := by
  have hlen : (({} : TPCANMsg).fill f).len = f.len := rfl
  simp only [PositionRead.isDeviceReply, isFullAnswer, isIdAnswer, hhost, TPCANMsg.fill_extended,
    TPCANMsg.fill_commType, TPCANMsg.fill_sourceMotorId, TPCANMsg.fill_destinationId, hlen]
  cases f.extended <;> cases f.len == 8 <;> simp [Bool.and_assoc]

theorem drainChannel_sat (left : ℕ) :
    Sat (replyWindow timeoutNs) (fun _ => True) (PositionRead.drainChannel ch left)
      (fun _ s => s = ⟨frames, false, none⟩) ⟨frames, false, none⟩ := by
  induction left with
  | zero => rfl
  | succ left ih =>
      rw [PositionRead.drainChannel]
      simp only [canRead_bind, sat_call]
      rintro ⟨status, frame⟩ s' (⟨hempty, rfl⟩ | ⟨hsent, -⟩)
      · refine ⟨trivial, ?_⟩
        have hne : (status != pcanErrorOk) = true := by
          rw [show status = pcanErrorQrcvEmpty from hempty]
          decide
        simp only [hne, if_true]
        rfl
      · cases hsent

theorem queryLoop_sat (hhost : config.hostId = hostIdDefault) (n : ℕ)
    (h : Ahead t₀ (isFullAnswer motorId) frames s) :
    Sat (replyWindow timeoutNs) (fun _ => True)
      (PositionRead.queryLoop config ch motorId (t₀ + timeoutNs) n)
      (fun r _ => r = (frames.find? (isFullAnswer motorId)).map fun f => ⟨ch, motorId, bytes f⟩)
      s := by
  induction n generalizing s with
  | zero => trivial
  | succ n ih =>
      rw [PositionRead.queryLoop]
      simp only [steadyNow_bind, sat_call]
      intro now s₁ hnow
      obtain ⟨rfl, hend⟩ := h.clock hnow
      refine ⟨trivial, ?_⟩
      split
      · simp only [canRead_bind, sat_call]
        rintro ⟨status, frame⟩ s₂ (⟨hempty, rfl⟩ | ⟨-, f, rest, hs, hr, rfl⟩)
        · refine ⟨trivial, ?_⟩
          rw [show status = pcanErrorQrcvEmpty from hempty]
          rintro _ s₃ rfl
          exact ⟨trivial, ih h⟩
        · cases hr
          refine ⟨trivial, ?_⟩
          simp only [beq_self_eq_true, if_true, isDeviceReply_fill hhost]
          cases hf : isFullAnswer motorId frame with
          | true =>
              have hsource : frame.sourceMotorId = motorId :=
                isIdAnswer_source (Bool.and_eq_true_iff.mp hf).1
              simp [h.take hs hf, bytes, hsource]
          | false => exact ih (h.skip hs hf)
      · next hlt =>
          rw [h.none_left (hend (not_lt.mp hlt))]
          rfl

/-- `query_device`. -/
theorem queryDevice_sat (hhost : config.hostId = hostIdDefault) (n : ℕ) :
    Sat (replyWindow (PositionRead.ms config.scanTimeoutMs)) (fun _ => True)
      (PositionRead.queryDevice config n ch motorId)
      (fun r _ => r = (frames.find? (isFullAnswer motorId)).map fun f => ⟨ch, motorId, bytes f⟩)
      ⟨frames, false, none⟩ := by
  unfold PositionRead.queryDevice
  refine (drainChannel_sat 256).bind ?_
  rintro _ s₁ rfl status s₂ ⟨rfl, rfl⟩
  refine ⟨trivial, ?_⟩
  intro now s₃ hnow
  exact ⟨trivial, queryLoop_sat hhost n (ahead_start hnow)⟩

end positionRead

section testConnection
variable {motorId : UInt8} {ch : Fin numChannels}

theorem drainRxQueue_sat (n : ℕ) :
    Sat (replyWindow timeoutNs) (fun _ => True) (TestConnection.drainRxQueue ch n)
      (fun _ s => s = ⟨frames, false, none⟩) ⟨frames, false, none⟩ := by
  cases n with
  | zero => trivial
  | succ n =>
      rw [TestConnection.drainRxQueue]
      simp only [canRead_bind, sat_call]
      rintro ⟨status, frame⟩ s' (⟨hempty, rfl⟩ | ⟨hsent, -⟩)
      · refine ⟨trivial, ?_⟩
        rw [show status = pcanErrorQrcvEmpty from hempty]
        rfl
      · cases hsent

/-- The inner loop of the wait: what it returns is the first frame that it accepts. -/
theorem readReply_sat (haccepts : ∀ buf f : TPCANMsg, accepts (buf.fill f) = accepts f) (n : ℕ)
    (buf : TPCANMsg) (h : Ahead t₀ accepts frames s) :
    Sat (replyWindow timeoutNs) (fun _ => True) (TestConnection.readReply ch accepts n buf)
      (fun r s' => match r with
        | .ok _ => (frames.find? accepts).isSome = true
        | .error _ => Ahead t₀ accepts frames s') s := by
  induction n generalizing s buf with
  | zero => trivial
  | succ n ih =>
      rw [TestConnection.readReply]
      simp only [canRead_bind, sat_call]
      rintro ⟨status, frame⟩ s₂ (⟨hempty, rfl⟩ | ⟨-, f, rest, hs, hr, rfl⟩)
      · refine ⟨trivial, ?_⟩
        rw [show status = pcanErrorQrcvEmpty from hempty]
        exact h
      · cases hr
        refine ⟨trivial, ?_⟩
        simp only [beq_self_eq_true, if_true, haccepts]
        cases hf : accepts frame with
        | true => simp [h.take hs hf]
        | false => exact ih _ (h.skip hs hf)

theorem waitLoop_sat {α : Type} (haccepts : ∀ buf f : TPCANMsg, accepts (buf.fill f) = accepts f)
    (onReply : TPCANMsg → α → α) (onStatus : TPCANStatus → α → α) (n left : ℕ) (result : α)
    (h : Ahead t₀ accepts frames s) :
    Sat (replyWindow timeoutNs) (fun _ => True)
      (TestConnection.waitLoop ch accepts onReply onStatus n (t₀ + timeoutNs) left result)
      (fun r _ => r.1 = (frames.find? accepts).isSome) s := by
  induction left generalizing s result with
  | zero => trivial
  | succ left ih =>
      rw [TestConnection.waitLoop]
      simp only [steadyNow_bind, sat_call]
      intro now s₁ hnow
      obtain ⟨rfl, hend⟩ := h.clock hnow
      refine ⟨trivial, ?_⟩
      split
      · refine (readReply_sat haccepts n {} h).bind ?_
        rintro (sts | msg) s₂ hr
        · rintro _ s₃ rfl
          exact ⟨trivial, ih _ hr⟩
        · exact hr.symm
      · next hlt =>
          rw [h.none_left (hend (not_lt.mp hlt))]
          rfl

/-- The `GET_ID` stage of `probe_motor`. -/
theorem getIdStage_sat (n : ℕ) (attempt : ℤ) (result : TestConnection.ProbeResult) :
    Sat (replyWindow TestConnection.probeTimeoutNs) (fun _ => True)
      (TestConnection.getIdStage ch n motorId attempt result)
      (fun r _ => r.2.1 = (frames.find? (TestConnection.isReplyForMotor motorId)).isSome)
      ⟨frames, false, none⟩ := by
  unfold TestConnection.getIdStage
  refine (drainRxQueue_sat n).bind ?_
  rintro _ s₁ rfl
  simp only [TestConnection.sendGetId, canWrite_bind, sat_call]
  rintro sts s₂ ⟨rfl, rfl⟩
  refine ⟨trivial, ?_⟩
  simp only [beq_self_eq_true, Bool.not_true, Bool.false_eq_true, if_false]
  refine Sat.bind (Q := fun r _ => r.1 =
    (frames.find? (TestConnection.isReplyForMotor motorId)).isSome) ?_ ?_
  · intro now s₃ hnow
    exact ⟨trivial, waitLoop_sat (fun _ _ => rfl) _ _ n n _ (ahead_start hnow)⟩
  · rintro ⟨replied, result⟩ s' hr
    exact hr

end testConnection

end runs

/-! ### Runs that return -/

/-- The frames come at once, and the clock goes on when all of them were read. -/
def prompt (timeoutNs : ℤ) : Handler Sys Window := fun s c =>
  match c with
  | .canWrite _ _ => (pcanErrorOk, { s with sent := true })
  | .canRead _ =>
      match s.sent, s.frames with
      | true, f :: rest => ((pcanErrorOk, f), { s with frames := rest })
      | _, _ => ((pcanErrorQrcvEmpty, {}), s)
  | .steadyNow =>
      match s.sent, s.opened, s.frames with
      | false, _, _ => ((0 : ℤ), s)
      | true, none, _ => ((0 : ℤ), { s with opened := some 0 })
      | true, some t, [] => (t + timeoutNs, s)
      | true, some t, _ :: _ => (t, s)
  | c => (c.quiet, s)

theorem prompt_allowed {timeoutNs : ℤ} (htimeout : 0 < timeoutNs) (s : Window) (c : SysCall) :
    replyWindow timeoutNs s c (prompt timeoutNs s c).1 (prompt timeoutNs s c).2 := by
  obtain ⟨frames, sent, opened⟩ := s
  cases c with
  | canWrite ch msg => exact ⟨rfl, rfl⟩
  | canRead ch =>
      cases sent with
      | false => exact .inl ⟨rfl, rfl⟩
      | true =>
          cases frames with
          | nil => exact .inl ⟨rfl, rfl⟩
          | cons f rest => exact .inr ⟨rfl, f, rest, rfl, rfl, rfl⟩
  | steadyNow =>
      cases sent with
      | false => rfl
      | true =>
          cases opened with
          | none => exact ⟨fun t ht => absurd ht (by simp), rfl⟩
          | some t =>
              cases frames with
              | nil => exact ⟨fun _ _ hne => absurd rfl hne, rfl⟩
              | cons f rest =>
                  refine ⟨fun t' ht' _ => ?_, rfl⟩
                  obtain rfl : t = t' := Option.mem_some_iff.mp ht'
                  exact lt_add_of_pos_right t htimeout
  | _ => rfl

/-- A program that returns there has a run in the reply window. -/
theorem runs_of_prompt {α : Type} {timeoutNs : ℤ} (htimeout : 0 < timeoutNs) {p : SysM α}
    {s : Window} {Q Q' : α → Window → Prop} (hp : Completes (prompt timeoutNs).world p Q' s)
    (hsat : Sat (replyWindow timeoutNs) (fun _ => True) p Q s) :
    ∃ a s', Runs (replyWindow timeoutNs) p s s' (some a) ∧ Q a s' := by
  obtain ⟨a, s', hrun, -⟩ := hp.runs (prompt timeoutNs).world_answers
  have hrun' : Runs (replyWindow timeoutNs) p s s' (some a) := hrun.mono fun s c r s' h => by
    obtain ⟨rfl, rfl⟩ := h
    exact prompt_allowed htimeout s c
  exact ⟨a, s', hrun', hrun'.post hsat⟩

section returning
variable {timeoutNs t₀ : ℤ} {frames : List TPCANMsg} {f : TPCANMsg} {motorId : UInt8}
  {ch : Fin numChannels} {s' : Window}

theorem prompt_read {r : TPCANStatus × TPCANMsg}
    (h : (prompt timeoutNs).world ⟨f :: frames, true, some t₀⟩ (.canRead ch) r s') :
    r = (pcanErrorOk, f) ∧ s' = ⟨frames, true, some t₀⟩ := h

theorem prompt_read_nil {r : TPCANStatus × TPCANMsg}
    (h : (prompt timeoutNs).world ⟨[], true, some t₀⟩ (.canRead ch) r s') :
    r = (pcanErrorQrcvEmpty, {}) ∧ s' = ⟨[], true, some t₀⟩ := h

theorem prompt_read_unsent {r : TPCANStatus × TPCANMsg}
    (h : (prompt timeoutNs).world ⟨frames, false, none⟩ (.canRead ch) r s') :
    r = (pcanErrorQrcvEmpty, {}) ∧ s' = ⟨frames, false, none⟩ := h

/-- The clock is before the end while frames are left, and at the end when there are none. -/
theorem prompt_clock {now : ℤ}
    (h : (prompt timeoutNs).world ⟨frames, true, some t₀⟩ .steadyNow now s') :
    s' = ⟨frames, true, some t₀⟩ ∧ now = if frames = [] then t₀ + timeoutNs else t₀ := by
  obtain ⟨rfl, rfl⟩ := h
  cases frames <;> exact ⟨rfl, rfl⟩

theorem queryLoop_completes (htimeout : 0 < timeoutNs) (config : PositionRead.Config) (n : ℕ)
    (hn : frames.length < n) :
    Completes (prompt timeoutNs).world
      (PositionRead.queryLoop config ch motorId (t₀ + timeoutNs) n) (fun _ _ => True)
      ⟨frames, true, some t₀⟩ := by
  induction n generalizing frames with
  | zero => omega
  | succ n ih =>
      rw [PositionRead.queryLoop]
      simp only [steadyNow_bind, completes_call]
      intro now s₁ hnow
      obtain ⟨rfl, rfl⟩ := prompt_clock hnow
      cases frames with
      | nil => simp
      | cons f rest =>
          rw [if_pos (by simpa using htimeout)]
          simp only [canRead_bind, completes_call]
          rintro ⟨status, frame⟩ s₂ hread
          obtain ⟨hr, rfl⟩ := prompt_read hread
          cases hr
          simp only [beq_self_eq_true, if_true]
          cases PositionRead.isDeviceReply config.hostId motorId (({} : TPCANMsg).fill f) with
          | true => trivial
          | false => exact ih (by simpa using hn)

theorem queryDevice_completes (config : PositionRead.Config) (hscan : 0 < config.scanTimeoutMs)
    (ch : Fin numChannels) (motorId : UInt8) (frames : List TPCANMsg) :
    ∃ n, Completes (prompt (PositionRead.ms config.scanTimeoutMs)).world
      (PositionRead.queryDevice config n ch motorId) (fun _ _ => True) ⟨frames, false, none⟩ := by
  have htimeout : 0 < PositionRead.ms config.scanTimeoutMs := by
    unfold PositionRead.ms
    omega
  refine ⟨frames.length + 1, ?_⟩
  rw [PositionRead.queryDevice, PositionRead.drainChannel]
  simp only [canRead_bind, Prog.call_bind, completes_call]
  rintro ⟨status, frame⟩ s₁ hread
  obtain ⟨hr, rfl⟩ := prompt_read_unsent hread
  cases hr
  rintro status s₂ ⟨rfl, rfl⟩ now s₃ ⟨rfl, rfl⟩
  exact queryLoop_completes htimeout config _ (Nat.lt_succ_self _)

/-- The loop of `receive`: it returns a frame, or there is none left. -/
theorem receiveLoop_completes {bus : MotorConfig.CanBus} {timeoutMs deadline : ℤ}
    (htimeout : 0 < timeoutMs) (hopen : t₀ < deadline) (hend : deadline ≤ t₀ + timeoutNs) (n : ℕ)
    (hn : frames.length < n) :
    Completes (prompt timeoutNs).world (bus.receiveLoop timeoutMs deadline n)
      (fun r s' => ∃ rest, s' = ⟨rest, true, some t₀⟩ ∧
        (r.isSome = true → rest.length < frames.length) ∧ (r = none → rest = []))
      ⟨frames, true, some t₀⟩ := by
  induction n generalizing frames with
  | zero => omega
  | succ n ih =>
      rw [MotorConfig.CanBus.receiveLoop, MotorConfig.CanBus.receiveOnce]
      simp only [canRead_bind, Prog.call_bind, completes_call]
      rintro ⟨status, frame⟩ s₁ hread
      cases frames with
      | nil =>
          obtain ⟨hr, rfl⟩ := prompt_read_nil hread
          cases hr
          have hne : (pcanErrorQrcvEmpty == pcanErrorOk) = false := by decide
          simp only [hne, Bool.false_eq_true, if_false, bne_self_eq_false,
            if_neg (not_le.mpr htimeout), sleepFor_bind, Prog.call_bind, Prog.pure_eq,
            Prog.ret_bind, steadyNow_bind, completes_call]
          rintro _ s₂ ⟨-, rfl⟩ now s₃ hnow
          obtain ⟨rfl, rfl⟩ := prompt_clock hnow
          rw [if_neg (by simpa using hend)]
          exact ⟨[], rfl, by simp, fun _ => rfl⟩
      | cons f rest =>
          obtain ⟨hr, rfl⟩ := prompt_read hread
          cases hr
          simp only [beq_self_eq_true, if_true]
          cases (({} : TPCANMsg).fill frame).extended with
          | true => exact ⟨rest, rfl, by simp, by simp⟩
          | false =>
              simp only [Bool.false_eq_true, if_false, Prog.pure_eq, Prog.ret_bind, steadyNow_bind,
                completes_call]
              intro now s₂ hnow
              obtain ⟨rfl, rfl⟩ := prompt_clock hnow
              have hlen : rest.length < n := by simpa using hn
              cases rest with
              | nil =>
                  rw [if_neg (by simpa using hend)]
                  exact ⟨[], rfl, by simp, fun _ => rfl⟩
              | cons g rest =>
                  rw [if_pos (by simpa using hopen)]
                  refine (ih hlen).mono ?_
                  rintro r _ ⟨rest', rfl, hsome, hnone⟩
                  exact ⟨rest', rfl, fun h => (hsome h).trans (Nat.lt_succ_self _), hnone⟩

theorem receive_completes {bus : MotorConfig.CanBus} {timeoutMs : ℤ}
    (hreal : bus.config.dryRun = false) (htimeout : 0 < timeoutMs)
    (hend : timeoutMs * MotorConfig.nsPerMs ≤ timeoutNs) (n : ℕ) (hn : (f :: frames).length < n) :
    Completes (prompt timeoutNs).world (bus.receive n timeoutMs)
      (fun r s' => ∃ rest, s' = ⟨rest, true, some t₀⟩ ∧
        (r.isSome = true → rest.length < (f :: frames).length) ∧ (r = none → rest = []))
      ⟨f :: frames, true, some t₀⟩ := by
  unfold MotorConfig.CanBus.receive
  simp only [hreal, Bool.false_eq_true, if_false, steadyNow_bind, completes_call]
  intro now s₁ hread
  obtain ⟨rfl, hnow⟩ := prompt_clock hread
  rw [if_neg (List.cons_ne_nil f frames)] at hnow
  have hmax : max 0 timeoutMs = timeoutMs := max_eq_right htimeout.le
  have hpos : 0 < timeoutMs * MotorConfig.nsPerMs := mul_pos htimeout (by decide)
  rw [hnow, hmax]
  exact receiveLoop_completes htimeout (lt_add_of_pos_right _ hpos)
    (Int.add_le_add_left hend _) n hn

/-- The loop of `wait_for`. -/
theorem configWaitLoop_completes {bus : MotorConfig.CanBus} (hreal : bus.config.dryRun = false)
    {timeoutMs : ℤ} (htimeout : 0 < timeoutMs) (predicate : TPCANMsg → Bool) (n left : ℕ)
    (hn : frames.length < n) (hleft : frames.length < left) :
    Completes (prompt (timeoutMs * MotorConfig.nsPerMs)).world
      (bus.waitLoop n (t₀ + timeoutMs * MotorConfig.nsPerMs) predicate left) (fun _ _ => True)
      ⟨frames, true, some t₀⟩ := by
  induction left generalizing frames with
  | zero => omega
  | succ left ih =>
      rw [MotorConfig.CanBus.waitLoop]
      simp only [steadyNow_bind, completes_call]
      intro now s₁ hnow
      obtain ⟨rfl, rfl⟩ := prompt_clock hnow
      cases frames with
      | nil => simp
      | cons f rest =>
          have hpos : 0 < timeoutMs * MotorConfig.nsPerMs := mul_pos htimeout (by decide)
          rw [if_pos (by simpa using hpos)]
          simp only [completes_call]
          intro now' s₂ hread
          obtain ⟨rfl, hnow'⟩ := prompt_clock hread
          rw [if_neg (List.cons_ne_nil f rest)] at hnow'
          -- the remaining time is the whole time
          have hremaining : max 1 ((t₀ + timeoutMs * MotorConfig.nsPerMs - now').tdiv
              MotorConfig.nsPerMs) = timeoutMs := by
            rw [hnow', add_sub_cancel_left,
              Int.mul_tdiv_cancel _ (by decide : MotorConfig.nsPerMs ≠ 0)]
            exact max_eq_right htimeout
          rw [hremaining]
          refine (receive_completes hreal htimeout le_rfl n hn).bind ?_
          rintro r _ ⟨rest', rfl, hsome, hnone⟩
          cases r with
          | none =>
              obtain rfl := hnone rfl
              simp only [List.length_cons] at hleft hn
              exact ih (by simp; omega) (by simp; omega)
          | some msg =>
              have hshort := hsome rfl
              simp only [List.length_cons] at hleft hn hshort
              dsimp only
              split
              · trivial
              · exact ih (by omega) (by omega)

theorem drain_completes {bus : MotorConfig.CanBus} (hreal : bus.config.dryRun = false) {n : ℕ}
    (hn : 0 < n) :
    Completes (prompt timeoutNs).world (bus.drain n) (fun _ s => s = ⟨frames, false, none⟩)
      ⟨frames, false, none⟩ := by
  obtain ⟨n, rfl⟩ := Nat.exists_eq_succ_of_ne_zero hn.ne'
  rw [MotorConfig.CanBus.drain, MotorConfig.CanBus.drainLoop, MotorConfig.CanBus.receive]
  simp only [hreal, Bool.false_eq_true, if_false, steadyNow_bind, Prog.call_bind, completes_call]
  rintro now s₁ ⟨rfl, rfl⟩
  rw [MotorConfig.CanBus.receiveLoop, MotorConfig.CanBus.receiveOnce]
  simp only [canRead_bind, Prog.call_bind, completes_call]
  rintro ⟨status, frame⟩ s₂ hread
  obtain ⟨hr, rfl⟩ := prompt_read_unsent hread
  cases hr
  rfl

theorem getDevice_completes {bus : MotorConfig.CanBus} (hreal : bus.config.dryRun = false)
    (htimeout : 0 < bus.config.timeoutMs) (motorId : UInt8) (frames : List TPCANMsg) :
    ∃ n, Completes (prompt (bus.config.timeoutMs * MotorConfig.nsPerMs)).world
      (bus.getDeviceLoop n motorId 1) (fun _ _ => True) ⟨frames, false, none⟩ := by
  refine ⟨frames.length + 1, ?_⟩
  rw [MotorConfig.CanBus.getDeviceLoop]
  refine (drain_completes hreal (Nat.succ_pos _)).bind ?_
  rintro _ s₁ rfl
  simp only [MotorConfig.CanBus.send, hreal, Bool.false_eq_true, if_false, canWrite_bind,
    Prog.call_bind, Prog.pure_eq, Prog.ret_bind, completes_call]
  rintro status s₂ ⟨rfl, rfl⟩
  simp only [prompt, beq_self_eq_true, Bool.not_true, Bool.false_eq_true, if_false]
  refine Completes.bind (Q := fun _ _ => True) ?_ fun r s' _ => ?_
  · rintro now s₃ ⟨rfl, rfl⟩
    exact configWaitLoop_completes hreal htimeout _ _ _ (Nat.lt_succ_self _) (Nat.lt_succ_self _)
  · cases r <;> trivial

/-- The inner loop of the wait: a frame is accepted, or there is none left. -/
theorem readReply_completes (accepts : TPCANMsg → Bool) (n : ℕ) (hn : frames.length < n)
    (buf : TPCANMsg) :
    Completes (prompt timeoutNs).world (TestConnection.readReply ch accepts n buf)
      (fun r s' => ∀ sts, r = .error sts → s' = ⟨[], true, some t₀⟩) ⟨frames, true, some t₀⟩ := by
  induction n generalizing frames buf with
  | zero => omega
  | succ n ih =>
      rw [TestConnection.readReply]
      simp only [canRead_bind, completes_call]
      rintro ⟨status, frame⟩ s₁ hread
      cases frames with
      | nil =>
          obtain ⟨hr, rfl⟩ := prompt_read_nil hread
          cases hr
          exact fun _ _ => rfl
      | cons f rest =>
          obtain ⟨hr, rfl⟩ := prompt_read hread
          cases hr
          simp only [beq_self_eq_true, if_true]
          cases accepts (buf.fill frame) with
          | true => exact fun sts h => by cases h
          | false => exact ih (by simpa using hn) _

theorem waitLoop_completes {α : Type} (accepts : TPCANMsg → Bool) (onReply : TPCANMsg → α → α)
    (onStatus : TPCANStatus → α → α) (n left : ℕ) (hn : frames.length < n) (result : α) :
    Completes (prompt timeoutNs).world
      (TestConnection.waitLoop ch accepts onReply onStatus n (t₀ + timeoutNs) (left + 2) result)
      (fun _ _ => True) ⟨frames, true, some t₀⟩ := by
  have hover : ∀ left result, Completes (prompt timeoutNs).world
      (TestConnection.waitLoop ch accepts onReply onStatus n (t₀ + timeoutNs) (left + 1) result)
      (fun _ _ => True) ⟨[], true, some t₀⟩ := by
    intro left result
    rw [TestConnection.waitLoop]
    simp only [steadyNow_bind, completes_call]
    intro now s₁ hnow
    obtain ⟨rfl, rfl⟩ := prompt_clock hnow
    simp
  rw [TestConnection.waitLoop]
  simp only [steadyNow_bind, completes_call]
  intro now s₁ hnow
  obtain ⟨rfl, -⟩ := prompt_clock hnow
  split
  · refine (readReply_completes accepts n hn {}).bind ?_
    rintro (sts | msg) s₂ hs
    · obtain rfl := hs sts rfl
      rintro _ s₃ ⟨-, rfl⟩
      exact hover left _
    · trivial
  · trivial

theorem getIdStage_completes (ch : Fin numChannels) (motorId : UInt8) (attempt : ℤ)
    (result : TestConnection.ProbeResult) (frames : List TPCANMsg) :
    ∃ n, Completes (prompt TestConnection.probeTimeoutNs).world
      (TestConnection.getIdStage ch n motorId attempt result) (fun _ _ => True)
      ⟨frames, false, none⟩ := by
  refine ⟨frames.length + 2, ?_⟩
  rw [TestConnection.getIdStage, TestConnection.drainRxQueue]
  simp only [canRead_bind, Prog.call_bind, completes_call]
  rintro ⟨status, frame⟩ s₁ hread
  obtain ⟨hr, rfl⟩ := prompt_read_unsent hread
  cases hr
  show Completes _ (TestConnection.sendGetId ch motorId >>= _) _ _
  simp only [TestConnection.sendGetId, canWrite_bind, completes_call]
  rintro sts s₂ ⟨rfl, rfl⟩
  simp only [prompt, beq_self_eq_true, Bool.not_true, Bool.false_eq_true, if_false]
  refine Completes.bind (Q := fun _ _ => True) ?_ fun r s' _ => trivial
  rintro now s₃ ⟨rfl, rfl⟩
  exact waitLoop_completes _ _ _ _ frames.length (Nat.lt_add_of_pos_right (by decide)) _

end returning

/-! ### Agreement -/

/-- Nobody hears the motor: there is no answer, and no frame from it to the host. -/
def HeardByNone (motorId : UInt8) (frames : List TPCANMsg) : Prop :=
  ∀ f ∈ frames, isIdAnswer motorId f = false ∧ ¬ TestConnection.IsReplyFrom motorId f

/-- All hear it: there is a frame from it to the host and a full answer, and the first answer of
any length has the bytes of the first full one. -/
structure HeardByAll (motorId : UInt8) (frames : List TPCANMsg) : Prop where
  toHost : ∃ f ∈ frames, TestConnection.IsReplyFrom motorId f
  answered : ∃ f g, frames.find? (isIdAnswer motorId) = some f ∧
    frames.find? (isFullAnswer motorId) = some g ∧ bytes f = bytes g

/-- The three results on these frames are those of one motor that answered, or did not. -/
def Agree (motorId : UInt8) (frames : List TPCANMsg) : Prop :=
  (frames.find? (isIdAnswer motorId)).map bytes = (frames.find? (isFullAnswer motorId)).map bytes ∧
    (frames.find? (isIdAnswer motorId)).isSome =
      (frames.find? (TestConnection.isReplyForMotor motorId)).isSome

theorem agree_iff (motorId : UInt8) (frames : List TPCANMsg) :
    Agree motorId frames ↔ HeardByNone motorId frames ∨ HeardByAll motorId frames := by
  have hfull : ∀ g, frames.find? (isFullAnswer motorId) = some g →
      (frames.find? (isIdAnswer motorId)).isSome = true := by
    intro g hg
    have hg' := List.find?_some hg
    simp only [isFullAnswer, Bool.and_eq_true] at hg'
    exact List.find?_isSome.mpr ⟨g, List.mem_of_find?_eq_some hg, hg'.1⟩
  constructor
  · rintro ⟨hbytes, hsome⟩
    cases hanswer : frames.find? (isIdAnswer motorId) with
    | none =>
        rw [hanswer] at hsome
        refine .inl fun f hf => ⟨?_, ?_⟩
        · exact Bool.eq_false_iff.mpr (List.find?_eq_none.mp hanswer f hf)
        · have hnone : frames.find? (TestConnection.isReplyForMotor motorId) = none :=
            Option.not_isSome_iff_eq_none.mp (by rw [← hsome]; simp)
          rw [← TestConnection.isReplyForMotor_iff]
          exact List.find?_eq_none.mp hnone f hf
    | some f =>
        rw [hanswer] at hbytes hsome
        obtain ⟨g, hg, hfg⟩ := Option.map_eq_some_iff.mp hbytes.symm
        obtain ⟨f', hf', hreply⟩ := List.find?_isSome.mp hsome.symm
        exact .inr ⟨⟨f', hf', TestConnection.isReplyForMotor_iff.mp hreply⟩, f, g, hanswer, hg,
          hfg.symm⟩
  · rintro (hnone | ⟨⟨f', hf', hreply⟩, f, g, hf, hg, hfg⟩)
    · have hanswer : frames.find? (isIdAnswer motorId) = none :=
        List.find?_eq_none.mpr fun f hf => Bool.eq_false_iff.mp (hnone f hf).1
      have hreply : frames.find? (TestConnection.isReplyForMotor motorId) = none :=
        List.find?_eq_none.mpr fun f hf => by
          rw [TestConnection.isReplyForMotor_iff]
          exact (hnone f hf).2
      have hnofull : frames.find? (isFullAnswer motorId) = none := by
        cases hg : frames.find? (isFullAnswer motorId) with
        | none => rfl
        | some g =>
            have := hfull g hg
            rw [hanswer] at this
            cases this
      simp only [Agree, hanswer, hreply, hnofull, Option.map_none, Option.isSome_none, and_self]
    · refine ⟨by rw [hf, hg, Option.map_some, Option.map_some, hfg], ?_⟩
      rw [hf, List.find?_isSome.mpr ⟨f', hf', TestConnection.isReplyForMotor_iff.mpr hreply⟩]
      rfl

section tools
variable {bus : MotorConfig.CanBus} {config : PositionRead.Config} (ch : Fin numChannels)
  (motorId : UInt8) (frames : List TPCANMsg)

/-! Each tool has a finished run on the frames, and its result. -/

theorem getDevice_runs (hreal : bus.config.dryRun = false)
    (hhost : bus.config.hostId = hostIdDefault) (htimeout : 0 < bus.config.timeoutMs) :
    ∃ n s, Runs (replyWindow (bus.config.timeoutMs * MotorConfig.nsPerMs))
      (bus.getDeviceLoop n motorId 1) ⟨frames, false, none⟩ s
      (some ((frames.find? (isIdAnswer motorId)).map fun f => ⟨motorId, bytes f⟩)) := by
  obtain ⟨n, hn⟩ := getDevice_completes hreal htimeout motorId frames
  obtain ⟨r, s, hrun, rfl⟩ := runs_of_prompt (mul_pos htimeout (by decide)) hn
    (getDevice_sat hreal hhost n)
  exact ⟨n, s, hrun⟩

theorem queryDevice_runs (hhost : config.hostId = hostIdDefault)
    (hscan : 0 < config.scanTimeoutMs) :
    ∃ n s, Runs (replyWindow (PositionRead.ms config.scanTimeoutMs))
      (PositionRead.queryDevice config n ch motorId) ⟨frames, false, none⟩ s
      (some ((frames.find? (isFullAnswer motorId)).map fun f => ⟨ch, motorId, bytes f⟩)) := by
  obtain ⟨n, hn⟩ := queryDevice_completes config hscan ch motorId frames
  obtain ⟨r, s, hrun, rfl⟩ := runs_of_prompt (mul_pos hscan (by decide)) hn
    (queryDevice_sat hhost n)
  exact ⟨n, s, hrun⟩

theorem getIdStage_runs (attempt : ℤ) (result : TestConnection.ProbeResult) :
    ∃ n s r, Runs (replyWindow TestConnection.probeTimeoutNs)
      (TestConnection.getIdStage ch n motorId attempt result) ⟨frames, false, none⟩ s (some r) ∧
      r.2.1 = (frames.find? (TestConnection.isReplyForMotor motorId)).isSome := by
  obtain ⟨n, hn⟩ := getIdStage_completes ch motorId attempt result frames
  obtain ⟨r, s, hrun, hr⟩ := runs_of_prompt (by decide) hn (getIdStage_sat n attempt result)
  exact ⟨n, s, r, hrun, hr⟩

/-- **When the three tools agree.**  For every motor ID and every sequence of frames in the reply
window, any finished runs of one attempt of `get_device`, of `query_device` and of the `GET_ID`
stage agree on whether the motor answered, and the first two on its UID, if and only if nobody
hears the motor or all hear it. -/
theorem discovery_agrees_iff (hreal : bus.config.dryRun = false)
    (hhost : bus.config.hostId = hostIdDefault) (htimeout : 0 < bus.config.timeoutMs)
    (hhost' : config.hostId = hostIdDefault) (hscan : 0 < config.scanTimeoutMs) :
    (∀ n₁ n₂ n₃ attempt result s₁ s₂ s₃ d₁ d₂ r,
      Runs (replyWindow (bus.config.timeoutMs * MotorConfig.nsPerMs))
        (bus.getDeviceLoop n₁ motorId 1) ⟨frames, false, none⟩ s₁ (some d₁) →
      Runs (replyWindow (PositionRead.ms config.scanTimeoutMs))
        (PositionRead.queryDevice config n₂ ch motorId) ⟨frames, false, none⟩ s₂ (some d₂) →
      Runs (replyWindow TestConnection.probeTimeoutNs)
        (TestConnection.getIdStage ch n₃ motorId attempt result) ⟨frames, false, none⟩ s₃ (some r) →
      d₁.map (·.uid) = d₂.map (·.uid) ∧ d₁.isSome = d₂.isSome ∧ d₁.isSome = r.2.1) ↔
    HeardByNone motorId frames ∨ HeardByAll motorId frames := by
  rw [← agree_iff]
  constructor
  · intro h
    obtain ⟨n₁, s₁, h₁⟩ := getDevice_runs motorId frames hreal hhost htimeout
    obtain ⟨n₂, s₂, h₂⟩ := queryDevice_runs ch motorId frames hhost' hscan
    obtain ⟨n₃, s₃, r, h₃, hr⟩ := getIdStage_runs ch motorId frames 1 {}
    obtain ⟨huid, -, hsome⟩ := h n₁ n₂ n₃ 1 {} s₁ s₂ s₃ _ _ r h₁ h₂ h₃
    rw [hr] at hsome
    simp only [Option.map_map, Option.isSome_map] at huid hsome
    exact ⟨huid, hsome⟩
  · rintro ⟨hbytes, hsome⟩ n₁ n₂ n₃ attempt result s₁ s₂ s₃ d₁ d₂ r h₁ h₂ h₃
    obtain rfl := h₁.post (getDevice_sat hreal hhost n₁)
    obtain rfl := h₂.post (queryDevice_sat hhost' n₂)
    have hr := h₃.post (getIdStage_sat n₃ attempt result)
    have hboth := congrArg Option.isSome hbytes
    simp only [Option.isSome_map] at hboth
    simp only [Option.map_map, Option.isSome_map, hr]
    exact ⟨hbytes, hboth, hsome⟩

end tools

/-- The UID of motor 4. -/
def exampleUid : Fin 8 → UInt8 := ![0xA0, 0xA1, 0xA2, 0xA3, 0xA4, 0xA5, 0xA6, 0xA7]

/-- The answer of motor 4, to `0xFE` or to the host. -/
def answerTo (destination : UInt8) : TPCANMsg :=
  extendedFrame (buildExtId CommType.getId.code 4 destination) exampleUid

/-- Channel 0 as `motor_config` opens it without options. -/
def plainBus : MotorConfig.CanBus := ⟨{}, 0⟩

/-- `position_read` without options. -/
def plainConfig : PositionRead.Config := {}

theorem plainBus_settings :
    plainBus.config.dryRun = false ∧ plainBus.config.hostId = hostIdDefault ∧
      0 < plainBus.config.timeoutMs := by decide

theorem plainConfig_settings :
    plainConfig.hostId = hostIdDefault ∧ 0 < plainConfig.scanTimeoutMs := by decide

theorem answerTo_uid (destination : UInt8) : bytes (answerTo destination) = exampleUid := by
  simp [bytes, answerTo]

/-- An answer to the host is heard by all. -/
theorem discovery_agrees_iff_host_answer : HeardByAll 4 [answerTo 0xFD] ∧
    ∀ n₁ n₂ n₃ attempt result s₁ s₂ s₃ d₁ d₂ r,
      Runs (replyWindow 20000000) (plainBus.getDeviceLoop n₁ 4 1) ⟨[answerTo 0xFD], false, none⟩ s₁
        (some d₁) →
      Runs (replyWindow 8000000) (PositionRead.queryDevice plainConfig n₂ 0 4)
        ⟨[answerTo 0xFD], false, none⟩ s₂ (some d₂) →
      Runs (replyWindow TestConnection.probeTimeoutNs)
        (TestConnection.getIdStage 0 n₃ 4 attempt result) ⟨[answerTo 0xFD], false, none⟩ s₃
        (some r) →
      d₁.map (·.uid) = d₂.map (·.uid) ∧ d₁.isSome = d₂.isSome ∧ d₁.isSome = r.2.1 := by
  have hheard : HeardByAll 4 [answerTo 0xFD] :=
    ⟨⟨answerTo 0xFD, by simp, by decide, by decide, by decide⟩, answerTo 0xFD, answerTo 0xFD,
      by decide, by decide, rfl⟩
  obtain ⟨hreal, hhost, htimeout⟩ := plainBus_settings
  obtain ⟨hhost', hscan⟩ := plainConfig_settings
  exact ⟨hheard, (discovery_agrees_iff 0 4 [answerTo 0xFD] hreal hhost htimeout hhost' hscan).mpr
    (.inr hheard)⟩

/-- **The answer that the manual prescribes is missed** by the `GET_ID` stage only. -/
theorem manual_answer_missed : ∃ n₁ n₂ n₃ s₁ s₂ s₃ r,
    Runs (replyWindow 20000000) (plainBus.getDeviceLoop n₁ 4 1) ⟨[answerTo 0xFE], false, none⟩ s₁
      (some (some ⟨4, exampleUid⟩)) ∧
    Runs (replyWindow 8000000) (PositionRead.queryDevice plainConfig n₂ 0 4)
      ⟨[answerTo 0xFE], false, none⟩ s₂ (some (some ⟨0, 4, exampleUid⟩)) ∧
    Runs (replyWindow TestConnection.probeTimeoutNs) (TestConnection.getIdStage 0 n₃ 4 1 {})
      ⟨[answerTo 0xFE], false, none⟩ s₃ (some r) ∧ r.2.1 = false := by
  have hanswer : [answerTo 0xFE].find? (isIdAnswer 4) = some (answerTo 0xFE) := by decide
  have hfull : [answerTo 0xFE].find? (isFullAnswer 4) = some (answerTo 0xFE) := by decide
  have hreply : [answerTo 0xFE].find? (TestConnection.isReplyForMotor 4) = none := by decide
  obtain ⟨hreal, hhost, htimeout⟩ := plainBus_settings
  obtain ⟨hhost', hscan⟩ := plainConfig_settings
  obtain ⟨n₁, s₁, h₁⟩ := getDevice_runs 4 [answerTo 0xFE] hreal hhost htimeout
  obtain ⟨n₂, s₂, h₂⟩ := queryDevice_runs 0 4 [answerTo 0xFE] hhost' hscan
  obtain ⟨n₃, s₃, r, h₃, hr⟩ := getIdStage_runs 0 4 [answerTo 0xFE] 1 {}
  rw [hanswer, Option.map_some, answerTo_uid] at h₁
  rw [hfull, Option.map_some, answerTo_uid] at h₂
  rw [hreply] at hr
  exact ⟨n₁, n₂, n₃, s₁, s₂, s₃, r, h₁, h₂, h₃, hr⟩

end Discovery

end Qub
