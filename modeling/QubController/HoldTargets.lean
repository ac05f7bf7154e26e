import QubController.GuiTrace
import QubController.MitCodec

/-! # Commanded positions were measured

An ON request shows in the trace as a `PARAM_READ` after Space, the frames read until one reports
the motor's position, STOP and the run mode; then the position is commanded, and after ENABLE it
is held until the motor is OFF again.  `Commanded` says this of every MIT and ENABLE frame. -/

namespace Qub

open Interaction

namespace PositionRead

/-! ### Commanded positions -/

/-- The command that holds the motor at `k` in position `p`, at rest and without torque. -/
def holdFrame (config : Config) (k : Place) (p : CFloat) : TPCANMsg :=
  (⟨k.1, k.2, config.hostId, {}⟩ : Robstride).mitFrame p (.rat 0) config.kp config.kd (.rat 0)

/-- The message, on the channel of `k`, reports the position `p` of the motor at `k`. -/
def Reports (hostId : UInt8) (k : Place) (msg : TPCANMsg) (p : CFloat) : Prop :=
  (Robstride.isFeedbackFrom k.2 msg = true ∧ p = Robstride.feedbackPosition msg) ∨
    parseMechanicalPosition msg hostId = some (k.2, p)

/-- A finite position from `P_MIN` to `P_MAX`. -/
def InRange (p : CFloat) : Prop := ∃ q : ℚ, p = .rat q ∧ -1257 / 100 ≤ q ∧ q ≤ 1257 / 100

section trace
variable (config : Config) (k : Place)

/-- Since Space and the successful position request to `k` only messages that do not report its
position were read. -/
def Awaiting (log : List GuiEvent) : Prop :=
  ∃ reads request bytes before, log = reads ++ request :: .key bytes :: before ∧
    readKey bytes = .toggle ∧ Writes .paramRead k true request ∧
    ∀ e ∈ reads, ∃ msg, e = .read k.1 msg ∧ ∀ q, ¬ Reports config.hostId k msg q

/-- And then one that reports `p`. -/
def Refreshed (p : CFloat) (log : List GuiEvent) : Prop :=
  ∃ msg before, log = .read k.1 msg :: before ∧ Reports config.hostId k msg p ∧
    Awaiting config k before

/-- An ON request for `k` with the measured position `p`, up to its first command. -/
def OnRequest (p : CFloat) (log : List GuiEvent) : Prop :=
  ∃ moded stopped before, log = moded :: stopped :: before ∧ Writes .paramWrite k true moded ∧
    Writes .stop k true stopped ∧ Refreshed config k p before

/-- What may be written to a motor that is held: the same command, with success, and a STOP that
fails. -/
def Steady (p : CFloat) (e : GuiEvent) : Prop :=
  ∀ msg ok, e = .wrote k.1 msg ok → msg.destinationId = k.2 →
    (msg = holdFrame config k p ∧ ok = true) ∨ (msg.commType = CommType.stop.code ∧ ok = false)

/-- The motor at `k` was enabled by an ON request that measured `p`, and it is still ON. -/
def Held (p : CFloat) (log : List GuiEvent) : Prop :=
  ∃ later on before, log = later ++ on :: .wrote k.1 (holdFrame config k p) true :: before ∧
    Writes .enable k true on ∧ OnRequest config k p before ∧ ∀ e ∈ later, Steady config k p e

/-- What holds when `e` is a MIT or an ENABLE frame. -/
def Commanded (e : GuiEvent) (past : List GuiEvent) : Prop :=
  ∀ ch msg ok, e = .wrote ch msg ok →
    (msg.commType = CommType.mitControl.code → ∃ p,
      msg = holdFrame config (ch, msg.destinationId) p ∧ InRange p ∧
        (OnRequest config (ch, msg.destinationId) p past ∨
          Held config (ch, msg.destinationId) p past)) ∧
    (msg.commType = CommType.enable.code → ∃ p before,
      past = .wrote ch (holdFrame config (ch, msg.destinationId) p) true :: before ∧
        InRange p ∧ OnRequest config (ch, msg.destinationId) p before)

end trace

section events
variable {config : Config} {k : Place} {p : CFloat} {e : GuiEvent} {log : List GuiEvent}

theorem holdFrame_commType : (holdFrame config k p).commType = CommType.mitControl.code :=
  Robstride.mitFrame_commType _ _ _ _ _ _

theorem holdFrame_destinationId : (holdFrame config k p).destinationId = k.2 :=
  Robstride.mitFrame_destinationId _ _ _ _ _ _

theorem Held.cons (h : Held config k p log) (he : Steady config k p e) :
    Held config k p (e :: log) := by
  obtain ⟨later, on, before, rfl, hon, hrequest, hlater⟩ := h
  exact ⟨e :: later, on, before, rfl, hon, hrequest, List.forall_mem_cons.mpr ⟨he, hlater⟩⟩

/-- One more message without a position is read. -/
theorem Awaiting.read {msg : TPCANMsg} (h : Awaiting config k log)
    (hmsg : ∀ q, ¬ Reports config.hostId k msg q) : Awaiting config k (.read k.1 msg :: log) := by
  obtain ⟨reads, request, bytes, before, rfl, hkey, hrequest, hreads⟩ := h
  exact ⟨.read k.1 msg :: reads, request, bytes, before, rfl, hkey, hrequest,
    List.forall_mem_cons.mpr ⟨⟨msg, rfl, hmsg⟩, hreads⟩⟩

/-- A write elsewhere. -/
theorem Steady.of_ne {k' : Place} {msg : TPCANMsg} {ok : Bool} (hdest : msg.destinationId = k'.2)
    (hne : k ≠ k') : Steady config k p (.wrote k'.1 msg ok) := by
  intro msg' ok' heq hdest'
  obtain ⟨hch, rfl, -⟩ := GuiEvent.wrote.inj heq
  exact absurd (Prod.ext hch.symm (hdest'.symm.trans hdest)) hne

/-- A frame that is neither a command nor an ENABLE. -/
theorem Commanded.of_type {ch : Fin numChannels} {msg : TPCANMsg} {ok : Bool} {t : CommType}
    (htype : msg.commType = t.code) (hmit : t ≠ .mitControl) (hon : t ≠ .enable) :
    Commanded config (.wrote ch msg ok) log := by
  intro ch' msg' ok' heq
  obtain ⟨-, rfl, -⟩ := GuiEvent.wrote.inj heq
  rw [htype, CommType.code_inj, CommType.code_inj]
  exact ⟨fun h => absurd h hmit, fun h => absurd h hon⟩

theorem Commanded.command {ok : Bool} (hrange : InRange p)
    (h : OnRequest config k p log ∨ Held config k p log) :
    Commanded config (.wrote k.1 (holdFrame config k p) ok) log := by
  intro ch' msg' ok' heq
  obtain ⟨rfl, rfl, -⟩ := GuiEvent.wrote.inj heq
  rw [holdFrame_destinationId, holdFrame_commType, CommType.code_inj, CommType.code_inj]
  exact ⟨fun _ => ⟨p, rfl, hrange, h⟩, fun h => absurd h (by decide)⟩

theorem Commanded.enable {msg : TPCANMsg} {ok : Bool} (htype : msg.commType = CommType.enable.code)
    (hdest : msg.destinationId = k.2) (hrange : InRange p) (h : OnRequest config k p log) :
    Commanded config (.wrote k.1 msg ok) (.wrote k.1 (holdFrame config k p) true :: log) := by
  intro ch' msg' ok' heq
  obtain ⟨rfl, rfl, -⟩ := GuiEvent.wrote.inj heq
  rw [hdest, htype, CommType.code_inj, CommType.code_inj]
  exact ⟨fun h => absurd h (by decide), fun _ => ⟨p, log, rfl, hrange, h⟩⟩

end events

/-! ### The invariant -/

variable {n : ℕ}

/-- The motors stand at the places `K`, every command so far was measured, and the enabled motors
are held at their targets. -/
structure Consistent (config : Config) (K : Fin n → Place) (motors : Motors n)
    (log : List GuiEvent) : Prop where
  each : Each (Commanded config) log
  place : ∀ i, AtPlace (K i) (motors i)
  held : ∀ i, (motors i).enabled = true →
    InRange (motors i).holdPositionRad ∧ Held config (K i) (motors i).holdPositionRad log

section consistent
variable {config : Config} {K : Fin n → Place} {motors motors' : Motors n}
  {log : List GuiEvent} {e : GuiEvent}

theorem Consistent.settings (hsame : SameSettings motors motors')
    (h : Consistent config K motors log) : Consistent config K motors' log where
  each := h.each
  place := fun i => (h.place i).of_settings (hsame i)
  held := fun i hon => by
    have hhold : (motors' i).holdPositionRad = (motors i).holdPositionRad :=
      congrArg Settings.holdPositionRad (hsame i)
    rw [hhold]
    exact h.held i ((hsame.enabled i).symm.trans hon)

/-- An event that is not a write. -/
theorem Consistent.silent (h : Consistent config K motors log)
    (he : ∀ ch msg ok, e ≠ .wrote ch msg ok) : Consistent config K motors (e :: log) where
  each := each_cons.mpr ⟨fun ch msg ok heq => absurd heq (he ch msg ok), h.each⟩
  place := h.place
  held := fun i hon =>
    ⟨(h.held i hon).1, (h.held i hon).2.cons fun msg ok heq => absurd heq (he _ msg ok)⟩

/-- A write to motor `i`, which keeps the motor held if it is. -/
theorem Consistent.write (h : Consistent config K motors log) (hK : Function.Injective K)
    {i : Fin n} {msg : TPCANMsg} {ok : Bool} (hdest : msg.destinationId = (K i).2)
    (hcommanded : Commanded config (.wrote (K i).1 msg ok) log)
    (hsteady : (motors i).enabled = true →
      Steady config (K i) (motors i).holdPositionRad (.wrote (K i).1 msg ok)) :
    Consistent config K motors (.wrote (K i).1 msg ok :: log) where
  each := each_cons.mpr ⟨hcommanded, h.each⟩
  place := h.place
  held := fun j hon => by
    refine ⟨(h.held j hon).1, (h.held j hon).2.cons ?_⟩
    by_cases hij : j = i
    · subst hij
      exact hsteady hon
    · exact Steady.of_ne hdest fun hk => hij (hK hk)

/-- Motor `i` is changed; it is OFF then, or held at its target. -/
theorem Consistent.update (h : Consistent config K motors log) {i : Fin n} {motor : MotorState}
    (hplace : AtPlace (K i) motor) (hheld : motor.enabled = true →
      InRange motor.holdPositionRad ∧ Held config (K i) motor.holdPositionRad log) :
    Consistent config K (Function.update motors i motor) log where
  each := h.each
  place := place_update h.place hplace
  held := fun j hon => by
    by_cases hij : j = i
    · subst hij
      rw [Function.update_self] at hon ⊢
      exact hheld hon
    · rw [Function.update_of_ne hij] at hon ⊢
      exact h.held j hon

theorem Consistent.setOff (h : Consistent config K motors log) (i : Fin n) :
    Consistent config K (setEnabled motors i false) log :=
  h.update ((h.place i).flag false) fun hon => absurd hon (by simp)

theorem Consistent.quiet (h : Consistent config K motors log) {c : SysCall} {r : c.Resp}
    {log' : List GuiEvent} (hw : noted log c r log') (hc : IsQuiet c) :
    Each (Commanded config) log' ∧ Consistent config K motors log' := by
  have hlog : log' = note log c r := hw
  have h' : Consistent config K motors log' := by
    rcases note_quiet r log hc with hsame | ⟨e, hcons, he⟩
    · rw [hlog, hsame]
      exact h
    · rw [hlog, hcons]
      exact h.silent he
  exact ⟨h'.each, h'⟩

/-! ### The refresh -/

/-- A raised generation comes from a message that reports the position. -/
theorem Processed.reports {hostId : UInt8} {msg : TPCANMsg} {i : Fin n}
    (h : Processed hostId (K i).1 msg motors motors') (hplace : ∀ j, AtPlace (K j) (motors j))
    (hraised : (motors' i).positionGeneration ≠ (motors i).positionGeneration) :
    Reports hostId (K i) msg (motors' i).positionRad := by
  cases h with
  | rejected => exact absurd rfl hraised
  | feedback j ts now htakes =>
      by_cases hij : i = j
      · subst hij
        rw [Function.update_self]
        have haccepts := htakes.2
        rw [Robstride.accepts, (hplace i).driverId] at haccepts
        exact .inl ⟨haccepts, rfl⟩
      · rw [Function.update_of_ne hij] at hraised
        exact absurd rfl hraised
  | position j position now htakes =>
      by_cases hij : i = j
      · subst hij
        rw [Function.update_self]
        have hparse := htakes.2
        rw [(hplace i).motorId] at hparse
        exact .inr hparse
      · rw [Function.update_of_ne hij] at hraised
        exact absurd rfl hraised

theorem Reports.source {hostId : UInt8} {k : Place} {msg : TPCANMsg} {p : CFloat}
    (h : Reports hostId k msg p) : msg.sourceMotorId = k.2 := by
  rcases h with ⟨hfeedback, -⟩ | hparse
  · exact (Robstride.isFeedbackFrom_iff.mp hfeedback).2.2
  · exact (parseMechanicalPosition_some hparse).2.2.1

theorem add_one_ne (x : UInt64) : x + 1 ≠ x :=
  fun h => absurd (UInt64.add_eq_left.mp h) (by decide)

/-- A message that reports the motor's position raises its generation. -/
theorem Processed.not_reports {hostId : UInt8} {msg : TPCANMsg} {i : Fin n}
    (h : Processed hostId (K i).1 msg motors motors') (hplace : ∀ j, AtPlace (K j) (motors j))
    (hK : Function.Injective K)
    (hsame : (motors' i).positionGeneration = (motors i).positionGeneration) (q : CFloat) :
    ¬ Reports hostId (K i) msg q := by
  intro hreports
  cases h with
  | rejected hfeedback hposition =>
      rcases hreports with ⟨haccepts, -⟩ | hparse
      · refine hfeedback i ⟨(hplace i).channelIdx, ?_⟩
        rwa [Robstride.accepts, (hplace i).driverId]
      · refine hposition i q ⟨(hplace i).channelIdx, ?_⟩
        rw [hparse, (hplace i).motorId]
  | feedback j ts now htakes =>
      have hij : i = j := by
        have hid := (Robstride.isFeedbackFrom_iff.mp htakes.2).2.2
        rw [(hplace j).driverId, hreports.source] at hid
        exact hK (Prod.ext (htakes.1.symm.trans (hplace j).channelIdx) hid)
      subst hij
      rw [Function.update_self] at hsame
      exact add_one_ne _ hsame
  | position j position now htakes =>
      have hij : i = j := by
        have hid := (parseMechanicalPosition_some htakes.2).2.2.1
        rw [(hplace j).motorId, hreports.source] at hid
        exact hK (Prod.ext (htakes.1.symm.trans (hplace j).channelIdx) hid)
      subst hij
      rw [Function.update_self] at hsame
      exact add_one_ne _ hsame

/-- What a refresh establishes. -/
def RefreshedBy (config : Config) (K : Fin n → Place) (i : Fin n) (motors : Motors n)
    (r : Bool × Motors n) (log : List GuiEvent) : Prop :=
  Consistent config K r.2 log ∧ SameSettings motors r.2 ∧
    (r.1 = true → Refreshed config (K i) (r.2 i).positionRad log)

theorem RefreshedBy.failed (h : Consistent config K motors' log)
    (hsame : SameSettings motors motors') {i : Fin n} :
    RefreshedBy config K i motors (false, motors') log :=
  ⟨h, hsame, fun hr => absurd hr (by simp)⟩

theorem processMessage_noted {msg : TPCANMsg} {ch : Fin numChannels}
    (h : Consistent config K motors log) :
    Sat noted (Each (Commanded config)) (processMessage ch msg config.hostId motors)
      (fun motors' log' => Processed config.hostId ch msg motors motors' ∧ log' = log) log := by
  have hkeep : ∀ (s : List GuiEvent) (c : SysCall) (r : c.Resp) (s' : List GuiEvent), IsClock c →
      s = log → noted s c r s' → Each (Commanded config) s' ∧ s' = log := by
    rintro s c r s' hc rfl hw
    have hlog : s' = note s c r := hw
    have hsame : note s c r = s := by
      cases c with
      | clockGettime => rfl
      | steadyNow => rfl
      | _ => exact hc.elim
    rw [hlog, hsame]
    exact ⟨h.each, rfl⟩
  exact (processMessage_obeys ch msg config.hostId motors).sat hkeep rfl

/-- A call that leaves no event. -/
theorem sat_unnoted {α : Type} {c : SysCall} {k : c.Resp → SysM α} {Q : α → List GuiEvent → Prop}
    (h : Each (Commanded config) log) (hc : ∀ r, note log c r = log)
    (hk : ∀ r, Sat noted (Each (Commanded config)) (k r) Q log) :
    Sat noted (Each (Commanded config)) (.call (I := Sys) c k) Q log := by
  intro r log' hw
  have hlog : log' = log := Eq.trans hw (hc r)
  rw [hlog]
  exact ⟨h, hk r⟩

/-- A frame that was read while the report is awaited: it is the report, or the waiting goes on. -/
theorem refreshFrame_noted (hK : Function.Injective K) {i : Fin n} {g : UInt64} {msg : TPCANMsg}
    {motors₁ : Motors n} (hsame : SameSettings motors motors₁)
    (hg : (motors₁ i).positionGeneration = g)
    (h : Consistent config K motors₁ (.read (K i).1 msg :: log))
    (hawait : Awaiting config (K i) log) {next : Motors n → SysM (Bool × Motors n)}
    (hnext : ∀ motors₂, SameSettings motors motors₂ → (motors₂ i).positionGeneration = g →
      Consistent config K motors₂ (.read (K i).1 msg :: log) →
      Awaiting config (K i) (.read (K i).1 msg :: log) →
      Sat noted (Each (Commanded config)) (next motors₂) (RefreshedBy config K i motors)
        (.read (K i).1 msg :: log)) :
    Sat noted (Each (Commanded config))
      (processMessage (K i).1 msg config.hostId motors₁ >>= fun motors₂ =>
        if (motors₂ i).positionGeneration != g then pure (true, motors₂) else next motors₂)
      (RefreshedBy config K i motors) (.read (K i).1 msg :: log) := by
  refine (processMessage_noted h).bind ?_
  rintro motors₂ _ ⟨hprocessed, rfl⟩
  have hsame₂ : SameSettings motors₁ motors₂ := hprocessed.settings
  have h₂ := h.settings hsame₂
  by_cases hraised : (motors₂ i).positionGeneration = g
  · simp only [hraised, bne_self_eq_false]
    have hnot := hprocessed.not_reports h.place hK (hraised.trans hg.symm)
    exact hnext motors₂ (hsame.trans hsame₂) hraised h₂ (hawait.read hnot)
  · simp only [bne_iff_ne.mpr hraised, if_true]
    refine ⟨h₂, hsame.trans hsame₂, fun _ => ⟨msg, log, rfl, ?_, hawait⟩⟩
    exact hprocessed.reports h.place (hg.symm ▸ hraised)

theorem refreshLoop_noted (hK : Function.Injective K) (i : Fin n) (deadline : ℤ) (fuel : ℕ)
    (h : Consistent config K motors log) (hawait : Awaiting config (K i) log) :
    Sat noted (Each (Commanded config))
      (refreshLoop config.hostId i (motors i).positionGeneration deadline fuel motors)
      (RefreshedBy config K i motors) log := by
  have hgen : ∃ g, (motors i).positionGeneration = g := ⟨_, rfl⟩
  obtain ⟨g, hg⟩ := hgen
  rw [hg]
  suffices hloop : ∀ motors₁ : Motors n, SameSettings motors motors₁ →
      (motors₁ i).positionGeneration = g → Consistent config K motors₁ log →
        Sat noted (Each (Commanded config)) (refreshLoop config.hostId i g deadline fuel motors₁)
          (RefreshedBy config K i motors) log from hloop motors (.refl motors) hg h
  clear h hg
  induction fuel generalizing log with
  | zero => exact fun _ _ _ _ => trivial
  | succ fuel ih =>
      intro motors₁ hsame hg h
      rw [refreshLoop, steadyNow_bind]
      refine sat_unnoted h.each (fun _ => rfl) fun now => ?_
      by_cases hnow : now < deadline
      · simp only [hnow, if_true, canRead_bind]
        intro r log₂ hw
        obtain ⟨hinv, h₂⟩ := h.quiet hw trivial
        have hlog₂ : log₂ = note log (.canRead (motors₁ i).channelIdx) r := hw
        refine ⟨hinv, ?_⟩
        by_cases hok : (r.1 == pcanErrorOk) = true
        · rw [note_read log hok, (h.place i).channelIdx] at hlog₂
          subst hlog₂
          rw [(h.place i).channelIdx]
          simp only [hok, if_true]
          exact refreshFrame_noted hK hsame hg h₂ hawait fun motors₂ hsame₂ hg₂ h₃ hawait₂ =>
            ih hawait₂ motors₂ hsame₂ hg₂ h₃
        · rw [note_read_failed log hok] at hlog₂
          subst hlog₂
          by_cases hempty : (r.1 != pcanErrorQrcvEmpty) = true
          · simp only [hok, hempty, if_true]
            exact RefreshedBy.failed h hsame
          · simp only [hok, hempty, sleepFor_bind]
            exact sat_unnoted h.each (fun _ => rfl) fun _ => ih hawait motors₁ hsame hg h
      · simp only [hnow, if_false]
        exact RefreshedBy.failed h hsame

theorem refreshPositionSync_noted (hK : Function.Injective K) (channels : Channels) (i : Fin n)
    (timeoutMs : ℤ) (fuel : ℕ) {bytes : List Char} (hkey : readKey bytes = .toggle)
    (hoff : (motors i).enabled = false) (h : Consistent config K motors (.key bytes :: log)) :
    Sat noted (Each (Commanded config))
      (refreshPositionSync channels config.hostId timeoutMs fuel i motors)
      (RefreshedBy config K i motors) (.key bytes :: log) := by
  unfold refreshPositionSync
  by_cases hclosed : (!channels (motors i).channelIdx) = true
  · simp only [hclosed, if_true]
    exact .failed h (.refl motors)
  · simp only [hclosed, requestMechanicalPosition, canWrite_bind]
    intro status log₁ hw
    have hlog₁ : log₁ = note (.key bytes :: log) (.canWrite (motors i).channelIdx
        (positionRequest config.hostId (motors i).motorId)) status := hw
    have hdest : (positionRequest config.hostId (motors i).motorId).destinationId = (K i).2 := by
      rw [positionRequest, destinationId_buildExtId, (h.place i).motorId]
    have htype : (positionRequest config.hostId (motors i).motorId).commType =
        CommType.paramRead.code := by
      rw [positionRequest, commType_buildExtId, CommType.code_and]
    rw [(h.place i).channelIdx] at hlog₁
    have h₁ : Consistent config K motors log₁ := by
      rw [hlog₁]
      refine h.write hK hdest (.of_type htype (by decide) (by decide)) fun hon => ?_
      rw [hoff] at hon
      cases hon
    refine ⟨h₁.each, ?_⟩
    by_cases hfailed : (status != pcanErrorOk) = true
    · simp only [hfailed, if_true]
      exact .failed h₁ (.refl motors)
    · simp only [hfailed, steadyNow_bind]
      refine sat_unnoted h₁.each (fun _ => rfl) fun now => ?_
      have hok : (status == pcanErrorOk) = true := by simpa using hfailed
      refine refreshLoop_noted hK i _ fuel h₁ ⟨[], _, bytes, log, hlog₁, hkey, ?_, by simp⟩
      exact ⟨_, by rw [hok], htype, hdest⟩

/-! ### ON -/

theorem finish_noted (result : Bool) (statusMessage : String)
    (h : Consistent config K motors log) :
    Sat noted (Each (Commanded config)) (finish result statusMessage motors)
      (fun r log' => Consistent config K (leftMotors (·.2.1) r) log') log := by
  rintro throws log' hw
  obtain ⟨hinv, h'⟩ := h.quiet hw trivial
  cases throws with
  | true => exact ⟨hinv, h'⟩
  | false => exact ⟨hinv, h'⟩

/-- A frame to a motor that is OFF. -/
theorem writeFrame_noted (hK : Function.Injective K) {i : Fin n} {msg : TPCANMsg}
    (hoff : (motors i).enabled = false) (hdest : msg.destinationId = (K i).2)
    (hcommanded : ∀ ok, Commanded config (.wrote (K i).1 msg ok) log)
    (h : Consistent config K motors log) :
    Sat noted (Each (Commanded config)) ((motors i).driver.writeFrame msg)
      (fun ok log' => log' = .wrote (K i).1 msg ok :: log ∧ Consistent config K motors log')
      log := by
  refine writeFrame_wrote (h.place i).can fun ok => ?_
  have h' := h.write hK hdest (hcommanded ok) fun hon => absurd (hoff.symm.trans hon) (by simp)
  exact ⟨h'.each, rfl, h'⟩

/-- A command of the driver, but not ENABLE. -/
theorem hostFrame_noted (hK : Function.Injective K) {i : Fin n} {t : CommType}
    {data : Fin 8 → UInt8} (hmit : t ≠ .mitControl) (hon : t ≠ .enable)
    (hoff : (motors i).enabled = false) (h : Consistent config K motors log) :
    Sat noted (Each (Commanded config))
      ((motors i).driver.writeFrame ((motors i).driver.hostFrame t data))
      (fun ok log' => (∃ e, log' = e :: log ∧ Writes t (K i) ok e) ∧
        Consistent config K motors log') log := by
  have htype : ((motors i).driver.hostFrame t data).commType = t.code :=
    Robstride.hostFrame_commType _ _ _
  have hdest : ((motors i).driver.hostFrame t data).destinationId = (K i).2 :=
    (Robstride.hostFrame_destinationId _ _ _).trans (h.place i).driverId
  refine (writeFrame_noted hK hoff hdest (fun ok => .of_type htype hmit hon) h).mono ?_
  rintro ok log' ⟨hlog, h'⟩
  exact ⟨⟨_, hlog, _, rfl, htype, hdest⟩, h'⟩

theorem stop_noted (hK : Function.Injective K) {i : Fin n} (hoff : (motors i).enabled = false)
    (h : Consistent config K motors log) :
    Sat noted (Each (Commanded config)) ((motors i).driver.stop false)
      (fun ok log' => (∃ e, log' = e :: log ∧ Writes .stop (K i) ok e) ∧
        Consistent config K motors log') log :=
  hostFrame_noted hK (by decide) (by decide) hoff h

theorem setRunMode_noted (hK : Function.Injective K) {i : Fin n} (mode : RunMode)
    (hoff : (motors i).enabled = false) (h : Consistent config K motors log) :
    Sat noted (Each (Commanded config)) ((motors i).driver.setRunMode mode)
      (fun ok log' => (∃ e, log' = e :: log ∧ Writes .paramWrite (K i) ok e) ∧
        Consistent config K motors log') log :=
  hostFrame_noted hK (by decide) (by decide) hoff h

theorem holdCommand_eq (k : Place) {motor : MotorState} (h : AtPlace k motor) :
    holdCommand config motor =
      motor.driver.writeFrame (holdFrame config k motor.holdPositionRad) := by
  unfold holdCommand Robstride.sendMitCommand holdFrame Robstride.mitFrame
  rw [h.driverId]

theorem primeAndEnable_noted (hK : Function.Injective K) {i : Fin n}
    (hoff : (motors i).enabled = false) (hrange : InRange (motors i).holdPositionRad)
    (hrequest : OnRequest config (K i) (motors i).holdPositionRad log)
    (h : Consistent config K motors log) :
    Sat noted (Each (Commanded config)) (primeAndEnable config (motors i))
      (fun on log' => Consistent config K motors log' ∧
        (on = true → Held config (K i) (motors i).holdPositionRad log')) log := by
  unfold primeAndEnable
  rw [holdCommand_eq (K i) (h.place i)]
  refine (writeFrame_noted hK hoff holdFrame_destinationId
    (fun ok => .command hrange (.inl hrequest)) h).bind ?_
  rintro primed log₁ ⟨hlog₁, h₁⟩
  cases primed with
  | false => exact ⟨h₁, fun hon => absurd hon (by simp)⟩
  | true =>
      simp only [if_true]
      have htype : ((motors i).driver.hostFrame .enable zeroData).commType =
          CommType.enable.code := Robstride.hostFrame_commType _ _ _
      have hdest : ((motors i).driver.hostFrame .enable zeroData).destinationId = (K i).2 :=
        (Robstride.hostFrame_destinationId _ _ _).trans (h.place i).driverId
      refine (writeFrame_noted hK hoff hdest (fun ok => ?_) h₁).mono ?_
      · rw [hlog₁]
        exact .enable htype hdest hrange hrequest
      · rintro on log₂ ⟨hlog₂, h₂⟩
        refine ⟨h₂, fun hon => ?_⟩
        rw [hlog₂, hlog₁, hon]
        exact ⟨[], _, log, rfl, ⟨_, rfl, htype, hdest⟩, hrequest, by simp⟩

theorem enableAt_noted (hK : Function.Injective K) {i : Fin n}
    (hoff : (motors i).enabled = false) (hrange : InRange (motors i).holdPositionRad)
    (hrefreshed : Refreshed config (K i) (motors i).holdPositionRad log)
    (h : Consistent config K motors log) :
    Sat noted (Each (Commanded config)) (enableAt config i motors)
      (fun r log' => Consistent config K (leftMotors (·.2.1) r) log') log := by
  unfold enableAt
  refine (stop_noted hK hoff h).bind ?_
  rintro stopped log₁ ⟨⟨stop, hlog₁, hstop⟩, h₁⟩
  cases stopped with
  | false => exact finish_noted _ _ h₁
  | true =>
      simp only [Bool.not_true, Bool.false_eq_true, if_false, sleepFor_bind]
      refine sat_unnoted h₁.each (fun _ => rfl) fun _ => ?_
      refine (setRunMode_noted hK .mit hoff h₁).bind ?_
      rintro moded log₃ ⟨⟨mode, hlog₃, hmode⟩, h₃⟩
      cases moded with
      | false => exact finish_noted _ _ h₃
      | true =>
          simp only [Bool.not_true, Bool.false_eq_true, if_false]
          refine sat_unnoted h₃.each (fun _ => rfl) fun _ => ?_
          have hrequest : OnRequest config (K i) (motors i).holdPositionRad log₃ :=
            ⟨mode, stop, log, by rw [hlog₃, hlog₁], hmode, hstop, hrefreshed⟩
          refine (primeAndEnable_noted hK hoff hrange hrequest h₃).bind ?_
          rintro on log₅ ⟨h₅, hheld⟩
          cases on with
          | false =>
              simp only [Bool.not_false, if_true]
              refine (stop_noted hK hoff h₅).bind fun _ log₆ h₆ => ?_
              exact finish_noted _ _ h₆.2
          | true =>
              simp only [Bool.not_true, Bool.false_eq_true, if_false]
              exact finish_noted _ _ (h₅.update ((h.place i).flag true) fun _ =>
                ⟨hrange, hheld rfl⟩)

/-- A finite position that passes the two comparisons. -/
theorem inRange_of_not {p : CFloat} (hfinite : p.isFinite = true)
    (hlow : ¬ p.lt pMin = true) (hhigh : ¬ p.gt pMax = true) : InRange p := by
  cases p with
  | rat q =>
      refine ⟨q, rfl, ?_, ?_⟩
      · exact not_lt.mp fun h => hlow (decide_eq_true h)
      · exact not_lt.mp fun h => hhigh (decide_eq_true h)
  | _ => cases hfinite

theorem Reports.isFinite {hostId : UInt8} {k : Place} {msg : TPCANMsg} {p : CFloat}
    (h : Reports hostId k msg p) : p.isFinite = true := by
  rcases h with ⟨-, rfl⟩ | hparse
  · unfold Robstride.feedbackPosition pMin pMax
    rw [uintToFloat_rat]
    rfl
  · exact (parseMechanicalPosition_some hparse).2.2.2

theorem enableSelectedMotor_noted (hK : Function.Injective K) (channels : Channels) (fuel : ℕ)
    {i : Fin n} {bytes : List Char} (hkey : readKey bytes = .toggle)
    (hoff : (motors i).enabled = false) (h : Consistent config K motors (.key bytes :: log)) :
    Sat noted (Each (Commanded config)) (enableSelectedMotor channels config fuel i motors)
      (fun r log' => Consistent config K (leftMotors (·.2.1) r) log') (.key bytes :: log) := by
  unfold enableSelectedMotor
  refine (refreshPositionSync_noted hK channels i positionTimeoutMs fuel hkey hoff h).bind ?_
  rintro ⟨refreshed, motors₁⟩ log₁ ⟨h₁, hsame, hrefreshed⟩
  have hoff₁ : (motors₁ i).enabled = false := (hsame.enabled i).trans hoff
  cases refreshed with
  | false => exact finish_noted _ _ h₁
  | true =>
      simp only [Bool.not_true, Bool.false_eq_true, if_false]
      by_cases hout : ((motors₁ i).positionRad.lt pMin || (motors₁ i).positionRad.gt pMax) = true
      · simp only [hout, if_true]
        exact finish_noted _ _ h₁
      · simp only [hout]
        obtain ⟨hlow, hhigh⟩ := not_or.mp (Bool.or_eq_true _ _ ▸ hout)
        have hrefresh := hrefreshed rfl
        obtain ⟨msg, before, hlog, hreports, hawait⟩ := hrefresh
        have hrange := inRange_of_not hreports.isFinite hlow hhigh
        have h₂ : Consistent config K (Function.update motors₁ i
            { motors₁ i with holdPositionRad := (motors₁ i).positionRad }) log₁ :=
          h₁.update ((h₁.place i).aim _) fun hon => absurd (hoff₁.symm.trans hon) (by simp)
        refine enableAt_noted hK ?_ ?_ ?_ h₂
        · rw [Function.update_self]
          exact hoff₁
        · rw [Function.update_self]
          exact hrange
        · rw [Function.update_self]
          exact hrefreshed rfl

/-! ### The loop -/

theorem off_noted (hK : Function.Injective K) {i : Fin n}
    (h : Consistent config K motors log) :
    Sat noted (Each (Commanded config)) ((motors i).driver.stop false)
      (fun stopped log' => Consistent config K
        (if stopped then setEnabled motors i false else motors) log') log := by
  unfold Robstride.stop
  refine writeFrame_wrote (h.place i).can fun ok => ?_
  have htype := (motors i).driver.hostFrame_commType .stop zeroData
  have hdest := ((motors i).driver.hostFrame_destinationId .stop zeroData).trans
    (h.place i).driverId
  have hcommanded : Commanded config
      (.wrote (K i).1 ((motors i).driver.hostFrame .stop zeroData) ok) log :=
    .of_type htype (by decide) (by decide)
  cases ok with
  | true =>
      have h' := (h.setOff i).write hK hdest hcommanded fun hon =>
        absurd ((setEnabled_enabled motors i false).symm.trans hon) (by simp)
      exact ⟨h'.each, h'⟩
  | false =>
      have h' := h.write hK hdest hcommanded fun _ msg ok heq _ => by
        obtain ⟨-, rfl, rfl⟩ := GuiEvent.wrote.inj heq
        exact .inr ⟨htype, rfl⟩
      exact ⟨h'.each, h'⟩

theorem hold_noted (hK : Function.Injective K) {i : Fin n} (hon : (motors i).enabled = true)
    (h : Consistent config K motors log) :
    Sat noted (Each (Commanded config)) (holdCommand config (motors i))
      (fun sent log' => if sent then Consistent config K motors log' else
        Sat noted (Each (Commanded config)) ((motors i).driver.stop false)
          (fun _ log'' => Consistent config K (setEnabled motors i false) log'') log') log := by
  obtain ⟨hrange, hheld⟩ := h.held i hon
  rw [holdCommand_eq (K i) (h.place i)]
  refine writeFrame_wrote (h.place i).can fun ok => ?_
  have hcommanded : Commanded config
      (.wrote (K i).1 (holdFrame config (K i) (motors i).holdPositionRad) ok) log :=
    .command hrange (.inr hheld)
  cases ok with
  | true =>
      have h' := h.write hK holdFrame_destinationId hcommanded fun _ msg ok heq _ => by
        obtain ⟨-, rfl, rfl⟩ := GuiEvent.wrote.inj heq
        exact .inl ⟨rfl, rfl⟩
      exact ⟨h'.each, h'⟩
  | false =>
      have h' := (h.setOff i).write hK holdFrame_destinationId hcommanded fun hon' =>
        absurd ((setEnabled_enabled motors i false).symm.trans hon') (by simp)
      have hstop := stop_noted hK (setEnabled_enabled motors i false) h'
      rw [setEnabled_driver] at hstop
      exact ⟨h'.each, hstop.mono fun _ _ hpost => hpost.2⟩

/-- The invariant keeps the rules of the terminal program. -/
theorem consistent_rules (hK : Function.Injective K) (channels : Channels) (config : Config) :
    GuiRules channels config noted (Each (Commanded config)) (Consistent config K) where
  settings := fun hsame h => h.settings hsame
  quiet := fun hw h hc => h.quiet hw hc
  poll := by
    rintro motors log c status log' hw h ⟨i, hoff, rfl⟩
    have hnote : log' = note log (.canWrite (motors i).channelIdx _) status := hw
    rw [(h.place i).channelIdx] at hnote
    have hdest : (positionRequest config.hostId (motors i).motorId).destinationId = (K i).2 := by
      rw [positionRequest, destinationId_buildExtId, (h.place i).motorId]
    have htype : (positionRequest config.hostId (motors i).motorId).commType =
        CommType.paramRead.code := by
      rw [positionRequest, commType_buildExtId, CommType.code_and]
    have h' : Consistent config K motors log' := by
      rw [hnote]
      refine h.write hK hdest (.of_type htype (by decide) (by decide)) fun hon => ?_
      rw [hoff] at hon
      cases hon
    exact ⟨h'.each, h'⟩
  on := by
    intro motors log bytes log₁ i fuel hoff h hw hkey
    have hlog₁ : log₁ = .key bytes :: log := hw
    subst hlog₁
    exact enableSelectedMotor_noted hK channels fuel hkey hoff (h.silent (by simp))
  off := fun i _ h => off_noted hK h
  hold := fun i hon h => hold_noted hK hon h

end consistent
/-! ### The program -/

section program
variable {config : Config} {n : ℕ} {motors : Motors n} {log : List GuiEvent}

theorem harmless_keeps {c : SysCall} {r : c.Resp} {log' : List GuiEvent} (hc : IsHarmless c)
    (h : Each (Commanded config) log) (hw : noted log c r log') :
    Each (Commanded config) log' := by
  have hlog : log' = note log c r := hw
  cases c with
  | canWrite ch msg =>
      rw [hlog]
      refine each_cons.mpr ⟨?_, h⟩
      intro ch' msg' ok' heq
      obtain ⟨-, rfl, -⟩ := GuiEvent.wrote.inj heq
      exact ⟨fun hmit => absurd hmit hc.1, fun hon => absurd hon hc.2⟩
  | _ =>
      rcases note_quiet r log trivial with hsame | ⟨e, hcons, he⟩
      · rwa [hlog, hsame]
      · rw [hlog, hcons]
        exact each_cons.mpr ⟨fun ch msg ok heq => absurd heq (he ch msg ok), h⟩

theorem stopLoop_harmless (l : List (Fin n)) (motors : Motors n) :
    (stopLoop l motors).Only IsHarmless := by
  induction l generalizing motors with
  | nil => trivial
  | cons i rest ih =>
      rw [stopLoop]
      split
      · exact ih motors
      · refine Prog.Only.bind ⟨?_, fun _ => trivial⟩ fun _ => ih _
        simp only [IsHarmless, Robstride.hostFrame_commType]
        decide

theorem stopAll_noted (motors : Motors n) (h : Each (Commanded config) log) :
    Sat noted (Each (Commanded config)) (stopAll motors)
      (fun _ log' => Each (Commanded config) log') log :=
  (stopLoop_harmless _ motors).sat
    (fun _ _ _ _ hc h hw => ⟨harmless_keeps hc h hw, harmless_keeps hc h hw⟩) h

theorem runGui_noted {K : Fin n → Place} (hK : Function.Injective K) (channels : Channels)
    (fuel : ℕ) (h : Consistent config K motors log) :
    Sat noted (Each (Commanded config)) (runGui channels config fuel motors)
      (fun _ log' => Each (Commanded config) log') log := by
  unfold runGui
  refine ((consistent_rules hK channels config).guiSession_sat fuel h).bind fun r log' h' => ?_
  cases r with
  | error motors => exact (stopAll_noted _ h'.each).bind fun _ _ h => h
  | ok motors => exact (stopAll_noted _ h'.each).bind fun _ _ h => h

theorem main_noted (config : Config) (fuel : ℕ) :
    Sat noted (Each (Commanded config)) (main config fuel)
      (fun _ log' => Each (Commanded config) log') [] := by
  unfold main
  simp only [isatty_bind]
  intro terminal log₁ hw
  have hlog₁ : log₁ = [] := hw
  subst hlog₁
  refine ⟨each_nil, ?_⟩
  cases terminal with
  | false => exact each_nil
  | true =>
      simp only [Bool.not_true, Bool.false_eq_true, if_false]
      have hW : ∀ (log : List GuiEvent) (c : SysCall) (r : c.Resp) (log' : List GuiEvent),
          IsScan c → Each (Commanded config) log → noted log c r log' →
            Each (Commanded config) log' ∧ Each (Commanded config) log' := by
        intro log c r log' hc h hw
        exact ⟨harmless_keeps hc.harmless h hw, harmless_keeps hc.harmless h hw⟩
      refine ((scanChannels_obeys config fuel).sat hW each_nil).bind ?_
      rintro ⟨channels, devices⟩ log₂ ⟨hnodup, heach⟩
      have hK := places_injective hnodup
      have h₂ : Consistent config (places devices) (makeMotorStates config devices) log₂ :=
        ⟨heach, makeMotorStates_place config devices, fun i hon => absurd hon (by
          simp [makeMotorStates])⟩
      refine ((consistent_rules hK channels config).refreshInitialPositions_sat fuel _
        (fun _ => rfl) h₂).bind ?_
      rintro motors log₃ ⟨-, h₃⟩
      exact runGui_noted hK channels fuel h₃

end program

/-! ### A refused request -/

/-- Since `past` no ENABLE was written with success. -/
def Unenabled (past log : List GuiEvent) : Prop :=
  ∃ new, log = new ++ past ∧ ∀ e ∈ new, ∀ k, ¬ Writes .enable k true e

section refused
variable {config : Config} {n : ℕ} {motors : Motors n} {past log : List GuiEvent}

theorem Unenabled.cons {e : GuiEvent} (h : Unenabled past log)
    (he : ∀ k, ¬ Writes .enable k true e) : Unenabled past (e :: log) := by
  obtain ⟨new, rfl, hnew⟩ := h
  exact ⟨e :: new, rfl, List.forall_mem_cons.mpr ⟨he, hnew⟩⟩

theorem Unenabled.call {c : SysCall} {r : c.Resp} {log' : List GuiEvent} (hc : IsNotEnable c)
    (h : Unenabled past log) (hw : noted log c r log') : Unenabled past log' := by
  have hnote : log' = note log c r := hw
  rw [hnote]
  rcases note_notEnable r log hc with hsame | ⟨e, hcons, he⟩
  · rwa [hsame]
  · rw [hcons]
    exact h.cons he

theorem unenabled_rules (past : List GuiEvent) (i : Fin n) :
    OnRules i (fun motors log => (motors i).enabled = false ∧ Unenabled past log)
      (fun _ _ => True) where
  settings := fun hsame h => ⟨(hsame.enabled i).trans h.1, h.2⟩
  aim := fun p h => ⟨by rw [Function.update_self]; exact h.1, h.2⟩
  call := fun c _ _ hc h hw => ⟨h.1, h.2.call hc hw⟩
  enable := by
    rintro motors log ⟨hoff, h⟩
    refine writeFrame_wrote (k := ((motors i).driver.can, 0)) rfl fun ok => ⟨trivial, ?_⟩
    cases ok with
    | true => trivial
    | false =>
        refine ⟨hoff, h.cons ?_⟩
        rintro k ⟨msg, heq, -⟩
        exact absurd (GuiEvent.wrote.inj heq).2.2 (by simp)

end refused

/-! ### The frames of a hold tick -/

/-- The hold command of a motor that is ON, or the STOP when that fails. -/
def IsHold (config : Config) {n : ℕ} (motors : Motors n) (c : SysCall) : Prop :=
  ∀ ch msg, c = .canWrite ch msg → ∃ i, (motors i).enabled = true ∧ ch = (motors i).driver.can ∧
    (msg = (motors i).driver.mitFrame (motors i).holdPositionRad (.rat 0) config.kp config.kd
      (.rat 0) ∨ msg = (motors i).driver.hostFrame .stop zeroData)

section hold
variable {n : ℕ}

theorem holdLoop_only (config : Config) (l : List (Fin n)) (motors : Motors n)
    (statusMessage : String) :
    (holdLoop config l motors statusMessage).Only (IsHold config motors) := by
  induction l generalizing motors statusMessage with
  | nil => trivial
  | cons i rest ih =>
      rw [holdLoop]
      by_cases hon : (motors i).enabled = true
      · simp only [hon, Bool.not_true, Bool.false_eq_true, if_false]
        refine Prog.Only.bind ⟨?_, fun _ => trivial⟩ fun sent => ?_
        · intro ch msg heq
          obtain ⟨rfl, rfl⟩ := SysCall.canWrite.inj heq
          exact ⟨i, hon, rfl, .inl rfl⟩
        · cases sent with
          | true => exact ih _ _
          | false =>
              simp only [Bool.not_false, if_true]
              refine Prog.Only.bind ⟨?_, fun _ => trivial⟩ fun _ => ⟨?_, fun throws => ?_⟩
              · intro ch msg heq
                obtain ⟨rfl, rfl⟩ := SysCall.canWrite.inj heq
                exact ⟨i, hon, rfl, .inr rfl⟩
              · intro ch msg heq
                cases heq
              · cases throws with
                | true => trivial
                | false =>
                    refine (ih (setEnabled motors i false) _).mono fun c hc ch msg heq => ?_
                    obtain ⟨j, hj, hframe⟩ := hc ch msg heq
                    by_cases hij : j = i
                    · subst hij
                      rw [setEnabled_enabled] at hj
                      cases hj
                    · have hsame : setEnabled motors i false j = motors j :=
                        Function.update_of_ne hij _ _
                      rw [hsame] at hj hframe
                      exact ⟨j, hj, hframe⟩
      · simp only [hon, Bool.not_false, if_true]
        exact ih _ _

end hold

/-! ### The guarantee -/

/-- **Only measured positions are commanded.**  In every run of the program each MIT frame
belongs to an ON request of its motor or to a motor that is held since one, and a hold tick
writes to motors whose flag is set.  A refused request has written no ENABLE and leaves the
motor OFF. -/
theorem hold_targets :
    (∀ config fuel log o, Runs noted (main config fuel) [] log o → Each (Commanded config) log) ∧
    (∀ (n : ℕ) config (motors : Motors n) statusMessage,
      (sendHoldCommands config motors statusMessage).Only (IsHold config motors)) ∧
    ∀ (n : ℕ) channels config fuel (i : Fin n) (motors motors' : Motors n) status log log',
      (motors i).enabled = false →
      Runs noted (enableSelectedMotor channels config fuel i motors) log log'
        (some (.ok (false, motors', status))) →
      (motors' i).enabled = false ∧ Unenabled log log' := by
  refine ⟨?_, ?_, ?_⟩
  · intro config fuel log o hrun
    exact (hrun.sat (main_noted config fuel) each_nil).1
  · intro n config motors statusMessage
    exact holdLoop_only config _ motors statusMessage
  · intro n channels config fuel i motors motors' status log log' hoff hrun
    have hlog : Unenabled log log := ⟨[], rfl, by simp⟩
    have hrules := unenabled_rules (n := n) log i
    exact hrun.post (hrules.enableSelectedMotor_sat channels config fuel ⟨hoff, hlog⟩)

/-- A reply of motor 4 to the default host. -/
def replyOfFour (t : CommType) : TPCANMsg :=
  extendedFrame (buildExtId t.code 4 hostIdDefault) zeroData

/-- Channel 0 opens and has motor 4, which answers at once.  The keys are Space and `q`. -/
def answerFour (log : List GuiEvent) : (c : SysCall) → c.Resp
  | .isatty => true
  | .canInitialize ch => if ch = 0 then pcanErrorOk else pcanErrorQrcvEmpty
  | .canRead _ =>
      match log with
      | .wrote _ msg _ :: _ =>
          if msg.commType = CommType.getId.code ∧ msg.destinationId = 4 then
            (pcanErrorOk, replyOfFour .getId)
          else if msg.commType = CommType.paramRead.code then
            (pcanErrorOk, replyOfFour .feedback)
          else (pcanErrorOk + 1, {})
      | _ => (pcanErrorOk + 1, {})
  | .readStdin => if log.any (· matches .key _) then ['q'] else [' ']
  | c => c.quiet

def handlerFour : Handler Sys (List GuiEvent) := fun log c =>
  (answerFour log c, note log c (answerFour log c))

/-- A command that was written on channel 0. -/
def isCommand : GuiEvent → Bool
  | .wrote ch msg ok => ch == 0 && ok && msg.commType == CommType.mitControl.code
  | _ => false

/-- Motor 4 is enabled and held, and without its channel the request is refused. -/
theorem hold_targets_four :
    (∃ log msg, Runs noted (main {} 3) [] log (some 0) ∧ .wrote 0 msg true ∈ log ∧
      msg.commType = CommType.mitControl.code ∧
        ∃ p, msg = holdFrame {} (0, msg.destinationId) p ∧ InRange p) ∧
    ∃ motors' status, Runs noted (enableSelectedMotor (fun _ => false) {} 1 0
      (makeMotorStates {} [⟨0, 4, zeroData⟩])) [] [] (some (.ok (false, motors', status))) ∧
        (motors' 0).enabled = false := by
  constructor
  · have hrun := runs_exec (P := fun _ => True) (W := noted) (h := handlerFour)
      (fun s c _ => ⟨rfl, trivial⟩) (main {} 3) (s := []) trivial
    obtain ⟨hend, hmit⟩ : (exec handlerFour (main {} 3) []).2 = some 0 ∧
        (exec handlerFour (main {} 3) []).1.any isCommand = true := by decide +kernel
    rw [hend] at hrun
    have heach := hold_targets.1 {} 3 _ _ hrun
    obtain ⟨e, he, hcommand⟩ := List.any_eq_true.mp hmit
    obtain ⟨later, earlier, hlog⟩ := List.append_of_mem he
    cases e with
    | wrote ch msg ok =>
        simp only [isCommand, Bool.and_eq_true, beq_iff_eq] at hcommand
        obtain ⟨⟨rfl, rfl⟩, htype⟩ := hcommand
        obtain ⟨p, hframe, hrange, -⟩ :=
          (heach later _ earlier hlog 0 msg true rfl).1 htype
        exact ⟨_, msg, hrun, he, htype, p, hframe, hrange⟩
    | _ => cases hcommand
  · have hrun : Runs noted (enableSelectedMotor (fun _ => false) {} 1 0
        (makeMotorStates {} [⟨0, 4, zeroData⟩])) [] [] (some (.ok (false, _,
          "ON refused: current position could not be read."))) :=
      .call (r := false) rfl (.ret _ _)
    have hrefused := hold_targets.2.2 1 _ _ _ 0 _ _ _ _ _ rfl hrun
    exact ⟨_, _, hrun, hrefused.1⟩

end PositionRead

end Qub
