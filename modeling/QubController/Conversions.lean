import QubController.Feedback
import QubController.MitCodec
import QubController.TestConnection

/-! # Conversions of floats to integers

A C++ conversion of a `float` to an unsigned integer is undefined when the truncated value
does not fit.  The operands of the conversions that `send_commands` reaches are collected in
`conversions`; a value that is not a number passes both comparisons of the clamp, and
`conversions_defined_iff` says that this is the only way out of the range. -/

namespace Qub

open Interaction

/-! ### One conversion -/

/-- In the range of `uint16_t`. -/
def InRange16 (x : CFloat) : Prop := ∃ q : ℚ, x = .rat q ∧ 0 ≤ q ∧ q ≤ 65535

theorem InRange16.castDefined {x : CFloat} (h : InRange16 x) : x.castDefined = true := by
  obtain ⟨q, rfl, h0, hle⟩ := h
  exact CFloat.castDefined_rat h0 hle

theorem floatToUintOperand_nan (lo hi : ℚ) :
    floatToUintOperand .nan (.rat lo) (.rat hi) = .nan := rfl

theorem floatToUintOperand_posInf (lo hi : ℚ) :
    floatToUintOperand .posInf (.rat lo) (.rat hi) =
      floatToUintOperand (.rat hi) (.rat lo) (.rat hi) := by
  simp [floatToUintOperand, CFloat.gt, CFloat.lt]

theorem floatToUintOperand_negInf {lo hi : ℚ} (h : lo < hi) :
    floatToUintOperand .negInf (.rat lo) (.rat hi) =
      floatToUintOperand (.rat lo) (.rat lo) (.rat hi) := by
  have hnot : ¬ hi < lo := not_lt.mpr h.le
  simp [floatToUintOperand, CFloat.gt, CFloat.lt, hnot]

/-- The clamp of `float_to_uint` does its work for all values but one. -/
theorem inRange_operand_iff {lo hi : ℚ} (h : lo < hi) (x : CFloat) :
    InRange16 (floatToUintOperand x (.rat lo) (.rat hi)) ↔ x ≠ .nan := by
  have hrat : ∀ q, InRange16 (floatToUintOperand (.rat q) (.rat lo) (.rat hi)) := by
    intro q
    rw [floatToUintOperand_rat h]
    exact ⟨_, rfl, by exact_mod_cast scaled_mem (N := 65535) h q⟩
  cases x with
  | nan =>
      rw [floatToUintOperand_nan]
      constructor
      · rintro ⟨q, hq, -⟩
        cases hq
      · exact fun hne => absurd rfl hne
  | posInf =>
      rw [floatToUintOperand_posInf]
      exact ⟨fun _ => by simp, fun _ => hrat hi⟩
  | negInf =>
      rw [floatToUintOperand_negInf h]
      exact ⟨fun _ => by simp, fun _ => hrat lo⟩
  | rat q => exact ⟨fun _ => by simp, fun _ => hrat q⟩

/-! ### The conversions of a command -/

/-- The action's command to joint `j`. -/
def ActionState.command (act : ActionState) (j : Fin numJoints) : MitField → CFloat
  | .position => act.qDes j
  | .velocity => act.dqDes j
  | .kp => act.kp j
  | .kd => act.kd j
  | .torque => act.tauFf j

/-- The fields in the order in which `send_mit_command` converts them. -/
def MitField.all : List MitField := [torque, position, velocity, kp, kd]

theorem MitField.mem_all (f : MitField) : f ∈ MitField.all := by cases f <;> decide

/-- The operands of the conversions of `send_mit_command`. -/
def mitConversions (x : MitField → CFloat) : List CFloat :=
  MitField.all.map fun f => floatToUintOperand (x f) f.min f.max

/-- The operands of the conversions of `send_commands` for an action that is valid. -/
def conversions (act : ActionState) (motors : List MotorBinding) : List CFloat :=
  motors.flatMap fun bind => mitConversions (act.command bind.jointIdx)

/-- The frame that a valid action sends to a motor carries the converted operands. -/
theorem sendCommand_conversions {act : ActionState} (hvalid : act.valid = true)
    (bind : MotorBinding) : ∃ frame,
      MotorThread.sendCommand act bind = bind.motor.writeFrame frame ∧
      MitField.all.map (·.word frame) =
        (mitConversions (act.command bind.jointIdx)).map CFloat.toUInt16 := by
  refine ⟨bind.motor.mit (act.command bind.jointIdx), ?_, ?_⟩
  · rw [MotorThread.sendCommand_eq]
    simp only [MotorThread.commandFrame, hvalid, if_true]
    rfl
  · rw [mitConversions, List.map_map]
    apply List.map_congr_left
    intro f _
    exact Robstride.word_mit _ _ f

theorem conversions_inRange_iff (act : ActionState) (motors : List MotorBinding) :
    (∀ x ∈ conversions act motors, InRange16 x) ↔
      ∀ bind ∈ motors, ∀ f, act.command bind.jointIdx f ≠ .nan := by
  have hfield : ∀ (f : MitField) (x : CFloat),
      InRange16 (floatToUintOperand x f.min f.max) ↔ x ≠ .nan := by
    intro f x
    rw [f.min_eq, f.max_eq]
    exact inRange_operand_iff f.lo_lt_hi x
  constructor
  · intro h bind hbind f
    rw [← hfield f]
    apply h
    apply List.mem_flatMap.mpr
    exact ⟨bind, hbind, List.mem_map.mpr ⟨f, f.mem_all, rfl⟩⟩
  · intro h x hx
    obtain ⟨bind, hbind, hx⟩ := List.mem_flatMap.mp hx
    obtain ⟨f, -, rfl⟩ := List.mem_map.mp hx
    rw [hfield f]
    exact h bind hbind f

/-! ### The conversion of a reported ID -/

namespace TestConnection

/-- A value that passes the guards lies between 0 and 255, or is not a number. -/
theorem reportedCanId_cases {msg : TPCANMsg} {canId : CFloat} (h : reportedCanId msg = some canId) :
    canId = paramValue msg.data ∧ (canId = .nan ∨ ∃ q : ℚ, canId = .rat q ∧ 0 ≤ q ∧ q ≤ 255) := by
  unfold reportedCanId at h
  split at h
  · cases h
  split at h
  · cases h
  split at h
  · cases h
  simp only at h
  split at h
  · cases h
  · rename_i hguard
    obtain rfl := Option.some.inj h
    refine ⟨rfl, ?_⟩
    cases hvalue : paramValue msg.data with
    | nan => exact .inl rfl
    | posInf => simp [hvalue, CFloat.gt, CFloat.lt] at hguard
    | negInf => simp [hvalue, CFloat.gt, CFloat.lt] at hguard
    | rat q =>
        simp only [hvalue, CFloat.gt, CFloat.lt, Bool.or_eq_true, decide_eq_true_eq, not_or,
          not_lt] at hguard
        exact .inr ⟨q, rfl, hguard⟩

/-- The guards let the value that is not a number through. -/
theorem reportedCanId_nan {msg : TPCANMsg} (hext : msg.extended = true) (hlen : msg.len = 8)
    (htype : msg.commType = CommType.paramRead.code)
    (hparam : littleEndian msg.data 0 1 = paramCanId) (hnan : paramValue msg.data = .nan) :
    reportedCanId msg = some .nan := by
  have hlt : ¬ (8 : UInt8) < 8 := by decide
  simp [reportedCanId, hext, hlen, htype, hparam, hnan, hlt, CFloat.gt, CFloat.lt]

theorem littleEndian_of_reported {msg : TPCANMsg} {canId : CFloat}
    (h : reportedCanId msg = some canId) : littleEndian msg.data 0 1 = paramCanId := by
  unfold reportedCanId at h
  split at h
  · cases h
  split at h
  · cases h
  split at h
  · cases h
  · rename_i hparam
    simpa using hparam

/-- The conversion of a number that passes the guards is defined. -/
theorem canIdOperand_defined {q : ℚ} (h : 0 ≤ q) (hle : q ≤ 255) :
    (canIdOperand (.rat q)).castDefined8 = true := by
  unfold canIdOperand
  rw [CFloat.rat_add]
  exact CFloat.castDefined8_rat (by linarith) (by linarith)

/-- A reply of eight bytes to `PARAM_READ`. -/
structure IsParamReply (msg : TPCANMsg) : Prop where
  extended : msg.extended = true
  len : msg.len = 8
  commType : msg.commType = CommType.paramRead.code

theorem canIdOperand_defined_iff {msg : TPCANMsg} (h : IsParamReply msg) :
    (∀ canId, reportedCanId msg = some canId → (canIdOperand canId).castDefined8 = true) ↔
      ¬ (littleEndian msg.data 0 1 = paramCanId ∧ paramValue msg.data = .nan) := by
  constructor
  · rintro hdefined ⟨hparam, hnan⟩
    have hfalse := hdefined .nan (reportedCanId_nan h.extended h.len h.commType hparam hnan)
    cases hfalse
  · intro hnot canId hreported
    obtain ⟨rfl, hnan | ⟨q, hq, h0, hle⟩⟩ := reportedCanId_cases hreported
    · exact absurd ⟨littleEndian_of_reported hreported, hnan⟩ hnot
    · rw [hq]
      exact canIdOperand_defined h0 hle

end TestConnection

/-! ### All conversions -/

/-- **The conversions are defined unless a value is not a number.**  For every valid action and
every list of motors, with the words of the frames as their results; and for every reply to
`PARAM_READ`. -/
theorem conversions_defined_iff {act : ActionState} (hvalid : act.valid = true)
    (motors : List MotorBinding) {msg : TPCANMsg} (hreply : TestConnection.IsParamReply msg) :
    (∀ bind ∈ motors, ∃ frame,
      MotorThread.sendCommand act bind = bind.motor.writeFrame frame ∧
      MitField.all.map (·.word frame) =
        (mitConversions (act.command bind.jointIdx)).map CFloat.toUInt16) ∧
    ((∀ x ∈ conversions act motors, InRange16 x) ↔
      ∀ bind ∈ motors, ∀ f, act.command bind.jointIdx f ≠ .nan) ∧
    ((∀ canId, TestConnection.reportedCanId msg = some canId →
      (TestConnection.canIdOperand canId).castDefined8 = true) ↔
      ¬ (littleEndian msg.data 0 1 = paramCanId ∧ paramValue msg.data = .nan)) :=
  ⟨fun bind _ => sendCommand_conversions hvalid bind, conversions_inRange_iff act motors,
    TestConnection.canIdOperand_defined_iff hreply⟩

/-- An action that commands no number to the right knee. -/
def nanAction : ActionState :=
  { qDes := fun j => if j = JointIdx.rKneePitch then .nan else .rat 0, valid := true }

/-- A reply that reports no number as the ID of motor 4. -/
def nanReply : TPCANMsg :=
  extendedFrame (buildExtId CommType.paramRead.code 4 hostIdDefault)
    ![0x0A, 0x20, 0, 0, 0, 0, 0xC0, 0x7F]

theorem nanReply_isParamReply : TestConnection.IsParamReply nanReply :=
  ⟨by decide, rfl, by decide⟩

/-- Both conversions can be reached with a value that does not fit. -/
theorem undefined_conversion :
    (¬ ∀ (act : ActionState) (motors : List MotorBinding), act.valid = true →
      ∀ x ∈ conversions act motors, InRange16 x) ∧
    ¬ ∀ msg, TestConnection.IsParamReply msg → ∀ canId,
      TestConnection.reportedCanId msg = some canId →
        (TestConnection.canIdOperand canId).castDefined8 = true := by
  constructor
  · intro h
    have hmotors := h nanAction [⟨⟨0, 4, hostIdDefault, {}⟩, JointIdx.rKneePitch⟩] rfl
    rw [conversions_inRange_iff] at hmotors
    exact hmotors _ (List.mem_singleton.mpr rfl) .position rfl
  · intro h
    have hreply := h nanReply nanReply_isParamReply
    rw [TestConnection.canIdOperand_defined_iff nanReply_isParamReply] at hreply
    exact hreply ⟨by decide, by decide⟩

/-- An action of zeros for the right knee, and the reply above. -/
theorem conversions_defined_zero :
    (∀ x ∈ conversions { valid := true } [⟨⟨0, 4, hostIdDefault, {}⟩, JointIdx.rKneePitch⟩],
      InRange16 x) ∧
    ¬ ∀ canId, TestConnection.reportedCanId nanReply = some canId →
      (TestConnection.canIdOperand canId).castDefined8 = true := by
  have hvalid : ({ valid := true } : ActionState).valid = true := rfl
  obtain ⟨-, hcommands, hreplies⟩ := conversions_defined_iff hvalid
    [⟨⟨0, 4, hostIdDefault, {}⟩, JointIdx.rKneePitch⟩] nanReply_isParamReply
  constructor
  · apply hcommands.mpr
    intro bind _ f
    cases f <;> simp [ActionState.command]
  · intro h
    exact hreplies.mp h ⟨by decide, by decide⟩

end Qub
