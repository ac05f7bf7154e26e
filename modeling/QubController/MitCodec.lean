import QubController.Quantizer
import QubController.Robstride

/-! # The MIT codec

`float_to_uint` and `uint_to_float` on rational values are the coder and the decoder of a
linear quantization with the codes `0..65535`.  A MIT frame carries five such codes, one of
them in its identifier; `mit_codec` says what a reader of the frame gets back for each. -/

namespace Qub

open Interaction

/-! ### The two conversions -/

/-- What `float_to_uint` converts to `uint16_t`. -/
def floatToUintOperand (x xMin xMax : CFloat) : CFloat :=
  let x := if x.gt xMax then xMax else x
  let x := if x.lt xMin then xMin else x
  (x - xMin) * .rat 65535 / (xMax - xMin)

theorem floatToUint_eq (x xMin xMax : CFloat) :
    floatToUint x xMin xMax = (floatToUintOperand x xMin xMax).toUInt16 := rfl

theorem floatToUintOperand_rat {lo hi : ℚ} (h : lo < hi) (x : ℚ) :
    floatToUintOperand (.rat x) (.rat lo) (.rat hi) =
      .rat ((saturate lo hi x - lo) * 65535 / (hi - lo)) := by
  have hhigh : (if (CFloat.rat x).gt (.rat hi) then CFloat.rat hi else .rat x) =
      .rat (min x hi) := by
    by_cases hx : hi < x
    · simp [CFloat.gt, CFloat.lt, hx, min_eq_right hx.le]
    · simp [CFloat.gt, CFloat.lt, hx, min_eq_left (not_lt.mp hx)]
  have hlow : (if (CFloat.rat (min x hi)).lt (.rat lo) then CFloat.rat lo else .rat (min x hi)) =
      .rat (saturate lo hi x) := by
    unfold saturate
    by_cases hx : min x hi < lo
    · rw [max_eq_left hx.le]
      simp [CFloat.lt, hx]
    · rw [max_eq_right (not_lt.mp hx)]
      simp [CFloat.lt, hx]
  have hne : hi - lo ≠ 0 := (sub_pos.mpr h).ne'
  unfold floatToUintOperand
  simp only [hhigh, hlow, CFloat.rat_sub, CFloat.rat_mul, CFloat.rat_div hne]

theorem floatToUint_rat {lo hi : ℚ} (h : lo < hi) (x : ℚ) :
    floatToUint (.rat x) (.rat lo) (.rat hi) = UInt16.ofNat (encode 65535 lo hi x) := by
  obtain ⟨h0, hN⟩ := scaled_mem (N := 65535) h x
  rw [floatToUint_eq, floatToUintOperand_rat h]
  exact CFloat.toUInt16_rat h0 hN

theorem uintToFloat_rat (u : UInt16) (lo hi : ℚ) :
    uintToFloat u (.rat lo) (.rat hi) = .rat (decode 65535 lo hi u.toNat) := by
  have hne : (65535 : ℚ) ≠ 0 := by norm_num
  unfold uintToFloat decode
  simp only [CFloat.ofNat, CFloat.rat_sub, CFloat.rat_mul, CFloat.rat_div hne, CFloat.rat_add]
  rfl

section conversions
variable {lo hi : ℚ} (h : lo < hi)
include h

theorem toNat_floatToUint (x : ℚ) :
    (floatToUint (.rat x) (.rat lo) (.rat hi)).toNat = encode 65535 lo hi x := by
  have hle : encode 65535 lo hi x ≤ 65535 := encode_le h x
  rw [floatToUint_rat h, UInt16.toNat_ofNat']
  omega

theorem floatToUint_mono {x y : ℚ} (hxy : x ≤ y) :
    floatToUint (.rat x) (.rat lo) (.rat hi) ≤ floatToUint (.rat y) (.rat lo) (.rat hi) := by
  rw [UInt16.le_iff_toNat_le, toNat_floatToUint h, toNat_floatToUint h]
  exact encode_mono h hxy

/-- Decoding and encoding again gives the same code. -/
theorem floatToUint_uintToFloat (u : UInt16) :
    floatToUint (uintToFloat u (.rat lo) (.rat hi)) (.rat lo) (.rat hi) = u := by
  have hu : u.toNat ≤ 65535 := by
    have := u.toNat_lt
    omega
  rw [uintToFloat_rat, floatToUint_rat h, encode_decode (by norm_num) h hu]
  exact UInt16.ofNat_toNat

/-- What a decoder reads is less than one step below the saturated value. -/
theorem uintToFloat_floatToUint (x : ℚ) : ∃ v : ℚ,
    uintToFloat (floatToUint (.rat x) (.rat lo) (.rat hi)) (.rat lo) (.rat hi) = .rat v ∧
      0 ≤ saturate lo hi x - v ∧ saturate lo hi x - v < (hi - lo) / 65535 := by
  have hbound := decode_encode (N := 65535) (by norm_num) h x
  rw [uintToFloat_rat, toNat_floatToUint h]
  exact ⟨_, rfl, by exact_mod_cast hbound⟩

end conversions

/-! ### The fields of a MIT frame -/

/-- The five commanded quantities. -/
inductive MitField
  | position | velocity | kp | kd | torque
deriving DecidableEq

namespace MitField

def min : MitField → CFloat
  | position => pMin
  | velocity => vMin
  | kp => kpMin
  | kd => kdMin
  | torque => tMin

def max : MitField → CFloat
  | position => pMax
  | velocity => vMax
  | kp => kpMax
  | kd => kdMax
  | torque => tMax

/-- The rational lower bound. -/
def lo : MitField → ℚ
  | position => -1257 / 100
  | velocity => -44
  | kp => 0
  | kd => 0
  | torque => -17

/-- The rational upper bound. -/
def hi : MitField → ℚ
  | position => 1257 / 100
  | velocity => 44
  | kp => 500
  | kd => 5
  | torque => 17

theorem min_eq (f : MitField) : f.min = .rat f.lo := by cases f <;> rfl
theorem max_eq (f : MitField) : f.max = .rat f.hi := by cases f <;> rfl
theorem lo_lt_hi (f : MitField) : f.lo < f.hi := by cases f <;> norm_num [lo, hi]

/-- The field's word in a frame: the torque's is `Bit[23:8]` of the identifier, the others are
the big-endian words of the data. -/
def word (msg : TPCANMsg) : MitField → UInt16
  | position => bigEndian msg.data 0 1
  | velocity => bigEndian msg.data 2 3
  | kp => bigEndian msg.data 4 5
  | kd => bigEndian msg.data 6 7
  | torque => msg.dataField

end MitField

/-- Writing a word big-endian and reading it. -/
theorem bigEndian_bytes (u : UInt16) :
    ((u >>> 8).toUInt8.toUInt16 <<< 8) ||| (u &&& 0xFF).toUInt8.toUInt16 = u := by
  apply UInt16.toNat_inj.mp
  have hu := u.toNat_lt
  have hhigh : (u >>> 8).toUInt8.toUInt16.toNat = u.toNat / 2 ^ 8 := by
    simp
    omega
  have hlow : (u &&& 0xFF).toUInt8.toUInt16.toNat = u.toNat % 2 ^ 8 := by
    have hand : u.toNat &&& 255 = u.toNat % 2 ^ 8 := Nat.and_two_pow_sub_one_eq_mod u.toNat 8
    rw [UInt8.toNat_toUInt16, UInt16.toNat_toUInt8, UInt16.toNat_and]
    show (u.toNat &&& 255) % 2 ^ 8 = _
    rw [hand, Nat.mod_mod]
  have hshift : ((u >>> 8).toUInt8.toUInt16 <<< 8).toNat = 2 ^ 8 * (u.toNat / 2 ^ 8) := by
    have h8 : (8 : UInt16).toNat % 16 = 8 := by decide
    rw [UInt16.toNat_shiftLeft, hhigh, Nat.shiftLeft_eq, h8]
    omega
  rw [UInt16.toNat_or, hshift, hlow,
    ← Nat.two_pow_add_eq_or_of_lt (Nat.mod_lt _ (by norm_num))]
  exact Nat.div_add_mod _ _

namespace Robstride
variable (m : Robstride)

/-- `send_mit_command` with its arguments as one function. -/
def sendMit (x : MitField → CFloat) : SysM Bool :=
  m.sendMitCommand (x .position) (x .velocity) (x .kp) (x .kd) (x .torque)

def mit (x : MitField → CFloat) : TPCANMsg :=
  m.mitFrame (x .position) (x .velocity) (x .kp) (x .kd) (x .torque)

/-- A field's word is its own argument's code. -/
theorem word_mit (x : MitField → CFloat) (f : MitField) :
    f.word (m.mit x) = floatToUint (x f) f.min f.max := by
  cases f with
  | torque => exact m.mitFrame_dataField _ _ _ _ _
  | _ => exact bigEndian_bytes _

/-- **The codec of `send_mit_command`.**  The identifier, what a reader decodes for each field,
monotony and independence of the words, and the exact inverse on codes. -/
theorem mit_codec :
    (∀ x : MitField → ℚ, ∃ frame : TPCANMsg,
      m.sendMit (fun f => .rat (x f)) = m.writeFrame frame ∧
      frame.extended = true ∧ frame.id.toNat < 2 ^ 29 ∧ frame.commType = 0x01 ∧
      frame.destinationId = m.motorId ∧
      ∀ f : MitField, ∃ v : ℚ, uintToFloat (f.word frame) f.min f.max = .rat v ∧
        0 ≤ saturate f.lo f.hi (x f) - v ∧
        saturate f.lo f.hi (x f) - v < (f.hi - f.lo) / 65535) ∧
    (∀ (x y : MitField → ℚ) (f : MitField), x f ≤ y f →
      f.word (m.mit fun g => .rat (x g)) ≤ f.word (m.mit fun g => .rat (y g))) ∧
    (∀ (x y : MitField → CFloat) (f : MitField), x f = y f →
      f.word (m.mit x) = f.word (m.mit y)) ∧
    (∀ lo hi : ℚ, lo < hi → ∀ u : UInt16,
      floatToUint (uintToFloat u (.rat lo) (.rat hi)) (.rat lo) (.rat hi) = u) ∧
    (∀ (σ : Type) (W : World Sys σ) (s s' : σ) (m' : Robstride) (msg : TPCANMsg)
      (x : MitField → CFloat), Runs W (m.tryParseFeedback msg) s s' (some (true, m')) →
      x .position = m'.lastFeedback.position →
      MitField.position.word (m'.mit x) = bigEndian msg.data 0 1) := by
  refine ⟨?_, ?_, ?_, ?_, ?_⟩
  · intro x
    refine ⟨m.mit fun f => .rat (x f), rfl, extendedFrame_extended _ _, buildExtId_lt _ _ _,
      m.mitFrame_commType _ _ _ _ _, m.mitFrame_destinationId _ _ _ _ _, fun f => ?_⟩
    rw [word_mit, f.min_eq, f.max_eq]
    exact uintToFloat_floatToUint f.lo_lt_hi (x f)
  · intro x y f hxy
    rw [word_mit, word_mit, f.min_eq, f.max_eq]
    exact floatToUint_mono f.lo_lt_hi hxy
  · intro x y f hxy
    rw [word_mit, word_mit, hxy]
  · intro lo hi h u
    exact floatToUint_uintToFloat h u
  · intro σ W s s' m' msg x hrun hx
    have hpos : m'.lastFeedback.position = feedbackPosition msg := by
      have hsat : Sat W (fun _ => True) (m.tryParseFeedback msg)
          (fun r _ => r.1 = true → r.2.lastFeedback.position = feedbackPosition msg) s := by
        unfold tryParseFeedback
        split
        · exact fun ts s₁ _ => ⟨trivial, fun _ => rfl⟩
        · exact fun hparsed => absurd hparsed (by simp)
      exact hrun.post hsat rfl
    rw [word_mit, hx, hpos]
    exact floatToUint_uintToFloat MitField.position.lo_lt_hi _

/-- Feedback of motor 4 from the middle of the position range. -/
def middleFeedback : TPCANMsg :=
  extendedFrame (buildExtId CommType.feedback.code 4 hostIdDefault) ![0x80, 0, 0, 0, 0, 0, 0, 0]

/-- Its position, re-sent as a target, has the code `0x8000` again. -/
theorem mit_codec_resend : ∃ s' m',
    Runs World.record (Robstride.tryParseFeedback ⟨0, 4, hostIdDefault, {}⟩ middleFeedback) [] s'
      (some (true, m')) ∧
    MitField.position.word (m'.mit fun _ => m'.lastFeedback.position) = 0x8000 := by
  have haccepts : Robstride.accepts ⟨0, 4, hostIdDefault, {}⟩ middleFeedback = true := by decide
  have hrun : Runs World.record
      (Robstride.tryParseFeedback ⟨0, 4, hostIdDefault, {}⟩ middleFeedback) []
      [⟨.clockGettime, (⟨1, 0⟩ : Timespec)⟩]
      (some (true, ⟨0, 4, hostIdDefault, decodeFeedback middleFeedback ⟨1, 0⟩⟩)) := by
    unfold tryParseFeedback
    rw [if_pos haccepts]
    exact .call rfl (.ret _ _)
  refine ⟨_, _, hrun, ?_⟩
  have hword := (mit_codec ⟨0, 4, hostIdDefault, {}⟩).2.2.2.2 _ World.record _ _ _ _
    (fun _ => (decodeFeedback middleFeedback ⟨1, 0⟩).position) hrun rfl
  rw [hword]
  decide

end Robstride

end Qub
