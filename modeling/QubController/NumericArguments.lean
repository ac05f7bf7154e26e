import QubController.CNumeral
import QubController.MotorConfig
import QubController.PositionRead

/-! # Numeric arguments

`parse_integer`, which `motor_config.cpp` and `position_read.cpp` have each in a copy.  Both
convert with `std::stol` and base 0, where a leading zero announces base eight, while the
documentation knows decimal numbers and `0xNN`: `numeric_arguments_iff` says which texts and
ranges are affected. -/

namespace Qub

open CNumeral

/-! ### The two copies -/

/-- `parse_integer` of `motor_config.cpp`. -/
def MotorConfig.parseInteger (text : String) (minimum maximum : Int32) (label : String) :
    Except String Int32 :=
  match stol text with
  | .error _ => .error ("Invalid " ++ label ++ ": " ++ text)
  | .ok (value, parsed) =>
      if parsed ≠ text.length ∨ value < minimum.toInt ∨ maximum.toInt < value then
        .error (label ++ " must be in range " ++ toString minimum ++ ".." ++ toString maximum ++
          ": " ++ text)
      else .ok (Int32.ofInt value)

/-- `parse_integer` of `position_read.cpp`. -/
def PositionRead.parseInteger (text : String) (minimum maximum : Int64) (label : String) :
    Except String Int64 :=
  match stol text with
  | .error _ => .error ("invalid " ++ label ++ ": " ++ text)
  | .ok (value, parsed) =>
      if parsed ≠ text.length ∨ value < minimum.toInt ∨ maximum.toInt < value then
        .error (label ++ " out of range: " ++ text)
      else .ok (Int64.ofInt value)

/-- A number, if it lies in a range. -/
def valueIn (value lo hi : ℤ) : Option ℤ := if lo ≤ value ∧ value ≤ hi then some value else none

/-- The value of a text that is a number as a whole and lies in a range. -/
def accepted (text : String) (lo hi : ℤ) : Option ℤ := (wholeNumber text).bind (valueIn · lo hi)

variable (text label : String)

theorem accepted_of_ok {text : String} {value : ℤ} {parsed : ℕ} (lo hi : ℤ)
    (h : stol text = .ok (value, parsed)) :
    accepted text lo hi =
      if parsed ≠ text.length ∨ value < lo ∨ hi < value then none else some value := by
  rw [accepted, wholeNumber, h]
  by_cases hparsed : parsed = text.length
  · by_cases hin : lo ≤ value ∧ value ≤ hi
    · have hno : ¬ (value < lo ∨ hi < value) := by omega
      simp [hparsed, valueIn, hin, hno]
    · have hout : value < lo ∨ hi < value := by omega
      simp [hparsed, valueIn, hin, hout]
  · simp [hparsed]

theorem accepted_of_error {text : String} {e : StolError} (lo hi : ℤ) (h : stol text = .error e) :
    accepted text lo hi = none := by
  rw [accepted, wholeNumber, h]
  rfl

theorem MotorConfig.parseInteger_value (minimum maximum : Int32) :
    (parseInteger text minimum maximum label).toOption.map Int32.toInt =
      accepted text minimum.toInt maximum.toInt := by
  unfold parseInteger
  cases h : stol text with
  | error e => exact (accepted_of_error _ _ h).symm
  | ok r =>
      obtain ⟨value, parsed⟩ := r
      rw [accepted_of_ok _ _ h]
      by_cases hbad : parsed ≠ text.length ∨ value < minimum.toInt ∨ maximum.toInt < value
      · simp only [if_pos hbad]
        rfl
      · have hlo : minimum.toInt ≤ value := by omega
        have hhi : value ≤ maximum.toInt := by omega
        have hround : (Int32.ofInt value).toInt = value :=
          Int32.toInt_ofInt_of_le (minimum.le_toInt.trans hlo) (hhi.trans_lt maximum.toInt_lt)
        simp only [if_neg hbad]
        exact congrArg some hround

theorem PositionRead.parseInteger_value (minimum maximum : Int64) :
    (parseInteger text minimum maximum label).toOption.map Int64.toInt =
      accepted text minimum.toInt maximum.toInt := by
  unfold parseInteger
  cases h : stol text with
  | error e => exact (accepted_of_error _ _ h).symm
  | ok r =>
      obtain ⟨value, parsed⟩ := r
      rw [accepted_of_ok _ _ h]
      by_cases hbad : parsed ≠ text.length ∨ value < minimum.toInt ∨ maximum.toInt < value
      · simp only [if_pos hbad]
        rfl
      · have hlo : minimum.toInt ≤ value := by omega
        have hhi : value ≤ maximum.toInt := by omega
        have hround : (Int64.ofInt value).toInt = value :=
          Int64.toInt_ofInt_of_le (minimum.le_toInt.trans hlo) (hhi.trans_lt maximum.toInt_lt)
        simp only [if_neg hbad]
        exact congrArg some hround

/-! ### What the documentation says -/

/-- A text of decimal digits, with any leading zeros. -/
def IsDecimal : Prop := text.toList ≠ [] ∧ ∀ c ∈ text.toList, isDigitOf 10 c = true

/-- `0x` or `0X` and hexadecimal digits. -/
def IsHexadecimal : Prop := ∃ x d ds, text.toList = '0' :: x :: d :: ds ∧ (x = 'x' ∨ x = 'X') ∧
  ∀ y ∈ d :: ds, isDigitOf 16 y = true

/-- The documented result for the range: the decimal or the hexadecimal value. -/
def AsDocumented (lo hi : ℤ) (result : Option ℤ) : Prop :=
  (IsDecimal text → result = valueIn (numeral 10 text.toList) lo hi) ∧
    (IsHexadecimal text → result = valueIn (numeral 16 (text.toList.drop 2)) lo hi)

/-- Decimal digits with a leading zero and a value above seven, where the decimal value lies in
the range, or the digits are octal and their octal value does. -/
def LeadingZeroMatters (lo hi : ℤ) : Prop :=
  IsDecimal text ∧ text.toList.head? = some '0' ∧ 7 < numeral 10 text.toList ∧
    ((lo ≤ numeral 10 text.toList ∧ (numeral 10 text.toList : ℤ) ≤ hi) ∨
      (∀ c ∈ text.toList, isDigitOf 8 c = true) ∧ lo ≤ numeral 8 text.toList ∧
        (numeral 8 text.toList : ℤ) ≤ hi)

/-- A value that is no `long` is in no range of the parsers. -/
theorem valueIn_of_long {value lo hi : ℤ} (hhi : hi ≤ longMax) :
    (if value ≤ longMax then some value else none).bind (valueIn · lo hi) =
      valueIn value lo hi := by
  by_cases hlong : value ≤ longMax
  · rw [if_pos hlong]
    rfl
  · have hout : ¬ (lo ≤ value ∧ value ≤ hi) := by omega
    rw [if_neg hlong, valueIn, if_neg hout]
    rfl

theorem valueIn_eq_iff {v w lo hi : ℤ} (hne : v ≠ w) :
    valueIn v lo hi = valueIn w lo hi ↔ ¬ ((lo ≤ w ∧ w ≤ hi) ∨ (lo ≤ v ∧ v ≤ hi)) := by
  unfold valueIn
  by_cases hv : lo ≤ v ∧ v ≤ hi <;> by_cases hw : lo ≤ w ∧ w ≤ hi <;> simp [hv, hw, hne]

theorem IsHexadecimal.not_decimal {text : String} (h : IsHexadecimal text) : ¬ IsDecimal text := by
  obtain ⟨x, d, ds, htext, hx, -⟩ := h
  rintro ⟨-, hdigits⟩
  rw [htext] at hdigits
  have := hdigits x (by simp)
  rcases hx with rfl | rfl <;> exact absurd this (by decide)

/-- A leading zero: the octal value, if all digits are octal. -/
theorem accepted_leadingZero {text : String} {cs : List Char} (htext : text.toList = '0' :: cs)
    (hdigits : ∀ x ∈ cs, isDigitOf 10 x = true) {lo hi : ℤ} (hhi : hi ≤ longMax) :
    accepted text lo hi =
      if text.toList.all (isDigitOf 8) then valueIn (numeral 8 text.toList) lo hi
      else none := by
  rw [accepted, wholeNumber_octal htext hdigits, htext]
  by_cases hoct : ('0' :: cs).all (isDigitOf 8) = true
  · simp only [and_iff_right hoct, if_pos hoct]
    exact valueIn_of_long hhi
  · rw [if_neg fun h => hoct h.1, if_neg hoct]
    rfl

/-- The octal value is the decimal one up to seven; above, one of the two readings must refuse
what the other accepts. -/
theorem leadingZero_documented {text : String} {cs : List Char} (htext : text.toList = '0' :: cs)
    (hdigits : ∀ x ∈ cs, isDigitOf 10 x = true) {lo hi : ℤ} (hhi : hi ≤ longMax) :
    accepted text lo hi = valueIn (numeral 10 text.toList) lo hi ↔
      ¬ (7 < numeral 10 text.toList ∧
        ((lo ≤ numeral 10 text.toList ∧ (numeral 10 text.toList : ℤ) ≤ hi) ∨
          (∀ c ∈ text.toList, isDigitOf 8 c = true) ∧ lo ≤ numeral 8 text.toList ∧
            (numeral 8 text.toList : ℤ) ≤ hi)) := by
  rw [accepted_leadingZero htext hdigits hhi]
  by_cases hsmall : numeral 10 text.toList ≤ 7
  · have hoct := isDigitOf_eight_of_le hsmall
    rw [if_pos (List.all_eq_true.mpr hoct), (numeral_eight_eq_iff hoct).mpr hsmall]
    exact iff_of_true rfl fun h => absurd h.1 (not_lt.mpr hsmall)
  · rw [and_iff_right (not_le.mp hsmall)]
    by_cases hoct : ∀ c ∈ text.toList, isDigitOf 8 c = true
    · have hne : (numeral 8 text.toList : ℤ) ≠ numeral 10 text.toList := fun heq =>
        hsmall ((numeral_eight_eq_iff hoct).mp (Int.ofNat.inj heq))
      rw [if_pos (List.all_eq_true.mpr hoct), and_iff_right hoct]
      exact valueIn_eq_iff hne
    · rw [if_neg fun h => hoct (List.all_eq_true.mp h)]
      simp only [hoct, false_and, or_false, valueIn]
      split
      · next hin => simp [hin]
      · next hout => simp [hout]

theorem accepted_documented {text : String} {lo hi : ℤ} (hhi : hi ≤ longMax) :
    AsDocumented text lo hi (accepted text lo hi) ↔ ¬ LeadingZeroMatters text lo hi := by
  by_cases hdec : IsDecimal text
  · obtain ⟨hne, hdigits⟩ := hdec
    have hhex : ¬ IsHexadecimal text := fun h => h.not_decimal ⟨hne, hdigits⟩
    have hdoc : AsDocumented text lo hi (accepted text lo hi) ↔
        accepted text lo hi = valueIn (numeral 10 text.toList) lo hi :=
      ⟨fun h => h.1 ⟨hne, hdigits⟩, fun h => ⟨fun _ => h, fun h' => absurd h' hhex⟩⟩
    rw [hdoc]
    obtain ⟨c, cs, htext⟩ := List.exists_cons_of_ne_nil hne
    rw [htext] at hdigits
    by_cases hc : c = '0'
    · subst hc
      rw [leadingZero_documented htext (fun x hx => hdigits x (by simp [hx])) hhi]
      refine not_congr ?_
      have hdec : IsDecimal text := ⟨hne, by rw [htext]; exact hdigits⟩
      have hhead : text.toList.head? = some '0' := by rw [htext]; rfl
      exact ⟨fun h => ⟨hdec, hhead, h⟩, fun h => h.2.2⟩
    · have hmatters : ¬ LeadingZeroMatters text lo hi := by
        rintro ⟨-, hhead, -⟩
        rw [htext] at hhead
        exact hc (Option.some.inj hhead)
      refine iff_of_true ?_ hmatters
      rw [accepted, wholeNumber_decimal htext hdigits hc, htext]
      exact valueIn_of_long hhi
  · refine iff_of_true ⟨fun h => absurd h hdec, ?_⟩ fun h => hdec h.1
    rintro ⟨x, d, ds, htext, hx, hdigits⟩
    rw [accepted, wholeNumber_hex htext hx hdigits, htext]
    exact valueIn_of_long hhi

/-- **When the numeric arguments mean what the documentation says.**  Each copy reads a text as
documented if and only if no leading zero matters, and the two copies always agree. -/
theorem numeric_arguments_iff :
    (∀ minimum maximum : Int32,
      AsDocumented text minimum.toInt maximum.toInt
          ((MotorConfig.parseInteger text minimum maximum label).toOption.map Int32.toInt) ↔
        ¬ LeadingZeroMatters text minimum.toInt maximum.toInt) ∧
    (∀ minimum maximum : Int64,
      AsDocumented text minimum.toInt maximum.toInt
          ((PositionRead.parseInteger text minimum maximum label).toOption.map Int64.toInt) ↔
        ¬ LeadingZeroMatters text minimum.toInt maximum.toInt) ∧
    ∀ (minimum maximum : Int32) (label' : String),
      (MotorConfig.parseInteger text minimum maximum label).toOption.map Int32.toInt =
        (PositionRead.parseInteger text minimum.toInt64 maximum.toInt64 label').toOption.map
          Int64.toInt := by
  refine ⟨fun minimum maximum => ?_, fun minimum maximum => ?_, fun minimum maximum label' => ?_⟩
  · have hlong : maximum.toInt ≤ longMax := by
      have := maximum.toInt_lt
      simp only [longMax]
      omega
    rw [MotorConfig.parseInteger_value]
    exact accepted_documented hlong
  · have hlong : maximum.toInt ≤ longMax := by
      have := maximum.toInt_lt
      simp only [longMax]
      omega
    rw [PositionRead.parseInteger_value]
    exact accepted_documented hlong
  · rw [MotorConfig.parseInteger_value, PositionRead.parseInteger_value, Int32.toInt_toInt64,
      Int32.toInt_toInt64]

/-- **A leading zero selects another motor**: `010` is ten, but is read as eight. -/
theorem leading_zero_octal :
    MotorConfig.parseInteger "010" 0 127 "motor ID" = .ok 8 ∧
      PositionRead.parseInteger "010" 0 255 "host ID" = .ok 8 ∧ IsDecimal "010" ∧
      numeral 10 "010".toList = 10 ∧ ¬ AsDocumented "010" 0 127
        ((MotorConfig.parseInteger "010" 0 127 "motor ID").toOption.map Int32.toInt) := by
  have hdec : IsDecimal "010" := ⟨by decide, List.all_eq_true.mp rfl⟩
  refine ⟨by decide, by decide, hdec, by decide, fun h => ?_⟩
  exact absurd (h.1 hdec) (by decide)

end Qub
