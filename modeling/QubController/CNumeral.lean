import Mathlib.Data.Int.Order.Basic
import Mathlib.Data.List.Induction
import Mathlib.Data.List.TakeWhile

/-! # Integers as the C library reads them

`strtol` with base 0, on the characters of a string: white space, a sign, and then a numeral
whose base is read off its prefix.  `Strtol.read` is what it converts, together with the number
of characters used; `stol` is `std::stol`, which throws where nothing is converted and where the
value is no `long` of 64 bits.

`wholeNumber` is the value of a string all of which is converted.  `wholeNumber_decimal`,
`wholeNumber_octal` and `wholeNumber_hex` evaluate it on unsigned numerals, and
`numeral_eight_eq_iff` says when a numeral has the same value in the bases eight and ten. -/

namespace CNumeral

/-! ### Numerals -/

/-- The value of a digit: letters stand for the values from ten on, and a character that is no
digit in any base has the value 36. -/
def digitValue (c : Char) : ℕ :=
  if '0' ≤ c ∧ c ≤ '9' then c.toNat - 48
  else if 'a' ≤ c ∧ c ≤ 'z' then c.toNat - 87
  else if 'A' ≤ c ∧ c ≤ 'Z' then c.toNat - 55
  else 36

def isDigitOf (base : ℕ) (c : Char) : Bool := decide (digitValue c < base)

/-- The value of the digits `cs`, the most significant first. -/
def numeral (base : ℕ) (cs : List Char) : ℕ :=
  cs.foldl (fun value c => value * base + digitValue c) 0

theorem numeral_concat (base : ℕ) (cs : List Char) (c : Char) :
    numeral base (cs ++ [c]) = numeral base cs * base + digitValue c := by
  simp [numeral]

@[simp] theorem numeral_zero_cons (base : ℕ) (cs : List Char) :
    numeral base ('0' :: cs) = numeral base cs := by
  have h : digitValue '0' = 0 := by decide
  simp [numeral, h]

/-- A numeral has at most its decimal value when its digits are read in base eight. -/
theorem numeral_eight_le (cs : List Char) : numeral 8 cs ≤ numeral 10 cs := by
  induction cs using List.reverseRecOn with
  | nil => exact Nat.le_refl 0
  | append_singleton cs c ih =>
      rw [numeral_concat, numeral_concat]
      omega

/-- The two readings agree on a single digit, with any zeros before it. -/
theorem numeral_eight_eq_iff {cs : List Char} (h : ∀ c ∈ cs, isDigitOf 8 c = true) :
    numeral 8 cs = numeral 10 cs ↔ numeral 10 cs ≤ 7 := by
  induction cs using List.reverseRecOn with
  | nil => simp [numeral]
  | append_singleton cs c ih =>
      have hc : digitValue c < 8 := of_decide_eq_true (h c (by simp))
      have hle := numeral_eight_le cs
      rw [numeral_concat, numeral_concat]
      constructor <;> intro h <;> omega

/-- Decimal digits of a value up to seven are octal digits. -/
theorem isDigitOf_eight_of_le {cs : List Char} (h : numeral 10 cs ≤ 7) :
    ∀ c ∈ cs, isDigitOf 8 c = true := by
  induction cs using List.reverseRecOn with
  | nil => simp
  | append_singleton cs c ih =>
      rw [numeral_concat] at h
      intro c' hc'
      rcases List.mem_append.mp hc' with hc' | hc'
      · exact ih (by omega) c' hc'
      · rw [List.mem_singleton.mp hc']
        exact decide_eq_true (by omega)

/-! ### strtol -/

/-- `isspace` in the C locale. -/
def isSpace (c : Char) : Bool := c == ' ' || (9 ≤ c.toNat && c.toNat ≤ 13)

/-- The base that a numeral announces, and the number of characters that do not belong to its
digits: `0x` counts only before a hexadecimal digit, and a leading zero announces base eight. -/
def baseOf : List Char → ℕ × ℕ
  | '0' :: x :: c :: _ =>
      if (x == 'x' || x == 'X') && isDigitOf 16 c then (16, 2) else (8, 0)
  | '0' :: _ => (8, 0)
  | _ => (10, 0)

/-- An unsigned numeral at the start of `cs`: its value and its length. -/
def readNumeral (cs : List Char) : Option (ℕ × ℕ) :=
  let (base, skipped) := baseOf cs
  let digits := (cs.drop skipped).takeWhile (isDigitOf base)
  if digits.isEmpty then none else some (numeral base digits, skipped + digits.length)

/-- A numeral with an optional sign. -/
def readSigned : List Char → Option (ℤ × ℕ)
  | '-' :: cs => (readNumeral cs).map fun r => (-(r.1 : ℤ), r.2 + 1)
  | '+' :: cs => (readNumeral cs).map fun r => ((r.1 : ℤ), r.2 + 1)
  | cs => (readNumeral cs).map fun r => ((r.1 : ℤ), r.2)

/-- `strtol` with base 0 before its range check: the value and the number of characters used, if
there is a number. -/
def strtol (cs : List Char) : Option (ℤ × ℕ) :=
  let spaces := (cs.takeWhile isSpace).length
  (readSigned (cs.drop spaces)).map fun r => (r.1, r.2 + spaces)

def longMin : ℤ := -9223372036854775808
def longMax : ℤ := 9223372036854775807

inductive StolError
  | invalidArgument
  | outOfRange
deriving DecidableEq

/-- `std::stol(text, &parsed, 0)`: the value and `parsed`. -/
def stol (text : String) : Except StolError (ℤ × ℕ) :=
  match strtol text.toList with
  | none => .error .invalidArgument
  | some (value, parsed) =>
      if value < longMin ∨ longMax < value then .error .outOfRange else .ok (value, parsed)

/-- The value of a text that is converted as a whole. -/
def wholeNumber (text : String) : Option ℤ :=
  match stol text with
  | .ok (value, parsed) => if parsed = text.length then some value else none
  | .error _ => none

/-! ### Unsigned numerals -/

theorem digit_range {c : Char} (h : isDigitOf 10 c = true) : 48 ≤ c.toNat ∧ c.toNat ≤ 57 := by
  have hv : digitValue c < 10 := of_decide_eq_true h
  simp only [digitValue, Char.le_def, UInt32.le_iff_toNat_le] at hv
  change 48 ≤ c.val.toNat ∧ c.val.toNat ≤ 57
  simp only [Char.toNat] at hv
  have h0 : '0'.val.toNat = 48 := rfl
  have h9 : '9'.val.toNat = 57 := rfl
  have ha : 'a'.val.toNat = 97 := rfl
  have hA : 'A'.val.toNat = 65 := rfl
  split_ifs at hv <;> omega

/-- A text that starts with a digit has no white space and no sign before its numeral. -/
theorem strtol_digit {c : Char} (h : isDigitOf 10 c = true) (cs : List Char) :
    strtol (c :: cs) = (readNumeral (c :: cs)).map fun r => ((r.1 : ℤ), r.2) := by
  obtain ⟨hlo, hhi⟩ := digit_range h
  have hne : ∀ c' : Char, c'.toNat < 48 → c ≠ c' := by
    rintro c' hc' rfl
    omega
  have hspace : isSpace c = false := by
    have h' : (c == ' ') = false := beq_false_of_ne (hne ' ' (by decide))
    simp only [isSpace, h', Bool.false_or, Bool.and_eq_false_iff, decide_eq_false_iff_not]
    omega
  have hsigned : readSigned (c :: cs) = (readNumeral (c :: cs)).map fun r => ((r.1 : ℤ), r.2) := by
    unfold readSigned
    split
    · next heq => exact absurd (List.cons.inj heq).1 (hne '-' (by decide))
    · next heq => exact absurd (List.cons.inj heq).1 (hne '+' (by decide))
    · rfl
  have hspaces : ((c :: cs).takeWhile isSpace).length = 0 := by simp [hspace]
  simp only [strtol, hspaces, List.drop_zero, hsigned]
  cases readNumeral (c :: cs) <;> rfl

/-- `stol` on such a text. -/
theorem stol_digit {text : String} {c : Char} {cs : List Char} (htext : text.toList = c :: cs)
    (hc : isDigitOf 10 c = true) {value parsed : ℕ}
    (hread : readNumeral (c :: cs) = some (value, parsed)) :
    stol text =
      if longMax < value then .error .outOfRange else .ok ((value : ℤ), parsed) := by
  have hnonneg : ¬ (value : ℤ) < longMin := by
    simp only [longMin]
    omega
  simp only [stol, htext, strtol_digit hc, hread, Option.map_some, hnonneg, false_or]

/-- A numeral that has a digit is read. -/
theorem readNumeral_eq {cs : List Char} {base skipped : ℕ} (hbase : baseOf cs = (base, skipped))
    {d : Char} {ds : List Char} (hds : cs.drop skipped = d :: ds) (hd : isDigitOf base d = true) :
    readNumeral cs = some (numeral base ((d :: ds).takeWhile (isDigitOf base)),
      skipped + ((d :: ds).takeWhile (isDigitOf base)).length) := by
  simp [readNumeral, hbase, hds, hd]

/-- The text is a numeral of the announced base: it is converted as a whole if all of it are
digits. -/
theorem wholeNumber_eq {text : String} {c : Char} {cs : List Char} (htext : text.toList = c :: cs)
    (hc : isDigitOf 10 c = true) {base skipped : ℕ} (hbase : baseOf (c :: cs) = (base, skipped))
    {d : Char} {ds : List Char} (hds : (c :: cs).drop skipped = d :: ds)
    (hd : isDigitOf base d = true) :
    wholeNumber text =
      if (d :: ds).all (isDigitOf base) ∧ (numeral base (d :: ds) : ℤ) ≤ longMax then
        some (numeral base (d :: ds) : ℤ)
      else none := by
  have hlength : text.length = skipped + (d :: ds).length := by
    have hdrop := congrArg List.length hds
    rw [List.length_drop, ← htext, String.length_toList, List.length_cons] at hdrop
    rw [List.length_cons]
    omega
  rw [wholeNumber, stol_digit htext hc (readNumeral_eq hbase hds hd), hlength]
  by_cases hall : (d :: ds).all (isDigitOf base) = true
  · have htake : (d :: ds).takeWhile (isDigitOf base) = d :: ds :=
      List.takeWhile_eq_self_iff.mpr (List.all_eq_true.mp hall)
    rw [htake]
    by_cases hle : (numeral base (d :: ds) : ℤ) ≤ longMax
    · rw [if_neg (not_lt.mpr hle), if_pos ⟨hall, hle⟩]
      simp
    · rw [if_pos (not_le.mp hle), if_neg fun h => hle h.2]
  · -- a character that is no digit ends the numeral before the end of the text
    have hshort : ((d :: ds).takeWhile (isDigitOf base)).length ≠ (d :: ds).length := by
      intro heq
      have hself := (List.takeWhile_prefix (isDigitOf base)).eq_of_length heq
      exact hall (List.all_eq_true.mpr (List.takeWhile_eq_self_iff.mp hself))
    refine Eq.trans ?_ (if_neg fun h => hall h.1).symm
    by_cases hlong : longMax < (numeral base ((d :: ds).takeWhile (isDigitOf base)) : ℤ)
    · rw [if_pos hlong]
    · rw [if_neg hlong]
      exact if_neg fun h => hshort (Nat.add_left_cancel h)

/-- Decimal digits without a leading zero. -/
theorem wholeNumber_decimal {text : String} {c : Char} {cs : List Char}
    (htext : text.toList = c :: cs) (hdigits : ∀ x ∈ c :: cs, isDigitOf 10 x = true)
    (hc : c ≠ '0') :
    wholeNumber text =
      if (numeral 10 (c :: cs) : ℤ) ≤ longMax then some (numeral 10 (c :: cs) : ℤ) else none := by
  have hbase : baseOf (c :: cs) = (10, 0) := by
    unfold baseOf
    split
    · next heq => exact absurd (List.cons.inj heq).1 hc
    · next heq => exact absurd (List.cons.inj heq).1 hc
    · rfl
  rw [wholeNumber_eq htext (hdigits c (by simp)) hbase rfl (hdigits c (by simp))]
  simp only [and_iff_right (List.all_eq_true.mpr hdigits)]

/-- Decimal digits with a leading zero are read in base eight. -/
theorem wholeNumber_octal {text : String} {cs : List Char} (htext : text.toList = '0' :: cs)
    (hdigits : ∀ x ∈ cs, isDigitOf 10 x = true) :
    wholeNumber text =
      if ('0' :: cs).all (isDigitOf 8) ∧ (numeral 8 ('0' :: cs) : ℤ) ≤ longMax then
        some (numeral 8 ('0' :: cs) : ℤ)
      else none := by
  have hbase : baseOf ('0' :: cs) = (8, 0) := by
    unfold baseOf
    split
    · next x c _ heq =>
        -- no digit is the letter of a hexadecimal prefix
        obtain rfl := (List.cons.inj heq).2
        obtain ⟨-, hx⟩ := digit_range (hdigits x (by simp))
        have hx' : (x == 'x' || x == 'X') = false := by
          have hne : ∀ c' : Char, 57 < c'.toNat → x ≠ c' := by
            rintro c' hc' rfl
            omega
          rw [beq_false_of_ne (hne 'x' (by decide)), beq_false_of_ne (hne 'X' (by decide))]
          rfl
        simp [hx']
    · rfl
    · next h => exact absurd rfl (h cs)
  exact wholeNumber_eq htext (by decide) hbase rfl (by decide)

/-- Hexadecimal digits behind `0x` or `0X`. -/
theorem wholeNumber_hex {text : String} {x d : Char} {ds : List Char}
    (htext : text.toList = '0' :: x :: d :: ds) (hx : x = 'x' ∨ x = 'X')
    (hdigits : ∀ y ∈ d :: ds, isDigitOf 16 y = true) :
    wholeNumber text =
      if (numeral 16 (d :: ds) : ℤ) ≤ longMax then some (numeral 16 (d :: ds) : ℤ) else none := by
  have hbase : baseOf ('0' :: x :: d :: ds) = (16, 2) := by
    have hx' : (x == 'x' || x == 'X') = true := by rcases hx with rfl | rfl <;> decide
    simp [baseOf, hx', hdigits d (by simp)]
  rw [wholeNumber_eq htext (by decide) hbase rfl (hdigits d (by simp))]
  simp only [and_iff_right (List.all_eq_true.mpr hdigits)]

end CNumeral
