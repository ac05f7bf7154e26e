import Mathlib.Algebra.Order.Field.Rat
import Mathlib.Data.Rat.Floor
import Mathlib.Tactic.Linarith

/-! # Floating-point values

A `float` or `double` is not a number, an infinity, or a finite value, which is taken as a
rational; arithmetic on finite values is exact.  The special values follow IEEE 754: every
ordered comparison with `nan` is false, and the indeterminate forms give `nan`.  The two
signed zeros are one value.

`ofBits` is the value of a 32-bit pattern in the binary32 format (what `memcpy` of four bytes
into a `float` gives). -/

/-- A C++ floating-point value. -/
inductive CFloat
  | nan
  | posInf
  | negInf
  | rat (q : ℚ)
deriving DecidableEq

namespace CFloat

instance : Inhabited CFloat := ⟨rat 0⟩

/-- `a < b`; false when either side is `nan`. -/
def lt : CFloat → CFloat → Bool
  | rat a, rat b => decide (a < b)
  | negInf, rat _ => true
  | negInf, posInf => true
  | rat _, posInf => true
  | _, _ => false

/-- `a > b`. -/
def gt (a b : CFloat) : Bool := b.lt a

/-- `std::isfinite`. -/
def isFinite : CFloat → Bool
  | rat _ => true
  | _ => false

/-- The sign of a value; `nan` and zero have none. -/
def sign : CFloat → ℤ
  | nan => 0
  | posInf => 1
  | negInf => -1
  | rat q => if 0 < q then 1 else if q < 0 then -1 else 0

/-- The infinity of a given sign; the indeterminate forms have sign `0`. -/
def ofSign (z : ℤ) : CFloat := if 0 < z then posInf else if z < 0 then negInf else nan

def neg : CFloat → CFloat
  | nan => nan
  | posInf => negInf
  | negInf => posInf
  | rat q => rat (-q)

def add : CFloat → CFloat → CFloat
  | rat a, rat b => rat (a + b)
  | nan, _ => nan
  | _, nan => nan
  | posInf, negInf => nan
  | negInf, posInf => nan
  | posInf, _ => posInf
  | _, posInf => posInf
  | negInf, _ => negInf
  | _, negInf => negInf

def sub (a b : CFloat) : CFloat := a.add b.neg

def mul : CFloat → CFloat → CFloat
  | rat a, rat b => rat (a * b)
  | nan, _ => nan
  | _, nan => nan
  | a, b => ofSign (a.sign * b.sign)

def div : CFloat → CFloat → CFloat
  | rat a, rat b => if b = 0 then ofSign (rat a).sign else rat (a / b)
  | nan, _ => nan
  | _, nan => nan
  | rat _, _ => rat 0
  | a, rat b => ofSign (a.sign * if b < 0 then -1 else 1)
  | _, _ => nan

instance : Neg CFloat := ⟨neg⟩
instance : Add CFloat := ⟨add⟩
instance : Sub CFloat := ⟨sub⟩
instance : Mul CFloat := ⟨mul⟩
instance : Div CFloat := ⟨div⟩

theorem rat_add (a b : ℚ) : rat a + rat b = rat (a + b) := rfl

theorem rat_sub (a b : ℚ) : rat a - rat b = rat (a - b) := by
  rw [sub_eq_add_neg]
  rfl

theorem rat_mul (a b : ℚ) : rat a * rat b = rat (a * b) := rfl

theorem rat_div {b : ℚ} (hb : b ≠ 0) (a : ℚ) : rat a / rat b = rat (a / b) := if_neg hb

/-- `std::abs`. -/
def abs (a : CFloat) : CFloat := if a.lt (rat 0) then -a else a

/-- `static_cast<float>` of an unsigned integer. -/
def ofNat (n : ℕ) : CFloat := rat n

/-- Truncation of a rational towards zero. -/
def trunc (q : ℚ) : ℤ := q.num.tdiv q.den

/-- The conversion of `x` to `uint16_t` is defined: the truncated value fits. -/
def castDefined : CFloat → Bool
  | rat q => decide (0 ≤ trunc q ∧ trunc q ≤ 65535)
  | _ => false

/-- `static_cast<uint16_t>`; the conversion is undefined outside `castDefined`, where the
model gives `0`. -/
def toUInt16 : CFloat → UInt16
  | rat q => if 0 ≤ trunc q ∧ trunc q ≤ 65535 then UInt16.ofNat (trunc q).toNat else 0
  | _ => 0

/-- The conversion of `x` to `uint8_t` is defined. -/
def castDefined8 : CFloat → Bool
  | rat q => decide (0 ≤ trunc q ∧ trunc q ≤ 255)
  | _ => false

/-- `static_cast<uint8_t>`, `0` where it is undefined. -/
def toUInt8 : CFloat → UInt8
  | rat q => if 0 ≤ trunc q ∧ trunc q ≤ 255 then UInt8.ofNat (trunc q).toNat else 0
  | _ => 0

theorem trunc_eq_floor {q : ℚ} (h : 0 ≤ q) : trunc q = ⌊q⌋₊ := by
  have hnum : 0 ≤ q.num := Rat.num_nonneg.mpr h
  rw [← Int.floor_toNat, Int.toNat_of_nonneg (Int.floor_nonneg.mpr h), Rat.floor_def']
  exact Int.tdiv_eq_ediv_of_nonneg hnum

theorem toUInt16_rat {q : ℚ} (h : 0 ≤ q) (hle : q ≤ 65535) :
    (rat q).toUInt16 = UInt16.ofNat ⌊q⌋₊ := by
  have hfloor : ⌊q⌋₊ ≤ 65535 := Nat.floor_le_of_le (by exact_mod_cast hle)
  simp only [toUInt16, trunc_eq_floor h]
  rw [if_pos (by omega), Int.toNat_natCast]

/-- Every value in the range of the type may be converted. -/
theorem castDefined_rat {q : ℚ} (h : 0 ≤ q) (hle : q ≤ 65535) : (rat q).castDefined = true := by
  have hfloor : ⌊q⌋₊ ≤ 65535 := Nat.floor_le_of_le (by exact_mod_cast hle)
  simp only [castDefined, trunc_eq_floor h, decide_eq_true_eq]
  omega

theorem castDefined8_rat {q : ℚ} (h : 0 ≤ q) (hlt : q < 256) : (rat q).castDefined8 = true := by
  have hfloor : ⌊q⌋₊ < 256 := (Nat.floor_lt h).mpr (by exact_mod_cast hlt)
  simp only [castDefined8, trunc_eq_floor h, decide_eq_true_eq]
  omega

/-- The binary32 value of a bit pattern. -/
def ofBits (bits : UInt32) : CFloat :=
  let s : ℚ := if bits >>> 31 = 0 then 1 else -1
  let e := ((bits >>> 23) &&& 0xFF).toNat
  let m := (bits &&& 0x7FFFFF).toNat
  if e = 255 then
    if m = 0 then (if s = 1 then posInf else negInf) else nan
  else if e = 0 then rat (s * m / 2 ^ 149)
  else if 150 ≤ e then rat (s * (2 ^ 23 + m : ℕ) * 2 ^ (e - 150))
  else rat (s * (2 ^ 23 + m : ℕ) / 2 ^ (150 - e))

end CFloat
