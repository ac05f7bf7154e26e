import Mathlib.Algebra.Order.Floor.Ring
import Mathlib.Algebra.Order.Field.Basic
import Mathlib.Tactic.Linarith

/-! # Linear quantization

An interval `[lo, hi]` of an ordered field is coded by the numbers `0..N`: `encode` saturates
at both ends, scales and rounds down, and `decode` is the linear map back.  `decode_encode` is
the error bound, `encode_mono` monotonicity and `encode_decode` the exact inverse on codes. -/

namespace Interaction

section saturate
variable {K : Type} [LinearOrder K] {lo hi x y : K}

/-- The nearest point of `[lo, hi]`. -/
def saturate (lo hi x : K) : K := max lo (min x hi)

theorem saturate_mem (h : lo ≤ hi) : lo ≤ saturate lo hi x ∧ saturate lo hi x ≤ hi :=
  ⟨le_max_left _ _, max_le h (min_le_right _ _)⟩

theorem saturate_of_mem (hlo : lo ≤ x) (hhi : x ≤ hi) : saturate lo hi x = x := by
  unfold saturate
  rw [min_eq_left hhi, max_eq_right hlo]

theorem saturate_mono (h : x ≤ y) : saturate lo hi x ≤ saturate lo hi y :=
  max_le_max_left _ (min_le_min_right _ h)

end saturate

section codes
variable {K : Type} [Field K] [LinearOrder K] [IsStrictOrderedRing K] {lo hi x y : K} {N : ℕ}

/-- The code of a value. -/
def encode [FloorRing K] (N : ℕ) (lo hi x : K) : ℕ :=
  ⌊(saturate lo hi x - lo) * N / (hi - lo)⌋₊

/-- The value of a code. -/
def decode (N : ℕ) (lo hi : K) (u : ℕ) : K := u * (hi - lo) / N + lo

/-- The scaled value of which `encode` takes the integer part. -/
theorem scaled_mem (h : lo < hi) (x : K) :
    0 ≤ (saturate lo hi x - lo) * N / (hi - lo) ∧ (saturate lo hi x - lo) * N / (hi - lo) ≤ N := by
  have hpos : 0 < hi - lo := sub_pos.mpr h
  obtain ⟨hlow, hhigh⟩ := saturate_mem (x := x) h.le
  have hN : (0 : K) ≤ N := Nat.cast_nonneg N
  constructor
  · exact div_nonneg (mul_nonneg (by linarith) hN) hpos.le
  · rw [div_le_iff₀ hpos, mul_comm]
    exact mul_le_mul_of_nonneg_left (by linarith) hN

theorem decode_mem (hN : 0 < N) (h : lo < hi) {u : ℕ} (hu : u ≤ N) :
    lo ≤ decode N lo hi u ∧ decode N lo hi u ≤ hi := by
  have hpos : 0 < hi - lo := sub_pos.mpr h
  have hN' : (0 : K) < N := Nat.cast_pos.mpr hN
  have hu' : (u : K) ≤ N := Nat.cast_le.mpr hu
  unfold decode
  constructor
  · have : 0 ≤ (u : K) * (hi - lo) / N := by positivity
    linarith
  · have : (u : K) * (hi - lo) / N ≤ hi - lo := by
      rw [div_le_iff₀ hN', mul_comm]
      exact mul_le_mul_of_nonneg_left hu' hpos.le
    linarith

variable [FloorRing K]

theorem encode_le (h : lo < hi) (x : K) : encode N lo hi x ≤ N := by
  unfold encode
  exact Nat.floor_le_of_le (scaled_mem h x).2

theorem encode_mono (h : lo < hi) (hxy : x ≤ y) : encode N lo hi x ≤ encode N lo hi y := by
  have hpos : 0 < hi - lo := sub_pos.mpr h
  unfold encode
  apply Nat.floor_le_floor
  gcongr
  exact saturate_mono hxy

/-- **Error bound.**  The decoded code lies less than one step below the saturated value. -/
theorem decode_encode (hN : 0 < N) (h : lo < hi) (x : K) :
    0 ≤ saturate lo hi x - decode N lo hi (encode N lo hi x) ∧
      saturate lo hi x - decode N lo hi (encode N lo hi x) < (hi - lo) / N := by
  have hpos : 0 < hi - lo := sub_pos.mpr h
  have hN' : (0 : K) < N := Nat.cast_pos.mpr hN
  have hfloor := Nat.floor_le (scaled_mem (N := N) h x).1
  have hlt := Nat.lt_floor_add_one ((saturate lo hi x - lo) * N / (hi - lo))
  rw [le_div_iff₀ hpos] at hfloor
  rw [div_lt_iff₀ hpos] at hlt
  unfold decode encode
  constructor
  · have hle : (⌊(saturate lo hi x - lo) * N / (hi - lo)⌋₊ : K) * (hi - lo) / N ≤
        saturate lo hi x - lo := by
      rw [div_le_iff₀ hN']
      exact hfloor
    linarith
  · have hgt : saturate lo hi x - lo <
        (⌊(saturate lo hi x - lo) * N / (hi - lo)⌋₊ : K) * (hi - lo) / N + (hi - lo) / N := by
      rw [← add_div, lt_div_iff₀ hN']
      linarith
    linarith

/-- **Exact inverse.**  Encoding a decoded code gives the code. -/
theorem encode_decode (hN : 0 < N) (h : lo < hi) {u : ℕ} (hu : u ≤ N) :
    encode N lo hi (decode N lo hi u) = u := by
  obtain ⟨hlow, hhigh⟩ := decode_mem hN h hu
  have hpos : hi - lo ≠ 0 := (sub_pos.mpr h).ne'
  have hN' : (N : K) ≠ 0 := Nat.cast_ne_zero.mpr hN.ne'
  have hscaled : (decode N lo hi u - lo) * N / (hi - lo) = u := by
    unfold decode
    rw [add_sub_cancel_right, div_mul_cancel₀ _ hN', mul_div_assoc, div_self hpos, mul_one]
  unfold encode
  rw [saturate_of_mem hlow hhigh, hscaled, Nat.floor_natCast]

end codes

end Interaction
