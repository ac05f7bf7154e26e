import Mathlib.Algebra.Order.Ring.Int
import Mathlib.Data.List.Basic
import Mathlib.Tactic.Ring

/-! # Spaced instants

The instants of a loop whose deadline advances by at least a period `P` with each of them, and is
never before the last.  `Below` bounds such a list, the latest first, by the next deadline; a
`Spaced` list has at most `q + 1` instants in a window of `q` periods (`Spaced.countP_le`). -/

namespace Spacing

/-- The instants, the latest first, are `P` apart, and the first of them is not after `bound`. -/
def Below (P : ℤ) : ℤ → List ℤ → Prop
  | _, [] => True
  | bound, t :: l => t ≤ bound ∧ Below P (bound - P) l

/-- Each instant with those before it: only the step to the next one may be shorter. -/
def Spaced (P : ℤ) : List ℤ → Prop
  | [] => True
  | t :: l => Below P t l ∧ Spaced P l

section spaced
variable {P bound bound' : ℤ} {l l' : List ℤ}

theorem Below.mono (h : Below P bound l) (hbound : bound ≤ bound') : Below P bound' l := by
  induction l generalizing bound bound' with
  | nil => trivial
  | cons t l ih => exact ⟨h.1.trans hbound, ih h.2 (Int.sub_le_sub_right hbound P)⟩

theorem Below.sublist (hP : 0 ≤ P) (h : Below P bound l) (hl : l'.Sublist l) :
    Below P bound l' := by
  induction hl generalizing bound with
  | slnil => exact h
  | cons t hl ih => exact ih (h.2.mono (by omega))
  | cons_cons t hl ih => exact ⟨h.1, ih h.2⟩

theorem Spaced.sublist (hP : 0 ≤ P) (h : Spaced P l) (hl : l'.Sublist l) : Spaced P l' := by
  induction hl with
  | slnil => exact h
  | cons t hl ih => exact ih h.2
  | cons_cons t hl ih => exact ⟨h.1.sublist hP hl, ih h.2⟩

/-- The one at position `j` is `j` periods before the bound. -/
theorem Below.getElem (h : Below P bound l) (j : ℕ) (hj : j < l.length) :
    l[j] + j * P ≤ bound := by
  induction l generalizing bound j with
  | nil => cases hj
  | cons t l ih =>
      cases j with
      | zero =>
          have := h.1
          simpa using this
      | succ j =>
          have hnext := ih h.2 j (Nat.lt_of_succ_lt_succ hj)
          rw [List.getElem_cons_succ]
          push_cast
          have hmul : ((j : ℤ) + 1) * P = j * P + P := by ring
          omega

theorem Spaced.getElem (h : Spaced P l) (i j : ℕ) (hij : i < j) (hj : j < l.length) :
    l[j] + (j - i - 1) * P ≤ l[i] := by
  induction l generalizing i j with
  | nil => cases hj
  | cons t l ih =>
      obtain ⟨k, rfl⟩ : ∃ k, j = k + 1 := ⟨j - 1, by omega⟩
      cases i with
      | zero =>
          have hbelow := h.1.getElem k (Nat.lt_of_succ_lt_succ hj)
          simpa using hbelow
      | succ i =>
          have hrest := ih h.2 i k (by omega) (Nat.lt_of_succ_lt_succ hj)
          have hindex : (((k + 1 : ℕ) : ℤ) - ((i + 1 : ℕ) : ℤ) - 1) = (k : ℤ) - i - 1 := by
            push_cast
            ring
          rw [List.getElem_cons_succ, List.getElem_cons_succ, hindex]
          exact hrest

/-- In a window of `q` periods there are at most `q + 1` of them. -/
theorem Spaced.countP_le (hP : 0 < P) (h : Spaced P l) (start : ℤ) (q : ℕ) :
    l.countP (fun t => start ≤ t ∧ t < start + q * P) ≤ q + 1 := by
  rw [List.countP_eq_length_filter]
  have hall : ∀ t ∈ l.filter (fun t => start ≤ t ∧ t < start + q * P),
      start ≤ t ∧ t < start + q * P := fun t ht => by simpa using List.of_mem_filter ht
  have hspaced : Spaced P (l.filter fun t => start ≤ t ∧ t < start + q * P) :=
    h.sublist hP.le List.filter_sublist
  generalize l.filter (fun t => start ≤ t ∧ t < start + q * P) = window at hall hspaced
  cases window with
  | nil => exact Nat.zero_le _
  | cons latest older =>
      by_contra hlong
      rw [List.length_cons] at hlong
      -- the one `q` places before the latest would be outside
      have hq : q < older.length := by omega
      have hbelow := hspaced.1.getElem q hq
      have hold := (hall _ (List.mem_cons_of_mem _ (List.getElem_mem hq))).1
      have hnew := (hall latest List.mem_cons_self).2
      omega

end spaced

end Spacing
