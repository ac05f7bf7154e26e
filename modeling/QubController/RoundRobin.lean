import Mathlib.Algebra.GroupWithZero.Nat
import Mathlib.Data.List.FinRange
import Mathlib.Data.List.Rotate

/-! # Round robin

A cursor runs round the indices `0..n-1`: each turn goes to the first eligible index at or after
it, and the cursor moves behind that index.  Seen from the cursor the eligible indices form a
list; a turn takes its head and puts it at the end (`eligibleFrom_next`), so that as many turns
as there are eligible indices serve each of them once (`turns_eq`). -/

namespace RoundRobin

variable {n : ℕ} [NeZero n] {p : Fin n → Bool} {c : ℕ} {x : Fin n}

/-- The indices in the order in which they are searched from the cursor `c`. -/
def searchFrom (n : ℕ) [NeZero n] (c : ℕ) : List (Fin n) :=
  (List.range n).map fun checked => Fin.ofNat n (c + checked)

/-- The eligible indices as seen from the cursor. -/
def eligibleFrom (p : Fin n → Bool) (c : ℕ) : List (Fin n) := (searchFrom n c).filter p

@[simp] theorem length_searchFrom (c : ℕ) : (searchFrom n c).length = n := by simp [searchFrom]

theorem getElem_searchFrom (c j : ℕ) (h : j < (searchFrom n c).length) :
    (searchFrom n c)[j] = Fin.ofNat n (c + j) := by simp [searchFrom]

theorem ofNat_congr {a b : ℕ} (h : a % n = b % n) : Fin.ofNat n a = Fin.ofNat n b :=
  Fin.ext h

/-- Moving the cursor rotates the search. -/
theorem searchFrom_add (c k : ℕ) : searchFrom n (c + k) = (searchFrom n c).rotate k := by
  apply List.ext_getElem
  · simp
  · intro j h₁ h₂
    rw [List.getElem_rotate, getElem_searchFrom, getElem_searchFrom, length_searchFrom]
    apply ofNat_congr
    rw [Nat.add_mod c ((j + k) % n), Nat.mod_mod, ← Nat.add_mod]
    congr 1
    omega

theorem searchFrom_mod (c : ℕ) : searchFrom n (c % n) = searchFrom n c := by
  unfold searchFrom
  apply List.map_congr_left
  intro j _
  apply ofNat_congr
  rw [Nat.mod_add_mod]

/-- The search comes by every index. -/
theorem mem_searchFrom (c : ℕ) (i : Fin n) : i ∈ searchFrom n c := by
  have hi : i ∈ searchFrom n 0 :=
    List.mem_map.mpr ⟨i.val, List.mem_range.mpr i.isLt, by simp⟩
  have hrotate : searchFrom n c = (searchFrom n 0).rotate c := by
    rw [← searchFrom_add, Nat.zero_add]
  rw [hrotate]
  exact List.mem_rotate.mpr hi

theorem nodup_searchFrom (c : ℕ) : (searchFrom n c).Nodup := by
  have hzero : (searchFrom n 0).Nodup := by
    apply List.Nodup.map_on _ List.nodup_range
    intro a ha b hb hab
    have hval : a % n = b % n := by simpa using congrArg Fin.val hab
    rwa [Nat.mod_eq_of_lt (List.mem_range.mp ha), Nat.mod_eq_of_lt (List.mem_range.mp hb)] at hval
  have hrotate : searchFrom n c = (searchFrom n 0).rotate c := by
    rw [← searchFrom_add, Nat.zero_add]
  rw [hrotate]
  exact List.nodup_rotate.mpr hzero

theorem mem_eligibleFrom {i : Fin n} : i ∈ eligibleFrom p c ↔ p i = true := by
  simp [eligibleFrom, mem_searchFrom]

theorem nodup_eligibleFrom : (eligibleFrom p c).Nodup := (nodup_searchFrom c).filter p

/-- How many are eligible does not depend on the cursor. -/
theorem length_eligibleFrom (c : ℕ) :
    (eligibleFrom p c).length = (List.finRange n).countP p := by
  have hperm : (searchFrom n c).Perm (List.finRange n) :=
    (List.perm_ext_iff_of_nodup (nodup_searchFrom c) (List.nodup_finRange n)).mpr fun i =>
      ⟨fun _ => List.mem_finRange i, fun _ => mem_searchFrom c i⟩
  rw [List.countP_eq_length_filter]
  exact (hperm.filter p).length_eq

/-- A turn takes the head of the list and puts it at its end. -/
theorem eligibleFrom_next (h : (searchFrom n c).find? p = some x) : ∃ rest,
    eligibleFrom p c = x :: rest ∧ eligibleFrom p ((x.val + 1) % n) = rest ++ [x] := by
  obtain ⟨hx, pre, post, hsplit, hpre⟩ := List.find?_eq_some_iff_append.mp h
  have hfilter : pre.filter p = [] :=
    List.filter_eq_nil_iff.mpr fun y hy => by simpa using hpre y hy
  have hlen : pre.length < (searchFrom n c).length := by simp [hsplit]
  have hval : x.val = (c + pre.length) % n := by
    have hget : (searchFrom n c)[pre.length] = x := by simp [hsplit]
    rw [getElem_searchFrom] at hget
    exact (congrArg Fin.val hget).symm
  have hnext : searchFrom n ((x.val + 1) % n) = post ++ (pre ++ [x]) := by
    have hrotate : searchFrom n ((x.val + 1) % n) =
        (searchFrom n c).rotate (pre ++ [x]).length := by
      rw [searchFrom_mod, ← searchFrom_add, ← searchFrom_mod (x.val + 1), hval, Nat.mod_add_mod,
        searchFrom_mod, List.length_append, List.length_singleton, Nat.add_assoc]
    have happend : searchFrom n c = (pre ++ [x]) ++ post := by simp [hsplit]
    rw [hrotate, happend, List.rotate_append_length_eq]
  refine ⟨post.filter p, ?_, ?_⟩
  · rw [eligibleFrom, hsplit, List.filter_append, hfilter, List.filter_cons_of_pos hx,
      List.nil_append]
  · rw [eligibleFrom, hnext, List.filter_append, List.filter_append, hfilter, List.nil_append,
      List.filter_cons_of_pos hx, List.filter_nil]

/-- The indices that `k` turns from the cursor `c` serve. -/
def turns (p : Fin n → Bool) : ℕ → ℕ → List (Fin n)
  | 0, _ => []
  | k + 1, c =>
      match (searchFrom n c).find? p with
      | none => []
      | some x => x :: turns p k ((x.val + 1) % n)

theorem eligibleFrom_eq_nil (h : (searchFrom n c).find? p = none) : eligibleFrom p c = [] :=
  List.filter_eq_nil_iff.mpr (List.find?_eq_none.mp h)

/-- **Turns serve the eligible indices one after the other.** -/
theorem turns_eq {k : ℕ} (hk : k ≤ (eligibleFrom p c).length) :
    turns p k c = (eligibleFrom p c).take k := by
  induction k generalizing c with
  | zero => rfl
  | succ k ih =>
      unfold turns
      cases h : (searchFrom n c).find? p with
      | none =>
          rw [eligibleFrom_eq_nil h] at hk
          exact absurd hk (by simp)
      | some x =>
          obtain ⟨rest, hnow, hnext⟩ := eligibleFrom_next h
          have hlen : k ≤ rest.length := by
            rw [hnow, List.length_cons] at hk
            omega
          have hk' : k ≤ (eligibleFrom p ((x.val + 1) % n)).length := by
            rw [hnext, List.length_append]
            omega
          simp only [ih hk', hnext, hnow, List.take_append_of_le_length hlen, List.take_succ_cons]

/-- Nothing is served when nothing is eligible. -/
theorem turns_of_none (h : ∀ i, p i = false) (k c : ℕ) : turns p k c = [] := by
  cases k with
  | zero => rfl
  | succ k =>
      have hnone : (searchFrom n c).find? p = none :=
        List.find?_eq_none.mpr fun i _ => by simp [h i]
      simp only [turns, hnone]

end RoundRobin
