import Mathlib.Algebra.BigOperators.Intervals

/-! # Executions of a transition system

A finite execution is the sequence of its states together with the action taken at every
step, so that a statement can speak of instants of one run.  `Execution.invariant` is the
invariant rule; `Execution.segment` is its form for a part of a run in which a given action
does not occur, and `Execution.related` relates any two instants by a preorder that every
step respects.  `Execution.map` is the rule of refinement, and an `Execution.Path` is an
execution that is given step by step.

`Execution.count p i j` is the number of the steps from instant `i` to instant `j` that `p` holds
of.  Where each of them is paid for by a potential, that number is what the potential has lost
(`count_add_eq`); where other steps may raise the potential against a credit, the raise is paid by
what the credit has gained (`count_add_le`). -/

/-- A transition system with states `σ` and actions `α`. -/
structure TransitionSystem (σ α : Type) where
  init : σ → Prop
  step : σ → α → σ → Prop

/-- A finite execution: `act i` leads from `state i` to `state (i + 1)`. -/
structure Execution {σ α : Type} (T : TransitionSystem σ α) where
  length : ℕ
  state : ℕ → σ
  act : ℕ → α
  init : T.init (state 0)
  step : ∀ i, i < length → T.step (state i) (act i) (state (i + 1))

namespace Execution

variable {σ α : Type} {T : TransitionSystem σ α} (e : Execution T)

/-- A property that holds initially and is kept by every step holds at every instant. -/
theorem invariant {P : σ → Prop} (h₀ : ∀ s, T.init s → P s)
    (hstep : ∀ s a s', P s → T.step s a s' → P s') : ∀ i, i ≤ e.length → P (e.state i)
  | 0, _ => h₀ _ e.init
  | i + 1, hi => hstep _ _ _ (invariant h₀ hstep i (by omega)) (e.step i (by omega))

/-- A property that holds at instant `i` and is kept by the steps from `i` to `j`. -/
theorem segment {P : σ → Prop} {i : ℕ} (hi : P (e.state i)) :
    ∀ j, i ≤ j → j ≤ e.length →
      (∀ k, i ≤ k → k < j → P (e.state k) → P (e.state (k + 1))) → P (e.state j) := by
  intro j hij
  induction j, hij using Nat.le_induction with
  | base => exact fun _ _ => hi
  | succ j hij ih =>
      intro hj hstep
      exact hstep j hij (by omega) (ih (by omega) fun k hk hkj => hstep k hk (by omega))

/-- A preorder that every step respects relates any two instants in their order. -/
theorem related {r : σ → σ → Prop} (hrefl : ∀ s, r s s)
    (htrans : ∀ s s' s'', r s s' → r s' s'' → r s s'')
    (hstep : ∀ s a s', T.step s a s' → r s s') {i j : ℕ} (hij : i ≤ j) (hj : j ≤ e.length) :
    r (e.state i) (e.state j) :=
  e.segment (hrefl _) j hij hj fun k _ hk h => htrans _ _ _ h (hstep _ _ _ (e.step k (by omega)))

/-- A refinement mapping: the images of the states and actions are an execution of `T'`. -/
def map {σ' α' : Type} {T' : TransitionSystem σ' α'} (f : σ → σ') (g : σ → α → α')
    (hinit : T'.init (f (e.state 0)))
    (hstep : ∀ i, i < e.length →
      T'.step (f (e.state i)) (g (e.state i) (e.act i)) (f (e.state (i + 1)))) : Execution T' where
  length := e.length
  state i := f (e.state i)
  act i := g (e.state i) (e.act i)
  init := hinit
  step := hstep

/-! ### Counting steps -/

/-- The number of steps from instant `i` to instant `j` that `p` holds of. -/
def count (p : σ → α → Bool) (i j : ℕ) : ℕ :=
  ((Finset.Ico i j).filter fun k => p (e.state k) (e.act k)).card

section count
variable {p : σ → α → Bool} {i j : ℕ}

@[simp] theorem count_self : e.count p i i = 0 := by simp [count]

theorem count_succ (hij : i ≤ j) :
    e.count p i (j + 1) = e.count p i j + (if p (e.state j) (e.act j) then 1 else 0) := by
  simp only [count, Finset.card_filter]
  exact Finset.sum_Ico_succ_top hij _

/-- Each counted step lowers the potential by one, and no other step changes it. -/
theorem count_add_eq (cost : σ → ℕ) (hij : i ≤ j) (hj : j ≤ e.length)
    (hstep : ∀ k, i ≤ k → k < j →
      (if p (e.state k) (e.act k) then 1 else 0) + cost (e.state (k + 1)) = cost (e.state k)) :
    e.count p i j + cost (e.state j) = cost (e.state i) := by
  induction j, hij using Nat.le_induction with
  | base => simp
  | succ j hij ih =>
      have hbefore := ih (by omega) fun k hk hkj => hstep k hk (by omega)
      have hlast := hstep j hij (by omega)
      rw [e.count_succ hij]
      omega

/-- Each counted step lowers the potential by one, and what raises it raises the credit. -/
theorem count_add_le (cost credit : σ → ℕ) {c : ℕ} (hij : i ≤ j) (hj : j ≤ e.length)
    (hstep : ∀ k, i ≤ k → k < j →
      (if p (e.state k) (e.act k) then 1 else 0) + cost (e.state (k + 1)) + c * credit (e.state k) ≤
        cost (e.state k) + c * credit (e.state (k + 1))) :
    e.count p i j + cost (e.state j) + c * credit (e.state i) ≤
      cost (e.state i) + c * credit (e.state j) := by
  induction j, hij using Nat.le_induction with
  | base => simp
  | succ j hij ih =>
      have hbefore := ih (by omega) fun k hk hkj => hstep k hk (by omega)
      have hlast := hstep j hij (by omega)
      rw [e.count_succ hij]
      omega

end count

end Execution

/-! ### Paths -/

/-- Steps one after another, from a given state. -/
inductive Execution.Path {σ α : Type} (T : TransitionSystem σ α) : σ → Type
  | nil {s : σ} : Path T s
  | cons {s : σ} {a : α} (s' : σ) (h : T.step s a s') (rest : Path T s') : Path T s

namespace Execution.Path

variable {σ α : Type} {T : TransitionSystem σ α}

def length {s : σ} : Path T s → ℕ
  | .nil => 0
  | .cons _ _ rest => rest.length + 1

/-- The state after `i` steps, the last one beyond the end. -/
def state {s : σ} : Path T s → ℕ → σ
  | _, 0 => s
  | .nil, _ + 1 => s
  | .cons _ _ rest, i + 1 => rest.state i

/-- The action of step `i`, and `a` beyond the end. -/
def act (a : α) {s : σ} : Path T s → ℕ → α
  | .nil, _ => a
  | .cons (a := b) _ _ _, 0 => b
  | .cons _ _ rest, i + 1 => rest.act a i

theorem step (a : α) {s : σ} (p : Path T s) :
    ∀ i, i < p.length → T.step (p.state i) (p.act a i) (p.state (i + 1)) := by
  induction p with
  | nil => exact fun i hi => absurd hi (Nat.not_lt_zero i)
  | cons s' h rest ih =>
      intro i hi
      cases i with
      | zero => cases rest <;> exact h
      | succ i => exact ih i (Nat.lt_of_succ_lt_succ hi)

/-- A path from an initial state is an execution. -/
def execution {s : σ} (p : Path T s) (a : α) (h : T.init s) : Execution T where
  length := p.length
  state := p.state
  act := p.act a
  init := by cases p <;> exact h
  step := p.step a

end Execution.Path
