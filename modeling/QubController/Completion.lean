import Mathlib.Data.Nat.Init
import QubController.Interaction

/-! # Programs that return in given surroundings

`Sat` says nothing of a program that is cut.  `Completes W p Q s` asks that `p` returns,
whatever `W` answers, and that `Q` holds then: total correctness.

A program whose loops take a bound `n` is a family of programs.  `Settles W μ R c p` says that for
large `n` the member `p n` returns, from all states in which the measure `μ` is bounded, and
leaves it bounded, if the surroundings can supply `c` of what `R` counts; such families compose,
and their demands add up (`Settles.bind`). -/

namespace Interaction

variable {I : Interface} {σ ι κ α β : Type}

/-- Weakest precondition for total correctness. -/
def Completes (W : World I σ) : Prog I α → (α → σ → Prop) → σ → Prop
  | .ret a, Q, s => Q a s
  | .call c k, Q, s => ∀ r s', W s c r s' → Completes W (k r) Q s'
  | .cut, _, _ => False

section completes
variable {W : World I σ} {p : Prog I α} {f : α → Prog I β} {Q Q' : α → σ → Prop} {s : σ}

@[simp] theorem completes_ret {a : α} : Completes W (.ret a) Q s ↔ Q a s := Iff.rfl

@[simp] theorem completes_call {c : I.Call} {k : I.Resp c → Prog I α} :
    Completes W (.call c k) Q s ↔ ∀ r s', W s c r s' → Completes W (k r) Q s' := Iff.rfl

theorem Completes.mono (h : Completes W p Q s) (hQ : ∀ a s', Q a s' → Q' a s') :
    Completes W p Q' s := by
  induction p generalizing s with
  | ret a => exact hQ a s h
  | cut => exact h.elim
  | call c k ih => exact fun r s' hs => ih r (h r s' hs)

theorem Completes.bind {R : β → σ → Prop} (hp : Completes W p Q s)
    (hf : ∀ a s', Q a s' → Completes W (f a) R s') : Completes W (p >>= f) R s := by
  induction p generalizing s with
  | ret a => exact hf a s hp
  | cut => exact hp.elim
  | call c k ih => exact fun r s' hs => ih r (hp r s' hs)

/-- The postcondition of a finished run. -/
theorem Completes.post {a : α} {s' : σ} (h : Completes W p Q s) (hr : Runs W p s s' (some a)) :
    Q a s' := by
  induction p generalizing s with
  | ret b =>
      cases hr
      exact h
  | cut => exact h.elim
  | call c k ih =>
      cases hr with
      | call hstep hk => exact ih _ (h _ _ hstep) hk

/-- Where every call is answered, such a program has a finished run. -/
theorem Completes.runs (h : Completes W p Q s) (hW : ∀ s c, ∃ r s', W s c r s') :
    ∃ a s', Runs W p s s' (some a) ∧ Q a s' := by
  induction p generalizing s with
  | ret a => exact ⟨a, s, .ret a s, h⟩
  | cut => exact h.elim
  | call c k ih =>
      obtain ⟨r, s₁, hr⟩ := hW s c
      obtain ⟨a, s', hrun, hQ⟩ := ih r (h r s₁ hr)
      exact ⟨a, s', .call hr hrun, hQ⟩

end completes

/-- The world of deterministic surroundings. -/
def Handler.world (h : Handler I σ) : World I σ := fun s c r s' => r = (h s c).1 ∧ s' = (h s c).2

theorem Handler.world_answers (h : Handler I σ) (s : σ) (c : I.Call) : ∃ r s', h.world s c r s' :=
  ⟨_, _, rfl, rfl⟩

/-- For large bounds the program returns, uniformly on the states of bounded measure, and takes at
most `c` of what `R` counts. -/
def Settles (W : World I σ) (μ : σ → ℕ) (R : ℕ → σ → Prop) (c : ℕ) (p : ℕ → ι → Prog I α) : Prop :=
  ∀ B, ∃ N B', ∀ n, N ≤ n → ∀ i s k, μ s ≤ B → R (k + c) s →
    Completes W (p n i) (fun _ s' => μ s' ≤ B' ∧ R k s') s

namespace Settles

variable {W : World I σ} {μ : σ → ℕ} {R : ℕ → σ → Prop} {c d : ℕ} {p q : ℕ → ι → Prog I α}

theorem ret (f : ι → α) : Settles W μ R 0 (fun _ i => (.ret (f i) : Prog I α)) :=
  fun B => ⟨0, B, fun _ _ _ _ _ hs hR => ⟨hs, hR⟩⟩

/-- A call that does not add to the measure and takes nothing. -/
theorem perform {a : ι → I.Call}
    (ha : ∀ i s r s', W s (a i) r s' → μ s' ≤ μ s ∧ ∀ k, R k s → R k s') {γ : Type}
    {f : ∀ i, I.Resp (a i) → γ} :
    Settles W μ R 0 (fun _ i => Prog.call (a i) fun r => Prog.ret (f i r)) := by
  intro B
  refine ⟨0, B, fun n _ i s k hs hR r s' hstep => ?_⟩
  obtain ⟨hμ, hkeep⟩ := ha i s r s' hstep
  exact ⟨Nat.le_trans hμ hs, hkeep k hR⟩

theorem comp (hp : Settles W μ R c p) (g : κ → ι) :
    Settles W μ R c (fun n i => p n (g i)) := fun B =>
  let ⟨N, B', h⟩ := hp B
  ⟨N, B', fun n hn i s k hs hR => h n hn (g i) s k hs hR⟩

/-- More may be supplied. -/
theorem supply (hp : Settles W μ R c p) (hR : ∀ k s, R (k + 1) s → R k s) (hle : c ≤ d) :
    Settles W μ R d p := by
  have hmore : ∀ j k s, R (k + j) s → R k s := by
    intro j k s
    induction j with
    | zero => exact id
    | succ j ih => exact fun h => ih (hR (k + j) s h)
  intro B
  obtain ⟨N, B', h⟩ := hp B
  refine ⟨N, B', fun n hn i s k hs hRs => h n hn i s k hs (hmore (d - c) (k + c) s ?_)⟩
  rwa [Nat.add_assoc, Nat.add_sub_of_le hle]

theorem bind {f : ℕ → ι → α → Prog I β} (hp : Settles W μ R c p)
    (hf : Settles W μ R d (fun n (x : ι × α) => f n x.1 x.2)) :
    Settles W μ R (c + d) (fun n i => p n i >>= f n i) := by
  intro B
  obtain ⟨N₁, B₁, h₁⟩ := hp B
  obtain ⟨N₂, B₂, h₂⟩ := hf B₁
  refine ⟨max N₁ N₂, B₂, fun n hn i s k hs hR => ?_⟩
  have hsum : k + d + c = k + (c + d) := by
    rw [Nat.add_assoc, Nat.add_comm d c]
  refine (h₁ n (Nat.le_trans (Nat.le_max_left _ _) hn) i s (k + d) hs (hsum ▸ hR)).bind ?_
  rintro a s' ⟨hs', hR'⟩
  exact h₂ n (Nat.le_trans (Nat.le_max_right _ _) hn) (i, a) s' k hs' hR'

theorem ite {b : ι → Prop} [DecidablePred b] (hp : Settles W μ R c p) (hq : Settles W μ R c q) :
    Settles W μ R c (fun n i => if b i then p n i else q n i) := by
  intro B
  obtain ⟨N₁, B₁, h₁⟩ := hp B
  obtain ⟨N₂, B₂, h₂⟩ := hq B
  refine ⟨max N₁ N₂, max B₁ B₂, fun n hn i s k hs hR => ?_⟩
  by_cases hi : b i
  · simp only [hi, if_true]
    exact (h₁ n (Nat.le_trans (Nat.le_max_left _ _) hn) i s k hs hR).mono fun _ _ h =>
      ⟨Nat.le_trans h.1 (Nat.le_max_left _ _), h.2⟩
  · simp only [hi, if_false]
    exact (h₂ n (Nat.le_trans (Nat.le_max_right _ _) hn) i s k hs hR).mono fun _ _ h =>
      ⟨Nat.le_trans h.1 (Nat.le_max_right _ _), h.2⟩

/-- Such a program returns from each state that can supply it. -/
theorem completes (hp : Settles W μ R c p) (i : ι) {s : σ} (hs : R c s) :
    ∃ N, ∀ n, N ≤ n → Completes W (p n i) (fun _ _ => True) s := by
  obtain ⟨N, _, h⟩ := hp (μ s)
  refine ⟨N, fun n hn => (h n hn i s 0 (Nat.le_refl _) ?_).mono fun _ _ _ => trivial⟩
  rwa [Nat.zero_add]

end Settles

end Interaction
