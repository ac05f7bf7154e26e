import QubController.Completion

/-! # The cost of a program

The weights `w` say what a call costs.  `p.Within w b` asks that `p` returns, whatever the answers
are, and that the calls on the way cost at most `b`; costs add up in sequence (`Within.bind`).
In surroundings where each call moves the state at most as far as its weight allows, such a program
moves it by at most `b`: `Within.completes` says so of its end, and `Within.sat` of all its runs. -/

namespace Interaction

variable {I : Interface} {σ α β : Type}

/-- `p` returns, and its calls cost at most the given amount. -/
def Prog.Within (w : I.Call → ℕ) : Prog I α → ℕ → Prop
  | .ret _, _ => True
  | .call c k, b => ∃ b', w c + b' ≤ b ∧ ∀ r, (k r).Within w b'
  | .cut, _ => False

section within
variable {w : I.Call → ℕ} {p : Prog I α} {f : α → Prog I β} {b d : ℕ}

@[simp] theorem within_ret {a : α} : (.ret a : Prog I α).Within w b ↔ True := Iff.rfl

/-- A call that costs nothing. -/
theorem within_free {c : I.Call} {k : I.Resp c → Prog I α} (hc : w c = 0)
    (hk : ∀ r, (k r).Within w b) : (Prog.call c k).Within w b :=
  ⟨b, by omega, hk⟩

theorem Prog.Within.mono (h : p.Within w b) (hb : b ≤ d) : p.Within w d := by
  induction p generalizing b d with
  | ret a => trivial
  | cut => exact h
  | call c k ih =>
      obtain ⟨m, hm, hk⟩ := h
      exact ⟨m, by omega, hk⟩

theorem Prog.Within.bind (hp : p.Within w b) (hf : ∀ a, (f a).Within w d) :
    (p >>= f).Within w (b + d) := by
  induction p generalizing b with
  | ret a => exact (hf a).mono (Nat.le_add_left _ _)
  | cut => exact hp.elim
  | call c k ih =>
      obtain ⟨m, hm, hk⟩ := hp
      exact ⟨m + d, by omega, fun r => ih r (hk r)⟩

/-- A part that costs nothing. -/
theorem Prog.Within.then (hp : p.Within w 0) (hf : ∀ a, (f a).Within w b) :
    (p >>= f).Within w b := by
  have h := hp.bind hf
  rwa [Nat.zero_add] at h

/-- `M n s s'` allows to move from `s` to `s'` at the cost `n`. -/
theorem Prog.Within.completes {W : World I σ} {M : ℕ → σ → σ → Prop} (hp : p.Within w b)
    (hret : ∀ n s, M n s s) (htrans : ∀ m n n' s s' s'', M m s s' → M n s' s'' → m + n ≤ n' →
      M n' s s'')
    (hcall : ∀ s c r s', W s c r s' → M (w c) s s') (s : σ) :
    Completes W p (fun _ s' => M b s s') s := by
  induction p generalizing b s with
  | ret a => exact hret b s
  | cut => exact hp.elim
  | call c k ih =>
      obtain ⟨m, hm, hk⟩ := hp
      intro r s₁ hw
      exact (ih r (hk r) s₁).mono fun _ s' h => htrans _ _ _ _ _ _ (hcall _ _ _ _ hw) h hm

/-- The same for every run, with what is known of the result. -/
theorem Prog.Within.sat {W : World I σ} {Inv : σ → Prop} {M : ℕ → σ → σ → Prop}
    {P : I.Call → Prop} {R : α → Prop} (hp : p.Within w b) (hR : p.Obeys P R)
    (hret : ∀ n s, M n s s) (htrans : ∀ m n n' s s' s'', M m s s' → M n s' s'' → m + n ≤ n' →
      M n' s s'')
    (hcall : ∀ s c r s', W s c r s' → M (w c) s s') {s : σ} (hInv : ∀ s', M b s s' → Inv s') :
    Sat W Inv p (fun a s' => R a ∧ M b s s') s := by
  induction p generalizing b s with
  | ret a => exact ⟨hR, hret b s⟩
  | cut => exact hp.elim
  | call c k ih =>
      obtain ⟨m, hm, hk⟩ := hp
      intro r s₁ hw
      have hmoved : ∀ s', M m s₁ s' → M b s s' :=
        fun s' h => htrans _ _ _ _ _ _ (hcall _ _ _ _ hw) h hm
      refine ⟨hInv s₁ (hmoved s₁ (hret m s₁)), ?_⟩
      exact (ih r (hk r) (hR.2 r) fun s' h => hInv s' (hmoved s' h)).mono
        fun _ s' h => ⟨h.1, hmoved s' h.2⟩

end within

end Interaction
