import Mathlib.Logic.Function.Basic
import QubController.Interaction

/-! # Threads beside a program

A `Pool` has what is left of each thread, and what the threads share; `Pool.Step` lets one
thread make one call, so that the interleavings are the sequences of steps.

A thread is verified by itself, in a world `V` over its own view of the shared state in which
the others may act before each of its calls.  `Sat.interfere` says that such a verification
survives what the others do, and `Pool.Verified.step` that it survives a step of any thread, and
so every interleaving.  `Prog.Assuming` is the discipline of a thread whose calls are right as
long as the answers are.

`Prog.through` makes the calls of a program as calls of a larger interface, and `sat_through`
reads the verification there back to the world that the program sees. -/

namespace Interaction

variable {I J : Interface} {T σ τ ρ α β : Type}

/-! ### Calls through another interface -/

/-- How the calls of `I` are made as calls of `J`. -/
structure Embedding (I J : Interface) where
  call : I.Call → J.Call
  answer : (c : I.Call) → J.Resp (call c) → I.Resp c

def Prog.through (e : Embedding I J) : Prog I α → Prog J α
  | .ret a => .ret a
  | .call c k => .call (e.call c) fun r => (k (e.answer c r)).through e
  | .cut => .cut

/-- The world that a program sees whose calls go through `e`. -/
def World.seen (W : World J σ) (e : Embedding I J) : World I σ := fun s c r s' =>
  ∃ r', e.answer c r' = r ∧ W s (e.call c) r' s'

theorem sat_through {W : World J σ} {Inv : σ → Prop} {e : Embedding I J} {p : Prog I α}
    {Q : α → σ → Prop} {s : σ} :
    Sat W Inv (p.through e) Q s ↔ Sat (W.seen e) Inv p Q s := by
  induction p generalizing s with
  | ret a => exact Iff.rfl
  | cut => exact Iff.rfl
  | call c k ih =>
      rw [Prog.through, sat_call, sat_call]
      constructor
      · rintro h _ s' ⟨r', rfl, hstep⟩
        exact ⟨(h r' s' hstep).1, (ih _).mp (h r' s' hstep).2⟩
      · intro h r' s' hstep
        obtain ⟨hinv, hk⟩ := h _ s' ⟨r', rfl, hstep⟩
        exact ⟨hinv, (ih _).mpr hk⟩

/-! ### Calls that are right as long as the answers are -/

/-- Every call of `p` satisfies `P`, and its result `R`, as long as the answers satisfy `A`. -/
def Prog.Assuming (A : (c : I.Call) → I.Resp c → Prop) (P : I.Call → Prop) (R : α → Prop) :
    Prog I α → Prop
  | .ret a => R a
  | .call c k => P c ∧ ∀ r, A c r → (k r).Assuming A P R
  | .cut => True

section assuming
variable {A : (c : I.Call) → I.Resp c → Prop} {P : I.Call → Prop} {R : α → Prop} {R' : β → Prop}
  {p : Prog I α} {f : α → Prog I β}

theorem Prog.Assuming.bind (hp : p.Assuming A P R) (hf : ∀ a, R a → (f a).Assuming A P R') :
    (p >>= f).Assuming A P R' := by
  induction p with
  | ret a => exact hf a hp
  | cut => trivial
  | call c k ih => exact ⟨hp.1, fun r hr => ih r (hp.2 r hr)⟩

/-- A program that keeps to its calls whatever is answered. -/
theorem Prog.Obeys.assuming {P' : I.Call → Prop} (h : p.Obeys P' R) (hP : ∀ c, P' c → P c) :
    p.Assuming A P R := by
  induction p with
  | ret a => exact h
  | cut => trivial
  | call c k ih => exact ⟨hP c h.1, fun r _ => ih r (h.2 r)⟩

end assuming

/-! ### The pool -/

/-- What is left of each thread, if there is one, and what the threads share. -/
structure Pool (I : Interface) (T ρ σ : Type) where
  threads : T → Option (Prog I ρ)
  shared : σ

namespace Pool

variable [DecidableEq T]

/-- One call of one thread; `W t` answers the calls of thread `t`. -/
inductive Step (W : T → World I σ) : Pool I T ρ σ → Pool I T ρ σ → Prop
  | call {threads : T → Option (Prog I ρ)} {shared shared' : σ} {t : T} {c : I.Call}
      {k : I.Resp c → Prog I ρ} {r : I.Resp c} :
      threads t = some (.call c k) → W t shared c r shared' →
      Step W ⟨threads, shared⟩ ⟨Function.update threads t (some (k r)), shared'⟩

variable {W : T → World I σ} {s s' : Pool I T ρ σ}

/-- A step neither creates nor removes a thread. -/
theorem Step.isSome_eq (h : Step W s s') (t : T) :
    (s'.threads t).isSome = (s.threads t).isSome := by
  cases h with
  | @call threads _ _ t₀ c k r ht _ =>
      by_cases heq : t = t₀
      · subst heq
        simp [ht]
      · simp [Function.update_of_ne heq]

/-- Every thread keeps to its calls as long as it is answered as expected. -/
def Disciplined (A : T → (c : I.Call) → I.Resp c → Prop) (P : T → I.Call → Prop)
    (s : Pool I T ρ σ) : Prop :=
  ∀ t p, s.threads t = some p → p.Assuming (A t) (P t) fun _ => True

variable {A : T → (c : I.Call) → I.Resp c → Prop} {P : T → I.Call → Prop}

theorem Step.disciplined (h : Step W s s') (hs : Disciplined A P s)
    (hA : ∀ t c r shared', (s.threads t).isSome = true → W t s.shared c r shared' → A t c r) :
    Disciplined A P s' := by
  cases h with
  | @call threads shared shared' t₀ c k r ht hw =>
      intro t p hp
      replace hp : Function.update threads t₀ (some (k r)) t = some p := hp
      by_cases heq : t = t₀
      · subst heq
        rw [Function.update_self] at hp
        cases hp
        exact (hs t _ ht).2 r (hA t c r shared' (by simp [ht]) hw)
      · rw [Function.update_of_ne heq] at hp
        exact hs t p hp

/-- A step of a disciplined pool is a right call of one thread. -/
theorem Step.exists_call (h : Step W s s') (hs : Disciplined A P s) :
    ∃ t c r, (s.threads t).isSome = true ∧ P t c ∧ W t s.shared c r s'.shared := by
  cases h with
  | @call threads shared shared' t₀ c k r ht hw =>
      exact ⟨t₀, c, r, by simp [ht], (hs t₀ _ ht).1, hw⟩

end Pool

/-! ### Threads that are verified one by one -/

/-- What the others do to the view of a thread does no harm to its verification, if its world
lets them do it before each call. -/
theorem Sat.interfere {V : World I τ} {Inv : τ → Prop} {env : τ → τ → Prop} {p : Prog I ρ}
    {Q : ρ → τ → Prop} {v v' : τ}
    (habsorb : ∀ v v' c r v'', env v v' → V v' c r v'' → V v c r v'')
    (hQ : ∀ a v v', env v v' → Q a v → Q a v')
    (h : Sat V Inv p Q v) (henv : env v v') : Sat V Inv p Q v' := by
  cases p with
  | ret a => exact hQ a v v' henv h
  | cut => trivial
  | call c k => exact fun r v'' hstep => h r v'' (habsorb v v' c r v'' henv hstep)

/-- How thread `t` sees the shared state, and what may happen there. -/
structure Local (W : T → World I σ) (V : T → World I τ) (Inv : τ → Prop)
    (env : τ → τ → Prop) (view : T → σ → τ) : Prop where
  own : ∀ t s c r s', W t s c r s' → V t (view t s) c r (view t s')
  others : ∀ t t' s c r s', t ≠ t' → W t' s c r s' → env (view t s) (view t s')
  absorb : ∀ t v v' c r v'', env v v' → V t v' c r v'' → V t v c r v''
  stable : ∀ v v', env v v' → Inv v → Inv v'

namespace Pool

/-- The views satisfy the invariant, and every thread is verified to keep it in its view. -/
structure Verified (V : T → World I τ) (Inv : τ → Prop) (view : T → σ → τ)
    (s : Pool I T ρ σ) : Prop where
  inv : ∀ t, Inv (view t s.shared)
  sat : ∀ t p, s.threads t = some p → Sat (V t) Inv p (fun _ v => Inv v) (view t s.shared)

variable {W : T → World I σ} {V : T → World I τ} {Inv : τ → Prop} {env : τ → τ → Prop}
  {view : T → σ → τ} {s s' : Pool I T ρ σ}

/-- What happens to all views at once. -/
theorem Verified.interfere (hl : Local W V Inv env view) (h : Verified V Inv view s) {shared' : σ}
    (henv : ∀ t, env (view t s.shared) (view t shared')) :
    Verified V Inv view { s with shared := shared' } where
  inv := fun t => hl.stable _ _ (henv t) (h.inv t)
  sat := fun t p hp => (h.sat t p hp).interfere (hl.absorb t) (fun _ => hl.stable) (henv t)

variable [DecidableEq T]

/-- **A thread that is verified by itself is verified in the pool.** -/
theorem Verified.step (hl : Local W V Inv env view) (h : Verified V Inv view s)
    (hstep : Step W s s') : Verified V Inv view s' := by
  cases hstep with
  | @call threads shared shared' t₀ c k r ht hw =>
      obtain ⟨hinv, hk⟩ := h.sat t₀ _ ht r _ (hl.own t₀ _ _ _ _ hw)
      have hview : ∀ t, t ≠ t₀ → env (view t shared) (view t shared') := fun t hne =>
        hl.others t t₀ _ _ _ _ hne hw
      constructor
      · intro t
        by_cases heq : t = t₀
        · exact heq ▸ hinv
        · exact hl.stable _ _ (hview t heq) (h.inv t)
      · intro t p hp
        replace hp : Function.update threads t₀ (some (k r)) t = some p := hp
        by_cases heq : t = t₀
        · subst heq
          rw [Function.update_self] at hp
          cases hp
          exact hk
        · rw [Function.update_of_ne heq] at hp
          exact (h.sat t p hp).interfere (hl.absorb t) (fun _ => hl.stable) (hview t heq)

end Pool

end Interaction
