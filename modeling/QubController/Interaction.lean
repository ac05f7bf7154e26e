import Mathlib.Logic.Relation

/-! # Programs that interact with their surroundings

A program is a tree of calls: `ret a` has finished with `a`, `call c k` makes the call `c`
and goes on with `k r` when the answer is `r`, and `cut` is a loop whose iteration bound is
used up (the run is still inside the loop when the observation ends).

* `World I σ` is what the surroundings may do: `W s c r s'` says that in state `s` the call
  `c` may be answered by `r`, leading to `s'`.
* `Runs W p s s' o` is a run of `p` against `W`: `o = some a` when `p` has returned `a`, and
  `o = none` when the run is watched only up to some call, so that the runs of a program are
  closed under prefixes and a program that never returns is not exempt from any invariant.
* `Sat W Inv p Q s` is the weakest precondition of `p` for `Q`, with `Inv` holding after
  every call.  `Runs.sat` is its soundness; `sat_bind`, `Sat.mono` and `Sat.and` are the
  rules by which programs are verified piece by piece.
* `exec h p s` runs `p` against a deterministic handler; `runs_exec` turns such an execution
  into a run of any world that allows the handler's answers. -/

namespace Interaction

/-- The calls which a program can make, with the type of the answer to each. -/
structure Interface where
  Call : Type
  Resp : Call → Type

/-- Programs over the calls of `I` that return an `α`. -/
inductive Prog (I : Interface) (α : Type) : Type
  | ret (a : α)
  | call (c : I.Call) (k : I.Resp c → Prog I α)
  | cut

namespace Prog

variable {I : Interface} {α β γ : Type}

/-- Sequential composition. -/
def bind : Prog I α → (α → Prog I β) → Prog I β
  | ret a, f => f a
  | call c k, f => call c (fun r => (k r).bind f)
  | cut, _ => cut

instance : Monad (Prog I) where
  pure := ret
  bind := bind

/-- The program that makes one call and returns its answer. -/
def perform (c : I.Call) : Prog I (I.Resp c) := call c ret

@[simp] theorem pure_eq (a : α) : (pure a : Prog I α) = ret a := rfl

@[simp] theorem ret_bind (a : α) (f : α → Prog I β) : (ret a >>= f) = f a := rfl

@[simp] theorem call_bind (c : I.Call) (k : I.Resp c → Prog I α) (f : α → Prog I β) :
    (call c k >>= f) = call c (fun r => k r >>= f) := rfl

@[simp] theorem cut_bind (f : α → Prog I β) : ((cut : Prog I α) >>= f) = cut := rfl

@[simp] theorem perform_bind (c : I.Call) (f : I.Resp c → Prog I β) :
    (perform c >>= f) = call c f := rfl

@[simp] theorem bind_ret : ∀ p : Prog I α, (p >>= ret) = p
  | ret _ => rfl
  | call c k => by
      rw [call_bind]
      exact congrArg (call c) (funext fun r => bind_ret (k r))
  | cut => rfl

@[simp] theorem map_ret (f : α → β) (a : α) : f <$> (ret a : Prog I α) = ret (f a) := rfl

theorem bind_assoc' (f : α → Prog I β) (g : β → Prog I γ) :
    ∀ p : Prog I α, ((p >>= f) >>= g) = (p >>= fun a => f a >>= g)
  | ret _ => rfl
  | call c k => by
      simp only [call_bind]
      exact congrArg (call c) (funext fun r => bind_assoc' f g (k r))
  | cut => rfl

instance : LawfulMonad (Prog I) :=
  LawfulMonad.mk' _ bind_ret (fun _ _ => rfl) (fun p f g => bind_assoc' f g p)

end Prog

/-- What the surroundings may answer, and how they change. -/
abbrev World (I : Interface) (σ : Type) := σ → (c : I.Call) → I.Resp c → σ → Prop

variable {I : Interface} {σ : Type} {α β : Type}

/-- `Runs W p s s' o`: the program `p`, started in `s`, has brought the surroundings to `s'`;
it has returned `a` if `o = some a` and is still running if `o = none`. -/
inductive Runs (W : World I σ) : Prog I α → σ → σ → Option α → Prop
  | stop (p : Prog I α) (s : σ) : Runs W p s s none
  | ret (a : α) (s : σ) : Runs W (.ret a) s s (some a)
  | call {c : I.Call} {k : I.Resp c → Prog I α} {r : I.Resp c} {s s₁ s₂ : σ} {o : Option α} :
      W s c r s₁ → Runs W (k r) s₁ s₂ o → Runs W (.call c k) s s₂ o

/-- Weakest precondition of a program for the postcondition `Q`, with `Inv` kept after every
call. -/
def Sat (W : World I σ) (Inv : σ → Prop) : Prog I α → (α → σ → Prop) → σ → Prop
  | .ret a, Q, s => Q a s
  | .call c k, Q, s => ∀ r s', W s c r s' → Inv s' ∧ Sat W Inv (k r) Q s'
  | .cut, _, _ => True

variable {W : World I σ} {Inv : σ → Prop} {p : Prog I α} {f : α → Prog I β}
  {Q Q' : α → σ → Prop} {s s' : σ}

@[simp] theorem sat_ret {a : α} : Sat W Inv (.ret a) Q s ↔ Q a s := Iff.rfl

@[simp] theorem sat_cut : Sat W Inv (.cut : Prog I α) Q s ↔ True := Iff.rfl

@[simp] theorem sat_call {c : I.Call} {k : I.Resp c → Prog I α} :
    Sat W Inv (.call c k) Q s ↔ ∀ r s', W s c r s' → Inv s' ∧ Sat W Inv (k r) Q s' := Iff.rfl

@[simp] theorem sat_perform {c : I.Call} {R : I.Resp c → σ → Prop} :
    Sat W Inv (Prog.perform c) R s ↔ ∀ r s', W s c r s' → Inv s' ∧ R r s' := Iff.rfl

theorem sat_bind {R : β → σ → Prop} :
    Sat W Inv (p >>= f) R s ↔ Sat W Inv p (fun a s' => Sat W Inv (f a) R s') s := by
  induction p generalizing s with
  | ret a => exact Iff.rfl
  | cut => exact Iff.rfl
  | call c k ih =>
      simp only [Prog.call_bind, sat_call]
      exact forall_congr' fun r => forall_congr' fun s' => imp_congr_right fun _ =>
        and_congr_right fun _ => ih r

theorem Sat.mono (h : Sat W Inv p Q s) (hQ : ∀ a s', Q a s' → Q' a s') : Sat W Inv p Q' s := by
  induction p generalizing s with
  | ret a => exact hQ a s h
  | cut => trivial
  | call c k ih => exact fun r s' hs => ⟨(h r s' hs).1, ih r (h r s' hs).2⟩

/-- Composition: `p` establishes what `f` needs. -/
theorem Sat.bind {R : β → σ → Prop} (hp : Sat W Inv p Q s)
    (hf : ∀ a s', Q a s' → Sat W Inv (f a) R s') : Sat W Inv (p >>= f) R s :=
  sat_bind.mpr (hp.mono hf)

/-- Nothing is asked of the program. -/
theorem sat_true (p : Prog I α) (s : σ) : Sat W (fun _ => True) p (fun _ _ => True) s := by
  induction p generalizing s with
  | ret a => trivial
  | cut => trivial
  | call c k ih => exact fun r s' _ => ⟨trivial, ih r s'⟩

theorem Sat.and (h : Sat W Inv p Q s) (h' : Sat W Inv p Q' s) :
    Sat W Inv p (fun a s' => Q a s' ∧ Q' a s') s := by
  induction p generalizing s with
  | ret a => exact ⟨h, h'⟩
  | cut => trivial
  | call c k ih => exact fun r s' hs => ⟨(h r s' hs).1, ih r (h r s' hs).2 (h' r s' hs).2⟩

/-- The invariant holds in the final state too, so it may be used in the postcondition. -/
theorem Sat.withInv (h : Sat W Inv p Q s) (hs : Inv s) :
    Sat W Inv p (fun a s' => Inv s' ∧ Q a s') s := by
  induction p generalizing s with
  | ret a => exact ⟨hs, h⟩
  | cut => trivial
  | call c k ih => exact fun r s' hr => ⟨(h r s' hr).1, ih r (h r s' hr).2 (h r s' hr).1⟩

/-- A run of a program that satisfies its specification keeps the invariant and, when it has
returned, ends in the postcondition. -/
theorem Runs.sat {o : Option α} (hr : Runs W p s s' o) (hp : Sat W Inv p Q s) (hs : Inv s) :
    Inv s' ∧ ∀ a, o = some a → Q a s' := by
  induction hr with
  | stop p s => exact ⟨hs, fun a h => by cases h⟩
  | ret a s => exact ⟨hs, fun b h => by cases h; exact hp⟩
  | call hstep _ ih =>
      obtain ⟨hi, hk⟩ := hp _ _ hstep
      exact ih hk hi

/-- The postcondition of a finished run. -/
theorem Runs.post {a : α} (hr : Runs W p s s' (some a)) (hp : Sat W (fun _ => True) p Q s) :
    Q a s' :=
  (hr.sat hp trivial).2 a rfl

/-- A run of a composed program stops in its first part or passes through its result. -/
theorem runs_bind {s'' : σ} {o : Option β} (h : Runs W (p >>= f) s s'' o) :
    (o = none ∧ Runs W p s s'' none) ∨
      ∃ a s', Runs W p s s' (some a) ∧ Runs W (f a) s' s'' o := by
  induction p generalizing s with
  | ret a => exact .inr ⟨a, s, .ret a s, h⟩
  | cut =>
      cases h with
      | stop => exact .inl ⟨rfl, .stop _ _⟩
  | call c k ih =>
      rw [Prog.call_bind] at h
      cases h with
      | stop => exact .inl ⟨rfl, .stop _ _⟩
      | call hstep hr =>
          rcases ih _ hr with ⟨ho, hp⟩ | ⟨a, s', hp, hf⟩
          · exact .inl ⟨ho, .call hstep hp⟩
          · exact .inr ⟨a, s', .call hstep hp, hf⟩

/-- A finished run goes on with the rest of the program. -/
theorem Runs.bind {s'' : σ} {a : α} {o : Option β} (hp : Runs W p s s' (some a))
    (hf : Runs W (f a) s' s'' o) : Runs W (p >>= f) s s'' o := by
  induction p generalizing s with
  | ret b =>
      cases hp
      exact hf
  | cut => cases hp
  | call c k ih =>
      cases hp with
      | call hstep hk => exact .call hstep (ih _ hk)

/-- A run of a program whose result is passed through `g`. -/
theorem runs_map {g : α → β} {b : β} :
    Runs W (g <$> p) s s' (some b) ↔ ∃ a, g a = b ∧ Runs W p s s' (some a) := by
  rw [← bind_pure_comp]
  constructor
  · intro h
    rcases runs_bind h with ⟨hnone, -⟩ | ⟨a, s₁, hp, hret⟩
    · cases hnone
    · cases hret
      exact ⟨a, rfl, hp⟩
  · rintro ⟨a, rfl, hp⟩
    exact hp.bind (.ret (g a) s')

/-- A run is a run of every world that allows more. -/
theorem Runs.mono {W' : World I σ} {o : Option α} (h : Runs W p s s' o)
    (hW : ∀ s c r s', W s c r s' → W' s c r s') : Runs W' p s s' o := by
  induction h with
  | stop p s => exact .stop p s
  | ret a s => exact .ret a s
  | call hstep _ ih => exact .call (hW _ _ _ _ hstep) ih

/-- What every answer keeps, a run keeps. -/
theorem Runs.keeps {J : σ → Prop} {o : Option α} (h : Runs W p s s' o)
    (hW : ∀ s c r s', W s c r s' → J s → J s') (hs : J s) : J s' := by
  induction h with
  | stop p s => exact hs
  | ret a s => exact hs
  | call hstep _ ih => exact ih (hW _ _ _ _ hstep hs)

/-- A run seen through a projection of the surroundings. -/
theorem Runs.project {τ : Type} {W' : World I τ} (g : σ → τ) {o : Option α} (h : Runs W p s s' o)
    (hW : ∀ s c r s', W s c r s' → W' (g s) c r (g s')) : Runs W' p (g s) (g s') o := by
  induction h with
  | stop p s => exact .stop p (g s)
  | ret a s => exact .ret a (g s)
  | call hstep _ ih => exact .call (hW _ _ _ _ hstep) ih

/-! ### The calls of a program -/

/-- Every call that `p` can make satisfies `P`. -/
def Prog.Only (P : I.Call → Prop) : Prog I α → Prop
  | .ret _ => True
  | .call c k => P c ∧ ∀ r, (k r).Only P
  | .cut => True

section only
variable {P P' : I.Call → Prop}

@[simp] theorem only_ret {a : α} : (.ret a : Prog I α).Only P ↔ True := Iff.rfl

@[simp] theorem only_cut : (.cut : Prog I α).Only P ↔ True := Iff.rfl

@[simp] theorem only_call {c : I.Call} {k : I.Resp c → Prog I α} :
    (Prog.call c k).Only P ↔ P c ∧ ∀ r, (k r).Only P := Iff.rfl

theorem Prog.Only.bind (hp : p.Only P) (hf : ∀ a, (f a).Only P) : (p >>= f).Only P := by
  induction p with
  | ret a => exact hf a
  | cut => trivial
  | call c k ih => exact ⟨hp.1, fun r => ih r (hp.2 r)⟩

theorem Prog.Only.mono (hp : p.Only P) (h : ∀ c, P c → P' c) : p.Only P' := by
  induction p with
  | ret a => trivial
  | cut => trivial
  | call c k ih => exact ⟨h c hp.1, fun r => ih r (hp.2 r)⟩

/-- Frame rule: what all the calls of a program keep, the program keeps. -/
theorem Prog.Only.sat {J : σ → Prop} (hp : p.Only P)
    (hW : ∀ s c r s', P c → J s → W s c r s' → Inv s' ∧ J s') (hs : J s) :
    Sat W Inv p (fun _ s' => J s') s := by
  induction p generalizing s with
  | ret a => exact hs
  | cut => trivial
  | call c k ih =>
      intro r s' hr
      obtain ⟨hi, hj⟩ := hW s c r s' hp.1 hs hr
      exact ⟨hi, ih r (hp.2 r) hj⟩

/-- What all the calls of a program keep, its runs keep. -/
theorem Runs.only_keeps {J : σ → Prop} {o : Option α} (h : Runs W p s s' o) (hp : p.Only P)
    (hW : ∀ s c r s', P c → J s → W s c r s' → J s') (hs : J s) : J s' := by
  induction h with
  | stop p s => exact hs
  | ret a s => exact hs
  | call hstep _ ih => exact ih (hp.2 _) (hW _ _ _ _ hp.1 hs hstep)

/-- What all the calls of a program keep may be added to its specification. -/
theorem Prog.Only.keep (hp : p.Only P) (h : Sat W (fun _ => True) p Q s)
    (hW : ∀ s c r s', P c → Inv s → W s c r s' → Inv s') (hs : Inv s) :
    Sat W Inv p (fun a s' => Q a s' ∧ Inv s') s := by
  induction p generalizing s with
  | ret a => exact ⟨h, hs⟩
  | cut => trivial
  | call c k ih =>
      intro r s' hr
      have hinv := hW s c r s' hp.1 hs hr
      exact ⟨hinv, ih r (hp.2 r) (h r s' hr).2 hinv⟩

/-- Every call that `p` can make satisfies `P`, and every result it can return satisfies `R`. -/
def Prog.Obeys (P : I.Call → Prop) (R : α → Prop) : Prog I α → Prop
  | .ret a => R a
  | .call c k => P c ∧ ∀ r, (k r).Obeys P R
  | .cut => True

theorem Prog.Only.obeys (hp : p.Only P) : p.Obeys P (fun _ => True) := by
  induction p with
  | ret a => trivial
  | cut => trivial
  | call c k ih => exact ⟨hp.1, fun r => ih r (hp.2 r)⟩

theorem Prog.Obeys.only {R : α → Prop} (hp : p.Obeys P R) : p.Only P := by
  induction p with
  | ret a => trivial
  | cut => trivial
  | call c k ih => exact ⟨hp.1, fun r => ih r (hp.2 r)⟩

theorem Prog.Obeys.bind {R : α → Prop} {R' : β → Prop} (hp : p.Obeys P R)
    (hf : ∀ a, R a → (f a).Obeys P R') : (p >>= f).Obeys P R' := by
  induction p with
  | ret a => exact hf a hp
  | cut => trivial
  | call c k ih => exact ⟨hp.1, fun r => ih r (hp.2 r)⟩

theorem Prog.Obeys.mono {R R' : α → Prop} (hp : p.Obeys P R) (h : ∀ c, P c → P' c)
    (hR : ∀ a, R a → R' a) : p.Obeys P' R' := by
  induction p with
  | ret a => exact hR a hp
  | cut => trivial
  | call c k ih => exact ⟨h c hp.1, fun r => ih r (hp.2 r)⟩

/-- Frame rule with the results. -/
theorem Prog.Obeys.sat {J : σ → Prop} {R : α → Prop} (hp : p.Obeys P R)
    (hW : ∀ s c r s', P c → J s → W s c r s' → Inv s' ∧ J s') (hs : J s) :
    Sat W Inv p (fun a s' => R a ∧ J s') s := by
  induction p generalizing s with
  | ret a => exact ⟨hp, hs⟩
  | cut => trivial
  | call c k ih =>
      intro r s' hr
      obtain ⟨hi, hj⟩ := hW s c r s' hp.1 hs hr
      exact ⟨hi, ih r (hp.2 r) hj⟩

end only

/-! ### Programs that return -/

/-- `p` returns, whatever the answers to its calls are. -/
def Prog.Total : Prog I α → Prop
  | .ret _ => True
  | .call _ k => ∀ r, (k r).Total
  | .cut => False

@[simp] theorem total_ret {a : α} : (.ret a : Prog I α).Total ↔ True := Iff.rfl

@[simp] theorem total_call {c : I.Call} {k : I.Resp c → Prog I α} :
    (Prog.call c k).Total ↔ ∀ r, (k r).Total := Iff.rfl

theorem Prog.Total.bind (hp : p.Total) (hf : ∀ a, (f a).Total) : (p >>= f).Total := by
  induction p with
  | ret a => exact hf a
  | cut => exact hp.elim
  | call c k ih => exact fun r => ih r (hp r)

/-- Such a program has a finished run in every world that answers all calls. -/
theorem Prog.Total.runs (hp : p.Total) (hW : ∀ s c, ∃ r s', W s c r s') (s : σ) :
    ∃ s' a, Runs W p s s' (some a) := by
  induction p generalizing s with
  | ret a => exact ⟨s, a, .ret a s⟩
  | cut => exact hp.elim
  | call c k ih =>
      obtain ⟨r, s₁, hr⟩ := hW s c
      obtain ⟨s', a, h⟩ := ih r (hp r) s₁
      exact ⟨s', a, .call hr h⟩

/-! ### Deterministic surroundings -/

/-- Surroundings that answer every call in one way. -/
abbrev Handler (I : Interface) (σ : Type) := σ → (c : I.Call) → I.Resp c × σ

/-- The execution of a program against a handler. -/
def exec (h : Handler I σ) : Prog I α → σ → σ × Option α
  | .ret a, s => (s, some a)
  | .call c k, s => exec h (k (h s c).1) (h s c).2
  | .cut, s => (s, none)

/-- An execution against a handler is a run of each world that allows its answers, at least in
the states `P` that the handler keeps. -/
theorem runs_exec {h : Handler I σ} {P : σ → Prop}
    (hW : ∀ s c, P s → W s c (h s c).1 (h s c).2 ∧ P (h s c).2) (p : Prog I α) {s : σ}
    (hs : P s) : Runs W p s (exec h p s).1 (exec h p s).2 := by
  induction p generalizing s with
  | ret a => exact .ret a s
  | cut => exact .stop _ _
  | call c k ih => exact .call (hW s c hs).1 (ih _ (hW s c hs).2)

/-! ### Surroundings that only keep the record -/

/-- One call with its answer. -/
structure Event (I : Interface) where
  call : I.Call
  resp : I.Resp call

/-- The world that may give any answer and keeps the list of all calls made so far. -/
def World.record : World I (List (Event I)) := fun s c r s' => s' = s ++ [⟨c, r⟩]

end Interaction
