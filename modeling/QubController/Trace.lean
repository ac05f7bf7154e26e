import QubController.Interaction

/-! # Properties of traces

A trace is the list of the events so far, the newest first.  `Followed P Q` says that every
`P`-event is followed by a `Q`-event; `AtEach P Φ` says that `Φ` held of the past whenever a
`P`-event happened, and `Each Φ` that `Φ` held of every event and its past.  All are computed
event by event: `followed_cons`, `atEach_cons` and `each_cons` are the rules by which invariants
about traces are proved.

`World.trace` answers a program in any way and keeps the trace of its calls.  A program is
audited by what it did before each call: `Each Φ` for a `Φ` of an event and its past.
`Prog.Only.audit` is the rule for the parts of which nothing is asked, and `Runs.trace` moves a
run of `World.record` here. -/

namespace Interaction

section trace
variable {ε : Type} {P P' Q : ε → Prop} {Φ : List ε → Prop} {e : ε} {log : List ε}

/-- Every `P`-event is followed by a `Q`-event. -/
def Followed (P Q : ε → Prop) (log : List ε) : Prop :=
  ∀ later e earlier, log = later ++ e :: earlier → P e → ∃ x ∈ later, Q x

/-- Whenever a `P`-event happened, `Φ` held of the events before it. -/
def AtEach (P : ε → Prop) (Φ : List ε → Prop) (log : List ε) : Prop :=
  ∀ later e earlier, log = later ++ e :: earlier → P e → Φ earlier

@[simp] theorem followed_nil : Followed P Q [] := by
  intro later e earlier h
  simp at h

theorem followed_cons : Followed P Q (e :: log) ↔ ¬ P e ∧ (Q e ∨ Followed P Q log) := by
  constructor
  · intro h
    refine ⟨fun he => ?_, ?_⟩
    · obtain ⟨x, hx, -⟩ := h [] e log rfl he
      cases hx
    · by_cases hQ : Q e
      · exact .inl hQ
      · refine .inr fun later y earlier hlog hy => ?_
        obtain ⟨x, hx, hQx⟩ := h (e :: later) y earlier (by rw [hlog]; rfl) hy
        rcases List.mem_cons.mp hx with rfl | hx
        · exact absurd hQx hQ
        · exact ⟨x, hx, hQx⟩
  · rintro ⟨hP, hQ⟩ later y earlier hlog hy
    cases later with
    | nil =>
        obtain ⟨rfl, -⟩ := List.cons.inj hlog
        exact absurd hy hP
    | cons z later =>
        obtain ⟨rfl, rfl⟩ := List.cons.inj hlog
        rcases hQ with hQ | hlater
        · exact ⟨_, List.mem_cons_self, hQ⟩
        · obtain ⟨x, hx, hQx⟩ := hlater later y earlier rfl hy
          exact ⟨x, List.mem_cons_of_mem _ hx, hQx⟩

/-- An event of neither kind changes nothing. -/
theorem followed_cons_of_not (hP : ¬ P e) (hQ : ¬ Q e) :
    Followed P Q (e :: log) ↔ Followed P Q log := by
  rw [followed_cons]
  exact ⟨fun h => h.2.resolve_left hQ, fun h => ⟨hP, .inr h⟩⟩

/-- A `Q`-event follows everything. -/
theorem followed_cons_of_follower (hP : ¬ P e) (hQ : Q e) : Followed P Q (e :: log) :=
  followed_cons.mpr ⟨hP, .inl hQ⟩

theorem Followed.cons (h : Followed P Q log) (hP : ¬ P e) : Followed P Q (e :: log) :=
  followed_cons.mpr ⟨hP, .inr h⟩

instance Followed.decidable [DecidablePred P] [DecidablePred Q] :
    ∀ log : List ε, Decidable (Followed P Q log)
  | [] => isTrue followed_nil
  | _ :: log =>
      have := Followed.decidable log
      decidable_of_iff _ followed_cons.symm

/-- `Φ e past` held of every event `e` and the events before it. -/
def Each (Φ : ε → List ε → Prop) (log : List ε) : Prop :=
  ∀ later e earlier, log = later ++ e :: earlier → Φ e earlier

@[simp] theorem each_nil {Φ : ε → List ε → Prop} : Each Φ [] := by
  intro later e earlier h
  simp at h

theorem each_cons {Φ : ε → List ε → Prop} : Each Φ (e :: log) ↔ Φ e log ∧ Each Φ log := by
  constructor
  · intro h
    refine ⟨h [] e log rfl, ?_⟩
    intro later y earlier hlog
    exact h (e :: later) y earlier (by rw [hlog]; rfl)
  · rintro ⟨he, hlog⟩ later y earlier heq
    cases later with
    | nil =>
        obtain ⟨rfl, rfl⟩ := List.cons.inj heq
        exact he
    | cons z later =>
        obtain ⟨rfl, rfl⟩ := List.cons.inj heq
        exact hlog later y earlier rfl

instance Each.decidable {Φ : ε → List ε → Prop} [∀ e past, Decidable (Φ e past)] :
    ∀ log : List ε, Decidable (Each Φ log)
  | [] => isTrue each_nil
  | _ :: log =>
      have := Each.decidable (Φ := Φ) log
      decidable_of_iff _ each_cons.symm

@[simp] theorem atEach_nil : AtEach P Φ [] := each_nil (Φ := fun e past => P e → Φ past)

theorem atEach_cons : AtEach P Φ (e :: log) ↔ (P e → Φ log) ∧ AtEach P Φ log :=
  each_cons (Φ := fun e past => P e → Φ past)

end trace

/-! ### Audits -/

section audit
variable {I : Interface} {α : Type}

/-- Any answer, and the trace of the calls. -/
def World.trace : World I (List (Event I)) := fun past c r past' => past' = ⟨c, r⟩ :: past

variable {Φ : Event I → List (Event I) → Prop} {p : Prog I α} {past log : List (Event I)}

theorem sat_trace_call {Inv : List (Event I) → Prop} {c : I.Call} {k : I.Resp c → Prog I α}
    {Q : α → List (Event I) → Prop} : Sat World.trace Inv (.call c k) Q past ↔
      ∀ r, Inv (⟨c, r⟩ :: past) ∧ Sat World.trace Inv (k r) Q (⟨c, r⟩ :: past) :=
  ⟨fun h r => h r _ rfl, fun h r _ hs => hs ▸ h r⟩

/-- What is right so far, and what the trace has grown from. -/
structure Audited (Φ : Event I → List (Event I) → Prop) (past log : List (Event I)) : Prop where
  each : Each Φ log
  grows : past <:+ log

namespace Audited

theorem refl (h : Each Φ past) : Audited Φ past past := ⟨h, List.suffix_rfl⟩

theorem trans {log' : List (Event I)} (h : Audited Φ past log) (h' : Audited Φ log log') :
    Audited Φ past log' := ⟨h'.each, h.grows.trans h'.grows⟩

theorem cons {e : Event I} (h : Audited Φ past log) (he : Φ e log) : Audited Φ past (e :: log) :=
  ⟨each_cons.mpr ⟨he, h.each⟩, h.grows.trans (List.suffix_cons e log)⟩

/-- An event stays in the trace. -/
theorem mem {e : Event I} (h : Audited Φ past log) (he : e ∈ past) : e ∈ log := h.grows.subset he

end Audited

/-- The parts of a program whose calls are right at any time. -/
theorem Prog.Only.audit (hp : p.Only fun c => ∀ r past, Φ ⟨c, r⟩ past) (h : Each Φ past) :
    Sat World.trace (Each Φ) p (fun _ log => Audited Φ past log) past := by
  refine hp.sat (J := Audited Φ past) ?_ (.refl h)
  rintro log c r _ hc hlog rfl
  exact ⟨(hlog.cons (hc r log)).each, hlog.cons (hc r log)⟩

/-- A run that was recorded in the other order. -/
theorem Runs.trace {o : Option α} (h : Runs World.record p [] log o) :
    Runs World.trace p [] log.reverse o := by
  have hreverse : ∀ (log : List (Event I)) c r log', World.record log c r log' →
      World.trace log.reverse c r log'.reverse := by
    rintro log c r _ rfl
    exact List.reverse_concat ..
  exact h.project List.reverse hreverse

end audit

end Interaction
