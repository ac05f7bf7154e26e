import QubController.SeqProgress

/-! # The seqlock refines a register

An atomic register holds one value.  Each operation on it happens at one instant: a write replaces
the value and a read returns it.  A step with no operation is allowed, so that a system whose steps
are smaller can refine the register.

A `store` takes effect with its last access and a `load` with the access after which it returns:
seen so, every run of the seqlock is a run of an atomic register (`refines_register`), and the
threads that use a slot may be verified against the register. -/

namespace Register

/-- An operation; `R` are those who read. -/
inductive Op (R V : Type)
  | write (v : V)
  | read (r : R) (v : V)

/-- The effect of an operation on the value. -/
inductive Step {R V : Type} : V → Option (Op R V) → V → Prop
  | none {s : V} : Step s none s
  | write {s : V} (v : V) : Step s (some (.write v)) v
  | read {s : V} (r : R) : Step s (some (.read r s)) s

/-- The register with the initial value `v₀`. -/
def system {R V : Type} (v₀ : V) : TransitionSystem V (Option (Op R V)) where
  init s := s = v₀
  step := Step

end Register

namespace Qub
namespace SeqLocked

variable {ι W R : Type}

/-- The operation that takes effect with an access. -/
def observe (s : State ι W R) : Action ι W R → Option (Register.Op R (ι → W))
  | .storeEven =>
      match s.writer with
      | .copying v _ _ => some (.write v)
      | _ => none
  | .loadSeq2 r (some v) => some (.read r v)
  | _ => none

variable [DecidableEq ι] [Fintype ι] [DecidableEq R] {init : ι → W}

section load
variable {e : Execution (system (R := R) init)} {r : R}

/-- The counter stands still during the successful attempt of a load. -/
theorem Load.ticks_eq (l : Load e r) (hn : l.storesBetween < 2 ^ 31) :
    (e.state l.attempt).writer.phase = 0 ∧
      ticks (e.state l.finish) = ticks (e.state l.attempt) := by
  have hstart := l.attempt_lt
  have hend := l.finish_lt
  have hfirst := e.step l.attempt (by omega)
  rw [l.attempted] at hfirst
  have hcopy : CopyOk init (e.state l.attempt) r (e.state l.finish) :=
    e.segment (attempt_copyOk (run_inv e (by omega)) hfirst) l.finish (by omega) (by omega)
      fun k hk hkf hc => step_copyOk (run_inv e (by omega)) (run_later e (by omega) (by omega)) hc
        (e.step k (by omega)) (l.same_attempt k (by omega) hkf)
  have hlast := e.step l.finish hend
  rw [l.returned] at hlast
  rw [CopyOk, returned_reader hlast] at hcopy
  obtain ⟨hphase, hseq, -⟩ := hcopy
  refine ⟨hphase, ?_⟩
  have hmod := congrArg UInt32.toNat hseq
  rw [(run_inv e (by omega)).seq_eq, (run_inv e (by omega)).seq_eq, UInt32.toNat_ofNat',
    UInt32.toNat_ofNat'] at hmod
  have hle := (run_later e (i := l.attempt) (j := l.finish) (by omega) (by omega)).2
  have hfinish : (e.state l.finish).writer.phase ≤ 1 := by
    cases (e.state l.finish).writer <;> simp [WriterPc.phase]
  simp only [Load.storesBetween] at hn
  simp only [ticks, hphase] at hmod hle ⊢
  omega

/-- A load returns the value stored last when it returns. -/
theorem Load.value_eq (l : Load e r) (hn : l.storesBetween < 2 ^ 31) :
    l.value = lastStored init (e.state l.finish) := by
  have hstart := l.attempt_lt
  have hend := l.finish_lt
  obtain ⟨hphase, hticks⟩ := l.ticks_eq hn
  have hsame := completed_eq hphase (run_later e (by omega) (by omega)) hticks
  rw [load_value e l hn, lastStored, lastStored, hsame.1]

end load

theorem step_refines {s s' : State ι W R} {a : Action ι W R} (h : Step s a s')
    (hread : ∀ r v, a = .loadSeq2 r (some v) → v = lastStored init s) :
    Register.Step (lastStored init s) (observe s a) (lastStored init s') := by
  cases h with
  | callStore v _ => exact .none
  | loadSeq _ => exact .none
  | storeOdd _ => exact .none
  | writeWord _ _ => exact .none
  | @storeEven v n hpc =>
      have hwrite : observe s .storeEven = some (.write v) := by simp only [observe, hpc]
      have hlast : lastStored init { s with
          seq := n + 2, writer := WriterPc.idle, completed := s.completed ++ [v] } = v := by
        simp [lastStored]
      rw [hwrite, hlast]
      exact .write v
  | callLoad _ => exact .none
  | loadSeq1Odd _ _ => exact .none
  | loadSeq1Even _ _ _ => exact .none
  | readWord _ _ => exact .none
  | @loadSeq2Same r s1 snap _ _ =>
      obtain rfl := hread r snap rfl
      exact .read r
  | loadSeq2Diff _ _ => exact .none

/-- **The seqlock is an atomic register** for one writer and any number of readers: every run, in
which no attempt of a load is crossed by `2^31` stores, is a run of the register, step by step; a
store takes effect with its last access, a load with its last, and the value of the register is
the one stored last. -/
theorem refines_register (init : ι → W) (e : Execution (system (R := R) init))
    (hn : ∀ r, ∀ l : Load e r, l.storesBetween < 2 ^ 31) :
    ∃ e' : Execution (Register.system (R := R) init), e'.length = e.length ∧
      (∀ k, e'.state k = lastStored init (e.state k)) ∧
      ∀ k, e'.act k = observe (e.state k) (e.act k) := by
  refine ⟨e.map (lastStored init) observe ?_ fun k hk => step_refines (e.step k hk) ?_, rfl,
    fun _ => rfl, fun _ => rfl⟩
  · have hstart : e.state 0 = _ := e.init
    rw [hstart]
    rfl
  · intro r v ha
    obtain ⟨l, rfl, rfl⟩ := exists_load e hk ha
    exact l.value_eq (hn r l)

theorem refines_register_crossed : ∃ e' : Execution (Register.system (R := Unit) fun _ => 7),
    e'.length = 13 ∧ e'.act 9 = some (.write eight) ∧
      ∃ v, e'.act 12 = some (.read () v) ∧ v () = 8 := by
  obtain ⟨e', hlength, -, hact⟩ := refines_register _ crossed fun r l => by
    have hlater := run_later crossed (Nat.le_of_lt l.finish_lt) le_rfl
    have hone : (crossed.state l.finish).completed.length ≤ 1 := hlater.1.length_le
    have hbetween : l.storesBetween ≤ 1 := (Nat.sub_le _ _).trans hone
    omega
  exact ⟨e', hlength, hact 9, _, hact 12, rfl⟩

end SeqLocked
end Qub
