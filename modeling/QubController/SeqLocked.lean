import Mathlib.Data.Fintype.Basic
import Mathlib.Data.List.Infix
import Mathlib.Tactic.Linarith
import QubController.Execution

/-! # The seqlock

`SeqLocked<T>` with one writer and any number of readers, at the granularity of single
accesses: every read or write of `seq_` and every copy of one word of `data_` is a step of
its own, and the words are copied in any order.  `ι` is the set of words of `T`, `W` the
values of a word and `R` the set of readers.

The history variable `completed` lists the values of the completed stores.  The proof rests
on the unbounded counter `ticks = 2 · (completed stores) + (1 while data_ is being written)`,
which `seq_` shows modulo `2^32`: an even value of `seq_` that is seen twice, fewer than
`2^31` stores apart, is the same value of `ticks`, and then no word changed in between. -/

namespace Qub
namespace SeqLocked

variable {ι W R : Type}

/-- Where the writer is in `store(value)`. -/
inductive WriterPc (ι W : Type)
  | idle
  | called (value : ι → W)
  | loaded (value : ι → W) (s : UInt32)
  | copying (value : ι → W) (s : UInt32) (done : Finset ι)

/-- Where a reader is in `load()`. -/
inductive ReaderPc (ι W : Type)
  | idle
  | looping
  | copying (s1 : UInt32) (snapshot : ι → W) (done : Finset ι)

structure State (ι W R : Type) where
  seq : UInt32
  data : ι → W
  writer : WriterPc ι W
  reader : R → ReaderPc ι W
  /-- The values of the completed stores, oldest first. -/
  completed : List (ι → W)

def State.move [DecidableEq R] (s : State ι W R) (r : R) (pc : ReaderPc ι W) : State ι W R :=
  { s with reader := Function.update s.reader r pc }

inductive Action (ι W R : Type)
  | callStore (value : ι → W)
  | loadSeq
  | storeOdd
  | writeWord (i : ι)
  | storeEven
  | callLoad (r : R)
  | loadSeq1 (r : R)
  | readWord (r : R) (i : ι)
  /-- `some v`: the two values of `seq_` are equal and `load` returns `v`. -/
  | loadSeq2 (r : R) (returned : Option (ι → W))

/-- One access.  The words of a copy are taken in any order, each once. -/
inductive Step [DecidableEq ι] [Fintype ι] [DecidableEq R] :
    State ι W R → Action ι W R → State ι W R → Prop
  | callStore {s : State ι W R} (v : ι → W) :
      s.writer = .idle → Step s (.callStore v) { s with writer := .called v }
  /-- `uint32_t s = seq_.load()` -/
  | loadSeq {s : State ι W R} {v : ι → W} :
      s.writer = .called v → Step s .loadSeq { s with writer := .loaded v s.seq }
  /-- `seq_.store(s + 1)` -/
  | storeOdd {s : State ι W R} {v : ι → W} {n : UInt32} :
      s.writer = .loaded v n →
        Step s .storeOdd { s with seq := n + 1, writer := .copying v n ∅ }
  /-- one word of `data_ = value` -/
  | writeWord {s : State ι W R} {v : ι → W} {n : UInt32} {done : Finset ι} {i : ι} :
      s.writer = .copying v n done → i ∉ done →
        Step s (.writeWord i)
          { s with data := Function.update s.data i (v i), writer := .copying v n (insert i done) }
  /-- `seq_.store(s + 2)` -/
  | storeEven {s : State ι W R} {v : ι → W} {n : UInt32} :
      s.writer = .copying v n Finset.univ →
        Step s .storeEven
          { s with seq := n + 2, writer := .idle, completed := s.completed ++ [v] }
  | callLoad {s : State ι W R} {r : R} :
      s.reader r = .idle →
        Step s (.callLoad r) (s.move r .looping)
  /-- `s1 = seq_.load()`, odd: `continue` -/
  | loadSeq1Odd {s : State ι W R} {r : R} :
      s.reader r = .looping → s.seq &&& 1 ≠ 0 → Step s (.loadSeq1 r) s
  /-- `s1 = seq_.load()`, even -/
  | loadSeq1Even {s : State ι W R} {r : R} (uninit : ι → W) :
      s.reader r = .looping → s.seq &&& 1 = 0 →
        Step s (.loadSeq1 r) (s.move r (.copying s.seq uninit ∅))
  /-- one word of `snapshot = data_` -/
  | readWord {s : State ι W R} {r : R} {s1 : UInt32} {snap : ι → W} {done : Finset ι} {i : ι} :
      s.reader r = .copying s1 snap done → i ∉ done →
        Step s (.readWord r i)
          (s.move r (.copying s1 (Function.update snap i (s.data i)) (insert i done)))
  /-- `s2 = seq_.load()`, equal to `s1`: `return snapshot` -/
  | loadSeq2Same {s : State ι W R} {r : R} {s1 : UInt32} {snap : ι → W} :
      s.reader r = .copying s1 snap Finset.univ → s1 = s.seq →
        Step s (.loadSeq2 r (some snap)) (s.move r .idle)
  /-- `s2 = seq_.load()`, not equal: the next attempt -/
  | loadSeq2Diff {s : State ι W R} {r : R} {s1 : UInt32} {snap : ι → W} :
      s.reader r = .copying s1 snap Finset.univ → s1 ≠ s.seq →
        Step s (.loadSeq2 r none) (s.move r .looping)

def system [DecidableEq ι] [Fintype ι] [DecidableEq R] (init : ι → W) :
    TransitionSystem (State ι W R) (Action ι W R) where
  init s := s = ⟨0, init, .idle, fun _ => .idle, []⟩
  step := Step

/-- The value of the last completed store, or the initial value. -/
def lastStored (init : ι → W) (s : State ι W R) : ι → W := s.completed.getLastD init

/-- A `load()` of reader `r` that returns: its call, the first `seq_` read of its successful
attempt, and the `seq_` read with which it returns. -/
structure Load [DecidableEq ι] [Fintype ι] [DecidableEq R] {init : ι → W}
    (e : Execution (system (R := R) init)) (r : R) where
  start : ℕ
  attempt : ℕ
  finish : ℕ
  value : ι → W
  start_lt : start < attempt
  attempt_lt : attempt < finish
  finish_lt : finish < e.length
  called : e.act start = .callLoad r
  attempted : e.act attempt = .loadSeq1 r
  returned : e.act finish = .loadSeq2 r (some value)
  same_call : ∀ k, start < k → k < finish → e.act k ≠ .callLoad r
  same_attempt : ∀ k, attempt < k → k < finish → e.act k ≠ .loadSeq1 r

/-- The number of stores completed between the two `seq_` reads of the successful attempt. -/
def Load.storesBetween [DecidableEq ι] [Fintype ι] [DecidableEq R] {init : ι → W}
    {e : Execution (system (R := R) init)} {r : R}
    (l : Load e r) : ℕ :=
  (e.state l.finish).completed.length - (e.state l.attempt).completed.length

/-! ### The writer -/

/-- `1` while `data_` is being written. -/
def WriterPc.phase : WriterPc ι W → ℕ
  | .copying _ _ _ => 1
  | _ => 0

/-- The unbounded sequence counter. -/
def ticks (s : State ι W R) : ℕ := 2 * s.completed.length + s.writer.phase

/-- What the writer's position says about `data_` and its copy of `seq_`. -/
def WriterOk (init : ι → W) (s : State ι W R) : Prop :=
  match s.writer with
  | .idle => s.data = lastStored init s
  | .called _ => s.data = lastStored init s
  | .loaded _ n => n = s.seq ∧ s.data = lastStored init s
  | .copying v n done => n + 1 = s.seq ∧ ∀ i ∈ done, s.data i = v i

/-- `seq_` shows the counter, and `data_` is whole unless the counter is odd. -/
structure Inv (init : ι → W) (s : State ι W R) : Prop where
  seq_eq : s.seq = UInt32.ofNat (ticks s)
  writer_ok : WriterOk init s

@[simp] theorem move_reader [DecidableEq R] (s : State ι W R) (r : R) (pc : ReaderPc ι W) :
    (s.move r pc).reader r = pc := by simp [State.move]

theorem move_reader_ne [DecidableEq R] (s : State ι W R) {r r' : R} (pc : ReaderPc ι W)
    (h : r' ≠ r) : (s.move r pc).reader r' = s.reader r' := by simp [State.move, h]

theorem Inv.move [DecidableEq R] {init : ι → W} {s : State ι W R} (h : Inv init s) (r : R)
    (pc : ReaderPc ι W) : Inv init (s.move r pc) := ⟨h.seq_eq, h.writer_ok⟩

theorem Inv.data_eq {init : ι → W} {s : State ι W R} (h : Inv init s) (hp : s.writer.phase = 0) :
    s.data = lastStored init s := by
  have hw := h.writer_ok
  unfold WriterOk at hw
  cases hpc : s.writer with
  | idle => rw [hpc] at hw; exact hw
  | called v => rw [hpc] at hw; exact hw
  | loaded v n => rw [hpc] at hw; exact hw.2
  | copying v n done => rw [hpc] at hp; cases hp

theorem Inv.even_iff {init : ι → W} {s : State ι W R} (h : Inv init s) :
    s.seq &&& 1 = 0 ↔ s.writer.phase = 0 := by
  have hp : s.writer.phase ≤ 1 := by cases s.writer <;> simp [WriterPc.phase]
  rw [h.seq_eq, ← UInt32.toNat_inj]
  simp only [UInt32.toNat_and, UInt32.toNat_ofNat', UInt32.toNat_one, UInt32.toNat_zero,
    Nat.and_one_is_mod, ticks]
  omega

theorem init_inv {init : ι → W} : Inv init (⟨0, init, .idle, fun _ => .idle, []⟩ : State ι W R) :=
  ⟨rfl, rfl⟩

variable [DecidableEq ι] [Fintype ι] [DecidableEq R]

theorem step_inv {init : ι → W} {s s' : State ι W R} {a : Action ι W R} (hi : Inv init s)
    (h : Step s a s') : Inv init s' := by
  have hw := hi.writer_ok
  have hseq := hi.seq_eq
  unfold WriterOk at hw
  cases h with
  | callStore v hpc =>
      rw [hpc] at hw
      exact ⟨by simpa [ticks, WriterPc.phase, hpc] using hseq, hw⟩
  | loadSeq hpc =>
      rw [hpc] at hw
      exact ⟨by simpa [ticks, WriterPc.phase, hpc] using hseq, rfl, hw⟩
  | storeOdd hpc =>
      rw [hpc] at hw
      obtain ⟨rfl, -⟩ := hw
      refine ⟨?_, rfl, fun i hi => by simp at hi⟩
      simp only [ticks, WriterPc.phase, hpc, add_zero] at hseq ⊢
      rw [hseq, UInt32.ofNat_add]
      rfl
  | @writeWord v n done i hpc hin =>
      rw [hpc] at hw
      obtain ⟨hn, hdone⟩ := hw
      refine ⟨by simpa [ticks, WriterPc.phase, hpc] using hseq, hn, fun k hk => ?_⟩
      by_cases hki : k = i
      · subst hki; simp
      · have : k ∈ done := by simpa [hki] using hk
        simpa [Function.update_of_ne hki] using hdone k this
  | storeEven hpc =>
      rw [hpc] at hw
      obtain ⟨hn, hdone⟩ := hw
      refine ⟨?_, ?_⟩
      · simp only [ticks, WriterPc.phase, hpc, add_zero, List.length_append, List.length_cons,
          List.length_nil, Nat.zero_add] at hseq ⊢
        have e : 2 * (s.completed.length + 1) = (2 * s.completed.length + 1) + 1 := by omega
        rw [e, UInt32.ofNat_add, ← hseq, ← hn, UInt32.add_assoc]
        rfl
      · show s.data = _
        funext i
        simpa [lastStored] using hdone i (Finset.mem_univ i)
  | callLoad _ => exact hi.move _ _
  | loadSeq1Odd _ _ => exact hi
  | loadSeq1Even _ _ _ => exact hi.move _ _
  | readWord _ _ => exact hi.move _ _
  | loadSeq2Same _ _ => exact hi.move _ _
  | loadSeq2Diff _ _ => exact hi.move _ _

/-- Stores complete one after another, and the counter never goes back. -/
def Later (s s' : State ι W R) : Prop := s.completed <+: s'.completed ∧ ticks s ≤ ticks s'

theorem step_later {s s' : State ι W R} {a : Action ι W R} (h : Step s a s') : Later s s' := by
  cases h with
  | storeOdd hpc => exact ⟨List.prefix_rfl, by simp [ticks, WriterPc.phase, hpc]⟩
  | storeEven hpc =>
      refine ⟨List.prefix_append _ _, ?_⟩
      simp only [ticks, WriterPc.phase, hpc, List.length_append, List.length_cons, List.length_nil]
      omega
  | callStore v hpc => exact ⟨List.prefix_rfl, by simp [ticks, WriterPc.phase, hpc]⟩
  | loadSeq hpc => exact ⟨List.prefix_rfl, by simp [ticks, WriterPc.phase, hpc]⟩
  | writeWord hpc _ => exact ⟨List.prefix_rfl, by simp [ticks, WriterPc.phase, hpc]⟩
  | callLoad _ => exact ⟨List.prefix_rfl, le_rfl⟩
  | loadSeq1Odd _ _ => exact ⟨List.prefix_rfl, le_rfl⟩
  | loadSeq1Even _ _ _ => exact ⟨List.prefix_rfl, le_rfl⟩
  | readWord _ _ => exact ⟨List.prefix_rfl, le_rfl⟩
  | loadSeq2Same _ _ => exact ⟨List.prefix_rfl, le_rfl⟩
  | loadSeq2Diff _ _ => exact ⟨List.prefix_rfl, le_rfl⟩

/-! ### A reader's attempt -/

variable {init : ι → W}

/-- What reader `r` has copied since it read `seq_` in `s₀`: unless the counter has moved, the
words of the value stored last. -/
def CopyOk (init : ι → W) (s₀ : State ι W R) (r : R) (s : State ι W R) : Prop :=
  match s.reader r with
  | .copying s1 snap done =>
      s₀.writer.phase = 0 ∧ s1 = s₀.seq ∧
        (ticks s = ticks s₀ → ∀ i ∈ done, snap i = lastStored init s₀ i)
  | _ => True

omit [DecidableEq ι] [Fintype ι] [DecidableEq R] in
theorem CopyOk.of_reader_eq {s₀ s s' : State ι W R} {r : R} (h : CopyOk init s₀ r s)
    (hr : s'.reader r = s.reader r) (ht : ticks s' = ticks s₀ → ticks s = ticks s₀) :
    CopyOk init s₀ r s' := by
  unfold CopyOk at h ⊢
  rw [hr]
  cases hpc : s.reader r with
  | idle => trivial
  | looping => trivial
  | copying s1 snap done =>
      rw [hpc] at h
      exact ⟨h.1, h.2.1, fun he => h.2.2 (ht he)⟩

omit [DecidableEq ι] [Fintype ι] in
theorem CopyOk.of_move_ne {s₀ s : State ι W R} {r r' : R} {pc : ReaderPc ι W}
    (h : CopyOk init s₀ r s) (hr : r ≠ r') : CopyOk init s₀ r (s.move r' pc) :=
  h.of_reader_eq (move_reader_ne s pc hr) fun he => he

omit [DecidableEq ι] [Fintype ι] in
theorem CopyOk.leave {s₀ s : State ι W R} {r r' : R} {pc : ReaderPc ι W}
    (h : CopyOk init s₀ r s) (hpc : pc = .idle ∨ pc = .looping) :
    CopyOk init s₀ r (s.move r' pc) := by
  by_cases hr : r = r'
  · subst hr
    rcases hpc with rfl | rfl <;> simp [CopyOk]
  · exact h.of_move_ne hr

omit [DecidableEq ι] [Fintype ι] [DecidableEq R] in
theorem completed_eq {s₀ s : State ι W R} (hp : s₀.writer.phase = 0) (hl : Later s₀ s)
    (ht : ticks s = ticks s₀) : s.completed = s₀.completed ∧ s.writer.phase = 0 := by
  have hlen := hl.1.length_le
  simp only [ticks, hp] at ht
  exact ⟨(hl.1.eq_of_length_le (by omega)).symm, by omega⟩

/-- Every step but the next `s1 = seq_.load()` keeps `CopyOk`. -/
theorem step_copyOk {s₀ s s' : State ι W R} {a : Action ι W R} {r : R} (hi : Inv init s)
    (hl : Later s₀ s) (hc : CopyOk init s₀ r s) (h : Step s a s') (ha : a ≠ .loadSeq1 r) :
    CopyOk init s₀ r s' := by
  have hle := (step_later h).2
  have hback : ticks s' = ticks s₀ → ticks s = ticks s₀ := fun he => by have := hl.2; omega
  cases h with
  | callStore v _ => exact hc.of_reader_eq rfl hback
  | loadSeq _ => exact hc.of_reader_eq rfl hback
  | storeOdd _ => exact hc.of_reader_eq rfl hback
  | writeWord _ _ => exact hc.of_reader_eq rfl hback
  | storeEven _ => exact hc.of_reader_eq rfl hback
  | callLoad _ => exact hc.leave (.inr rfl)
  | loadSeq1Odd _ _ => exact hc
  | @loadSeq1Even r' _ _ _ =>
      have hr : r ≠ r' := fun he => ha (by rw [he])
      exact hc.of_move_ne hr
  | @readWord r' s1 snap done i hpc _ =>
      by_cases hr : r = r'
      · subst hr
        unfold CopyOk at hc ⊢
        rw [hpc] at hc
        rw [move_reader]
        obtain ⟨hp, hs1, hwords⟩ := hc
        refine ⟨hp, hs1, fun he k hk => ?_⟩
        -- the counter has not moved, so `data_` is the value stored last
        obtain ⟨hcomp, hphase⟩ := completed_eq hp hl he
        have hdata : s.data = lastStored init s₀ := by
          rw [hi.data_eq hphase, lastStored, lastStored, hcomp]
        by_cases hki : k = i
        · subst hki; simp [hdata]
        · have hkd : k ∈ done := by simpa [hki] using hk
          simpa [Function.update_of_ne hki] using hwords he k hkd
      · exact hc.of_move_ne hr
  | loadSeq2Same _ _ => exact hc.leave (.inl rfl)
  | loadSeq2Diff _ _ => exact hc.leave (.inr rfl)

/-! ### Runs -/

variable (e : Execution (system (R := R) init))

theorem run_inv {i : ℕ} (hi : i ≤ e.length) : Inv init (e.state i) :=
  e.invariant (fun s hs => by rw [show s = _ from hs]; exact init_inv)
    (fun _ _ _ h hs => step_inv h hs) i hi

theorem run_later {i j : ℕ} (hij : i ≤ j) (hj : j ≤ e.length) : Later (e.state i) (e.state j) :=
  e.related (r := Later) (fun _ => ⟨List.prefix_rfl, le_rfl⟩)
    (fun _ _ _ h h' => ⟨h.1.trans h'.1, h.2.trans h'.2⟩) (fun _ _ _ h => step_later h) hij hj

/-- The first `seq_` read of an attempt starts a copy only when it is even. -/
theorem attempt_copyOk {s s' : State ι W R} {r : R} (hi : Inv init s)
    (h : Step s (.loadSeq1 r) s') : CopyOk init s r s' := by
  cases h with
  | loadSeq1Odd hpc _ => simp [CopyOk, hpc]
  | loadSeq1Even _ _ he => simp [CopyOk, hi.even_iff.mp he]

theorem returned_reader {s s' : State ι W R} {r : R} {v : ι → W}
    (h : Step s (.loadSeq2 r (some v)) s') : s.reader r = .copying s.seq v Finset.univ := by
  cases h with
  | loadSeq2Same hpc hs1 => rw [hpc, hs1]

/-- **The snapshot of a load** is the value stored last when its successful attempt began. -/
theorem load_value {r : R} (l : Load e r) (hn : l.storesBetween < 2 ^ 31) :
    l.value = lastStored init (e.state l.attempt) := by
  have hstart := l.attempt_lt
  have hend := l.finish_lt
  have hcopy : CopyOk init (e.state l.attempt) r (e.state l.finish) := by
    have hfirst := e.step l.attempt (by omega)
    rw [l.attempted] at hfirst
    refine e.segment (attempt_copyOk (run_inv e (by omega)) hfirst) l.finish (by omega)
      (by omega) fun k hk hkf hc => ?_
    exact step_copyOk (run_inv e (by omega)) (run_later e (by omega) (by omega)) hc
      (e.step k (by omega)) (l.same_attempt k (by omega) hkf)
  have hlast := e.step l.finish hend
  rw [l.returned] at hlast
  unfold CopyOk at hcopy
  rw [returned_reader hlast] at hcopy
  obtain ⟨hp, hseq, hwords⟩ := hcopy
  -- equal values of `seq_`, and fewer than `2^31` stores: the counter has not moved
  have hmod := congrArg UInt32.toNat hseq
  rw [(run_inv e (by omega)).seq_eq, (run_inv e (by omega)).seq_eq, UInt32.toNat_ofNat',
    UInt32.toNat_ofNat'] at hmod
  have hle : ticks (e.state l.attempt) ≤ ticks (e.state l.finish) :=
    (run_later e (by omega) (by omega)).2
  have hphase : (e.state l.finish).writer.phase ≤ 1 := by
    cases (e.state l.finish).writer <;> simp [WriterPc.phase]
  have hticks : ticks (e.state l.finish) = ticks (e.state l.attempt) := by
    simp only [Load.storesBetween] at hn
    simp only [ticks, hp] at hmod hle ⊢
    omega
  exact funext fun i => hwords hticks i (Finset.mem_univ i)

/-! ### Every return belongs to a load -/

def ReaderPc.isCopying : ReaderPc ι W → Prop
  | .copying _ _ _ => True
  | _ => False

/-- How a step moves reader `r`: a call, an attempt, or nothing that starts either. -/
theorem step_reader {s s' : State ι W R} {a : Action ι W R} (h : Step s a s') (r : R) :
    a = .callLoad r ∧ s'.reader r = .looping ∨
      a = .loadSeq1 r ∧ s.reader r = .looping ∨
      (a ≠ .callLoad r ∧ a ≠ .loadSeq1 r) ∧ (s'.reader r ≠ .idle → s.reader r ≠ .idle) ∧
        ((s'.reader r).isCopying → (s.reader r).isCopying) := by
  have hsame : ∀ (r' : R) (pc : ReaderPc ι W), r ≠ r' →
      ((s.move r' pc).reader r ≠ .idle → s.reader r ≠ .idle) ∧
        (((s.move r' pc).reader r).isCopying → (s.reader r).isCopying) := by
    intro r' pc hr
    rw [move_reader_ne s pc hr]
    exact ⟨id, id⟩
  cases h with
  | callStore v _ => exact .inr (.inr ⟨⟨by simp, by simp⟩, id, id⟩)
  | loadSeq _ => exact .inr (.inr ⟨⟨by simp, by simp⟩, id, id⟩)
  | storeOdd _ => exact .inr (.inr ⟨⟨by simp, by simp⟩, id, id⟩)
  | writeWord _ _ => exact .inr (.inr ⟨⟨by simp, by simp⟩, id, id⟩)
  | storeEven _ => exact .inr (.inr ⟨⟨by simp, by simp⟩, id, id⟩)
  | @callLoad r' _ =>
      by_cases hr : r = r'
      · subst hr
        exact .inl ⟨rfl, by simp⟩
      · exact .inr (.inr ⟨⟨by simpa using Ne.symm hr, by simp⟩, hsame r' _ hr⟩)
  | @loadSeq1Odd r' hpc _ =>
      by_cases hr : r = r'
      · subst hr
        exact .inr (.inl ⟨rfl, hpc⟩)
      · exact .inr (.inr ⟨⟨by simp, by simpa using Ne.symm hr⟩, id, id⟩)
  | @loadSeq1Even r' _ hpc _ =>
      by_cases hr : r = r'
      · subst hr
        exact .inr (.inl ⟨rfl, hpc⟩)
      · exact .inr (.inr ⟨⟨by simp, by simpa using Ne.symm hr⟩, hsame r' _ hr⟩)
  | @readWord r' s1 snap done i hpc _ =>
      by_cases hr : r = r'
      · subst hr
        exact .inr (.inr ⟨⟨by simp, by simp⟩, by simp [hpc], by simp [hpc, ReaderPc.isCopying]⟩)
      · exact .inr (.inr ⟨⟨by simp, by simp⟩, hsame r' _ hr⟩)
  | @loadSeq2Same r' s1 snap hpc _ =>
      by_cases hr : r = r'
      · subst hr
        exact .inr (.inr ⟨⟨by simp, by simp⟩, by simp, by simp [ReaderPc.isCopying]⟩)
      · exact .inr (.inr ⟨⟨by simp, by simp⟩, hsame r' _ hr⟩)
  | @loadSeq2Diff r' s1 snap hpc _ =>
      by_cases hr : r = r'
      · subst hr
        exact .inr (.inr ⟨⟨by simp, by simp⟩, by simp [hpc], by simp [ReaderPc.isCopying]⟩)
      · exact .inr (.inr ⟨⟨by simp, by simp⟩, hsame r' _ hr⟩)

theorem exists_call (r : R) : ∀ k, k ≤ e.length → (e.state k).reader r ≠ .idle →
    ∃ i, i < k ∧ e.act i = .callLoad r ∧ ∀ j, i < j → j < k → e.act j ≠ .callLoad r := by
  intro k
  induction k with
  | zero =>
      intro _ hne
      have h0 : e.state 0 = _ := e.init
      rw [h0] at hne
      exact absurd rfl hne
  | succ k ih =>
      intro hk hne
      rcases step_reader (e.step k (by omega)) r with ⟨ha, -⟩ | ⟨ha, hpc⟩ | ⟨⟨ha, -⟩, hidle, -⟩
      · exact ⟨k, by omega, ha, fun j h1 h2 => by omega⟩
      · obtain ⟨i, hi, hcall, hlast⟩ := ih (by omega) (by simp [hpc])
        refine ⟨i, by omega, hcall, fun j h1 h2 => ?_⟩
        rcases Nat.lt_succ_iff_lt_or_eq.mp h2 with h3 | rfl
        · exact hlast j h1 h3
        · rw [ha]; simp
      · obtain ⟨i, hi, hcall, hlast⟩ := ih (by omega) (hidle hne)
        refine ⟨i, by omega, hcall, fun j h1 h2 => ?_⟩
        rcases Nat.lt_succ_iff_lt_or_eq.mp h2 with h3 | rfl
        · exact hlast j h1 h3
        · exact ha

theorem exists_attempt (r : R) : ∀ k, k ≤ e.length → ((e.state k).reader r).isCopying →
    ∃ i m, i < m ∧ m < k ∧ e.act i = .callLoad r ∧ e.act m = .loadSeq1 r ∧
      (∀ j, i < j → j < k → e.act j ≠ .callLoad r) ∧
      ∀ j, m < j → j < k → e.act j ≠ .loadSeq1 r := by
  intro k
  induction k with
  | zero =>
      intro _ hcopy
      have h0 : e.state 0 = _ := e.init
      rw [h0] at hcopy
      exact absurd hcopy (by simp [ReaderPc.isCopying])
  | succ k ih =>
      intro hk hcopy
      rcases step_reader (e.step k (by omega)) r with ⟨-, hpc⟩ | ⟨ha, hpc⟩ | ⟨⟨ha, ha'⟩, -, hc⟩
      · rw [hpc] at hcopy
        exact absurd hcopy (by simp [ReaderPc.isCopying])
      · obtain ⟨i, hi, hcall, hlast⟩ := exists_call e r k (by omega) (by simp [hpc])
        refine ⟨i, k, hi, by omega, hcall, ha, fun j h1 h2 => ?_, fun j h1 h2 => by omega⟩
        rcases Nat.lt_succ_iff_lt_or_eq.mp h2 with h3 | rfl
        · exact hlast j h1 h3
        · rw [ha]; simp
      · obtain ⟨i, m, him, hm, hcall, hatt, hlast, hlast'⟩ := ih (by omega) (hc hcopy)
        refine ⟨i, m, him, by omega, hcall, hatt, fun j h1 h2 => ?_, fun j h1 h2 => ?_⟩
        · rcases Nat.lt_succ_iff_lt_or_eq.mp h2 with h3 | rfl
          · exact hlast j h1 h3
          · exact ha
        · rcases Nat.lt_succ_iff_lt_or_eq.mp h2 with h3 | rfl
          · exact hlast' j h1 h3
          · exact ha'

theorem exists_load {r : R} {k : ℕ} {v : ι → W} (hk : k < e.length)
    (h : e.act k = .loadSeq2 r (some v)) : ∃ l : Load e r, l.finish = k ∧ l.value = v := by
  have hcopy : ((e.state k).reader r).isCopying := by
    have hs := e.step k hk
    rw [h] at hs
    simp [returned_reader hs, ReaderPc.isCopying]
  obtain ⟨i, m, him, hm, hcall, hatt, hlast, hlast'⟩ := exists_attempt e r k (by omega) hcopy
  exact ⟨⟨i, m, k, v, him, hm, hk, hcall, hatt, h, hlast, hlast'⟩, rfl, rfl⟩

/-- **Snapshot consistency.**  In every run of one writer and any number of readers, every
`load()` that returns is a `Load`; one during whose last attempt fewer than `2^31` stores
complete returns the value of the last completed store at an instant of the load; and of two
successive loads of one reader the second returns the value at a later instant, so never that
of an older store. -/
theorem load_linearizable (init : ι → W) (e : Execution (system (R := R) init)) (r : R) :
    (∀ k v, k < e.length → e.act k = .loadSeq2 r (some v) →
      ∃ l : Load e r, l.finish = k ∧ l.value = v) ∧
    (∀ l : Load e r, l.storesBetween < 2 ^ 31 →
      ∃ t, l.start ≤ t ∧ t ≤ l.finish ∧ l.value = lastStored init (e.state t)) ∧
    ∀ l l' : Load e r, l.finish < l'.start → l.storesBetween < 2 ^ 31 →
      l'.storesBetween < 2 ^ 31 →
      ∃ t t', l.start ≤ t ∧ t ≤ l.finish ∧ l'.start ≤ t' ∧ t' ≤ l'.finish ∧
        l.value = lastStored init (e.state t) ∧ l'.value = lastStored init (e.state t') ∧
        (e.state t).completed <+: (e.state t').completed := by
  refine ⟨fun k v hk h => exists_load e hk h, fun l hl => ?_, fun l l' hll hl hl' => ?_⟩
  · have h1 := l.start_lt
    have h2 := l.attempt_lt
    exact ⟨l.attempt, by omega, by omega, load_value e l hl⟩
  · have h1 := l.start_lt
    have h2 := l.attempt_lt
    have h3 := l'.start_lt
    have h4 := l'.attempt_lt
    have h5 := l'.finish_lt
    exact ⟨l.attempt, l'.attempt, by omega, by omega, by omega, by omega, load_value e l hl,
      load_value e l' hl', (run_later e (by omega) (by omega)).1⟩

end SeqLocked
end Qub
