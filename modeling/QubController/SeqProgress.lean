import Mathlib.Tactic.IntervalCases
import QubController.SeqLocked

/-! # Progress of the seqlock

The header promises that the writer is never blocked, and that a reader only waits for the one
writer.  `store_wait_free`: a `store` takes one access for each word and three more, whatever the
readers do, and as long as it is not done the writer can make its next access.  `load_progress`:
a `load` makes as many accesses for each store that begins to write meanwhile, and as many once
more; only the reads of an odd `seq_` are not counted, and they happen while `data_` is being
written. -/

namespace Qub
namespace SeqLocked

variable {ι W R : Type}

/-- `generation()`. -/
def State.generation (s : State ι W R) : UInt32 := s.seq >>> 1

def Action.ofWriter : Action ι W R → Bool
  | .loadSeq => true
  | .storeOdd => true
  | .writeWord _ => true
  | .storeEven => true
  | _ => false

def Action.ofReader [DecidableEq R] (r : R) : Action ι W R → Bool
  | .loadSeq1 r' => r' = r
  | .readWord r' _ => r' = r
  | .loadSeq2 r' _ => r' = r
  | _ => false

/-- Reader `r` finds `seq_` odd. -/
def spins [DecidableEq R] (r : R) (s : State ι W R) : Action ι W R → Bool
  | .loadSeq1 r' => r' = r && s.seq &&& 1 != 0
  | _ => false

/-- Reader `r` makes an access that it does not repeat at once. -/
def advances [DecidableEq R] (r : R) (s : State ι W R) (a : Action ι W R) : Bool :=
  a.ofReader r && !spins r s a

/-- The number of stores that have begun to write. -/
def begun (s : State ι W R) : ℕ := s.completed.length + s.writer.phase

section remaining
variable [Fintype ι]

/-- The accesses that the writer has still to make. -/
def WriterPc.remaining : WriterPc ι W → ℕ
  | .idle => 0
  | .called _ => Fintype.card ι + 3
  | .loaded _ _ => Fintype.card ι + 2
  | .copying _ _ done => Fintype.card ι - done.card + 1

/-- The accesses that a reader has still to make if no store begins. -/
def ReaderPc.remaining (seq : UInt32) : ReaderPc ι W → ℕ
  | .idle => 0
  | .looping => Fintype.card ι + 2
  | .copying s1 _ done =>
      Fintype.card ι - done.card + 1 + (if s1 = seq then 0 else Fintype.card ι + 2)

theorem card_sub_insert [DecidableEq ι] {done : Finset ι} {i : ι} (h : i ∉ done) :
    Fintype.card ι - (insert i done).card + 1 = Fintype.card ι - done.card := by
  have hcard := Finset.card_insert_of_notMem h
  have hle := Finset.card_le_univ (insert i done)
  omega

end remaining

/-! ### The writer -/

/-- The writer is in `store(v)`, or it is the last store that is done; `before` was done before. -/
def Serving (v : ι → W) (before : List (ι → W)) (s : State ι W R) : Prop :=
  match s.writer with
  | .idle => s.completed = before ++ [v]
  | .called w => w = v ∧ s.completed = before
  | .loaded w _ => w = v ∧ s.completed = before
  | .copying w _ _ => w = v ∧ s.completed = before

variable [DecidableEq ι] [Fintype ι] [DecidableEq R]

theorem step_serving {v : ι → W} {before : List (ι → W)} {s s' : State ι W R}
    {a : Action ι W R} (hs : Serving v before s) (h : Step s a s') (ha : ∀ w, a ≠ .callStore w) :
    Serving v before s' := by
  unfold Serving at hs
  cases h with
  | callStore w _ => exact absurd rfl (ha w)
  | loadSeq hpc => rw [hpc] at hs; exact hs
  | storeOdd hpc => rw [hpc] at hs; exact hs
  | writeWord hpc _ => rw [hpc] at hs; exact hs
  | storeEven hpc =>
      rw [hpc] at hs
      obtain ⟨rfl, rfl⟩ := hs
      rfl
  | callLoad _ => exact hs
  | loadSeq1Odd _ _ => exact hs
  | loadSeq1Even _ _ _ => exact hs
  | readWord _ _ => exact hs
  | loadSeq2Same _ _ => exact hs
  | loadSeq2Diff _ _ => exact hs

/-- Each access of the writer brings the store one access closer to its end; a reader's leaves
it where it was. -/
theorem step_writer_remaining {s s' : State ι W R} {a : Action ι W R} (h : Step s a s')
    (ha : ∀ w, a ≠ .callStore w) :
    (if a.ofWriter then 1 else 0) + s'.writer.remaining = s.writer.remaining := by
  cases h with
  | callStore w _ => exact absurd rfl (ha w)
  | loadSeq hpc =>
      simp only [hpc, Action.ofWriter, WriterPc.remaining, if_true]
      omega
  | storeOdd hpc =>
      simp only [hpc, Action.ofWriter, WriterPc.remaining, Finset.card_empty, if_true]
      omega
  | writeWord hpc hi =>
      have hcard := card_sub_insert hi
      simp only [hpc, Action.ofWriter, WriterPc.remaining, if_true]
      omega
  | storeEven hpc =>
      simp only [hpc, Action.ofWriter, WriterPc.remaining, Finset.card_univ, if_true]
      omega
  | callLoad _ => exact Nat.zero_add _
  | loadSeq1Odd _ _ => exact Nat.zero_add _
  | loadSeq1Even _ _ _ => exact Nat.zero_add _
  | readWord _ _ => exact Nat.zero_add _
  | loadSeq2Same _ _ => exact Nat.zero_add _
  | loadSeq2Diff _ _ => exact Nat.zero_add _

theorem exists_notMem_of_ne_univ {done : Finset ι} (h : done ≠ Finset.univ) : ∃ i, i ∉ done := by
  by_contra hall
  push Not at hall
  exact h (Finset.eq_univ_of_forall hall)

/-- No reader can keep the writer from its next access. -/
theorem writer_enabled {s : State ι W R} (h : s.writer ≠ .idle) :
    ∃ a s', a.ofWriter = true ∧ Step s a s' := by
  cases hpc : s.writer with
  | idle => exact absurd hpc h
  | called v => exact ⟨_, _, rfl, .loadSeq hpc⟩
  | loaded v n => exact ⟨_, _, rfl, .storeOdd hpc⟩
  | copying v n done =>
      by_cases hdone : done = Finset.univ
      · subst hdone
        exact ⟨_, _, rfl, .storeEven hpc⟩
      · obtain ⟨i, hi⟩ := exists_notMem_of_ne_univ hdone
        exact ⟨_, _, rfl, .writeWord hpc hi⟩

omit [DecidableEq ι] [Fintype ι] [DecidableEq R] in
/-- `generation()` counts the completed stores. -/
theorem Inv.generation {init : ι → W} {s : State ι W R} (h : Inv init s) :
    s.generation.toNat = s.completed.length % 2 ^ 31 := by
  have hphase : s.writer.phase ≤ 1 := by cases s.writer <;> simp [WriterPc.phase]
  have hone : (1 : UInt32).toNat % 32 = 1 := rfl
  rw [State.generation, h.seq_eq, UInt32.toNat_shiftRight, UInt32.toNat_ofNat', hone,
    Nat.shiftRight_eq_div_pow, ticks]
  omega

/-- **A store is wait-free.**  From its call on, in any interleaving with any number of readers,
the writer's accesses and those it has still to make are one for each word and three more.  When
it is done its value is the next completed one and `data_` holds it; until then nothing is
completed and the writer can make its next access.  `generation()` counts the completed stores at
every instant, during a store too. -/
theorem store_wait_free (init : ι → W) (e : Execution (system (R := R) init)) {i j : ℕ} {v : ι → W}
    (hij : i < j) (hj : j ≤ e.length) (hcall : e.act i = .callStore v)
    (hsame : ∀ k, i < k → k < j → ∀ w, e.act k ≠ .callStore w) :
    e.count (fun _ a => a.ofWriter) (i + 1) j + (e.state j).writer.remaining =
        Fintype.card ι + 3 ∧
      ((e.state j).writer = .idle →
        (e.state j).completed = (e.state i).completed ++ [v] ∧ (e.state j).data = v) ∧
      ((e.state j).writer ≠ .idle → (e.state j).completed = (e.state i).completed ∧
        ∃ a s', a.ofWriter = true ∧ Step (e.state j) a s') ∧
      (e.state j).generation.toNat = (e.state j).completed.length % 2 ^ 31 := by
  have hfirst := e.step i (by omega)
  rw [hcall] at hfirst
  have hstart : (e.state (i + 1)).writer = .called v ∧
      (e.state (i + 1)).completed = (e.state i).completed := by
    generalize e.state (i + 1) = s' at hfirst
    cases hfirst with
    | callStore _ _ => exact ⟨rfl, rfl⟩
  have hserving : Serving v (e.state i).completed (e.state j) := by
    refine e.segment (i := i + 1) ?_ j (by omega) hj fun k hk hkj hs => ?_
    · rw [Serving, hstart.1]
      exact ⟨rfl, hstart.2⟩
    · exact step_serving hs (e.step k (by omega)) (hsame k (by omega) hkj)
  refine ⟨?_, fun hidle => ?_, fun hbusy => ?_, (run_inv e hj).generation⟩
  · rw [e.count_add_eq (fun s => s.writer.remaining) (by omega) hj fun k hk hkj =>
      step_writer_remaining (e.step k (by omega)) (hsame k (by omega) hkj), hstart.1]
    rfl
  · rw [Serving, hidle] at hserving
    refine ⟨hserving, ?_⟩
    rw [(run_inv e hj).data_eq (by rw [hidle]; rfl), lastStored, hserving]
    simp
  · refine ⟨?_, writer_enabled hbusy⟩
    unfold Serving at hserving
    cases hpc : (e.state j).writer with
    | idle => exact absurd hpc hbusy
    | called w => rw [hpc] at hserving; exact hserving.2
    | loaded w n => rw [hpc] at hserving; exact hserving.2
    | copying w n done => rw [hpc] at hserving; exact hserving.2

/-! ### The readers -/

/-- A copy begins at an even value of `seq_`. -/
def EvenCopies (s : State ι W R) : Prop :=
  ∀ r s1 snap done, s.reader r = .copying s1 snap done → s1 &&& 1 = 0

theorem step_evenCopies {s s' : State ι W R} {a : Action ι W R} (hs : EvenCopies s)
    (h : Step s a s') : EvenCopies s' := by
  have hmove : ∀ (r : R) (pc : ReaderPc ι W),
      (∀ s1 snap done, pc = .copying s1 snap done → s1 &&& 1 = 0) → EvenCopies (s.move r pc) := by
    intro r pc hpc r' s1 snap done hr'
    by_cases hr : r' = r
    · subst hr
      exact hpc s1 snap done (by rw [← hr', move_reader])
    · exact hs r' s1 snap done (by rw [← hr', move_reader_ne s pc hr])
  cases h with
  | callStore v _ => exact hs
  | loadSeq _ => exact hs
  | storeOdd _ => exact hs
  | writeWord _ _ => exact hs
  | storeEven _ => exact hs
  | callLoad _ => exact hmove _ _ (by simp)
  | loadSeq1Odd _ _ => exact hs
  | loadSeq1Even _ _ heven =>
      refine hmove _ _ fun s1 snap done heq => ?_
      obtain ⟨rfl, -, -⟩ := ReaderPc.copying.inj heq
      exact heven
  | readWord hpc _ =>
      refine hmove _ _ fun s1 snap done heq => ?_
      obtain ⟨rfl, -, -⟩ := ReaderPc.copying.inj heq
      exact hs _ _ _ _ hpc
  | loadSeq2Same _ _ => exact hmove _ _ (by simp)
  | loadSeq2Diff _ _ => exact hmove _ _ (by simp)

def left (r : R) (s : State ι W R) : ℕ := (s.reader r).remaining s.seq

omit [DecidableEq ι] [Fintype ι] in
@[simp] theorem begun_move (s : State ι W R) (r : R) (pc : ReaderPc ι W) :
    begun (s.move r pc) = begun s := rfl

omit [DecidableEq ι] in
@[simp] theorem left_move (s : State ι W R) (r : R) (pc : ReaderPc ι W) :
    left r (s.move r pc) = pc.remaining s.seq := by
  rw [left, move_reader]
  rfl

omit [DecidableEq ι] in
theorem left_move_ne {s : State ι W R} {r r' : R} (pc : ReaderPc ι W) (h : r ≠ r') :
    left r (s.move r' pc) = left r s := by
  rw [left, left, move_reader_ne s pc h]
  rfl

omit [DecidableEq ι] [Fintype ι] in
theorem advances_ne {s : State ι W R} {r r' : R} (h : r ≠ r') {a : Action ι W R}
    (ha : a.ofReader r' = true) : advances r s a = false := by
  have hnot : a.ofReader r = false := by
    cases a with
    | loadSeq1 r₁ => exact decide_eq_false fun heq => h (heq ▸ of_decide_eq_true ha)
    | readWord r₁ i => exact decide_eq_false fun heq => h (heq ▸ of_decide_eq_true ha)
    | loadSeq2 r₁ v => exact decide_eq_false fun heq => h (heq ▸ of_decide_eq_true ha)
    | _ => cases ha
  rw [advances, hnot, Bool.false_and]

/-- The invariant of one step for `left`: an access that reader `r` does not repeat lowers it by
one; only a store that begins to write raises it, by a whole attempt. -/
theorem step_left {init : ι → W} {s s' : State ι W R} {a : Action ι W R} {r : R}
    (hi : Inv init s) (heven : EvenCopies s) (h : Step s a s') (ha : a ≠ .callLoad r) :
    (if advances r s a then 1 else 0) + left r s' + (Fintype.card ι + 2) * begun s ≤
      left r s + (Fintype.card ι + 2) * begun s' := by
  have hother : ∀ {r' : R} {pc : ReaderPc ι W} {a : Action ι W R}, r ≠ r' →
      a.ofReader r' = true → (if advances r s a then 1 else 0) + left r (s.move r' pc) +
          (Fintype.card ι + 2) * begun s ≤
        left r s + (Fintype.card ι + 2) * begun (s.move r' pc) := by
    intro r' pc a hr hown
    rw [advances_ne hr hown, left_move_ne pc hr]
    simp
  cases h with
  | callStore v hpc => simp [advances, Action.ofReader, left, begun, WriterPc.phase, hpc]
  | loadSeq hpc => simp [advances, Action.ofReader, left, begun, WriterPc.phase, hpc]
  | @storeOdd v n hpc =>
      have hbegun :
          begun { s with seq := n + 1, writer := WriterPc.copying v n ∅ } = begun s + 1 := by
        simp [begun, WriterPc.phase, hpc]
      have hraise : left r { s with seq := n + 1, writer := WriterPc.copying v n ∅ } ≤
          left r s + (Fintype.card ι + 2) := by
        simp only [left]
        cases s.reader r with
        | idle => exact Nat.zero_le _
        | looping => exact Nat.le_add_right _ _
        | copying s1 snap done =>
            simp only [ReaderPc.remaining]
            split <;> split <;> omega
      rw [hbegun, Nat.mul_add]
      simp only [advances, Action.ofReader, Bool.false_and, Bool.false_eq_true, if_false]
      omega
  | writeWord hpc _ => simp [advances, Action.ofReader, left, begun, WriterPc.phase, hpc]
  | @storeEven v n hpc =>
      have hbegun : begun { s with
          seq := n + 2, writer := WriterPc.idle, completed := s.completed ++ [v] } = begun s := by
        simp [begun, WriterPc.phase, hpc]
      -- `seq_` is odd, so no copy was begun at its value
      have hodd : s.seq &&& 1 ≠ 0 := fun hzero => by
        have hphase := hi.even_iff.mp hzero
        rw [hpc] at hphase
        cases hphase
      have hraise : left r { s with
          seq := n + 2, writer := WriterPc.idle, completed := s.completed ++ [v] } ≤ left r s := by
        simp only [left]
        cases hr : s.reader r with
        | idle => exact le_rfl
        | looping => exact le_rfl
        | copying s1 snap done =>
            have hne : s1 ≠ s.seq := fun heq => hodd (heq ▸ heven r s1 snap done hr)
            simp only [ReaderPc.remaining, if_neg hne]
            split <;> omega
      rw [hbegun]
      simp only [advances, Action.ofReader, Bool.false_and, Bool.false_eq_true, if_false]
      omega
  | @callLoad r' _ =>
      have hr : r ≠ r' := fun heq => ha (by rw [heq])
      have hnot : advances r s (.callLoad r') = false := rfl
      rw [hnot, left_move_ne _ hr]
      simp
  | @loadSeq1Odd r' hpc hodd =>
      have hnot : advances r s (.loadSeq1 r') = false := by
        simp [advances, Action.ofReader, spins, hodd]
      rw [hnot]
      simp
  | @loadSeq1Even r' uninit hpc hzero =>
      by_cases hr : r = r'
      · subst hr
        have hown : advances r s (.loadSeq1 r) = true := by
          simp [advances, Action.ofReader, spins, hzero]
        rw [hown, left_move, begun_move, left, hpc]
        simp only [ReaderPc.remaining, Finset.card_empty, if_true]
        omega
      · exact hother hr (decide_eq_true rfl)
  | @readWord r' s1 snap done i hpc hin =>
      by_cases hr : r = r'
      · subst hr
        have hown : advances r s (.readWord r i) = true := by
          simp [advances, Action.ofReader, spins]
        have hcard := card_sub_insert hin
        rw [hown, left_move, begun_move, left, hpc]
        simp only [ReaderPc.remaining, if_true]
        omega
      · exact hother hr (decide_eq_true rfl)
  | @loadSeq2Same r' s1 snap hpc hs1 =>
      by_cases hr : r = r'
      · subst hr
        have hown : advances r s (.loadSeq2 r (some snap)) = true := by
          simp [advances, Action.ofReader, spins]
        rw [hown, left_move, begun_move, left, hpc]
        simp only [ReaderPc.remaining, if_true]
        omega
      · exact hother hr (decide_eq_true rfl)
  | @loadSeq2Diff r' s1 snap hpc hs1 =>
      by_cases hr : r = r'
      · subst hr
        have hown : advances r s (.loadSeq2 r none) = true := by
          simp [advances, Action.ofReader, spins]
        rw [hown, left_move, begun_move, left, hpc]
        simp only [ReaderPc.remaining, if_neg hs1, if_true]
        omega
      · exact hother hr (decide_eq_true rfl)

theorem run_evenCopies {init : ι → W} (e : Execution (system (R := R) init)) {i : ℕ}
    (hi : i ≤ e.length) : EvenCopies (e.state i) :=
  e.invariant (fun s hs => by rw [show s = _ from hs]; exact fun _ _ _ _ hr => nomatch hr)
    (fun _ _ _ h hs => step_evenCopies h hs) i hi

/-- A reader in `load` can always make its next access. -/
theorem reader_enabled {s : State ι W R} {r : R} (h : s.reader r ≠ .idle) :
    ∃ a s', a.ofReader r = true ∧ Step s a s' := by
  cases hpc : s.reader r with
  | idle => exact absurd hpc h
  | looping =>
      by_cases hzero : s.seq &&& 1 = 0
      · exact ⟨.loadSeq1 r, _, decide_eq_true rfl, .loadSeq1Even s.data hpc hzero⟩
      · exact ⟨.loadSeq1 r, _, decide_eq_true rfl, .loadSeq1Odd hpc hzero⟩
  | copying s1 snap done =>
      by_cases hdone : done = Finset.univ
      · subst hdone
        by_cases hs1 : s1 = s.seq
        · exact ⟨.loadSeq2 r (some snap), _, decide_eq_true rfl, .loadSeq2Same hpc hs1⟩
        · exact ⟨.loadSeq2 r none, _, decide_eq_true rfl, .loadSeq2Diff hpc hs1⟩
      · obtain ⟨i, hi⟩ := exists_notMem_of_ne_univ hdone
        exact ⟨.readWord r i, _, decide_eq_true rfl, .readWord hpc hi⟩

omit [DecidableEq ι] [Fintype ι] in
/-- An odd `seq_` shows a writer that is writing `data_`. -/
theorem writer_of_spins {init : ι → W} {s : State ι W R} (hi : Inv init s) {r : R}
    {a : Action ι W R} (h : spins r s a = true) : ∃ v n done, s.writer = .copying v n done := by
  have hodd : s.seq &&& 1 ≠ 0 := by
    cases a with
    | loadSeq1 r' => exact bne_iff_ne.mp (Bool.and_eq_true_iff.mp h).2
    | _ => cases h
  have hphase := mt hi.even_iff.mpr hodd
  cases hpc : s.writer with
  | copying v n done => exact ⟨v, n, done, rfl⟩
  | _ => exact absurd (by rw [hpc]; rfl) hphase

/-- **A load waits for stores only.**  From its call on, in any interleaving with the writer and
the other readers, a reader's accesses, its reads of an odd `seq_` apart, are at most one for each
word and two more, once and once again for each store that began to write meanwhile; it reads an
odd `seq_` only while the writer is writing `data_`; and as long as it has not returned it can make
its next access. -/
theorem load_progress (init : ι → W) (e : Execution (system (R := R) init)) (r : R) {i j : ℕ}
    (hij : i < j) (hj : j ≤ e.length) (hcall : e.act i = .callLoad r)
    (hsame : ∀ k, i < k → k < j → e.act k ≠ .callLoad r) :
    e.count (advances r) (i + 1) j ≤
        (Fintype.card ι + 2) * (begun (e.state j) - begun (e.state i) + 1) ∧
      (∀ k, i < k → k < j → spins r (e.state k) (e.act k) = true →
        ∃ v n done, (e.state k).writer = .copying v n done) ∧
      ((e.state j).reader r ≠ .idle →
        ∃ a s', a.ofReader r = true ∧ Step (e.state j) a s') := by
  have hfirst := e.step i (by omega)
  rw [hcall] at hfirst
  have hstart : left r (e.state (i + 1)) = Fintype.card ι + 2 ∧
      begun (e.state (i + 1)) = begun (e.state i) := by
    generalize e.state (i + 1) = s' at hfirst
    cases hfirst with
    | callLoad _ => exact ⟨left_move _ _ _, begun_move _ _ _⟩
  refine ⟨?_, fun k hk hkj hspin => ?_, reader_enabled⟩
  · have hcount := e.count_add_le (left r) begun (c := Fintype.card ι + 2) (by omega) hj
      fun k (hk : i + 1 ≤ k) hkj => step_left (run_inv e (by omega)) (run_evenCopies e (by omega))
        (e.step k (by omega)) (hsame k (by omega) hkj)
    rw [hstart.1, hstart.2] at hcount
    rw [Nat.mul_add, Nat.mul_sub, Nat.mul_one]
    omega
  · exact writer_of_spins (run_inv e (by omega)) hspin

/-! ### A load that a store crosses -/

abbrev small : TransitionSystem (State Unit ℕ Unit) (Action Unit ℕ Unit) := system fun _ => 7

def smallState (seq : UInt32) (word : ℕ) (writer : WriterPc Unit ℕ) (reader : ReaderPc Unit ℕ)
    (completed : List (Unit → ℕ)) : State Unit ℕ Unit :=
  ⟨seq, fun _ => word, writer, fun _ => reader, completed⟩

def eight : Unit → ℕ := fun _ => 8

def before (seq : UInt32) : ReaderPc Unit ℕ := .copying seq (fun _ => 0) ∅
def after (seq : UInt32) (word : ℕ) : ReaderPc Unit ℕ :=
  .copying seq (Function.update (fun _ => 0) () word) (insert () ∅)

/-- The reader is called, reads `seq_` and the word while a store begins, finds `seq_` changed,
reads it once while it is odd, and then gets the new value. -/
def crossedPath : Execution.Path small (smallState 0 7 .idle .idle []) :=
  .cons (smallState 0 7 .idle .looping []) (Step.callLoad (r := ()) rfl) <|
  .cons (smallState 0 7 .idle (before 0) [])
    (Step.loadSeq1Even (r := ()) (fun _ => 0) rfl rfl) <|
  .cons (smallState 0 7 (.called eight) (before 0) []) (Step.callStore eight rfl) <|
  .cons (smallState 0 7 (.loaded eight 0) (before 0) []) (Step.loadSeq rfl) <|
  .cons (smallState 1 7 (.copying eight 0 ∅) (before 0) [])
    (Step.storeOdd (v := eight) (n := 0) rfl) <|
  .cons (smallState 1 7 (.copying eight 0 ∅) (after 0 7) [])
    (Step.readWord (r := ()) (i := ()) rfl (Finset.notMem_empty _)) <|
  .cons (smallState 1 7 (.copying eight 0 ∅) .looping [])
    (Step.loadSeq2Diff (r := ()) rfl (by decide)) <|
  .cons (smallState 1 7 (.copying eight 0 ∅) .looping [])
    (Step.loadSeq1Odd (r := ()) rfl (by decide)) <|
  .cons (smallState 1 8 (.copying eight 0 (insert () ∅)) .looping [])
    (Step.writeWord (v := eight) (i := ()) rfl (Finset.notMem_empty _)) <|
  .cons (smallState 2 8 .idle .looping [eight]) (Step.storeEven (v := eight) (n := 0) rfl) <|
  .cons (smallState 2 8 .idle (before 2) [eight])
    (Step.loadSeq1Even (r := ()) (fun _ => 0) rfl rfl) <|
  .cons (smallState 2 8 .idle (after 2 8) [eight])
    (Step.readWord (r := ()) (i := ()) rfl (Finset.notMem_empty _)) <|
  .cons (smallState 2 8 .idle .idle [eight]) (Step.loadSeq2Same (r := ()) rfl rfl) .nil

def crossed : Execution small := crossedPath.execution .loadSeq rfl

theorem crossed_callLoad (k : ℕ) (hk : 0 < k) (hkj : k < 13) : crossed.act k ≠ .callLoad () := by
  interval_cases k <;> exact fun h => nomatch h

theorem crossed_callStore (k : ℕ) (hk : 2 < k) (hkj : k < 10) (w : Unit → ℕ) :
    crossed.act k ≠ .callStore w := by
  interval_cases k <;> exact fun h => nomatch h

/-- The load makes all the accesses of the bound: a second attempt for the one store. -/
theorem load_progress_crossed : crossed.count (advances ()) 1 13 = 6 ∧
    crossed.count (advances ()) 1 13 ≤
      3 * (begun (crossed.state 13) - begun (crossed.state 0) + 1) ∧
    ∃ v n done, (crossed.state 7).writer = .copying v n done := by
  obtain ⟨hcount, hspin, -⟩ :=
    load_progress _ crossed () (by decide : 0 < 13) le_rfl rfl crossed_callLoad
  exact ⟨by decide, hcount, hspin 7 (by decide) (by decide) rfl⟩

/-- The store makes its four accesses although the reader crosses it. -/
theorem store_wait_free_crossed : crossed.count (fun _ a => a.ofWriter) 3 10 = 4 ∧
    (crossed.state 10).completed = [eight] ∧ (crossed.state 10).data = eight ∧
    ∃ a s', a.ofWriter = true ∧ Step (crossed.state 8) a s' := by
  obtain ⟨hcount, hdone, -⟩ := store_wait_free _ crossed (by decide : 2 < 10) (by decide) rfl
    crossed_callStore
  obtain ⟨-, -, hbusy, -⟩ := store_wait_free _ crossed (by decide : 2 < 8) (by decide) rfl
    fun k hk hkj => crossed_callStore k hk (by omega)
  exact ⟨hcount, (hdone rfl).1, (hdone rfl).2, (hbusy fun h => nomatch h).2⟩

end SeqLocked
end Qub
