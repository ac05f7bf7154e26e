import QubController.MotorConfig

/-! # Setting the zero over an unreliable bus

Frames between the program and the motor `motorId` are under way for any time, are lost, and
overtake each other (`ZeroBus.Step`).  The motor answers a `STOP` as well as a `SET_ZERO` with a
feedback frame, and the acknowledgement that `command_set_zero` waits for is any feedback frame.
Other frames, extended or not, may be in the receive queue at any time.

The program guards against a feedback frame that is not the answer to its `SET_ZERO` with a
pause after the `STOP` and with `drain`.  `clean` says that this guard worked: at the end of the
pause no answer to a `STOP` could still arrive, the stale frames in the queue were within the
reach of `drain`, and no read has failed before the `SET_ZERO` with one of them in the queue. -/

namespace Qub

open Interaction

namespace MotorConfig

/-! ### The bus -/

/-- A frame that is under way to the motor; `own` if this command wrote it. -/
structure Sent where
  own : Bool
  msg : TPCANMsg

structure ZeroBus where
  toMotor : List Sent
  toHost : List TPCANMsg
  queue : List TPCANMsg
  /-- The motor has received the `SET_ZERO` of this command. -/
  gotZero : Bool := false
  /-- A `SET_ZERO` was written since the last pause. -/
  sentZero : Bool := false
  /-- The pause and `drain` do what they are for. -/
  clean : Prop := False

/-- The pause of `command_set_zero` after the `STOP`. -/
def pauseNs : ℤ := 20000000

/-- A `SET_ZERO` to the motor. -/
def isZeroFor (motorId : UInt8) (msg : TPCANMsg) : Bool :=
  msg.destinationId == motorId && msg.commType == CommType.setZero.code

/-- A frame that the motor may answer with feedback. -/
def Prompts (motorId : UInt8) (msg : TPCANMsg) : Prop :=
  msg.destinationId = motorId ∧
    (msg.commType = CommType.stop.code ∨ msg.commType = CommType.setZero.code)

/-- What happens without the program. -/
inductive ZeroBus.Step (motorId : UInt8) : ZeroBus → ZeroBus → Prop
  /-- The motor receives a frame and sends any answers to it, feedback only if prompted. -/
  | hear (s : ZeroBus) (before after : List Sent) (f : Sent) (answers : List TPCANMsg) :
      s.toMotor = before ++ f :: after →
      (∀ r ∈ answers, Robstride.isFeedbackFrom motorId r = true → Prompts motorId f.msg) →
      Step motorId s { s with
        toMotor := before ++ after
        toHost := s.toHost ++ answers
        gotZero := s.gotZero || f.own && isZeroFor motorId f.msg }
  | loseToMotor (s : ZeroBus) (before after : List Sent) (f : Sent) :
      s.toMotor = before ++ f :: after → Step motorId s { s with toMotor := before ++ after }
  | loseToHost (s : ZeroBus) (before after : List TPCANMsg) (r : TPCANMsg) :
      s.toHost = before ++ r :: after → Step motorId s { s with toHost := before ++ after }
  | arrive (s : ZeroBus) (before after : List TPCANMsg) (r : TPCANMsg) :
      s.toHost = before ++ r :: after →
      Step motorId s { s with toHost := before ++ after, queue := s.queue ++ [r] }
  /-- A frame of another sender arrives. -/
  | other (s : ZeroBus) (r : TPCANMsg) : Robstride.isFeedbackFrom motorId r = false →
      Step motorId s { s with queue := s.queue ++ [r] }

/-- No answer to an earlier frame can arrive any more, and a `drain` of `left` frames removes
those that have. -/
structure Clear (motorId : UInt8) (left : ℕ) (s : ZeroBus) : Prop where
  toMotor : ∀ f ∈ s.toMotor, ¬ Prompts motorId f.msg
  toHost : ∀ r ∈ s.toHost, Robstride.isFeedbackFrom motorId r = false
  queue : ∃ stale fresh, s.queue = stale ++ fresh ∧ stale.length ≤ left ∧
    (∀ r ∈ stale, r.extended = true) ∧ ∀ r ∈ fresh, Robstride.isFeedbackFrom motorId r = false

/-- No feedback of the motor is in the queue. -/
def NoFeedback (motorId : UInt8) (s : ZeroBus) : Prop :=
  ∀ r ∈ s.queue, Robstride.isFeedbackFrom motorId r = false

/-- The world of `set-zero`.  A read takes the first frame of the queue, reports that the queue
is empty, or fails; `drain` is ended by a failed read, which counts while it leaves feedback in
the queue. -/
def zeroBus (motorId : UInt8) : World Sys ZeroBus := fun s c r s' =>
  ∃ s₁, Relation.ReflTransGen (ZeroBus.Step motorId) s s₁ ∧
    match c, r with
    | .canWrite _ msg, status =>
        s' = if status = pcanErrorOk then
          { s₁ with
            toMotor := s₁.toMotor ++ [⟨true, msg⟩]
            sentZero := s₁.sentZero || isZeroFor motorId msg }
        else s₁
    | .canRead _, (status, frame) =>
        status = pcanErrorOk ∧ (∃ rest, s₁.queue = frame :: rest ∧ s' = { s₁ with queue := rest }) ∨
          status = pcanErrorQrcvEmpty ∧ s₁.queue = [] ∧ s' = s₁ ∨
          status ≠ pcanErrorOk ∧ status ≠ pcanErrorQrcvEmpty ∧
            s' = { s₁ with clean := s₁.clean ∧ (s₁.sentZero = true ∨ NoFeedback motorId s₁) }
    | .sleepFor ns, _ =>
        s' = if ns = pauseNs then { s₁ with clean := Clear motorId 256 s₁, sentZero := false }
          else s₁
    | _, _ => s' = s₁

/-! ### What the motor and the bus keep -/

/-- Feedback of the motor answers the `SET_ZERO` of this command. -/
structure Told (motorId : UInt8) (s : ZeroBus) : Prop where
  toMotor : ∀ f ∈ s.toMotor, Prompts motorId f.msg → f.own = true ∧ isZeroFor motorId f.msg = true
  toHost : ∀ r ∈ s.toHost, Robstride.isFeedbackFrom motorId r = true → s.gotZero = true
  queue : ∀ r ∈ s.queue, Robstride.isFeedbackFrom motorId r = true → s.gotZero = true

section steps
variable {motorId : UInt8} {left : ℕ} {s s' : ZeroBus}

theorem mem_of_mem_split {α : Type} {l before after : List α} {x y : α}
    (h : l = before ++ y :: after) (hx : x ∈ before ++ after) : x ∈ l := by
  rw [h]
  simp only [List.mem_append, List.mem_cons] at hx ⊢
  tauto

theorem Clear.step (h : Clear motorId left s) (hs : ZeroBus.Step motorId s s') :
    Clear motorId left s' := by
  obtain ⟨stale, fresh, hqueue, hlen, hext, hfresh⟩ := h.queue
  have hnew : ∀ r, Robstride.isFeedbackFrom motorId r = false →
      ∃ stale fresh, s.queue ++ [r] = stale ++ fresh ∧ stale.length ≤ left ∧
        (∀ r ∈ stale, r.extended = true) ∧
        ∀ r ∈ fresh, Robstride.isFeedbackFrom motorId r = false := by
    intro r hr
    refine ⟨stale, fresh ++ [r], ?_, hlen, hext, ?_⟩
    · rw [hqueue, List.append_assoc]
    · intro x hx
      rcases List.mem_append.mp hx with hx | hx
      · exact hfresh x hx
      · rw [List.mem_singleton.mp hx]
        exact hr
  cases hs with
  | hear before after f answers hsplit hanswers =>
      refine ⟨fun x hx => h.toMotor x (mem_of_mem_split hsplit hx), fun r hr => ?_, h.queue⟩
      rcases List.mem_append.mp hr with hr | hr
      · exact h.toHost r hr
      · have hf : f ∈ s.toMotor := by
          rw [hsplit]
          simp
        exact Bool.eq_false_iff.mpr fun hfb => h.toMotor f hf (hanswers r hr hfb)
  | loseToMotor before after f hsplit =>
      exact ⟨fun x hx => h.toMotor x (mem_of_mem_split hsplit hx), h.toHost, h.queue⟩
  | loseToHost before after r hsplit =>
      exact ⟨h.toMotor, fun x hx => h.toHost x (mem_of_mem_split hsplit hx), h.queue⟩
  | arrive before after r hsplit =>
      have hr : r ∈ s.toHost := by
        rw [hsplit]
        simp
      exact ⟨h.toMotor, fun x hx => h.toHost x (mem_of_mem_split hsplit hx),
        hnew r (h.toHost r hr)⟩
  | other r hr => exact ⟨h.toMotor, h.toHost, hnew r hr⟩

theorem Told.step (h : Told motorId s) (hs : ZeroBus.Step motorId s s') : Told motorId s' := by
  have hqueue : ∀ r, (Robstride.isFeedbackFrom motorId r = true → s.gotZero = true) →
      ∀ x ∈ s.queue ++ [r], Robstride.isFeedbackFrom motorId x = true → s.gotZero = true := by
    intro r hr x hx
    rcases List.mem_append.mp hx with hx | hx
    · exact h.queue x hx
    · rw [List.mem_singleton.mp hx]
      exact hr
  cases hs with
  | hear before after f answers hsplit hanswers =>
      have hf : f ∈ s.toMotor := by
        rw [hsplit]
        simp
      have hkeep : s.gotZero = true → (s.gotZero || f.own && isZeroFor motorId f.msg) = true := by
        intro hzero
        rw [hzero, Bool.true_or]
      refine ⟨fun x hx => h.toMotor x (mem_of_mem_split hsplit hx), fun r hr hfb => ?_,
        fun r hr hfb => hkeep (h.queue r hr hfb)⟩
      rcases List.mem_append.mp hr with hr | hr
      · exact hkeep (h.toHost r hr hfb)
      · obtain ⟨hown, hzero⟩ := h.toMotor f hf (hanswers r hr hfb)
        show (s.gotZero || f.own && isZeroFor motorId f.msg) = true
        rw [hown, hzero, Bool.true_and, Bool.or_true]
  | loseToMotor before after f hsplit =>
      exact ⟨fun x hx => h.toMotor x (mem_of_mem_split hsplit hx), h.toHost, h.queue⟩
  | loseToHost before after r hsplit =>
      exact ⟨h.toMotor, fun x hx => h.toHost x (mem_of_mem_split hsplit hx), h.queue⟩
  | arrive before after r hsplit =>
      have hr : r ∈ s.toHost := by
        rw [hsplit]
        simp
      exact ⟨h.toMotor, fun x hx => h.toHost x (mem_of_mem_split hsplit hx),
        hqueue r (h.toHost r hr)⟩
  | other r hr => exact ⟨h.toMotor, h.toHost, hqueue r fun hfb => by simp [hr] at hfb⟩

/-- Steps without the program change neither the program's marks nor what is known of the
frames under way. -/
theorem steps_keep {P : ZeroBus → Prop}
    (hP : ∀ s s', P s → ZeroBus.Step motorId s s' → P s')
    (hs : Relation.ReflTransGen (ZeroBus.Step motorId) s s') :
    s'.sentZero = s.sentZero ∧ s'.clean = s.clean ∧ (s.gotZero = true → s'.gotZero = true) ∧
      (P s → P s') := by
  induction hs with
  | refl => exact ⟨rfl, rfl, id, id⟩
  | tail _ hstep ih =>
      obtain ⟨hsent, hclean, hgot, hkeep⟩ := ih
      have hmarks := hstep
      refine ⟨?_, ?_, fun h => ?_, fun h => hP _ _ (hkeep h) hstep⟩
      · rw [← hsent]
        cases hmarks <;> rfl
      · rw [← hclean]
        cases hmarks <;> rfl
      · have hgot' := hgot h
        cases hmarks with
        | hear before after f answers _ _ =>
            show (_ || _) = true
            rw [hgot', Bool.true_or]
        | _ => exact hgot'

theorem Clear.mono {left' : ℕ} (h : Clear motorId left s) (hle : left ≤ left') :
    Clear motorId left' s := by
  obtain ⟨stale, fresh, hqueue, hlen, hrest⟩ := h.queue
  exact ⟨h.toMotor, h.toHost, stale, fresh, hqueue, hlen.trans hle, hrest⟩

end steps

/-! ### Before `SET_ZERO` is written -/

/-- While `drain` may remove `left` more frames. -/
def Draining (motorId : UInt8) (left : ℕ) (s : ZeroBus) : Prop :=
  s.sentZero = false ∧ (s.clean → Clear motorId left s)

/-- After the `SET_ZERO` was written. -/
def Asking (motorId : UInt8) (s : ZeroBus) : Prop :=
  s.sentZero = true ∧ (s.clean → Told motorId s)

/-- The motor has received the `SET_ZERO`, if the pause and `drain` did what they are for. -/
def Certain (s : ZeroBus) : Prop := s.clean → s.gotZero = true

section phases
variable {bus : CanBus} {motorId : UInt8} {left : ℕ} {s s' s₁ : ZeroBus}

theorem Draining.steps (h : Draining motorId left s)
    (hs : Relation.ReflTransGen (ZeroBus.Step motorId) s s') : Draining motorId left s' := by
  obtain ⟨hsent, hclean, -, hkeep⟩ := steps_keep (fun _ _ => Clear.step) hs
  exact ⟨hsent.trans h.1, fun hc => hkeep (h.2 (hclean ▸ hc))⟩

theorem Asking.steps (h : Asking motorId s)
    (hs : Relation.ReflTransGen (ZeroBus.Step motorId) s s') : Asking motorId s' := by
  obtain ⟨hsent, hclean, -, hkeep⟩ := steps_keep (fun _ _ => Told.step) hs
  exact ⟨hsent.trans h.1, fun hc => hkeep (h.2 (hclean ▸ hc))⟩

theorem Certain.steps (h : Certain s)
    (hs : Relation.ReflTransGen (ZeroBus.Step motorId) s s') : Certain s' := by
  obtain ⟨-, hclean, hgot, -⟩ := steps_keep (P := fun _ => True) (fun _ _ _ _ => trivial) hs
  exact fun hc => hgot (h (hclean ▸ hc))

/-- Taking the first frame of the queue. -/
theorem Clear.take {frame : TPCANMsg} {rest : List TPCANMsg} (h : Clear motorId (left + 1) s)
    (hqueue : s.queue = frame :: rest) : Clear motorId left { s with queue := rest } := by
  obtain ⟨stale, fresh, hsplit, hlen, hext, hfresh⟩ := h.queue
  refine ⟨h.toMotor, h.toHost, ?_⟩
  cases stale with
  | nil =>
      have hfresh' : fresh = frame :: rest := by rw [← hqueue, hsplit]; rfl
      refine ⟨[], rest, rfl, Nat.zero_le _, by simp, fun r hr => hfresh r ?_⟩
      rw [hfresh']
      exact List.mem_cons_of_mem _ hr
  | cons x stale =>
      rw [hqueue] at hsplit
      obtain ⟨-, hrest⟩ := List.cons.inj hsplit
      have hlen' : stale.length ≤ left := Nat.le_of_succ_le_succ hlen
      exact ⟨stale, fresh, hrest, hlen', fun r hr => hext r (List.mem_cons_of_mem _ hr), hfresh⟩

/-- A frame that is not extended comes after all stale frames. -/
theorem Clear.take_other {frame : TPCANMsg} {rest : List TPCANMsg} (h : Clear motorId left s)
    (hqueue : s.queue = frame :: rest) (hframe : frame.extended = false) :
    Clear motorId 0 { s with queue := rest } := by
  obtain ⟨stale, fresh, hsplit, -, hext, hfresh⟩ := h.queue
  refine ⟨h.toMotor, h.toHost, [], rest, rfl, le_rfl, by simp, ?_⟩
  cases stale with
  | nil =>
      have hfresh' : fresh = frame :: rest := by rw [← hqueue, hsplit]; rfl
      intro r hr
      apply hfresh
      rw [hfresh']
      exact List.mem_cons_of_mem _ hr
  | cons x stale =>
      rw [hqueue] at hsplit
      obtain ⟨hx, -⟩ := List.cons.inj hsplit
      have hext' := hext x List.mem_cons_self
      rw [← hx, hframe] at hext'
      cases hext'

/-- Nothing is stale in an empty queue. -/
theorem Clear.empty (h : Clear motorId left s) (hqueue : s.queue = []) : Clear motorId 0 s :=
  ⟨h.toMotor, h.toHost, [], [], hqueue, le_rfl, by simp, by simp⟩

theorem reads_draining :
    Reads (zeroBus motorId) (fun _ => True) bus.channelIdx (Draining motorId (left + 1))
      (Draining motorId 0) (fun _ => Draining motorId left) where
  frame := by
    intro s frame s' h hw hext
    obtain ⟨s₁, hsteps, heff⟩ := hw
    obtain ⟨hsent, hclear⟩ := h.steps hsteps
    rcases heff with ⟨-, rest, hqueue, rfl⟩ | ⟨he, -⟩ | ⟨hne, -⟩
    · exact ⟨trivial, hsent, fun hc => (hclear hc).take hqueue⟩
    · exact absurd he (by decide)
    · exact absurd rfl hne
  other := by
    intro s status frame s' h hw hnot
    obtain ⟨s₁, hsteps, heff⟩ := hw
    obtain ⟨hsent, hclear⟩ := h.steps hsteps
    rcases heff with ⟨hok, rest, hqueue, rfl⟩ | ⟨-, hqueue, rfl⟩ | ⟨-, -, rfl⟩
    · exact ⟨trivial, hsent, fun hc => (hclear hc).take_other hqueue (hnot hok)⟩
    · exact ⟨trivial, hsent, fun hc => (hclear hc).empty hqueue⟩
    · refine ⟨trivial, hsent, fun hc => ?_⟩
      have hclean := hclear hc.1
      have hnone : NoFeedback motorId s₁ := hc.2.resolve_left (by simp [hsent])
      exact ⟨hclean.toMotor, hclean.toHost, [], s₁.queue, rfl, le_rfl, by simp, hnone⟩

theorem Draining.mono {left' : ℕ} (h : Draining motorId left s) (hle : left ≤ left') :
    Draining motorId left' s := ⟨h.1, fun hc => (h.2 hc).mono hle⟩

/-- Calls other than reads, writes and the pause. -/
def Quiet : SysCall → Prop
  | .canWrite _ _ => False
  | .canRead _ => False
  | .sleepFor ns => ns ≠ pauseNs
  | _ => True

theorem quiet_steps {c : SysCall} {r : c.Resp} (hc : Quiet c) (hw : zeroBus motorId s c r s') :
    Relation.ReflTransGen (ZeroBus.Step motorId) s s' := by
  obtain ⟨s₁, hsteps, heff⟩ := hw
  cases c with
  | canWrite ch msg => exact hc.elim
  | canRead ch => exact hc.elim
  | sleepFor ns =>
      have hns : ns ≠ pauseNs := hc
      simp only [if_neg hns] at heff
      rw [heff]
      exact hsteps
  | _ =>
      rw [show s' = s₁ from heff]
      exact hsteps

theorem quiet_poll : Quiet (.sleepFor emptyQueueSleepNs) := by
  show emptyQueueSleepNs ≠ pauseNs
  decide

theorem draining_clock {now : ℤ} (h : Draining motorId left s)
    (hw : zeroBus motorId s .steadyNow now s') : Draining motorId left s' :=
  h.steps (quiet_steps (c := .steadyNow) trivial hw)

theorem receives_drained :
    Receives (zeroBus motorId) (fun _ => True) bus.channelIdx (Draining motorId 0)
      (fun _ => Draining motorId left) where
  frame := fun s frame s' h hw hext =>
    ⟨trivial, (reads_draining.frame s frame s' (h.mono (Nat.zero_le 1)) hw hext).2.mono
      (Nat.zero_le left)⟩
  other := fun s status frame s' h hw hnot =>
    reads_draining.other s status frame s' (h.mono (Nat.zero_le (left + 1))) hw hnot
  clock := fun _ _ _ h hw => ⟨trivial, draining_clock h hw⟩
  sleep := fun _ _ h hw => ⟨trivial, h.steps (quiet_steps quiet_poll hw)⟩

theorem drainLoop_clear (hreal : bus.config.dryRun = false) (n left : ℕ)
    (h : Draining motorId left s) :
    Sat (zeroBus motorId) (fun _ => True) (bus.drainLoop n left)
      (fun _ => Draining motorId 0) s := by
  induction left generalizing s with
  | zero => exact h
  | succ left ih =>
      unfold CanBus.drainLoop
      refine (CanBus.receive_real_sat hreal (fun _ _ _ h hw => ⟨trivial, draining_clock h hw⟩)
        reads_draining receives_drained n 0 h).bind fun r s' hr => ?_
      cases r with
      | none => exact hr
      | some msg => exact ih hr

/-- **`drain`** removes the stale frames. -/
theorem drain_clear (hreal : bus.config.dryRun = false) (n : ℕ) (h : Draining motorId 256 s) :
    Sat (zeroBus motorId) (fun _ => True) (bus.drain n) (fun _ => Draining motorId 0) s :=
  drainLoop_clear hreal n 256 h

/-! ### From `SET_ZERO` on -/

/-- Feedback that is read after the `SET_ZERO` was written. -/
theorem receives_asking :
    Receives (zeroBus motorId) (fun _ => True) bus.channelIdx (Asking motorId)
      (fun msg s => Asking motorId s ∧ (bus.isZeroAck motorId msg = true → Certain s)) where
  frame := by
    intro s frame s' h hw hext
    obtain ⟨s₁, hsteps, heff⟩ := hw
    obtain ⟨hsent, htold⟩ := h.steps hsteps
    rcases heff with ⟨-, rest, hqueue, rfl⟩ | ⟨he, -⟩ | ⟨hne, -⟩
    · have hmem : ∀ r ∈ rest, r ∈ s₁.queue := by
        intro r hr
        rw [hqueue]
        exact List.mem_cons_of_mem _ hr
      refine ⟨trivial, ⟨hsent, fun hc => ?_⟩, fun hack hc => ?_⟩
      · have ht := htold hc
        exact ⟨ht.toMotor, ht.toHost, fun r hr => ht.queue r (hmem r hr)⟩
      · have hfeedback : Robstride.isFeedbackFrom motorId frame = true := by
          unfold CanBus.isZeroAck at hack
          simp only [Bool.and_eq_true, beq_iff_eq, TPCANMsg.fill_commType,
            TPCANMsg.fill_sourceMotorId] at hack
          exact Robstride.isFeedbackFrom_iff.mpr ⟨hext, hack.1.1, hack.1.2⟩
        have hmem' : frame ∈ s₁.queue := by
          rw [hqueue]
          exact List.mem_cons_self
        exact (htold hc).queue frame hmem' hfeedback
    · exact absurd he (by decide)
    · exact absurd rfl hne
  other := by
    intro s status frame s' h hw _
    obtain ⟨s₁, hsteps, heff⟩ := hw
    obtain ⟨hsent, htold⟩ := h.steps hsteps
    rcases heff with ⟨-, rest, hqueue, rfl⟩ | ⟨-, -, rfl⟩ | ⟨-, -, rfl⟩
    · refine ⟨trivial, hsent, fun hc => ?_⟩
      have ht := htold hc
      refine ⟨ht.toMotor, ht.toHost, fun r hr => ht.queue r ?_⟩
      rw [hqueue]
      exact List.mem_cons_of_mem _ hr
    · exact ⟨trivial, hsent, htold⟩
    · refine ⟨trivial, hsent, fun hc => ?_⟩
      have ht := htold hc.1
      exact ⟨ht.toMotor, ht.toHost, ht.queue⟩
  clock := fun _ _ _ h hw => ⟨trivial, h.steps (quiet_steps (c := .steadyNow) trivial hw)⟩
  sleep := fun _ _ h hw => ⟨trivial, h.steps (quiet_steps quiet_poll hw)⟩

/-- Writing the `SET_ZERO` after a `drain`. -/
theorem sendSetZero_sat (hreal : bus.config.dryRun = false) (n : ℕ)
    (h : Draining motorId 256 s) :
    Sat (zeroBus motorId) (fun _ => True) (bus.sendSetZero n motorId)
      (fun sent s' => sent = true → Asking motorId s') s := by
  set frame := bus.setZeroFrame motorId
  have hzero : isZeroFor motorId frame = true := by
    have htype : frame.commType = CommType.setZero.code := commType_hostExtId _ _ _ _
    have hdest : frame.destinationId = motorId := destinationId_hostExtId _ _ _ _
    unfold isZeroFor
    rw [htype, hdest]
    simp
  unfold CanBus.sendSetZero
  refine (drain_clear hreal n h).bind fun _ s₁ h₁ => ?_
  unfold CanBus.send
  rw [hreal]
  intro status s' hw
  obtain ⟨s₂, hsteps, heff⟩ := hw
  obtain ⟨-, hclear⟩ := h₁.steps hsteps
  refine ⟨trivial, fun hsent => ?_⟩
  have hok : status = pcanErrorOk := eq_of_beq hsent
  simp only [if_pos hok] at heff
  rw [heff]
  refine ⟨?_, fun hc => ?_⟩
  · show (s₂.sentZero || isZeroFor motorId frame) = true
    rw [hzero, Bool.or_true]
  · have hcl := hclear hc
    obtain ⟨stale, fresh, hqueue, hlen, -, hfresh⟩ := hcl.queue
    have hstale : stale = [] := List.length_eq_zero_iff.mp (Nat.le_zero.mp hlen)
    rw [hstale, List.nil_append] at hqueue
    refine ⟨fun f hf hprompt => ?_, fun r hr hfb => ?_, fun r hr hfb => ?_⟩
    · rcases List.mem_append.mp hf with hf | hf
      · exact absurd hprompt (hcl.toMotor f hf)
      · rw [List.mem_singleton.mp hf]
        exact ⟨rfl, hzero⟩
    · exact absurd hfb (Bool.eq_false_iff.mp (hcl.toHost r hr))
    · have hr' : r ∈ fresh := hqueue ▸ hr
      exact absurd hfb (Bool.eq_false_iff.mp (hfresh r hr'))

/-- What the motor has received it keeps. -/
theorem Certain.call {c : SysCall} {r : c.Resp} (hc : c ≠ .sleepFor pauseNs) (h : Certain s)
    (hw : zeroBus motorId s c r s') : Certain s' := by
  obtain ⟨s₁, hsteps, heff⟩ := hw
  have h₁ := h.steps hsteps
  cases c with
  | canWrite ch msg =>
      rw [heff]
      split
      · exact h₁
      · exact h₁
  | canRead ch =>
      rcases heff with ⟨-, rest, -, rfl⟩ | ⟨-, -, rfl⟩ | ⟨-, -, rfl⟩
      · exact h₁
      · exact h₁
      · exact fun hcl => h₁ hcl.1
  | sleepFor ns =>
      have hns : ns ≠ pauseNs := fun h => hc (h ▸ rfl)
      simp only [if_neg hns] at heff
      rw [heff]
      exact h₁
  | _ =>
      rw [show s' = s₁ from heff]
      exact h₁

theorem readBack_noPause (n attempts : ℕ) :
    (bus.readBack n motorId attempts).Only fun c => c ≠ SysCall.sleepFor pauseNs := by
  have hpoll : SysCall.sleepFor emptyQueueSleepNs ≠ .sleepFor pauseNs := by
    simp [emptyQueueSleepNs, pauseNs]
  exact CanBus.readBack_only (fun _ => ⟨by simp, by simp, hpoll⟩) ⟨by simp, by simp⟩
    (by simp [pauseNs]) attempts

/-- From `SET_ZERO` on. -/
theorem setZero_sat (hreal : bus.config.dryRun = false) (n : ℕ) (h : Draining motorId 256 s) :
    Sat (zeroBus motorId) (fun _ => True) (bus.setZero n motorId)
      (fun x s' => x.exitCode = 0 → Certain s') s := by
  unfold CanBus.setZero
  refine (sendSetZero_sat hreal n h).bind fun sent s₁ h₁ => ?_
  cases sent with
  | false => exact fun hx => absurd hx (by decide)
  | true =>
      simp only [Bool.not_true, Bool.false_eq_true, if_false, hreal]
      refine (CanBus.waitFor_sat receives_asking n _ (fun _ _ _ hK => hK.1) (h₁ rfl)).bind
        fun r s₂ hr => ?_
      cases r with
      | none => exact fun hx => absurd hx (by decide)
      | some msg =>
          obtain ⟨hpred, -, hcertain⟩ := hr
          refine ((readBack_noPause n 3).sat (fun _ _ _ _ hc h hw => ⟨trivial, h.call hc hw⟩)
            (hcertain hpred)).bind fun position s₃ h₃ => ?_
          cases position with
          | none => exact fun _ => h₃
          | some position =>
              simp only
              split
              · exact fun _ => h₃
              · exact fun _ => h₃

theorem commandSetZero_sat (hreal : bus.config.dryRun = false) (n : ℕ) :
    Sat (zeroBus motorId) (fun _ => True) (bus.commandSetZero n motorId)
      (fun x s' => x.exitCode = 0 → Certain s') s := by
  unfold CanBus.commandSetZero
  rw [hreal]
  refine (sat_true _ s).bind fun device s₁ _ => ?_
  cases device with
  | none => exact fun hx => absurd hx (by decide)
  | some device =>
      refine (sat_true _ s₁).bind fun _ s₂ _ => ?_
      unfold CanBus.stopAndSetZero
      refine (sat_true _ s₂).bind fun confirmed s₃ _ => ?_
      cases confirmed with
      | false => exact fun hx => absurd hx (by decide)
      | true =>
          simp only [Bool.not_true, Bool.false_eq_true, if_false]
          refine (sat_true _ s₃).bind fun stopped s₄ _ => ?_
          cases stopped with
          | false => exact fun hx => absurd hx (by decide)
          | true =>
              simp only [Bool.not_true, Bool.false_eq_true, if_false]
              rw [sleepFor_bind, sat_call]
              rintro _ s₅ ⟨s₆, -, heff⟩
              have hpause : (20000000 : ℤ) = pauseNs := rfl
              simp only [if_pos hpause] at heff
              refine ⟨trivial, setZero_sat hreal n ?_⟩
              rw [heff]
              exact ⟨rfl, fun hc => ⟨hc.toMotor, hc.toHost, hc.queue⟩⟩

end phases

/-! ### Possible runs -/

section runs
variable {bus : CanBus} {motorId : UInt8} {s s₁ s₂ s₃ s₄ s₅ : ZeroBus} {n : ℕ}

theorem zeroBus_clock (s : ZeroBus) (now : ℤ) : zeroBus motorId s .steadyNow now s :=
  ⟨s, .refl, rfl⟩

theorem drain_zero_runs (hreal : bus.config.dryRun = false) (hs : s.queue = []) :
    Runs (zeroBus motorId) (bus.drain (n + 1)) s s (some ()) := by
  have hread : zeroBus motorId s (.canRead bus.channelIdx) (pcanErrorQrcvEmpty, {}) s :=
    ⟨s, .refl, .inr (.inl ⟨rfl, hs, rfl⟩)⟩
  exact CanBus.drain_empty hreal (zeroBus_clock s 0) hread

/-- The state after the program wrote a frame. -/
def ZeroBus.wrote (s : ZeroBus) (motorId : UInt8) (msg : TPCANMsg) : ZeroBus :=
  { s with
    toMotor := s.toMotor ++ [⟨true, msg⟩]
    sentZero := s.sentZero || isZeroFor motorId msg }

theorem zeroBus_write (s : ZeroBus) (ch : Fin numChannels) (msg : TPCANMsg) :
    zeroBus motorId s (.canWrite ch msg) pcanErrorOk (s.wrote motorId msg) :=
  ⟨s, .refl, rfl⟩

theorem isZeroFor_hostExtId {t : CommType} (ht : t ≠ .setZero) (data : Fin 8 → UInt8) :
    isZeroFor motorId (extendedFrame (bus.hostExtId t motorId) data) = false := by
  have hcode : t.code ≠ CommType.setZero.code := fun h => ht (CommType.code_inj.mp h)
  unfold isZeroFor
  rw [commType_hostExtId, beq_false_of_ne hcode, Bool.and_false]

/-- A frame may be lost. -/
theorem lose_wrote {msg : TPCANMsg} (h : isZeroFor motorId msg = false) :
    ZeroBus.Step motorId (s.wrote motorId msg) s := by
  have hlose : ZeroBus.Step motorId (s.wrote motorId msg)
      { s.wrote motorId msg with toMotor := s.toMotor ++ [] } :=
    .loseToMotor _ s.toMotor [] ⟨true, msg⟩ rfl
  simpa [ZeroBus.wrote, h] using hlose

/-- The motor may answer `GET_ID` at once. -/
theorem getDevice_zero_runs (hreal : bus.config.dryRun = false)
    (hretries : bus.config.retries = 1) (ht : 0 < bus.config.timeoutMs) (hqueue : s.queue = [])
    (uid : Fin 8 → UInt8) :
    Runs (zeroBus motorId) (bus.getDevice (n + 1) motorId) s s (some (some ⟨motorId, uid⟩)) := by
  have hlost : ZeroBus.Step motorId (s.wrote motorId (bus.getIdFrame motorId)) s :=
    lose_wrote (isZeroFor_hostExtId (by decide) _)
  have hother : Robstride.isFeedbackFrom motorId (idReply motorId uid) = false := by
    unfold Robstride.isFeedbackFrom idReply
    rw [commType_buildExtId, CommType.code_and]
    simp [CommType.code]
  have harrive : ZeroBus.Step motorId s { s with queue := [idReply motorId uid] } := by
    have hstep := ZeroBus.Step.other s (idReply motorId uid) hother
    rw [hqueue] at hstep
    exact hstep
  have hread : zeroBus motorId (s.wrote motorId (bus.getIdFrame motorId))
      (.canRead bus.channelIdx) (pcanErrorOk, idReply motorId uid) s := by
    refine ⟨_, (Relation.ReflTransGen.single hlost).tail harrive, .inl ⟨rfl, [], rfl, ?_⟩⟩
    rw [← hqueue]
  exact CanBus.getDevice_answer hreal hretries ht (drain_zero_runs hreal hqueue)
    (zeroBus_write s _ _) (zeroBus_clock _ 0) hread

/-- A `PARAM_READ` may be lost. -/
theorem readMechanicalPosition_silent (hreal : bus.config.dryRun = false)
    (hqueue : s.queue = []) :
    Runs (zeroBus motorId) (bus.readMechanicalPosition (n + 1) motorId) s s (some none) := by
  have hlost : ZeroBus.Step motorId (s.wrote motorId (bus.mechPosFrame motorId)) s :=
    lose_wrote (isZeroFor_hostExtId (by decide) _)
  have hlate : 0 + bus.config.timeoutMs * 3 * nsPerMs ≤ bus.config.timeoutMs * 3 * nsPerMs := by
    omega
  unfold CanBus.readMechanicalPosition CanBus.send
  refine (drain_zero_runs hreal hqueue).bind ?_
  simp only [hreal, Bool.false_eq_true, if_false, canWrite_bind, Prog.call_bind]
  refine .call (zeroBus_write s _ _) ?_
  exact (CanBus.waitFor_expired (zeroBus_clock _ 0) hlate ⟨s, .single hlost, rfl⟩).bind
    (.ret _ _)

theorem readBack_silent (hreal : bus.config.dryRun = false) (hqueue : s.queue = []) :
    ∀ attempts, Runs (zeroBus motorId) (bus.readBack (n + 1) motorId attempts) s s (some none)
  | 0 => .ret _ _
  | attempts + 1 => by
      have hsleep : zeroBus motorId s (.sleepFor 30000000) () s := by
        refine ⟨s, .refl, ?_⟩
        have hne : (30000000 : ℤ) ≠ pauseNs := by decide
        simp only [if_neg hne]
      unfold CanBus.readBack
      refine .call hsleep ?_
      exact (readMechanicalPosition_silent hreal hqueue).bind
        (readBack_silent hreal hqueue attempts)

theorem pause_runs (hsteps : Relation.ReflTransGen (ZeroBus.Step motorId) s s₁) :
    zeroBus motorId s (.sleepFor 20000000) ()
      { s₁ with clean := Clear motorId 256 s₁, sentZero := false } := by
  have hpause : (20000000 : ℤ) = pauseNs := rfl
  refine ⟨s₁, hsteps, ?_⟩
  simp only [if_pos hpause]

/-- The command may be acknowledged without a read-back. -/
theorem commandSetZero_runs (hreal : bus.config.dryRun = false)
    (hyes : bus.config.assumeYes = true) (hretries : bus.config.retries = 1)
    (ht : 0 < bus.config.timeoutMs) (hs : s.queue = [])
    (hpause : zeroBus motorId (s.wrote motorId (bus.stopFrame motorId)) (.sleepFor 20000000) () s₁)
    (hs₁ : s₁.queue = []) {ack : TPCANMsg} (hext : ack.extended = true)
    (hack : bus.isZeroAck motorId (({} : TPCANMsg).fill ack) = true)
    (hread : zeroBus motorId (s₁.wrote motorId (bus.setZeroFrame motorId))
      (.canRead bus.channelIdx) (pcanErrorOk, ack) s₂)
    (hs₂ : s₂.queue = []) :
    Runs (zeroBus motorId) (bus.commandSetZero (n + 1) motorId) s s₂ (some .acknowledged) := by
  have hclock : zeroBus motorId (s₁.wrote motorId (bus.setZeroFrame motorId)) .steadyNow 0
      (s₁.wrote motorId (bus.setZeroFrame motorId)) := zeroBus_clock _ 0
  have ht3 : 0 < bus.config.timeoutMs * 3 := by omega
  unfold CanBus.commandSetZero
  simp only [hreal, Bool.false_eq_true, if_false]
  refine (getDevice_zero_runs hreal hretries ht hs zeroData).bind ?_
  refine (readMechanicalPosition_silent hreal hs).bind ?_
  unfold CanBus.stopAndSetZero CanBus.confirmDestructive CanBus.sendStop CanBus.send
  simp only [hyes, Bool.true_or, if_true, Prog.pure_eq, Prog.ret_bind, Bool.not_true,
    Bool.false_eq_true, if_false, hreal, bind_assoc]
  refine (drain_zero_runs hreal hs).bind (.call (zeroBus_write s _ _) (.call hpause ?_))
  unfold CanBus.setZero CanBus.sendSetZero CanBus.send
  simp only [hreal, Bool.false_eq_true, if_false, bind_assoc]
  refine (drain_zero_runs hreal hs₁).bind (.call (zeroBus_write s₁ _ _) ?_)
  refine (CanBus.waitFor_frame hreal ht3 hclock hclock hclock hclock hread hext hack).bind ?_
  exact (readBack_silent hreal hs₂ 3).bind (.ret _ _)

end runs

/-! ### The guarantee -/

/-- The bus at the start of the command, with any frames of others under way. -/
def ZeroBus.start (toMotor toHost queue : List TPCANMsg) : ZeroBus where
  toMotor := toMotor.map fun msg => ⟨false, msg⟩
  toHost := toHost
  queue := queue

/-- **A successful `set-zero` reached the motor.**  Whatever is delayed, lost or under way: when
the command returns 0 and the pause and `drain` have done what they are for, the motor has
received the `SET_ZERO` of this command. -/
theorem zero_is_set {bus : CanBus} (hreal : bus.config.dryRun = false) {motorId : UInt8} {n : ℕ}
    {toMotor toHost queue : List TPCANMsg} {s' : ZeroBus} {x : SetZeroExit}
    (hr : Runs (zeroBus motorId) (bus.commandSetZero n motorId)
      (ZeroBus.start toMotor toHost queue) s' (some x))
    (hx : x.exitCode = 0) (hclean : s'.clean) : s'.gotZero = true :=
  hr.post (commandSetZero_sat hreal n) hx hclean

/-- Feedback of motor 4. -/
def feedback4 : TPCANMsg :=
  extendedFrame (buildExtId CommType.feedback.code 4 hostIdDefault) zeroData

theorem feedback4_ack : benchBus.isZeroAck 4 (({} : TPCANMsg).fill feedback4) = true := by
  unfold feedback4
  rw [fill_extendedFrame]
  decide

theorem prompts_stop (bus : CanBus) (motorId : UInt8) : Prompts motorId (bus.stopFrame motorId) :=
  ⟨destinationId_hostExtId _ _ _ _, .inl (commType_hostExtId _ _ _ _)⟩

theorem prompts_setZero (bus : CanBus) (motorId : UInt8) :
    Prompts motorId (bus.setZeroFrame motorId) :=
  ⟨destinationId_hostExtId _ _ _ _, .inr (commType_hostExtId _ _ _ _)⟩

/-- A quiet bus. -/
def quietBus : ZeroBus := ZeroBus.start [] [] []

/-- The bus after the motor received the `STOP`, with its answers on the way. -/
def heardStop (answers : List TPCANMsg) : ZeroBus :=
  { quietBus with toHost := answers, gotZero := isZeroFor 4 (benchBus.stopFrame 4) }

/-- The bus after the pause. -/
def paused (answers : List TPCANMsg) : ZeroBus :=
  { heardStop answers with clean := Clear 4 256 (heardStop answers) }

theorem pause_answered (answers : List TPCANMsg) :
    zeroBus 4 (quietBus.wrote 4 (benchBus.stopFrame 4)) (.sleepFor 20000000) ()
      (paused answers) := by
  have hhear : ZeroBus.Step 4 (quietBus.wrote 4 (benchBus.stopFrame 4))
      { heardStop answers with sentZero := isZeroFor 4 (benchBus.stopFrame 4) } :=
    .hear _ [] [] ⟨true, benchBus.stopFrame 4⟩ answers rfl fun _ _ _ => prompts_stop _ _
  have hclear :
      Clear 4 256 { heardStop answers with sentZero := isZeroFor 4 (benchBus.stopFrame 4) } =
        Clear 4 256 (heardStop answers) := by
    rw [show isZeroFor 4 (benchBus.stopFrame 4) = false from isZeroFor_hostExtId (by decide) _]
    rfl
  have hpause := pause_runs (.single hhear)
  rw [hclear] at hpause
  exact hpause

/-- `set-zero 4` when the answer to the `STOP` comes late, the `SET_ZERO` is lost and the
read-back is not available: the late answer passes for the acknowledgement. -/
theorem zero_not_set : ∃ s', Runs (zeroBus 4) (benchBus.commandSetZero 1 4)
    (ZeroBus.start [] [] []) s' (some .acknowledged) ∧
    SetZeroExit.acknowledged.exitCode = 0 ∧ s'.gotZero = false := by
  set s₁ := (paused [feedback4]).wrote 4 (benchBus.setZeroFrame 4)
  have hlose : ZeroBus.Step 4 s₁ { s₁ with toMotor := [] } :=
    .loseToMotor _ [] [] ⟨true, benchBus.setZeroFrame 4⟩ rfl
  have harrive : ZeroBus.Step 4 { s₁ with toMotor := [] }
      { s₁ with toMotor := [], toHost := [], queue := [feedback4] } :=
    .arrive _ [] [] feedback4 rfl
  have hread : zeroBus 4 s₁ (.canRead benchBus.channelIdx) (pcanErrorOk, feedback4)
      { s₁ with toMotor := [], toHost := [], queue := [] } :=
    ⟨_, (Relation.ReflTransGen.single hlose).tail harrive, .inl ⟨rfl, [], rfl, rfl⟩⟩
  have ht : 0 < benchBus.config.timeoutMs := by decide
  refine ⟨_, commandSetZero_runs rfl rfl rfl ht rfl (pause_answered _) rfl
    (extendedFrame_extended _ _) feedback4_ack hread rfl, rfl, ?_⟩
  show isZeroFor 4 (benchBus.stopFrame 4) = false
  exact isZeroFor_hostExtId (by decide) _

/-- `set-zero 4` when the motor answers the `SET_ZERO` only. -/
theorem zero_is_set_four : ∃ s', Runs (zeroBus 4) (benchBus.commandSetZero 1 4)
    (ZeroBus.start [] [] []) s' (some .acknowledged) ∧ s'.gotZero = true := by
  set s₁ := (paused []).wrote 4 (benchBus.setZeroFrame 4)
  set s₂ : ZeroBus :=
    { s₁ with
      toMotor := []
      toHost := [feedback4]
      gotZero := s₁.gotZero || true && isZeroFor 4 (benchBus.setZeroFrame 4) }
  have hhear : ZeroBus.Step 4 s₁ s₂ :=
    .hear _ [] [] ⟨true, benchBus.setZeroFrame 4⟩ [feedback4] rfl fun _ _ _ => prompts_setZero _ _
  have harrive : ZeroBus.Step 4 s₂ { s₂ with toHost := [], queue := [feedback4] } :=
    .arrive _ [] [] feedback4 rfl
  have hread : zeroBus 4 s₁ (.canRead benchBus.channelIdx) (pcanErrorOk, feedback4)
      { s₂ with toHost := [], queue := [] } :=
    ⟨_, (Relation.ReflTransGen.single hhear).tail harrive, .inl ⟨rfl, [], rfl, rfl⟩⟩
  have ht : 0 < benchBus.config.timeoutMs := by decide
  have hr : Runs (zeroBus 4) (benchBus.commandSetZero 1 4) (ZeroBus.start [] [] [])
      { s₂ with toHost := [], queue := [] } (some .acknowledged) :=
    commandSetZero_runs rfl rfl rfl ht rfl (pause_answered []) rfl (extendedFrame_extended _ _)
      feedback4_ack hread rfl
  have hclean : Clear 4 256 (heardStop []) := by
    refine ⟨fun f hf => ?_, fun r hr => ?_, [], [], rfl, Nat.zero_le _, by simp, by simp⟩
    · cases hf
    · cases hr
  exact ⟨_, hr, zero_is_set rfl hr rfl hclean⟩

end MotorConfig

end Qub
