import QubController.Feedback
import QubController.Trace

/-! # The life of a motor thread

The owner of a `MotorThread` calls `start()` and `stop()` in any order and destroys it
(`lifetime`).  The loop runs beside these calls: `Life` holds what is left of it, and between
any two calls of the owner it may go on by any number of steps (`WorkerSteps`).  External code
may raise and clear the shutdown flag at any moment, so the loop's loads are answered either
way; a join is answered when the loop has returned.

The trace has the written frames and the results of `pthread_create`.  Two things are shown of
it.  A motor gets no command between a STOP and the next ENABLE, which only `start()` writes.
And an enabled motor is stopped exactly if a thread was created after it was enabled: `start()`
enables the motors first, and when `pthread_create` fails it returns without stopping them. -/

namespace Qub

open Interaction

namespace MotorThread

/-! ### The owner and the loop -/

inductive LifeCall
  | start
  | stop

/-- The calls of the owner, then the destructor. -/
def lifetime : List LifeCall → MotorThread → SysM MotorThread
  | [], t => destroy t
  | .start :: calls, t => do
      let (_, t) ← start t
      lifetime calls t
  | .stop :: calls, t => do
      let t ← stop t
      lifetime calls t

inductive LifeEvent
  | wrote (ch : Fin numChannels) (msg : TPCANMsg) (ok : Bool)
  | created (ok : Bool)

/-- What is left of the loop while there is a thread, and the trace. -/
structure Life where
  worker : Option (SysM MotorThread) := none
  log : List LifeEvent := []

def noteCall (log : List LifeEvent) (c : SysCall) (r : c.Resp) : List LifeEvent :=
  match c, r with
  | .canWrite ch msg, r => .wrote ch msg (r == pcanErrorOk) :: log
  | _, _ => log

/-- Steps of the loop, with any answers to its calls. -/
inductive WorkerSteps : Life → Life → Prop
  | refl (s : Life) : WorkerSteps s s
  | step {c : SysCall} {k : c.Resp → SysM MotorThread} {log : List LifeEvent} {s' : Life}
      (r : c.Resp) : WorkerSteps ⟨some (k r), noteCall log c r⟩ s' →
      WorkerSteps ⟨some (.call (I := Sys) c k), log⟩ s'

/-- The motors that the object has. -/
abbrev Keys := List (Fin numChannels × UInt8)

/-- The world of the owner of an object with the motors `keys`.  A new thread runs the loop on
the object's motors, for any number of cycles. -/
def life (keys : Keys) : World Sys Life := fun s c r s' =>
  ∃ s₁, WorkerSteps s s₁ ∧
    match c, r with
    | .canWrite ch msg, r =>
        s' = { s₁ with log := .wrote ch msg (r == pcanErrorOk) :: s₁.log }
    | .pthreadCreate, r =>
        if r = 0 then
          ∃ buf n t, t.motors.map MotorBinding.key = keys ∧
            s' = ⟨some (run buf n t), .created true :: s₁.log⟩
        else s' = { s₁ with log := .created false :: s₁.log }
    | .pthreadJoin, _ => ∃ t, s₁.worker = some (.ret t) ∧ s' = { s₁ with worker := none }
    | _, _ => s' = s₁

/-! ### Events -/

/-- A frame of type `t` is written to motor `k`, with or without success. -/
def Sends (t : CommType) (k : Fin numChannels × UInt8) : LifeEvent → Prop
  | .wrote ch msg _ => ch = k.1 ∧ msg.commType = t.code ∧ msg.destinationId = k.2
  | .created _ => False

def Enables (k : Fin numChannels × UInt8) (e : LifeEvent) : Prop :=
  Sends .enable k e ∧ ∃ ch msg, e = .wrote ch msg true

def Creates (e : LifeEvent) : Prop := e = .created true

/-- No command is written to motor `k` after a STOP and before the next ENABLE. -/
def NoLateCommand (k : Fin numChannels × UInt8) (log : List LifeEvent) : Prop :=
  AtEach (Sends .mitControl k) (Followed (Sends .stop k) (Sends .enable k)) log

theorem Sends.type_unique {t t' : CommType} {k k' : Fin numChannels × UInt8} {e : LifeEvent}
    (h : Sends t k e) (h' : Sends t' k' e) : t = t' := by
  cases e with
  | wrote ch msg ok => exact CommType.code_inj.mp (h.2.1.symm.trans h'.2.1)
  | created ok => exact h.elim

/-! ### The calls of the loop -/

/-- A call of the loop: its writes are commands to the motors `keys`. -/
def IsLoopCall (keys : Keys) : SysCall → Prop
  | .canWrite ch msg => ∃ k ∈ keys, ch = k.1 ∧ msg.commType = CommType.mitControl.code ∧
      msg.destinationId = k.2
  | _ => True

variable {keys : Keys}

theorem commandFrame_sent (act : ActionState) (b : MotorBinding) :
    (commandFrame act b).commType = CommType.mitControl.code ∧
      (commandFrame act b).destinationId = b.motor.motorId := by
  cases h : act.valid <;> simp [commandFrame, h]

theorem sendAll_loopCalls (act : ActionState) :
    ∀ motors : List MotorBinding, (∀ b ∈ motors, b.key ∈ keys) →
      (sendAll act motors).Only (IsLoopCall keys)
  | [], _ => trivial
  | b :: rest, h => by
      rw [sendAll, sendCommand_eq]
      obtain ⟨htype, hdest⟩ := commandFrame_sent act b
      refine ⟨⟨b.key, h b List.mem_cons_self, rfl, htype, hdest⟩, fun _ => ?_⟩
      exact sendAll_loopCalls act rest fun b' hb' => h b' (List.mem_cons_of_mem _ hb')

theorem cycle_loopCalls (t : MotorThread) (msg : TPCANMsg)
    (h : t.motors.map MotorBinding.key = keys) :
    (cycle t msg).Obeys (IsLoopCall keys)
      (fun t' => t'.motors.map MotorBinding.key = keys) := by
  have hmem : ∀ b ∈ t.motors, b.key ∈ keys := fun b hb => h ▸ List.mem_map.mpr ⟨b, hb, rfl⟩
  have hsend : (sendCommands t.motors).Only (IsLoopCall keys) :=
    ⟨trivial, fun act => sendAll_loopCalls act _ hmem⟩
  have hdrain : (drainFeedback t.channelIdx t.motors msg).Obeys (IsLoopCall keys)
      (fun d => d.motors.map MotorBinding.key = keys) := by
    refine (drainLoop_keys _ _ _).mono (fun c hc => ?_) fun d hd => hd.trans h
    cases c <;> trivial
  refine hsend.obeys.bind fun _ _ => hdrain.bind fun d hd => ?_
  exact ⟨trivial, fun _ => ⟨trivial, fun _ => hd⟩⟩

theorem runLoop_loopCalls (buf : ℕ → TPCANMsg) (n : ℕ) (t : MotorThread)
    (next prevWake : Timespec) (h : t.motors.map MotorBinding.key = keys) :
    (runLoop buf n t next prevWake).Obeys (IsLoopCall keys) (fun _ => True) := by
  induction n generalizing t next prevWake with
  | zero => trivial
  | succ n ih =>
      rw [runLoop, loadShutdown_bind]
      refine ⟨trivial, fun shutdown => ?_⟩
      cases shutdown with
      | true => trivial
      | false =>
          refine (cycle_loopCalls t (buf n) h).bind ?_
          rintro t' ht'
          exact ⟨trivial, fun _ => ⟨trivial, fun _ => ih _ _ _ ht'⟩⟩

theorem run_loopCalls (buf : ℕ → TPCANMsg) (n : ℕ) (t : MotorThread)
    (h : t.motors.map MotorBinding.key = keys) :
    (run buf n t).Obeys (IsLoopCall keys) (fun _ => True) :=
  ⟨trivial, fun next => runLoop_loopCalls buf n t next next h⟩

/-! ### Invariants -/

/-- The invariant: no late command was written, and while there is a loop, it can only write
commands and every motor was enabled after its last STOP. -/
structure Safe (keys : Keys) (s : Life) : Prop where
  noLate : ∀ k ∈ keys, NoLateCommand k s.log
  loop : ∀ p, s.worker = some p → p.Obeys (IsLoopCall keys) (fun _ => True) ∧
    ∀ k ∈ keys, Followed (Sends .stop k) (Sends .enable k) s.log

/-- There is no loop, and the enabled motors that were stopped are those for which a thread
was created. -/
structure Idle (keys : Keys) (s : Life) : Prop extends Safe keys s where
  no_worker : s.worker = none
  settled : ∀ k ∈ keys, (Followed (Enables k) (Sends .stop k) s.log ↔
    Followed (Enables k) Creates s.log)

structure Running (keys : Keys) (s : Life) : Prop extends Safe keys s where
  created : ∀ k ∈ keys, Followed (Enables k) Creates s.log

section steps
variable {s s₁ : Life}

/-- The loop writes commands only. -/
theorem not_sends_of_command {k k' : Fin numChannels × UInt8} {e : LifeEvent} {t : CommType}
    (h : Sends .mitControl k' e) (ht : t ≠ .mitControl) : ¬ Sends t k e :=
  fun h' => ht (h'.type_unique h)

theorem noteCall_command {c : SysCall} (r : c.Resp) (log : List LifeEvent)
    (hc : IsLoopCall keys c) :
    noteCall log c r = log ∨
      ∃ e, noteCall log c r = e :: log ∧ ∃ k ∈ keys, Sends .mitControl k e := by
  cases c with
  | canWrite ch msg =>
      obtain ⟨k, hk, hch, htype, hdest⟩ := hc
      exact .inr ⟨_, rfl, k, hk, hch, htype, hdest⟩
  | _ => exact .inl rfl

theorem Safe.command {p : SysM MotorThread} {log : List LifeEvent} (h : Safe keys ⟨some p, log⟩)
    {c : SysCall} {r : c.Resp} (hc : IsLoopCall keys c) {p' : SysM MotorThread}
    (hp' : p'.Obeys (IsLoopCall keys) (fun _ => True)) :
    Safe keys ⟨some p', noteCall log c r⟩ := by
  obtain ⟨-, harmed⟩ := h.loop p rfl
  rcases noteCall_command r log hc with hlog | ⟨e, hlog, k₀, -, he⟩
  · rw [hlog]
    exact ⟨h.noLate, fun q hq => by cases hq; exact ⟨hp', harmed⟩⟩
  · rw [hlog]
    refine ⟨fun k hk => atEach_cons.mpr ⟨fun _ => harmed k hk, h.noLate k hk⟩, ?_⟩
    intro q hq
    cases hq
    exact ⟨hp', fun k hk => (harmed k hk).cons (not_sends_of_command he (by decide))⟩

theorem Running.command {p : SysM MotorThread} {log : List LifeEvent}
    (h : Running keys ⟨some p, log⟩) {c : SysCall} {r : c.Resp} (hc : IsLoopCall keys c)
    {p' : SysM MotorThread} (hp' : p'.Obeys (IsLoopCall keys) (fun _ => True)) :
    Running keys ⟨some p', noteCall log c r⟩ := by
  refine ⟨h.toSafe.command hc hp', fun k hk => ?_⟩
  rcases noteCall_command r log hc with hlog | ⟨e, hlog, k₀, -, he⟩
  · rw [hlog]
    exact h.created k hk
  · rw [hlog]
    exact (h.created k hk).cons fun h' => not_sends_of_command he (by decide) h'.1

theorem Safe.workerSteps (h : Safe keys s) (hw : WorkerSteps s s₁) : Safe keys s₁ := by
  induction hw with
  | refl s => exact h
  | step r _ ih =>
      obtain ⟨⟨hc, hk⟩, -⟩ := h.loop _ rfl
      exact ih (h.command hc (hk r))

theorem Running.workerSteps (h : Running keys s) (hw : WorkerSteps s s₁) : Running keys s₁ := by
  induction hw with
  | refl s => exact h
  | step r _ ih =>
      obtain ⟨⟨hc, hk⟩, -⟩ := h.loop _ rfl
      exact ih (h.command hc (hk r))

theorem workerSteps_none (hs : s.worker = none) (hw : WorkerSteps s s₁) : s₁ = s := by
  cases hw with
  | refl => rfl
  | step => cases hs

/-- The owner writes a frame that is no command while there is no loop. -/
theorem Safe.write (h : Safe keys s) (hs : s.worker = none) {e : LifeEvent}
    (he : ∀ k, ¬ Sends .mitControl k e) : Safe keys { s with log := e :: s.log } := by
  refine ⟨fun k hk => atEach_cons.mpr ⟨fun h' => absurd h' (he k), h.noLate k hk⟩, ?_⟩
  intro p hp
  cases hs.symm.trans hp

end steps

/-! ### The owner's calls -/

theorem sends_hostFrame (m : Robstride) (t : CommType) (data : Fin 8 → UInt8) (ok : Bool) :
    Sends t (m.can, m.motorId) (.wrote m.can (m.hostFrame t data) ok) :=
  ⟨rfl, m.hostFrame_commType t data, m.hostFrame_destinationId t data⟩

theorem Idle.enable {s : Life} (h : Idle keys s) {e : LifeEvent} {k₀ : Fin numChannels × UInt8}
    (he : Sends .enable k₀ e) : Idle keys { s with log := e :: s.log } := by
  have hne : ∀ {t : CommType} {k}, t ≠ .enable → ¬ Sends t k e :=
    fun ht h' => ht (h'.type_unique he)
  refine ⟨h.toSafe.write h.no_worker fun k => hne (by decide), h.no_worker, fun k hk => ?_⟩
  have hcreates : ¬ Creates e := by
    intro h'
    rw [h'] at he
    exact he
  by_cases hen : Enables k e
  · rw [followed_cons, followed_cons]
    simp [hen]
  · rw [followed_cons_of_not hen (hne (by decide)), followed_cons_of_not hen hcreates]
    exact h.settled k hk

theorem enableAll_sat (motors : List MotorBinding) {s : Life} (h : Idle keys s) :
    Sat (life keys) (Safe keys) (enableAll motors)
      (fun _ s' => Idle keys s' ∧
        (∀ k, Followed (Sends .stop k) (Sends .enable k) s.log →
          Followed (Sends .stop k) (Sends .enable k) s'.log) ∧
        ∀ b ∈ motors, Followed (Sends .stop b.key) (Sends .enable b.key) s'.log) s := by
  induction motors generalizing s with
  | nil => exact ⟨h, fun _ hk => hk, by simp⟩
  | cons b rest ih =>
      rintro sts s' ⟨s₁, hw, rfl⟩
      obtain rfl := workerSteps_none h.no_worker hw
      have he := sends_hostFrame b.motor .enable zeroData (sts == pcanErrorOk)
      have h' := h.enable he
      have hstop : ∀ k, ¬ Sends .stop k
          (.wrote b.motor.can (b.motor.hostFrame .enable zeroData) (sts == pcanErrorOk)) :=
        fun k hk => absurd (hk.type_unique he) (by decide)
      refine ⟨h'.toSafe, (ih h').mono ?_⟩
      rintro _ s₂ ⟨hidle, hkeep, harmed⟩
      refine ⟨hidle, fun k hk => hkeep k (hk.cons (hstop k)), ?_⟩
      intro b' hb'
      rcases List.mem_cons.mp hb' with rfl | hb'
      · exact hkeep _ (followed_cons_of_follower (hstop _) he)
      · exact harmed b' hb'

/-- The state after a join: no loop, but all enabled motors had a thread. -/
structure Joined (keys : Keys) (s : Life) : Prop extends Safe keys s where
  no_worker : s.worker = none
  created : ∀ k ∈ keys, Followed (Enables k) Creates s.log

theorem Joined.stop {s : Life} (h : Joined keys s) {e : LifeEvent} {k₀ : Fin numChannels × UInt8}
    (he : Sends .stop k₀ e) : Joined keys { s with log := e :: s.log } := by
  have hne : ∀ {t : CommType} {k}, t ≠ .stop → ¬ Sends t k e :=
    fun ht h' => ht (h'.type_unique he)
  refine ⟨h.toSafe.write h.no_worker fun k => hne (by decide), h.no_worker, fun k hk => ?_⟩
  exact (h.created k hk).cons fun h' => hne (by decide) h'.1

theorem stop_sat (b : MotorBinding) {s : Life} (h : Joined keys s) :
    Sat (life keys) (Safe keys) (b.motor.stop false)
      (fun _ s' => Joined keys s' ∧
        (∀ k, Followed (Enables k) (Sends .stop k) s.log →
          Followed (Enables k) (Sends .stop k) s'.log) ∧
        Followed (Enables b.key) (Sends .stop b.key) s'.log) s := by
  rintro sts s' ⟨s₁, hw, rfl⟩
  obtain rfl := workerSteps_none h.no_worker hw
  have he := sends_hostFrame b.motor .stop zeroData (sts == pcanErrorOk)
  have h' := h.stop he
  have hen : ∀ k, ¬ Enables k
      (.wrote b.motor.can (b.motor.hostFrame .stop zeroData) (sts == pcanErrorOk)) :=
    fun k hk => absurd (hk.1.type_unique he) (by decide)
  exact ⟨h'.toSafe, h', fun k hk => hk.cons (hen k), followed_cons_of_follower (hen _) he⟩

theorem stopAll_sat (motors : List MotorBinding) {s : Life} (h : Joined keys s) :
    Sat (life keys) (Safe keys) (stopAll motors)
      (fun _ s' => Joined keys s' ∧
        (∀ k, Followed (Enables k) (Sends .stop k) s.log →
          Followed (Enables k) (Sends .stop k) s'.log) ∧
        ∀ b ∈ motors, Followed (Enables b.key) (Sends .stop b.key) s'.log) s := by
  induction motors generalizing s with
  | nil => exact ⟨h, fun _ hk => hk, by simp⟩
  | cons b rest ih =>
      refine (stop_sat b h).bind ?_
      rintro _ s₁ ⟨h₁, hkeep₁, hb₁⟩
      refine (stop_sat b h₁).bind ?_
      rintro _ s₂ ⟨h₂, hkeep₂, hb₂⟩
      refine (ih h₂).mono ?_
      rintro _ s₃ ⟨h₃, hkeep₃, hrest⟩
      refine ⟨h₃, fun k hk => hkeep₃ k (hkeep₂ k (hkeep₁ k hk)), ?_⟩
      intro b' hb'
      rcases List.mem_cons.mp hb' with rfl | hb'
      · exact hkeep₃ _ hb₂
      · exact hrest b' hb'

/-- The state between two calls of the owner. -/
def Between (keys : Keys) (started : Bool) (s : Life) : Prop :=
  if started then Running keys s else Idle keys s

theorem create_sat {s : Life} (h : Idle keys s)
    (harmed : ∀ k ∈ keys, Followed (Sends .stop k) (Sends .enable k) s.log) :
    Sat (life keys) (Safe keys) pthreadCreate
      (fun err s' => Between keys (decide (err = 0)) s') s := by
  rintro err s' ⟨s₁, hw, heff⟩
  obtain rfl := workerSteps_none h.no_worker hw
  by_cases herr : err = 0
  · simp only [herr, if_true] at heff
    obtain ⟨buf, n, t, hkeys, rfl⟩ := heff
    have hrun : Running keys ⟨some (run buf n t), .created true :: s₁.log⟩ := by
      refine ⟨⟨fun k hk => atEach_cons.mpr ⟨fun h' => h'.elim, h.noLate k hk⟩, ?_⟩, ?_⟩
      · intro p hp
        cases hp
        exact ⟨run_loopCalls buf n t hkeys, fun k hk => (harmed k hk).cons id⟩
      · exact fun k _ => followed_cons_of_follower (fun h' => h'.1) rfl
    refine ⟨hrun.toSafe, ?_⟩
    show Between keys (decide (err = 0)) _
    simpa [Between, herr] using hrun
  · simp only [herr, if_false] at heff
    subst heff
    have hidle : Idle keys { s₁ with log := .created false :: s₁.log } := by
      refine ⟨h.toSafe.write h.no_worker fun k => id, h.no_worker, fun k hk => ?_⟩
      rw [followed_cons_of_not (fun h' => h'.1) id, followed_cons_of_not (fun h' => h'.1)]
      · exact h.settled k hk
      · intro h'
        cases h'
    refine ⟨hidle.toSafe, ?_⟩
    show Between keys (decide (err = 0)) _
    simpa [Between, herr] using hidle

section calls
variable {t : MotorThread} {s : Life}

theorem start_sat (hkeys : t.motors.map MotorBinding.key = keys) (h : Between keys t.started s) :
    Sat (life keys) (Safe keys) (start t)
      (fun r s' => r.2.motors = t.motors ∧ Between keys r.2.started s') s := by
  unfold start
  cases hst : t.started with
  | true =>
      rw [hst] at h
      exact ⟨rfl, by simpa [hst] using h⟩
  | false =>
      rw [hst] at h
      have hidle : Idle keys s := h
      simp only [Bool.false_eq_true, if_false]
      refine (enableAll_sat t.motors hidle).bind ?_
      rintro _ s₁ ⟨h₁, -, harmed⟩
      have harmed' : ∀ k ∈ keys, Followed (Sends .stop k) (Sends .enable k) s₁.log := by
        intro k hk
        rw [← hkeys] at hk
        obtain ⟨b, hb, rfl⟩ := List.mem_map.mp hk
        exact harmed b hb
      refine (create_sat h₁ harmed').bind ?_
      intro err s₂ h₂
      by_cases herr : err = 0
      · simpa [herr, Between] using h₂
      · simpa [herr, Between, hst] using h₂

theorem stop_call_sat (hkeys : t.motors.map MotorBinding.key = keys)
    (h : Between keys t.started s) :
    Sat (life keys) (Safe keys) (stop t)
      (fun t' s' => t'.motors = t.motors ∧ t'.started = false ∧ Idle keys s') s := by
  unfold stop
  cases hst : t.started with
  | false =>
      rw [hst] at h
      exact ⟨rfl, hst, h⟩
  | true =>
      rw [hst] at h
      have hrun : Running keys s := h
      simp only [Bool.not_true, Bool.false_eq_true, if_false]
      rintro _ s₁ ⟨s₀, hw, rfl⟩
      have h₁ := hrun.workerSteps hw
      refine ⟨h₁.toSafe, ?_⟩
      rintro _ s₃ ⟨s₂, hw₂, t', hret, rfl⟩
      have h₂ := h₁.workerSteps hw₂
      have h₃ : Joined keys { s₂ with worker := none } :=
        ⟨⟨h₂.noLate, fun p hp => by cases hp⟩, rfl, h₂.created⟩
      refine ⟨h₃.toSafe, ?_⟩
      refine (stopAll_sat t.motors h₃).bind ?_
      rintro _ s₄ ⟨h₄, -, hstopped⟩
      refine ⟨rfl, rfl, h₄.toSafe, h₄.no_worker, fun k hk => ?_⟩
      have hk' := hk
      rw [← hkeys] at hk'
      obtain ⟨b, hb, rfl⟩ := List.mem_map.mp hk'
      exact iff_of_true (hstopped b hb) (h₄.created _ hk)

end calls

/-- Run lemma: any calls of the owner, then the destructor. -/
theorem lifetime_sat (calls : List LifeCall) {t : MotorThread} {s : Life}
    (hkeys : t.motors.map MotorBinding.key = keys) (h : Between keys t.started s) :
    Sat (life keys) (Safe keys) (lifetime calls t) (fun _ s' => Idle keys s') s := by
  induction calls generalizing t s with
  | nil =>
      unfold lifetime destroy
      cases hst : t.started with
      | true => exact (stop_call_sat hkeys h).mono fun t' s' h' => h'.2.2
      | false =>
          rw [hst] at h
          exact h
  | cons c calls ih =>
      cases c with
      | start =>
          refine (start_sat hkeys h).bind ?_
          rintro ⟨err, t'⟩ s' ⟨hmotors, h'⟩
          exact ih ((congrArg _ hmotors).trans hkeys) h'
      | stop =>
          refine (stop_call_sat hkeys h).bind ?_
          rintro t' s' ⟨hmotors, hst, h'⟩
          refine ih ((congrArg _ hmotors).trans hkeys) ?_
          rw [hst]
          exact h'

/-- **No enabled motor is abandoned, if and only if threads can be created.**  For a new object
and any calls of its owner, at every moment (also while the owner waits for a join) no motor
was written a command after a STOP and before the next ENABLE; and when the destructor has
returned, every successful ENABLE of a motor was followed by a STOP to it exactly if every
successful ENABLE of it was followed by a successful `pthread_create`. -/
theorem never_abandoned_iff (calls : List LifeCall) (t : MotorThread) (hnew : t.started = false)
    {s : Life} {o : Option MotorThread}
    (h : Runs (life (t.motors.map MotorBinding.key)) (lifetime calls t) {} s o) :
    (∀ s', WorkerSteps s s' → ∀ b ∈ t.motors, NoLateCommand b.key s'.log) ∧
    (o ≠ none → ∀ b ∈ t.motors, (Followed (Enables b.key) (Sends .stop b.key) s.log ↔
      Followed (Enables b.key) Creates s.log)) := by
  have hinit : Idle (t.motors.map MotorBinding.key) {} :=
    ⟨⟨fun k _ => atEach_nil, fun p hp => by cases hp⟩, rfl, fun k _ => by simp⟩
  have hbetween : Between (t.motors.map MotorBinding.key) t.started {} := by
    rw [hnew]
    exact hinit
  obtain ⟨hsafe, hpost⟩ := h.sat (lifetime_sat calls rfl hbetween) hinit.toSafe
  refine ⟨fun s' hw b hb => ?_, fun ho b hb => ?_⟩
  · exact (hsafe.workerSteps hw).noLate _ (List.mem_map.mpr ⟨b, hb, rfl⟩)
  · obtain ⟨t', rfl⟩ := Option.ne_none_iff_exists'.mp ho
    exact (hpost t' rfl).settled _ (List.mem_map.mpr ⟨b, hb, rfl⟩)

/-! ### A failing `pthread_create` -/

def driverOfFour : Robstride := { can := 0, motorId := 4 }

/-- A thread object with motor 4 of channel 0. -/
def oneMotor : MotorThread := { channelIdx := 0, motors := [⟨driverOfFour, JointIdx.rKneePitch⟩] }

def enableWritten : LifeEvent := .wrote 0 (driverOfFour.hostFrame .enable zeroData) true

theorem enableWritten_enables : Enables (0, 4) enableWritten :=
  ⟨sends_hostFrame driverOfFour .enable zeroData true, _, _, rfl⟩

/-- The ENABLE is written, the thread is not created, and the object is destroyed. -/
theorem abandoned_run :
    Runs (life [(0, 4)]) (lifetime [.start] oneMotor) {} ⟨none, [.created false, enableWritten]⟩
      (some oneMotor) := by
  have henable : life [(0, 4)] {} (.canWrite 0 (driverOfFour.hostFrame .enable zeroData))
      pcanErrorOk ⟨none, [enableWritten]⟩ := ⟨_, .refl _, rfl⟩
  have hcreate : life [(0, 4)] ⟨none, [enableWritten]⟩ .pthreadCreate (11 : ℤ)
      ⟨none, [.created false, enableWritten]⟩ := by
    refine ⟨_, .refl _, ?_⟩
    simp
  exact .call henable (.call hcreate (.ret _ _))

/-- **The enabled motor is abandoned**: no STOP follows its ENABLE. -/
theorem enabled_motor_abandoned : ∃ s t,
    Runs (life [(0, 4)]) (lifetime [.start] oneMotor) {} s (some t) ∧
      ¬ Followed (Enables (0, 4)) (Sends .stop (0, 4)) s.log := by
  refine ⟨_, _, abandoned_run, ?_⟩
  intro h
  obtain ⟨e, he, hstop⟩ := h [.created false] _ [] rfl enableWritten_enables
  rcases List.mem_singleton.mp he with rfl
  exact hstop

/-- Indeed no thread was created after it. -/
theorem never_abandoned_iff_failing : ∃ s t,
    Runs (life [(0, 4)]) (lifetime [.start] oneMotor) {} s (some t) ∧
      ¬ Followed (Enables (0, 4)) Creates s.log := by
  refine ⟨_, _, abandoned_run, fun h => ?_⟩
  have hiff := (never_abandoned_iff [.start] oneMotor rfl abandoned_run).2 (by simp)
  have hstop := (hiff _ List.mem_cons_self).mpr h
  obtain ⟨e, he, hsent⟩ := hstop [.created false] _ [] rfl enableWritten_enables
  rcases List.mem_singleton.mp he with rfl
  exact hsent

end MotorThread

end Qub
