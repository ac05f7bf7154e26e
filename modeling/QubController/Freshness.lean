import QubController.Feedback

/-! # How old an online measurement is

Here the receive queue is a FIFO of frames with their arrival times, time passes and frames
arrive between any two calls, and the log keeps, newest first, the frames that were taken from
the queue, the clock readings and the published states.

A driver stamps a frame when it parses it, not when it arrived.  `Supply` ties the feedback of
a motor to the place in the log where the frame was taken and stamped; it is kept by the whole
loop, and `online_is_recent` reads the bound off a published state.  A frame that waited in the
queue is stamped anew: `online_of_old_frame` is a run in which it waited for a second. -/

namespace Qub

open Interaction

namespace MotorThread

/-! ### Time, the queue and the log -/

inductive TimedEvent
  | took (msg : TPCANMsg) (arrival : ℕ)
  | clock (t : ℕ)
  | published (state : ChannelState)

/-- The monotonic clock in nanoseconds, the frames that wait with their arrival times, and what
happened so far, newest first. -/
structure Timed where
  now : ℕ
  queue : List (ℕ × TPCANMsg)
  log : List TimedEvent := []

/-- Time passes and frames arrive. -/
structure Passes (s s₁ : Timed) : Prop where
  now_le : s.now ≤ s₁.now
  arrivals : ∃ new, s₁.queue = s.queue ++ new ∧ ∀ p ∈ new, s.now ≤ p.1 ∧ p.1 ≤ s₁.now
  log_eq : s₁.log = s.log

/-- One `CAN_Read`: it fails, as it does on an empty queue, or it takes the oldest frame. -/
inductive TimedRead : Timed → TPCANStatus × TPCANMsg → Timed → Prop
  | fails (s sts msg) : sts ≠ pcanErrorOk → (sts = pcanErrorQrcvEmpty → s.queue = []) →
      TimedRead s (sts, msg) s
  | frame (now arrival msg rest log) :
      TimedRead ⟨now, (arrival, msg) :: rest, log⟩ (pcanErrorOk, msg)
        ⟨now, rest, .took msg arrival :: log⟩

/-- The world of one channel, with a clock that does not reach 2^64 nanoseconds. -/
def timed : World Sys Timed := fun s c r s' => ∃ s₁, Passes s s₁ ∧
  match c, r with
  | .canRead _, r => TimedRead s₁ r s'
  | .clockGettime, r => s₁.now < 2 ^ 64 ∧ r = timespecOf s₁.now ∧
      s' = { s₁ with log := .clock s₁.now :: s₁.log }
  | .storeChannel _ state, _ => s' = { s₁ with log := .published state :: s₁.log }
  | _, _ => s' = s₁

/-! ### The frame behind a feedback -/

/-- The values were parsed at time `stamp` from a frame of motor `m`: in the log the frame was
taken from the queue, and the clock reading that follows is `stamp`. -/
structure SuppliedBy (log : List TimedEvent) (m : UInt8) (q dq tauEst : CFloat) (msg : TPCANMsg)
    (arrival stamp : ℕ) : Prop where
  accepted : Robstride.isFeedbackFrom m msg = true
  parsed : ∃ buf : TPCANMsg, q = Robstride.feedbackPosition (buf.fill msg) ∧
    dq = Robstride.feedbackVelocity (buf.fill msg) ∧
    tauEst = Robstride.feedbackTorque (buf.fill msg)
  arrived : arrival ≤ stamp
  logged : ∃ later earlier, log = later ++ .clock stamp :: .took msg arrival :: earlier

/-- The feedback of `b` is untouched, or its values and its time stamp were supplied by `now`. -/
def Supply (log : List TimedEvent) (now : ℕ) (b : MotorBinding) : Prop :=
  b.motor.lastFeedback = {} ∨ ∃ msg arrival stamp, stamp ≤ now ∧
    b.motor.lastFeedback.timestampNs.toNat = stamp ∧
    SuppliedBy log b.motor.motorId b.motor.lastFeedback.position b.motor.lastFeedback.velocity
      b.motor.lastFeedback.torque msg arrival stamp

/-- What is promised of a published state: an online motor's values come from a frame that was
stamped less than the timeout before the state was. -/
def Recent (ids : List UInt8) (state : ChannelState) (past : List TimedEvent) : Prop :=
  ∃ now before, past = .clock now :: before ∧ state.timestampNs.toNat = now ∧
    ∀ i, state.online i = true → ∃ m msg arrival stamp, ids[i.val]? = some m ∧
      SuppliedBy before m (state.q i) (state.dq i) (state.tauEst i) msg arrival stamp ∧
      stamp ≤ now ∧ now - stamp < (motorPeriodNs * motorTimeoutCycles).toNat

/-- Every published state in the log is recent. -/
def AllRecent (ids : List UInt8) : List TimedEvent → Prop
  | [] => True
  | .published state :: past => Recent ids state past ∧ AllRecent ids past
  | _ :: past => AllRecent ids past

/-! ### Supplies over a growing log -/

section supply
variable {log : List TimedEvent} {now now' : ℕ}

theorem SuppliedBy.cons {m : UInt8} {q dq tauEst : CFloat} {msg : TPCANMsg} {arrival stamp : ℕ}
    (h : SuppliedBy log m q dq tauEst msg arrival stamp) (e : TimedEvent) :
    SuppliedBy (e :: log) m q dq tauEst msg arrival stamp := by
  obtain ⟨later, earlier, hlog⟩ := h.logged
  exact ⟨h.accepted, h.parsed, h.arrived, e :: later, earlier, by rw [hlog]; rfl⟩

theorem Supply.mono {b : MotorBinding} (h : Supply log now b) (hnow : now ≤ now') :
    Supply log now' b := by
  rcases h with h | ⟨msg, arrival, stamp, hstamp, hby⟩
  · exact .inl h
  · exact .inr ⟨msg, arrival, stamp, hstamp.trans hnow, hby⟩

theorem Supply.cons {b : MotorBinding} (h : Supply log now b) (e : TimedEvent) :
    Supply (e :: log) now b := by
  rcases h with h | ⟨msg, arrival, stamp, hstamp, hts, hby⟩
  · exact .inl h
  · exact .inr ⟨msg, arrival, stamp, hstamp, hts, hby.cons e⟩

/-- A frame that was just taken is offered to the motors and stamped. -/
theorem supply_deliver (buf msg : TPCANMsg) {arrival t : ℕ} (harr : arrival ≤ t)
    (ht : t < 2 ^ 64) (hnow : now ≤ t) :
    ∀ {motors : List MotorBinding}, (∀ b ∈ motors, Supply log now b) →
      ∀ b ∈ deliver (buf.fill msg) (timespecOf t) motors,
        Supply (.clock t :: .took msg arrival :: log) t b
  | [], _, b, hb => by cases hb
  | x :: rest, h, b, hb => by
      have hold : ∀ y, Supply log now y → Supply (.clock t :: .took msg arrival :: log) t y :=
        fun y hy => ((hy.mono hnow).cons _).cons _
      by_cases hx : x.motor.accepts (buf.fill msg) = true
      · rw [deliver, if_pos hx] at hb
        rcases List.mem_cons.mp hb with rfl | hb
        · exact .inr ⟨msg, arrival, t, le_rfl, toNs_timespecOf ht, hx, ⟨buf, rfl, rfl, rfl⟩, harr,
            [], log, rfl⟩
        · exact hold b (h b (List.mem_cons_of_mem _ hb))
      · rw [deliver, if_neg hx] at hb
        rcases List.mem_cons.mp hb with rfl | hb
        · exact hold b (h b List.mem_cons_self)
        · exact supply_deliver buf msg harr ht hnow
            (fun y hy => h y (List.mem_cons_of_mem _ hy)) b hb

theorem deliver_ids (msg : TPCANMsg) (ts : Timespec) (motors : List MotorBinding) :
    (deliver msg ts motors).map (·.motor.motorId) = motors.map (·.motor.motorId) := by
  have := congrArg (List.map Prod.snd) (deliver_keys msg ts motors)
  simpa [Function.comp_def, MotorBinding.key] using this

end supply

/-! ### The loop -/

/-- The invariant of the loop: every motor is supplied, no waiting frame is from the future,
and what was published is recent. -/
structure Good (ids : List UInt8) (motors : List MotorBinding) (s : Timed) : Prop where
  supply : ∀ b ∈ motors, Supply s.log s.now b
  ids_eq : motors.map (·.motor.motorId) = ids
  queue_le : ∀ p ∈ s.queue, p.1 ≤ s.now
  recent : AllRecent ids s.log

/-- The part of it that holds after every call. -/
abbrev Published (ids : List UInt8) (s : Timed) : Prop := AllRecent ids s.log

/-- A call that neither reads nor publishes. -/
def IsQuiet : SysCall → Prop
  | .canRead _ => False
  | .clockGettime => False
  | .storeChannel _ _ => False
  | _ => True

section loop
variable {ids : List UInt8} {motors : List MotorBinding} {s s₁ : Timed}

theorem Good.passes (h : Good ids motors s) (hp : Passes s s₁) : Good ids motors s₁ := by
  obtain ⟨new, hqueue, hnew⟩ := hp.arrivals
  refine ⟨?_, h.ids_eq, ?_, ?_⟩
  · rw [hp.log_eq]
    exact fun b hb => (h.supply b hb).mono hp.now_le
  · intro p hmem
    rw [hqueue] at hmem
    rcases List.mem_append.mp hmem with hmem | hmem
    · exact (h.queue_le p hmem).trans hp.now_le
    · exact (hnew p hmem).2
  · rw [hp.log_eq]
    exact h.recent

theorem Good.quiet (h : Good ids motors s) {c : SysCall} {r : c.Resp} (hc : IsQuiet c)
    (hstep : timed s c r s₁) : Good ids motors s₁ := by
  obtain ⟨s₂, hp, heff⟩ := hstep
  cases c with
  | canRead _ => exact hc.elim
  | clockGettime => exact hc.elim
  | storeChannel _ _ => exact hc.elim
  | _ =>
      obtain rfl : s₁ = s₂ := heff
      exact h.passes hp

theorem sat_quiet {α : Type} {p : SysM α} (hp : p.Only IsQuiet) (h : Good ids motors s) :
    Sat timed (Published ids) p (fun _ s' => Good ids motors s') s :=
  hp.sat (fun _ _ _ _ hc hg hstep => ⟨(hg.quiet hc hstep).recent, hg.quiet hc hstep⟩) h

theorem Good.clock (h : Good ids motors s) {ts : Timespec} (hstep : timed s .clockGettime ts s₁) :
    Good ids motors s₁ := by
  obtain ⟨s₂, hp, -, -, rfl⟩ := hstep
  have h₂ := h.passes hp
  exact ⟨fun b hb => (h₂.supply b hb).cons _, h₂.ids_eq, h₂.queue_le, h₂.recent⟩

/-- The motors are offered the frame that was just taken. -/
theorem dispatch_good {buf msg : TPCANMsg} {arrival : ℕ} {rest : List (ℕ × TPCANMsg)}
    (h : Good ids motors { s with queue := (arrival, msg) :: rest }) :
    Sat timed (Published ids) (dispatch (buf.fill msg) motors)
      (fun motors' s' => Good ids motors' s')
      { s with queue := rest, log := .took msg arrival :: s.log } := by
  have hqueue : ∀ p ∈ rest, p.1 ≤ s.now := fun p hp => h.queue_le p (List.mem_cons_of_mem _ hp)
  rw [dispatch_eq]
  split
  · rintro ts s' ⟨s₂, hp, hlt, rfl, rfl⟩
    have hlog : s₂.log = .took msg arrival :: s.log := hp.log_eq
    obtain ⟨new, hq, hnew⟩ := hp.arrivals
    have hrec : AllRecent ids (.clock s₂.now :: s₂.log) := by
      rw [hlog]
      exact h.recent
    refine ⟨hrec, ?_, ?_, ?_, hrec⟩
    · have harr : arrival ≤ s₂.now := (h.queue_le _ List.mem_cons_self).trans hp.now_le
      show ∀ b ∈ _, Supply (.clock s₂.now :: s₂.log) s₂.now b
      rw [hlog]
      exact supply_deliver buf msg harr hlt hp.now_le h.supply
    · rw [deliver_ids, h.ids_eq]
    · intro p hmem
      rcases List.mem_append.mp (hq ▸ hmem) with hmem | hmem
      · exact (hqueue p hmem).trans hp.now_le
      · exact (hnew p hmem).2
  · exact ⟨fun b hb => (h.supply b hb).cons _, h.ids_eq, hqueue, h.recent⟩

theorem drainLoop_good (ch : Fin numChannels) (left : ℕ) (d : Drained)
    (h : Good ids d.motors s) :
    Sat timed (Published ids) (drainLoop ch left d) (fun d' s' => Good ids d'.motors s') s := by
  induction left generalizing d s with
  | zero =>
      rw [drainLoop, canRead_bind, sat_call]
      rintro ⟨sts, frame⟩ s' ⟨s₂, hp, hread⟩
      have h₂ := h.passes hp
      cases hread with
      | fails _ _ _ hsts _ =>
          refine ⟨h₂.recent, ?_⟩
          simp only [beq_iff_eq, hsts, if_false]
          exact h₂
      | frame now arrival msg rest log =>
          refine ⟨h₂.recent, ?_⟩
          simp only [beq_self_eq_true, if_true]
          exact ⟨fun b hb => (h₂.supply b hb).cons _, h₂.ids_eq,
            fun p hp => h₂.queue_le p (List.mem_cons_of_mem _ hp), h₂.recent⟩
  | succ left ih =>
      rw [drainLoop, canRead_bind, sat_call]
      rintro ⟨sts, frame⟩ s' ⟨s₂, hp, hread⟩
      have h₂ := h.passes hp
      cases hread with
      | fails _ _ _ hsts _ =>
          refine ⟨h₂.recent, ?_⟩
          simp only [beq_iff_eq, hsts, if_false]
          exact h₂
      | frame now arrival msg rest log =>
          refine ⟨h₂.recent, ?_⟩
          simp only [beq_self_eq_true, if_true]
          exact (dispatch_good (s := ⟨now, [], log⟩) h₂).bind fun motors' s' h' => ih _ h'

/-- An online motor was supplied less than the timeout ago. -/
theorem Supply.recent {log : List TimedEvent} {b : MotorBinding} {now : ℕ} {now64 : UInt64}
    (h : Supply log now b) (hnow : now64.toNat = now)
    (honline : isOnline b.motor.lastFeedback now64 = true) :
    ∃ msg arrival stamp,
      SuppliedBy log b.motor.motorId b.motor.lastFeedback.position b.motor.lastFeedback.velocity
        b.motor.lastFeedback.torque msg arrival stamp ∧
      stamp ≤ now ∧ now - stamp < (motorPeriodNs * motorTimeoutCycles).toNat := by
  rcases h with h | ⟨msg, arrival, stamp, hstamp, hts, hby⟩
  · rw [h, isOnline_untouched] at honline
    cases honline
  · have hage := age_of_isOnline honline (by omega)
    rw [hnow, hts] at hage
    exact ⟨msg, arrival, stamp, hby, hstamp, hage⟩

theorem publishState_good (ch : Fin numChannels) (h : Good ids motors s) :
    Sat timed (Published ids) (publishState ch motors) (fun _ s' => Good ids motors s') s := by
  rintro ts s₁ hclock
  have h₁ := h.clock hclock
  refine ⟨h₁.recent, ?_⟩
  obtain ⟨s₀, hp₀, hlt, rfl, rfl⟩ := hclock
  rintro _ s₃ ⟨s₂, hp₂, rfl⟩
  have h₂ := h₁.passes hp₂
  have hlog : s₂.log = .clock s₀.now :: s₀.log := hp₂.log_eq
  have hrecent : Recent ids (channelState motors (timespecOf s₀.now).toNs) s₂.log := by
    refine ⟨s₀.now, s₀.log, hlog, toNs_timespecOf hlt, ?_⟩
    intro i honline
    simp only [channelState, localArray] at honline ⊢
    cases hb : motors[i.val]? with
    | none => simp [hb] at honline
    | some b =>
        simp only [hb, Option.map_some, Option.getD_some] at honline ⊢
        obtain ⟨msg, arrival, stamp, hby, hle, hage⟩ :=
          ((h.passes hp₀).supply b (List.mem_of_getElem? hb)).recent (toNs_timespecOf hlt) honline
        refine ⟨b.motor.motorId, msg, arrival, stamp, ?_, hby, hle, hage⟩
        rw [← h.ids_eq, List.getElem?_map, hb]
        rfl
  have hrec : AllRecent ids (.published _ :: s₂.log) := ⟨hrecent, h₂.recent⟩
  exact ⟨hrec, fun b hb => (h₂.supply b hb).cons _, h₂.ids_eq, h₂.queue_le, hrec⟩

theorem cycle_good (t : MotorThread) (buf : TPCANMsg) (h : Good ids t.motors s) :
    Sat timed (Published ids) (cycle t buf) (fun t' s' => Good ids t'.motors s') s := by
  have hsend : (sendCommands t.motors).Only IsQuiet := by
    refine (sendCommands_only t.motors).mono fun c hc => ?_
    cases c <;> trivial
  refine (sat_quiet hsend h).bind ?_
  intro _ s₁ h₁
  refine (drainLoop_good _ _ ⟨_, _, _⟩ h₁).bind ?_
  intro d s₂ h₂
  refine (publishState_good _ h₂).bind ?_
  intro _ s₃ h₃
  exact h₃

/-- Run lemma: any number of cycles, at any times. -/
theorem runLoop_good (buf : ℕ → TPCANMsg) (n : ℕ) (t : MotorThread) (next prevWake : Timespec)
    (h : Good ids t.motors s) :
    Sat timed (Published ids) (runLoop buf n t next prevWake)
      (fun t' s' => Good ids t'.motors s') s := by
  induction n generalizing t next prevWake s with
  | zero => trivial
  | succ n ih =>
      rw [runLoop, loadShutdown_bind, sat_call]
      intro shutdown s₁ hstep
      have h₁ := h.quiet (c := .loadShutdown) trivial hstep
      refine ⟨h₁.recent, ?_⟩
      cases shutdown with
      | true => exact h₁
      | false =>
          refine (cycle_good t (buf n) h₁).bind ?_
          rintro ⟨t₂, _⟩ s₂ h₂ ts s₃ hclock
          have h₃ := h₂.clock hclock
          refine ⟨h₃.recent, ?_⟩
          rintro _ s₄ hsleep
          have h₄ := h₃.quiet (c := .clockNanosleep _) trivial hsleep
          exact ⟨h₄.recent, ih _ _ _ h₄⟩

theorem run_good (buf : ℕ → TPCANMsg) (n : ℕ) (t : MotorThread) (h : Good ids t.motors s) :
    Sat timed (Published ids) (run buf n t) (fun t' s' => Good ids t'.motors s') s := by
  rw [run, clockGettime_bind, sat_call]
  intro ts s₁ hclock
  have h₁ := h.clock hclock
  exact ⟨h₁.recent, runLoop_good buf n t ts ts h₁⟩

/-- The loop is left and entered again, any number of times. -/
def runAgain (buf : ℕ → TPCANMsg) : List ℕ → MotorThread → SysM MotorThread
  | [], t => return t
  | n :: rest, t => do
      let t ← run buf n t
      runAgain buf rest t

theorem runAgain_good (buf : ℕ → TPCANMsg) (ns : List ℕ) (t : MotorThread)
    (h : Good ids t.motors s) :
    Sat timed (Published ids) (runAgain buf ns t) (fun t' s' => Good ids t'.motors s') s := by
  induction ns generalizing t s with
  | nil => exact h
  | cons n rest ih => exact (run_good buf n t h).bind fun t' s' h' => ih t' h'

end loop

theorem AllRecent.published {ids : List UInt8} {state : ChannelState} {later past : List TimedEvent}
    (h : AllRecent ids (later ++ .published state :: past)) : Recent ids state past := by
  induction later with
  | nil => exact h.1
  | cons e later ih =>
      cases e with
      | took _ _ => exact ih h
      | clock _ => exact ih h
      | published _ => exact ih h.2

/-- **An online measurement was stamped recently.**  Whatever arrives, however the cycles are
delayed and however often the loop is entered again: a motor that a published state shows
online has its values from a frame that was taken from the queue and stamped less than
`MOTOR_PERIOD_NS * MOTOR_TIMEOUT_CYCLES` before. -/
theorem online_is_recent (t : MotorThread) (hfresh : ∀ b ∈ t.motors, b.motor.lastFeedback = {})
    (buf : ℕ → TPCANMsg) (ns : List ℕ) {s s' : Timed} {o : Option MotorThread}
    (hqueue : ∀ p ∈ s.queue, p.1 ≤ s.now) (hlog : s.log = [])
    (h : Runs timed (runAgain buf ns t) s s' o) (later past : List TimedEvent)
    (state : ChannelState) (hpub : s'.log = later ++ .published state :: past) :
    Recent (t.motors.map (·.motor.motorId)) state past := by
  have hgood : Good (t.motors.map (·.motor.motorId)) t.motors s := by
    refine ⟨fun b hb => .inl (hfresh b hb), rfl, hqueue, ?_⟩
    rw [hlog]
    trivial
  have hrec := (h.sat (runAgain_good buf ns t hgood) hgood.recent).1
  rw [Published, hpub] at hrec
  exact hrec.published

/-! ### A frame that waited -/

/-- A clock that stands still, and a queue to which nothing arrives. -/
def stillHandler : Handler Sys Timed := fun s c =>
  match c with
  | .canRead _ =>
      match s with
      | ⟨now, [], log⟩ => ((pcanErrorQrcvEmpty, {}), ⟨now, [], log⟩)
      | ⟨now, (arrival, msg) :: rest, log⟩ =>
          ((pcanErrorOk, msg), ⟨now, rest, .took msg arrival :: log⟩)
  | .clockGettime => (timespecOf s.now, { s with log := .clock s.now :: s.log })
  | .storeChannel _ state => ((), { s with log := .published state :: s.log })
  | c => (c.quiet, s)

/-- The thread of channel 0 with its motor 4. -/
def threadOfFour : MotorThread := { channelIdx := 0, motors := [motorFour] }

/-- At one second, a frame of motor 4 that arrived at time zero still waits. -/
def oldFrame : Timed := ⟨1000000000, [(0, feedbackOfFour)], []⟩

theorem Passes.refl (s : Timed) : Passes s s :=
  ⟨le_rfl, ⟨[], by simp, by simp⟩, rfl⟩

theorem stillHandler_allowed (s : Timed) (c : SysCall) (hs : s.now < 2 ^ 64) :
    timed s c (stillHandler s c).1 (stillHandler s c).2 ∧ (stillHandler s c).2.now < 2 ^ 64 := by
  cases c with
  | canRead _ =>
      rcases s with ⟨now, _ | ⟨⟨arrival, msg⟩, rest⟩, log⟩
      · exact ⟨⟨_, Passes.refl _, .fails _ _ _ (by decide) fun _ => rfl⟩, hs⟩
      · exact ⟨⟨_, Passes.refl _, .frame _ _ _ _ _⟩, hs⟩
  | clockGettime => exact ⟨⟨_, Passes.refl _, hs, rfl, rfl⟩, hs⟩
  | _ => exact ⟨⟨_, Passes.refl _, rfl⟩, hs⟩

/-- **A frame that arrived a second ago makes its motor online.**  It is the only frame that
was ever taken. -/
theorem online_of_old_frame : ∃ s' state later past,
    Runs timed (run (fun _ => {}) 1 threadOfFour) oldFrame s' none ∧
      s'.log = later ++ .published state :: past ∧ state.online 0 = true ∧
      ∀ msg arrival, .took msg arrival ∈ past →
        (motorPeriodNs * motorTimeoutCycles).toNat ≤ state.timestampNs.toNat - arrival := by
  have hr := runs_exec stillHandler_allowed (run (fun _ => {}) 1 threadOfFour) (s := oldFrame)
    (by decide)
  refine ⟨_, _, [.clock 1000000000], [.clock 1000000000, .clock 1000000000,
    .took feedbackOfFour 0, .clock 1000000000], hr, rfl, by rfl, ?_⟩
  intro msg arrival hmem
  obtain ⟨-, rfl⟩ : msg = feedbackOfFour ∧ arrival = 0 := by simpa using hmem
  decide

/-- The bound holds for the time of stamping. -/
theorem online_is_recent_once : ∃ s' state later past,
    Runs timed (runAgain (fun _ => {}) [1] threadOfFour) oldFrame s' none ∧
      s'.log = later ++ .published state :: past ∧ state.online 0 = true ∧
        Recent [4] state past := by
  have hr := runs_exec stillHandler_allowed (runAgain (fun _ => {}) [1] threadOfFour)
    (s := oldFrame) (by decide)
  refine ⟨_, _, [.clock 1000000000], [.clock 1000000000, .clock 1000000000,
    .took feedbackOfFour 0, .clock 1000000000], hr, rfl, by rfl, ?_⟩
  refine online_is_recent threadOfFour ?_ _ [1] ?_ rfl hr [.clock 1000000000] _ _ rfl
  · simp [threadOfFour, motorFour]
  · simp [oldFrame]

end MotorThread

end Qub
