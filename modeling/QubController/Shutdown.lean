import QubController.Feedback
import QubController.ImuThread

/-! # How the loops end

`SharedState::shutdown` is to be polled by all threads.  `MotorThread::run` does: in the world
`flagged`, where the flag may be raised at any moment, it starts at most one more cycle.

`ImuThread::run` never looks at the flag and ends only when a poll of its main loop fails.  Its
inputs are an `ImuScript`: what each poll reports, and the clock readings of the wait for AHRS
mode.  `Waits` says which polls belong to the wait, and `shutdown_honoured_iff` when no second
poll is started after the flag was raised. -/

namespace Qub

open Interaction

/-! ### The motor loop -/

/-- The flag, and the number of motor cycles started since it was raised. -/
structure Flagged where
  raised : Bool
  startedSince : ℕ := 0

/-- The flag may be raised before any call takes effect, and then it stays raised.  A motor
cycle starts when it loads the action; all calls may be answered in any way. -/
def flagged : World Sys Flagged := fun s c r s' =>
  ∃ raised : Bool, (s.raised = true → raised = true) ∧
    match c, r with
    | .loadShutdown, r => r = raised ∧ s' = { s with raised }
    | .loadAction, _ => s' = ⟨raised, if raised then s.startedSince + 1 else s.startedSince⟩
    | _, _ => s' = { s with raised }

/-- At most one cycle was started since the flag was raised, and none before. -/
structure AtMostOne (s : Flagged) : Prop where
  started_le : s.startedSince ≤ 1
  of_started : s.startedSince = 1 → s.raised = true

section motor
variable {s s' : Flagged}

theorem AtMostOne.keep (h : AtMostOne s) {c : SysCall} {r : c.Resp} (hc : c ≠ .loadAction)
    (hstep : flagged s c r s') : AtMostOne s' := by
  obtain ⟨raised, hmono, heff⟩ := hstep
  have hkeep : AtMostOne { s with raised } :=
    ⟨h.started_le, fun hone => hmono (h.of_started hone)⟩
  cases c with
  | loadAction => exact absurd rfl hc
  | loadShutdown =>
      obtain ⟨-, rfl⟩ := heff
      exact hkeep
  | _ =>
      obtain rfl := heff
      exact hkeep

theorem sat_atMostOne {α : Type} {p : SysM α} {P : SysCall → Prop} (hp : p.Only P)
    (hP : ∀ c, P c → c ≠ .loadAction) (h : AtMostOne s) :
    Sat flagged AtMostOne p (fun _ s' => AtMostOne s') s :=
  hp.sat (fun _ c _ _ hc hg hstep => ⟨hg.keep (hP c hc) hstep, hg.keep (hP c hc) hstep⟩) h

/-- A cycle that starts when the flag was not raised before. -/
theorem cycle_atMostOne (t : MotorThread) (msg : TPCANMsg) (h : s.startedSince = 0) :
    Sat flagged AtMostOne (MotorThread.cycle t msg) (fun _ s' => AtMostOne s') s := by
  unfold MotorThread.cycle
  refine Sat.bind (Q := fun _ s' => AtMostOne s') ?_ fun _ s₁ h₁ => ?_
  · rintro act s₁ ⟨raised, -, rfl⟩
    have h₁ : AtMostOne ⟨raised, if raised then s.startedSince + 1 else s.startedSince⟩ := by
      cases raised <;> simp [h, AtMostOne.mk]
    exact ⟨h₁, sat_atMostOne (MotorThread.sendAll_only act _) (by rintro _ hc rfl; exact hc) h₁⟩
  · refine (sat_atMostOne (MotorThread.drainLoop_obeys _ _ _).only (by rintro _ hc rfl; exact hc)
      h₁).bind fun d s₂ h₂ => ?_
    exact (sat_atMostOne (MotorThread.publishState_only _ _) (by rintro _ hc rfl; exact hc)
      h₂).bind fun _ s₃ h₃ => h₃

/-- Run lemma of the motor loop. -/
theorem runLoop_atMostOne (buf : ℕ → TPCANMsg) (n : ℕ) (t : MotorThread)
    (next prevWake : Timespec) (h : AtMostOne s) :
    Sat flagged AtMostOne (MotorThread.runLoop buf n t next prevWake)
      (fun _ s' => AtMostOne s') s := by
  induction n generalizing t next prevWake s with
  | zero => trivial
  | succ n ih =>
      rw [MotorThread.runLoop, loadShutdown_bind, sat_call]
      intro shutdown s₁ hstep
      have h₁ := h.keep (by simp) hstep
      refine ⟨h₁, ?_⟩
      cases shutdown with
      | true => exact h₁
      | false =>
          -- the flag was still down, so no cycle has been started since it was raised
          have hzero : s₁.startedSince = 0 := by
            obtain ⟨raised, hmono, rfl, rfl⟩ := hstep
            by_contra hne
            have hone : s.startedSince = 1 := by
              have := h.started_le
              show s.startedSince = 1
              have : s.startedSince ≠ 0 := hne
              omega
            cases hmono (h.of_started hone)
          refine (cycle_atMostOne t (buf n) hzero).bind ?_
          rintro t₂ s₂ h₂ now s₃ hclock
          have h₃ := h₂.keep (c := .clockGettime) (by simp) hclock
          refine ⟨h₃, ?_⟩
          intro _ s₄ hsleep
          have h₄ := h₃.keep (c := .clockNanosleep _) (by simp) hsleep
          exact ⟨h₄, ih _ _ _ h₄⟩

/-- **The motor loop honours the flag.** -/
theorem motor_run_atMostOne {buf : ℕ → TPCANMsg} {n : ℕ} {t : MotorThread} {raised : Bool}
    {o : Option MotorThread} (h : Runs flagged (MotorThread.run buf n t) ⟨raised, 0⟩ s' o) :
    s'.startedSince ≤ 1 := by
  have hinit : AtMostOne ⟨raised, 0⟩ := ⟨by simp, by simp⟩
  have hsat : Sat flagged AtMostOne (MotorThread.run buf n t) (fun _ s' => AtMostOne s')
      ⟨raised, 0⟩ := by
    intro next s₁ hclock
    have h₁ := hinit.keep (c := .clockGettime) (by simp) hclock
    exact ⟨h₁, runLoop_atMostOne buf n t next next h₁⟩
  exact (h.sat hsat hinit).1.started_le

end motor

/-! ### The IMU loop -/

/-- The inputs of `ImuThread::run`: what poll `k` reports, and the readings of the steady clock
(the first starts the wait, the others follow the polls of the wait). -/
structure ImuScript where
  update : ℕ → Bool × MipData
  steady : ℕ → ℤ

namespace ImuScript

variable (sc : ImuScript)

/-- The filter mode before poll `k`: that of the last successful poll. -/
def modeAt (mode₀ : UInt32) : ℕ → UInt32
  | 0 => mode₀
  | k + 1 => if (sc.update k).1 then (sc.update k).2.filterState.toUInt32 else modeAt mode₀ k

/-- Poll `k` belongs to the wait for AHRS mode: the mode was not reached before it, and the
thirty seconds were not over after any poll before it. -/
def Waits (mode₀ : UInt32) (k : ℕ) : Prop :=
  (∀ i ≤ k, sc.modeAt mode₀ i < filterModeAhrs) ∧
    ∀ i < k, sc.steady (i + 1) - sc.steady 0 ≤ ImuThread.ahrsTimeoutNs

/-- Poll `k` belongs to the main loop, and it fails. -/
def Stops (mode₀ : UInt32) (k : ℕ) : Prop := ¬ sc.Waits mode₀ k ∧ (sc.update k).1 = false

structure Entered (mode₀ : UInt32) (k : ℕ) : Prop where
  mode_lt : ∀ i < k, sc.modeAt mode₀ i < filterModeAhrs
  in_time : ∀ i < k, sc.steady (i + 1) - sc.steady 0 ≤ ImuThread.ahrsTimeoutNs

variable {sc} {mode₀ : UInt32} {k : ℕ}

theorem Waits.pred (h : sc.Waits mode₀ (k + 1)) : sc.Waits mode₀ k :=
  ⟨fun i hi => h.1 i (by omega), fun i hi => h.2 i (by omega)⟩

theorem Entered.waits (h : sc.Entered mode₀ k) (hmode : sc.modeAt mode₀ k < filterModeAhrs) :
    sc.Waits mode₀ k := by
  refine ⟨fun i hi => ?_, h.in_time⟩
  rcases Nat.lt_or_eq_of_le hi with hi | rfl
  · exact h.mode_lt i hi
  · exact hmode

theorem Entered.waits_of_lt (h : sc.Entered mode₀ k) {j : ℕ} (hj : j < k) : sc.Waits mode₀ j :=
  ⟨fun i hi => h.mode_lt i (by omega), fun i hi => h.in_time i (by omega)⟩

theorem Waits.entered_succ (h : sc.Waits mode₀ k)
    (htime : sc.steady (k + 1) - sc.steady 0 ≤ ImuThread.ahrsTimeoutNs) :
    sc.Entered mode₀ (k + 1) := by
  refine ⟨fun i hi => h.1 i (by omega), fun i hi => ?_⟩
  rcases Nat.lt_succ_iff_lt_or_eq.mp hi with hi | rfl
  · exact h.2 i hi
  · exact htime

theorem Waits.not_stops (h : sc.Waits mode₀ k) : ¬ sc.Stops mode₀ k := fun hstop => hstop.1 h

end ImuScript

/-- How many polls were started, and how often the steady clock was read. -/
structure ImuTrace where
  polls : ℕ := 0
  ticks : ℕ := 0

/-- The world of a script; the other calls may be answered in any way. -/
def scripted (sc : ImuScript) : World Sys ImuTrace := fun s c r s' =>
  match c, r with
  | .imuUpdate, r => r = sc.update s.polls ∧ s' = { s with polls := s.polls + 1 }
  | .steadyNow, r => r = sc.steady s.ticks ∧ s' = { s with ticks := s.ticks + 1 }
  | _, _ => s' = s

def ImuDriver.polled (d : ImuDriver) (r : Bool × MipData) : ImuDriver :=
  if r.1 then
    { d with
      data := r.2, updateCount := d.updateCount + 1, filterMode := r.2.filterState.toUInt32 }
  else { d with data := r.2 }

theorem ImuDriver.polled_connected {d : ImuDriver} (hd : d.connected = true)
    (r : Bool × MipData) : (d.polled r).connected = true := by
  unfold ImuDriver.polled
  split <;> exact hd

theorem ImuDriver.polled_filterMode {sc : ImuScript} {mode₀ : UInt32} {k : ℕ} {d : ImuDriver}
    (hd : d.filterMode = sc.modeAt mode₀ k) :
    (d.polled (sc.update k)).filterMode = sc.modeAt mode₀ (k + 1) := by
  unfold ImuDriver.polled ImuScript.modeAt
  split
  · rfl
  · exact hd

section imu
variable {sc : ImuScript} {mode₀ : UInt32} {s s' : ImuTrace} {Inv : ImuTrace → Prop}

theorem pollAndPublish_sat {d : ImuDriver} (hd : d.connected = true)
    (hinv : Inv { s with polls := s.polls + 1 }) :
    Sat (scripted sc) Inv d.pollAndPublish
      (fun r s' => s' = { s with polls := s.polls + 1 } ∧ r.1 = (sc.update s.polls).1 ∧
        r.2 = d.polled (sc.update s.polls)) s := by
  unfold ImuDriver.pollAndPublish
  simp only [hd, Bool.not_true, Bool.false_eq_true, if_false, imuUpdate_bind, sat_call]
  rintro r s₁ ⟨rfl, rfl⟩
  refine ⟨hinv, ?_⟩
  cases hok : (sc.update s.polls).1 with
  | false => simp [ImuDriver.polled, hok, hd]
  | true =>
      simp only [Bool.not_true, Bool.false_eq_true, if_false, clockGettime_bind, storeImu_bind,
        sat_call]
      rintro ts _ rfl
      refine ⟨hinv, ?_⟩
      rintro _ _ rfl
      exact ⟨hinv, rfl, rfl, by simp [ImuDriver.polled, hok, hd]⟩

/-- At most one poll was started since the flag was raised, when there were `p`. -/
abbrev Bounded (p : ℕ) (s : ImuTrace) : Prop := s.polls - p ≤ 1

/-- If a poll up to `p` ends the loop and none did so far, the next poll is `p` at most. -/
theorem bounded_next {p : ℕ} (hstop : ∃ k ≤ p, sc.Stops mode₀ k)
    (hrun : ∀ j < s.polls, ¬ sc.Stops mode₀ j) : Bounded p { s with polls := s.polls + 1 } := by
  obtain ⟨m, hm, hstop⟩ := hstop
  have : ¬ m < s.polls := fun hlt => hrun m hlt hstop
  show s.polls + 1 - p ≤ 1
  omega

theorem waitLoop_sat {p : ℕ} (hstop : ∃ k ≤ p, sc.Stops mode₀ k) (n : ℕ) {d : ImuDriver}
    (hd : d.connected = true) (hmode : d.filterMode = sc.modeAt mode₀ s.polls)
    (htick : s.ticks = s.polls + 1) (hin : sc.Entered mode₀ s.polls) :
    Sat (scripted sc) (Bounded p) (ImuThread.waitLoop (sc.steady 0) n d)
      (fun d' s' => d'.connected = true ∧ ¬ sc.Waits mode₀ s'.polls ∧
        ∀ j < s'.polls, ¬ sc.Stops mode₀ j) s := by
  induction n generalizing d s with
  | zero => trivial
  | succ n ih =>
      rw [ImuThread.waitLoop]
      have hrun : ∀ j < s.polls, ¬ sc.Stops mode₀ j := fun j hj => (hin.waits_of_lt hj).not_stops
      by_cases hlt : d.filterMode < filterModeAhrs
      · rw [if_pos hlt]
        have hwaits := hin.waits (hmode ▸ hlt)
        have hb := bounded_next hstop hrun
        have hrun' : ∀ j < s.polls + 1, ¬ sc.Stops mode₀ j := by
          intro j hj
          rcases Nat.lt_succ_iff_lt_or_eq.mp hj with hj | rfl
          · exact hrun j hj
          · exact hwaits.not_stops
        refine (pollAndPublish_sat hd hb).bind ?_
        rintro ⟨ok, d'⟩ s₁ ⟨rfl, -, hd'⟩
        simp only at hd'
        subst hd'
        simp only [steadyNow_bind, sat_call]
        rintro now s₂ ⟨rfl, rfl⟩
        refine ⟨hb, ?_⟩
        simp only [htick]
        by_cases htime : ImuThread.ahrsTimeoutNs < sc.steady (s.polls + 1) - sc.steady 0
        · rw [if_pos htime]
          refine ⟨d.polled_connected hd _, ?_, hrun'⟩
          intro h
          exact absurd (h.2 s.polls (by simp)) (not_le.mpr htime)
        · rw [if_neg htime]
          rintro _ s₃ rfl
          exact ⟨hb, ih (d.polled_connected hd _) (d.polled_filterMode hmode) rfl
            (hwaits.entered_succ (not_lt.mp htime))⟩
      · rw [if_neg hlt]
        exact ⟨hd, fun h => hlt (hmode ▸ h.1 s.polls le_rfl), hrun⟩

theorem mainLoop_sat {p : ℕ} (hstop : ∃ k ≤ p, sc.Stops mode₀ k) (n : ℕ) {t : ImuThread}
    {next prevWake : Timespec} (hd : t.driver.connected = true) (hmain : ¬ sc.Waits mode₀ s.polls)
    (hrun : ∀ j < s.polls, ¬ sc.Stops mode₀ j) :
    Sat (scripted sc) (Bounded p) (ImuThread.mainLoop n t next prevWake) (fun _ _ => True) s := by
  induction n generalizing t next prevWake s with
  | zero => trivial
  | succ n ih =>
      rw [ImuThread.mainLoop]
      have hb := bounded_next hstop hrun
      refine (pollAndPublish_sat hd hb).bind ?_
      rintro ⟨ok, d'⟩ s₁ ⟨rfl, hok, hd'⟩
      simp only at hok hd'
      subst hok hd'
      cases hok : (sc.update s.polls).1 with
      | false => trivial
      | true =>
          rintro now _ rfl
          refine ⟨hb, ?_⟩
          rintro _ _ rfl
          refine ⟨hb, ih (t.driver.polled_connected hd _) (fun h => hmain h.pred) ?_⟩
          intro j hj
          rcases Nat.lt_succ_iff_lt_or_eq.mp hj with hj | rfl
          · exact hrun j hj
          · intro h
            exact absurd h.2 (by simp [hok])

/-- The upper bound: a failing poll of the main loop ends the thread. -/
theorem imu_run_bounded {p n : ℕ} {t : ImuThread} (hd : t.driver.connected = true)
    (hstop : ∃ k ≤ p, sc.Stops t.driver.filterMode k) {o : Option ImuThread}
    (h : Runs (scripted sc) (ImuThread.run n t) {} s' o) : Bounded p s' := by
  have hinit : Bounded p {} := by simp [Bounded]
  refine (h.sat (Q := fun _ _ => True) ?_ hinit).1
  rintro next s₁ rfl
  refine ⟨hinit, ?_⟩
  rintro start s₂ ⟨rfl, rfl⟩
  refine ⟨hinit, ?_⟩
  refine (waitLoop_sat hstop n hd rfl rfl ⟨by simp, by simp⟩).bind ?_
  rintro d s₃ ⟨hd', hmain, hrun⟩
  exact mainLoop_sat hstop n hd' hmain hrun

/-! ### The run of a script -/

def scriptHandler (sc : ImuScript) : Handler Sys ImuTrace := fun s c =>
  match c with
  | .imuUpdate => (sc.update s.polls, { s with polls := s.polls + 1 })
  | .steadyNow => (sc.steady s.ticks, { s with ticks := s.ticks + 1 })
  | c => (c.quiet, s)

theorem scriptHandler_allowed (s : ImuTrace) (c : SysCall) :
    scripted sc s c (scriptHandler sc s c).1 (scriptHandler sc s c).2 := by
  cases c with
  | imuUpdate => exact ⟨rfl, rfl⟩
  | steadyNow => exact ⟨rfl, rfl⟩
  | _ => rfl

theorem pollAndPublish_exec {α : Type} {d : ImuDriver} (hd : d.connected = true)
    (f : Bool × ImuDriver → SysM α) :
    exec (scriptHandler sc) (d.pollAndPublish >>= f) s =
      exec (scriptHandler sc) (f ((sc.update s.polls).1, d.polled (sc.update s.polls)))
        { s with polls := s.polls + 1 } := by
  have hupdate : (scriptHandler sc s .imuUpdate).1 = sc.update s.polls := rfl
  unfold ImuDriver.pollAndPublish
  simp only [hd, Bool.not_true, Bool.false_eq_true, if_false, imuUpdate_bind, Prog.call_bind, exec,
    hupdate]
  cases hok : (sc.update s.polls).1 with
  | false =>
      simp [ImuDriver.polled, hok, hd]
      rfl
  | true =>
      simp [ImuDriver.polled, hok, hd, exec]
      rfl

/-- The main loop polls until its bound is used up or a poll fails. -/
theorem mainLoop_exec {N : ℕ} (hrun : ∀ j < N, ¬ sc.Stops mode₀ j) (n : ℕ) {t : ImuThread}
    {next prevWake : Timespec} (hd : t.driver.connected = true)
    (hmain : ¬ sc.Waits mode₀ s.polls) :
    min (s.polls + n) (N + 1) ≤
      (exec (scriptHandler sc) (ImuThread.mainLoop n t next prevWake) s).1.polls := by
  induction n generalizing t next prevWake s with
  | zero => exact min_le_left _ _
  | succ n ih =>
      rw [ImuThread.mainLoop, pollAndPublish_exec hd]
      cases hok : (sc.update s.polls).1 with
      | false =>
          have hN : N ≤ s.polls := by
            by_contra hlt
            exact hrun s.polls (by omega) ⟨hmain, hok⟩
          show min (s.polls + (n + 1)) (N + 1) ≤ s.polls + 1
          omega
      | true =>
          simp only [Bool.not_true, Bool.false_eq_true, if_false, clockGettime_bind,
            sleepUntilNextPeriod, clockNanosleep_bind, Prog.call_bind, Prog.pure_eq, Prog.ret_bind,
            exec]
          refine le_trans ?_ (ih ?_ fun h => hmain h.pred)
          · show _ ≤ min (s.polls + 1 + n) (N + 1)
            omega
          · exact t.driver.polled_connected hd _

/-- The wait polls until its bound is used up or it goes over to the main loop. -/
theorem waitLoop_exec {N : ℕ} (n : ℕ) {d : ImuDriver}
    {f : ImuDriver → SysM ImuThread} (hd : d.connected = true)
    (hf : ∀ (d' : ImuDriver) (s' : ImuTrace), d'.connected = true → ¬ sc.Waits mode₀ s'.polls →
      N + 1 ≤ (exec (scriptHandler sc) (f d') s').1.polls)
    (hmode : d.filterMode = sc.modeAt mode₀ s.polls) (htick : s.ticks = s.polls + 1) :
    min (s.polls + n) (N + 1) ≤
      (exec (scriptHandler sc) (ImuThread.waitLoop (sc.steady 0) n d >>= f) s).1.polls := by
  induction n generalizing d s with
  | zero => exact min_le_left _ _
  | succ n ih =>
      rw [ImuThread.waitLoop]
      by_cases hlt : d.filterMode < filterModeAhrs
      · rw [if_pos hlt, bind_assoc, pollAndPublish_exec hd]
        have hnow : (scriptHandler sc { s with polls := s.polls + 1 } .steadyNow).1 =
            sc.steady (s.polls + 1) := congrArg sc.steady htick
        simp only [steadyNow_bind, Prog.call_bind, exec, hnow]
        by_cases htime : ImuThread.ahrsTimeoutNs < sc.steady (s.polls + 1) - sc.steady 0
        · rw [if_pos htime]
          refine le_trans (min_le_right _ _) (hf _ _ (d.polled_connected hd _) ?_)
          intro h
          exact absurd (h.2 s.polls (Nat.lt_succ_self _)) (not_le.mpr htime)
        · rw [if_neg htime]
          simp only [sleepFor_bind, Prog.call_bind, exec]
          refine le_trans ?_ (ih (d.polled_connected hd _) (d.polled_filterMode hmode) ?_)
          · show _ ≤ min (s.polls + 1 + n) (N + 1)
            omega
          · exact congrArg (· + 1) htick
      · rw [if_neg hlt]
        exact le_trans (min_le_right _ _)
          (hf d s hd fun h => hlt (hmode ▸ h.1 s.polls le_rfl))

/-- The lower bound: with enough iterations every poll before a failing one is started. -/
theorem imu_run_polls {N : ℕ} {t : ImuThread} (hd : t.driver.connected = true)
    (hrun : ∀ j < N, ¬ sc.Stops t.driver.filterMode j) :
    ∃ n s' o, Runs (scripted sc) (ImuThread.run n t) {} s' o ∧ N + 1 ≤ s'.polls := by
  refine ⟨N + 1, _, _, runs_exec (P := fun _ => True)
    (fun s c _ => ⟨scriptHandler_allowed s c, trivial⟩) _ trivial, ?_⟩
  have hwait : min (0 + (N + 1)) (N + 1) ≤ (exec (scriptHandler sc)
      (ImuThread.waitLoop (sc.steady 0) (N + 1) t.driver >>= fun driver =>
        ImuThread.mainLoop (N + 1) { t with driver } ⟨1, 0⟩ ⟨1, 0⟩)
      { polls := 0, ticks := 1 }).1.polls := by
    refine waitLoop_exec (s := { polls := 0, ticks := 1 }) (N + 1) hd ?_ rfl rfl
    intro d' s' hd' hmain
    refine le_trans ?_ (mainLoop_exec hrun (N + 1) hd' hmain)
    omega
  refine le_trans ?_ hwait
  omega

end imu

/-- **When the flag is honoured.**  A motor thread starts at most one more cycle after the flag
was raised, whatever its calls report and whenever that happens.  An IMU thread, where the flag
is raised when `p` polls were started, starts at most one more if and only if one of the polls
`0, …, p` belongs to the main loop and fails. -/
theorem shutdown_honoured_iff (sc : ImuScript) {t : ImuThread}
    (hd : t.driver.connected = true) (p : ℕ) :
    (∀ buf n t raised s' o, Runs flagged (MotorThread.run buf n t) ⟨raised, 0⟩ s' o →
      s'.startedSince ≤ 1) ∧
    ((∀ n s' o, Runs (scripted sc) (ImuThread.run n t) {} s' o → s'.polls - p ≤ 1) ↔
      ∃ k ≤ p, sc.Stops t.driver.filterMode k) := by
  refine ⟨fun _ _ _ _ _ _ h => motor_run_atMostOne h, ?_⟩
  constructor
  · intro h
    by_contra hstop
    have hrun : ∀ j < p + 1, ¬ sc.Stops t.driver.filterMode j := fun j hj hs =>
      hstop ⟨j, by omega, hs⟩
    obtain ⟨n, s', o, hr, hpolls⟩ := imu_run_polls hd hrun
    have := h n s' o hr
    omega
  · intro hstop n s' o hr
    exact imu_run_bounded hd hstop hr

def healthyImu : ImuScript where
  update _ := (true, { filterState := 3 })
  steady _ := 0

def brokenImu : ImuScript where
  update _ := (false, { filterState := 3 })
  steady _ := 0

theorem healthyImu_polls (N : ℕ) : ∃ n s' o,
    Runs (scripted healthyImu) (ImuThread.run n { driver := { connected := true } }) {} s' o ∧
      N + 1 ≤ s'.polls :=
  imu_run_polls rfl fun _ _ h => by cases h.2

/-- **A healthy IMU keeps its thread polling.**  The flag is raised before the first poll. -/
theorem imu_ignores_shutdown : ¬ ∀ n s' o,
    Runs (scripted healthyImu) (ImuThread.run n { driver := { connected := true } }) {} s' o →
      s'.polls - 0 ≤ 1 := by
  intro h
  obtain ⟨n, s', o, hr, hpolls⟩ := healthyImu_polls 1
  have := h n s' o hr
  omega

theorem broken_imu_stops : ∃ n s' o,
    Runs (scripted brokenImu)
        (ImuThread.run n { driver := { connected := true, filterMode := 3 } }) {} s' o ∧
      s'.polls = 1 := by
  have hrun : ∀ j < 0, ¬ brokenImu.Stops 3 j := by simp
  obtain ⟨n, s', o, hr, hpolls⟩ :=
    imu_run_polls (t := { driver := { connected := true, filterMode := 3 } }) rfl hrun
  have hstop : brokenImu.Stops 3 0 := ⟨fun h => absurd (h.1 0 le_rfl) (by decide), rfl⟩
  have := (shutdown_honoured_iff brokenImu rfl 0).2.mpr ⟨0, le_rfl, hstop⟩ n s' o hr
  exact ⟨n, s', o, hr, by omega⟩

end Qub
