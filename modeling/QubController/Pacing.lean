import Mathlib.Algebra.BigOperators.Group.List.Basic
import Mathlib.Algebra.Order.Ring.Int
import Mathlib.Data.List.TakeWhile
import QubController.Feedback
import QubController.ImuThread

/-! # The schedule of the loops

Both threads have a loop of the form that `rt_utils.hpp` prescribes: the work of a cycle, a
reading of the clock for the statistics, and `sleep_until_next_period`.  `turns` is that loop for
any work and any period; `MotorThread.runLoop_eq` and `ImuThread.mainLoop_eq` say that the loops
of the two threads are instances of it.

In the world `clocked` every call may take any time and every wake-up may be late.  The times
are integers; a `long` holds the sum of `timespec_add_ns` for periods up to 292 years.
`drift_free` says that the wake-up times asked for are exactly the multiples of the period, and
what follows for the cycles; `MotorThread.run_schedule` and `ImuThread.run_schedule` say it of
the two threads, whose works do not sleep. -/

namespace Qub

open Interaction

/-! ### Time -/

namespace Timespec

def ns (ts : Timespec) : ℤ := ts.tvSec * nsPerSec + ts.tvNsec

/-- The nanoseconds are less than a second. -/
def Normalised (ts : Timespec) : Prop := 0 ≤ ts.tvNsec ∧ ts.tvNsec < nsPerSec

instance (ts : Timespec) : Decidable ts.Normalised := inferInstanceAs (Decidable (_ ∧ _))

end Timespec

theorem timespecDiffNs_eq (a b : Timespec) : timespecDiffNs a b = a.ns - b.ns := by
  unfold timespecDiffNs Timespec.ns
  ring

/-- The carry loop keeps the time, and it ends with less than a second. -/
theorem timespecCarry_spec (n : ℕ) (sec rest : ℤ) (hrest : 0 ≤ rest ∧ rest < nsPerSec) :
    timespecCarry n ⟨sec, rest + n * nsPerSec⟩ = ⟨sec + n, rest⟩ := by
  induction n generalizing sec with
  | zero => simp [timespecCarry]
  | succ n ih =>
      have hle : nsPerSec ≤ rest + (n + 1 : ℕ) * nsPerSec := by
        unfold nsPerSec at *
        push_cast
        omega
      have hnext : rest + (n + 1 : ℕ) * nsPerSec - nsPerSec = rest + n * nsPerSec := by
        push_cast
        ring
      rw [timespecCarry, if_pos hle, hnext, ih]
      push_cast
      rw [add_assoc, add_comm 1 (n : ℤ)]

/-- `timespec_add_ns` adds, and its result is normalised. -/
theorem timespecAddNs_spec {ts : Timespec} (h : ts.Normalised) {ns : ℤ} (hns : 0 ≤ ns) :
    (timespecAddNs ts ns).Normalised ∧ (timespecAddNs ts ns).ns = ts.ns + ns := by
  have hpos : 0 ≤ ts.tvNsec + ns := add_nonneg h.1 hns
  have hsec : (0 : ℤ) < nsPerSec := by decide
  have hmod : 0 ≤ (ts.tvNsec + ns) % nsPerSec ∧ (ts.tvNsec + ns) % nsPerSec < nsPerSec :=
    ⟨Int.emod_nonneg _ hsec.ne', Int.emod_lt_of_pos _ hsec⟩
  have hquot : (((ts.tvNsec + ns) / nsPerSec).toNat : ℤ) = (ts.tvNsec + ns) / nsPerSec :=
    Int.toNat_of_nonneg (Int.ediv_nonneg hpos hsec.le)
  have hsplit : ts.tvNsec + ns =
      (ts.tvNsec + ns) % nsPerSec + ((ts.tvNsec + ns) / nsPerSec).toNat * nsPerSec := by
    rw [hquot, mul_comm]
    exact (Int.emod_add_mul_ediv _ _).symm
  have heq : timespecAddNs ts ns =
      ⟨ts.tvSec + ((ts.tvNsec + ns) / nsPerSec).toNat, (ts.tvNsec + ns) % nsPerSec⟩ := by
    have hcarry := timespecCarry_spec ((ts.tvNsec + ns) / nsPerSec).toNat ts.tvSec _ hmod
    rwa [← hsplit] at hcarry
  rw [heq]
  refine ⟨hmod, ?_⟩
  unfold Timespec.ns
  linarith [hsplit]

/-! ### The loop -/

/-- The variables of a loop: those of its work, and those of its timing. -/
structure Paced (α : Type) where
  vars : α
  next : Timespec
  prevWake : Timespec
  lastPeriodNs : ℤ := 0

section loop
variable {α : Type} (periodNs : ℤ) (work : α → SysM (α × Bool)) (note : α → ℤ → α)

/-- One turn: the work, the statistics, the sleep.  The work says whether the loop goes on. -/
def turn (p : Paced α) : SysM (Paced α × Bool) := do
  let (vars, goesOn) ← work p.vars
  if goesOn then
    let now ← clockGettime
    let period := timespecDiffNs now p.prevWake
    let next ← sleepUntilNextPeriod p.next periodNs
    return (⟨note vars period, next, now, period⟩, true)
  else
    return ({ p with vars }, false)

/-- At most `n` turns: the variables after each, and those with which the loop was left. -/
def turns : ℕ → Paced α → SysM (List (Paced α) × Option (Paced α))
  | 0, _ => return ([], none)
  | n + 1, p => do
      let (p, goesOn) ← turn periodNs work note p
      if goesOn then
        let (ps, left) ← turns n p
        return (p :: ps, left)
      else
        return ([], some p)

end loop

def whenLeft {α β : Type} (result : α → β) (r : List (Paced α) × Option (Paced α)) : SysM β :=
  match r.2 with
  | some p => return result p.vars
  | none => .cut

namespace MotorThread

/-- The work of a motor cycle; `left` counts the message buffers. -/
def pacedWork (buf : ℕ → TPCANMsg) (v : MotorThread × ℕ) : SysM ((MotorThread × ℕ) × Bool) := do
  let shutdown ← loadShutdown
  if shutdown then
    return (v, false)
  else
    let t ← cycle v.1 (buf v.2)
    return ((t, v.2 - 1), true)

def noteCycle (v : MotorThread × ℕ) (period : ℤ) : MotorThread × ℕ :=
  ({ v.1 with
    lastPeriodNs := period
    missedDeadlines :=
      if motorPeriodNs * 3 / 2 < period then v.1.missedDeadlines + 1 else v.1.missedDeadlines
    loopCount := v.1.loopCount + 1 }, v.2)

/-- The motor loop is a paced loop. -/
theorem runLoop_eq (buf : ℕ → TPCANMsg) (n : ℕ) (t : MotorThread) (next prevWake : Timespec)
    (last : ℤ) :
    runLoop buf n t next prevWake =
      turns motorPeriodNs (pacedWork buf) noteCycle n ⟨(t, n - 1), next, prevWake, last⟩ >>=
        whenLeft Prod.fst := by
  induction n generalizing t next prevWake last with
  | zero => rfl
  | succ n ih =>
      rw [runLoop, turns, turn, pacedWork]
      simp only [loadShutdown_bind, Prog.call_bind]
      refine congrArg _ (funext fun shutdown => ?_)
      cases shutdown with
      | true => rfl
      | false =>
          simp only [Bool.false_eq_true, if_false, bind_assoc, Nat.add_sub_cancel]
          refine congrArg _ (funext fun r => ?_)
          simp only [Prog.pure_eq, Prog.ret_bind, if_true, clockGettime_bind, Prog.call_bind,
            sleepUntilNextPeriod, clockNanosleep_bind]
          refine congrArg _ (funext fun now => congrArg _ (funext fun _ => ?_))
          rw [ih _ _ _ (timespecDiffNs now prevWake), bind_assoc]
          rfl

end MotorThread

namespace ImuThread

def pacedWork (t : ImuThread) : SysM (ImuThread × Bool) := do
  let (ok, driver) ← t.driver.pollAndPublish
  return ({ t with driver }, ok)

def noteCycle (t : ImuThread) (period : ℤ) : ImuThread :=
  { t with
    lastPeriodNs := period
    missedDeadlines :=
      if imuPeriodNs * 3 / 2 < period then t.missedDeadlines + 1 else t.missedDeadlines
    loopCount := t.loopCount + 1 }

theorem mainLoop_eq (n : ℕ) (t : ImuThread) (next prevWake : Timespec) (last : ℤ) :
    mainLoop n t next prevWake =
      turns imuPeriodNs pacedWork noteCycle n ⟨t, next, prevWake, last⟩ >>= whenLeft id := by
  induction n generalizing t next prevWake last with
  | zero => rfl
  | succ n ih =>
      rw [mainLoop, turns, turn, pacedWork]
      simp only [bind_assoc]
      refine congrArg _ (funext fun r => ?_)
      obtain ⟨ok, driver⟩ := r
      cases ok with
      | false => rfl
      | true =>
          simp only [Prog.pure_eq, Prog.ret_bind, Bool.not_true, Bool.false_eq_true, if_false,
            if_true, clockGettime_bind, Prog.call_bind, sleepUntilNextPeriod, clockNanosleep_bind]
          refine congrArg _ (funext fun now => congrArg _ (funext fun _ => ?_))
          rw [ih _ _ _ (timespecDiffNs now prevWake), bind_assoc]
          rfl

end ImuThread

/-! ### The clock -/

/-- One sleep: the time asked for, when it was called, and how late it woke up. -/
structure Wake where
  asked : Timespec
  called : ℤ
  latency : ℤ

/-- A sleep returns at the time asked for, or at once when that is over, and then the latency
comes on top.  A time that is not normalised is refused, without a sleep. -/
def Wake.woke (w : Wake) : ℤ :=
  (if w.asked.Normalised then max w.called w.asked.ns else w.called) + w.latency

/-- The time on `CLOCK_MONOTONIC` in nanoseconds, and the sleeps so far. -/
structure Clocked where
  time : ℤ
  wakes : List Wake := []

/-- Any time may pass before a call takes effect. -/
def clocked : World Sys Clocked := fun s c r s' =>
  ∃ t, s.time ≤ t ∧
    match c, r with
    | .clockGettime, ts => ts.Normalised ∧ ts.ns = t ∧ s' = { s with time := t }
    | .clockNanosleep asked, _ => ∃ latency, 0 ≤ latency ∧
        s' = ⟨(Wake.mk asked t latency).woke, s.wakes ++ [⟨asked, t, latency⟩]⟩
    | _, _ => s' = { s with time := t }

/-- The wake-up times asked for so far are the multiples of the period. -/
def Scheduled (t₀ periodNs : ℤ) (s : Clocked) : Prop :=
  ∀ (i : ℕ) (h : i < s.wakes.length),
    s.wakes[i].asked.Normalised ∧ s.wakes[i].asked.ns = t₀ + (i + 1) * periodNs ∧
      0 ≤ s.wakes[i].latency

/-- The next time is known. -/
structure OnSchedule (t₀ periodNs : ℤ) (next : Timespec) (s : Clocked) : Prop where
  scheduled : Scheduled t₀ periodNs s
  normalised : next.Normalised
  next_eq : next.ns = t₀ + s.wakes.length * periodNs

def NoSleep (c : SysCall) : Prop := ∀ wake, c ≠ .clockNanosleep wake

section schedule
variable {α : Type} {periodNs : ℤ} {work : α → SysM (α × Bool)} {note : α → ℤ → α}
  {t₀ : ℤ} {s s' : Clocked}

theorem NoSleep.wakes {c : SysCall} {r : c.Resp} (hc : NoSleep c) (h : clocked s c r s') :
    s'.wakes = s.wakes := by
  obtain ⟨t, -, heff⟩ := h
  cases c with
  | clockNanosleep wake => exact absurd rfl (hc wake)
  | clockGettime =>
      obtain ⟨-, -, rfl⟩ := heff
      rfl
  | _ =>
      obtain rfl := heff
      rfl

theorem Scheduled.congr (h : Scheduled t₀ periodNs s) (hw : s'.wakes = s.wakes) :
    Scheduled t₀ periodNs s' := by
  unfold Scheduled
  rw [hw]
  exact h

theorem OnSchedule.congr {next : Timespec} (h : OnSchedule t₀ periodNs next s)
    (hw : s'.wakes = s.wakes) : OnSchedule t₀ periodNs next s' :=
  ⟨h.scheduled.congr hw, h.normalised, by rw [hw]; exact h.next_eq⟩

theorem Scheduled.append (h : Scheduled t₀ periodNs s) {w : Wake} (hnorm : w.asked.Normalised)
    (hns : w.asked.ns = t₀ + (s.wakes.length + 1) * periodNs) (hlatency : 0 ≤ w.latency)
    (time : ℤ) :
    Scheduled t₀ periodNs ⟨time, s.wakes ++ [w]⟩ := by
  intro i hi
  have hi' : i < s.wakes.length + 1 := by simpa using hi
  rcases Nat.lt_succ_iff_lt_or_eq.mp hi' with hlt | rfl
  · simpa [List.getElem_append_left hlt] using h i hlt
  · simpa using ⟨hnorm, hns, hlatency⟩

/-- Step lemma: one call of `sleep_until_next_period`. -/
theorem sleepUntilNextPeriod_sat (hP : 0 < periodNs) {next : Timespec}
    (h : OnSchedule t₀ periodNs next s) :
    Sat clocked (Scheduled t₀ periodNs) (sleepUntilNextPeriod next periodNs)
      (fun next' s' => OnSchedule t₀ periodNs next' s' ∧
        s'.wakes.length = s.wakes.length + 1) s := by
  obtain ⟨hnorm, hns⟩ := timespecAddNs_spec h.normalised hP.le
  rintro _ s' ⟨t, -, latency, hlatency, rfl⟩
  have hnext : (timespecAddNs next periodNs).ns = t₀ + (s.wakes.length + 1) * periodNs := by
    rw [hns, h.next_eq]
    ring
  have hsched : Scheduled t₀ periodNs
      ⟨(Wake.mk (timespecAddNs next periodNs) t latency).woke,
        s.wakes ++ [⟨timespecAddNs next periodNs, t, latency⟩]⟩ :=
    h.scheduled.append hnorm hnext hlatency _
  refine ⟨hsched, ⟨hsched, hnorm, ?_⟩, List.length_append⟩
  rw [hnext, List.length_append]
  push_cast
  rfl

/-- One turn of the loop; a turn that goes on has slept once. -/
theorem turn_sat (hP : 0 < periodNs) (hwork : ∀ v, (work v).Only NoSleep) {p : Paced α}
    (h : OnSchedule t₀ periodNs p.next s) :
    Sat clocked (Scheduled t₀ periodNs) (turn periodNs work note p)
      (fun r s' => (r.2 = false → s'.wakes = s.wakes) ∧
        (r.2 = true → OnSchedule t₀ periodNs r.1.next s' ∧
          s'.wakes.length = s.wakes.length + 1 ∧
          r.1.lastPeriodNs = r.1.prevWake.ns - p.prevWake.ns)) s := by
  have hkeep : ∀ (s₁ : Clocked) (c : SysCall) (r : c.Resp) (s₂ : Clocked), NoSleep c →
      s₁.wakes = s.wakes → clocked s₁ c r s₂ →
      Scheduled t₀ periodNs s₂ ∧ s₂.wakes = s.wakes := by
    intro s₁ c r s₂ hc hw hstep
    have hw₂ := (hc.wakes hstep).trans hw
    exact ⟨h.scheduled.congr hw₂, hw₂⟩
  unfold turn
  refine ((hwork p.vars).sat hkeep rfl).bind fun r s₁ h₁ => ?_
  obtain ⟨vars, goesOn⟩ := r
  cases goesOn with
  | false => exact ⟨fun _ => h₁, fun hfalse => absurd hfalse (by simp)⟩
  | true =>
      simp only [if_true, clockGettime_bind, sat_call]
      intro now s₂ hnow
      obtain ⟨hsched, hw₂⟩ := hkeep s₁ .clockGettime now s₂ (by simp [NoSleep]) h₁ hnow
      refine ⟨hsched, (sleepUntilNextPeriod_sat hP (h.congr hw₂)).bind ?_⟩
      rintro next s₃ ⟨h₃, hlen⟩
      refine ⟨fun hfalse => absurd hfalse (by simp), fun _ => ?_⟩
      exact ⟨h₃, by rw [hlen, hw₂], timespecDiffNs_eq now p.prevWake⟩

/-- The variables after `k` turns: the schedule, and the periods measured so far. -/
structure Measured (t₀ periodNs : ℤ) (p : Paced α) (done : ℕ) (ps : List (Paced α)) : Prop where
  next_eq : ∀ (i : ℕ) (h : i < ps.length), ps[i].next.Normalised ∧
    ps[i].next.ns = t₀ + (done + (i + 1) : ℕ) * periodNs
  sum_eq : (ps.map (·.lastPeriodNs)).sum = (ps.getLastD p).prevWake.ns - p.prevWake.ns

theorem Measured.nil (p : Paced α) (done : ℕ) : Measured t₀ periodNs p done [] :=
  ⟨fun i h => absurd h (Nat.not_lt_zero i), by simp⟩

theorem Measured.cons {p q : Paced α} {done : ℕ} {ps : List (Paced α)}
    (hnorm : q.next.Normalised) (hnext : q.next.ns = t₀ + (done + 1 : ℕ) * periodNs)
    (hperiod : q.lastPeriodNs = q.prevWake.ns - p.prevWake.ns)
    (h : Measured t₀ periodNs q (done + 1) ps) : Measured t₀ periodNs p done (q :: ps) := by
  constructor
  · intro i hi
    cases i with
    | zero => exact ⟨hnorm, hnext⟩
    | succ i =>
        obtain ⟨hn, hi⟩ := h.next_eq i (Nat.lt_of_succ_lt_succ hi)
        refine ⟨hn, ?_⟩
        rw [List.getElem_cons_succ, hi]
        congr 3
        omega
  · rw [List.map_cons, List.sum_cons, h.sum_eq, hperiod, List.getLastD_cons]
    ring

/-- Run lemma: the turns. -/
theorem turns_sat (hP : 0 < periodNs) (hwork : ∀ v, (work v).Only NoSleep) (n : ℕ) {p : Paced α}
    (h : OnSchedule t₀ periodNs p.next s) :
    Sat clocked (Scheduled t₀ periodNs) (turns periodNs work note n p)
      (fun r s' => s'.wakes.length = s.wakes.length + r.1.length ∧
        Measured t₀ periodNs p s.wakes.length r.1) s := by
  induction n generalizing p s with
  | zero => exact ⟨rfl, .nil _ _⟩
  | succ n ih =>
      rw [turns]
      refine (turn_sat hP hwork h).bind ?_
      rintro ⟨q, goesOn⟩ s₁ ⟨hleft, hturn⟩
      cases goesOn with
      | false => exact ⟨congrArg List.length (hleft rfl), .nil _ _⟩
      | true =>
          obtain ⟨hq, hlen, hperiod⟩ := hturn rfl
          simp only [if_true]
          refine (ih hq).bind ?_
          rintro ⟨ps, left⟩ s₂ ⟨hlen₂, hps⟩
          rw [hlen] at hlen₂ hps
          refine ⟨?_, .cons hq.normalised ?_ hperiod hps⟩
          · rw [hlen₂, List.length_cons]
            omega
          · rw [hq.next_eq, hlen]

/-- Instants that keep a distance of `periodNs` from one another, counted up to `t`. -/
theorem countP_le_of_spaced {l : List ℤ} (hP : 0 < periodNs)
    (h : ∀ (i : ℕ) (hi : i < l.length), t₀ + i * periodNs ≤ l[i]) {t : ℤ} (ht : t₀ ≤ t) :
    (l.countP (· ≤ t) : ℤ) ≤ (t - t₀) / periodNs + 1 := by
  have hquot : 0 ≤ (t - t₀) / periodNs := Int.ediv_nonneg (by omega) hP.le
  obtain ⟨m, hm⟩ := Int.eq_ofNat_of_zero_le hquot
  -- the instants from number m + 1 on are later than t
  have hlate : (l.drop (m + 1)).countP (· ≤ t) = 0 := by
    rw [List.countP_eq_zero]
    intro x hx
    obtain ⟨i, hi, rfl⟩ := List.mem_iff_getElem.mp hx
    have hi' : m + 1 + i < l.length := by
      rw [List.length_drop] at hi
      omega
    have hx' := h (m + 1 + i) hi'
    have hlt : t - t₀ < (m + 1) * periodNs := by
      have := Int.lt_ediv_add_one_mul_self (t - t₀) hP
      rwa [hm] at this
    have hmono : (m + 1 : ℤ) * periodNs ≤ (m + 1 + i : ℕ) * periodNs := by
      refine mul_le_mul_of_nonneg_right ?_ hP.le
      push_cast
      omega
    rw [List.getElem_drop, decide_eq_true_eq]
    omega
  have hsplit : l.countP (· ≤ t) =
      (l.take (m + 1)).countP (· ≤ t) + (l.drop (m + 1)).countP (· ≤ t) := by
    rw [← List.countP_append, List.take_append_drop]
  have htake : (l.take (m + 1)).countP (· ≤ t) ≤ m + 1 :=
    List.countP_le_length.trans (List.length_take_le _ _)
  rw [hm]
  omega

/-- The instants at which the cycles start: the first reading of the clock, and the ends of the
sleeps. -/
def cycleStarts (t₀ : ℤ) (s : Clocked) : List ℤ := t₀ :: s.wakes.map Wake.woke

theorem Wake.asked_le_woke {w : Wake} (hnorm : w.asked.Normalised) (hlatency : 0 ≤ w.latency) :
    w.asked.ns ≤ w.woke := by
  rw [Wake.woke, if_pos hnorm]
  have := le_max_right w.called w.asked.ns
  omega

/-- A sleep that was called in time ends at the time asked for, up to its own latency. -/
theorem Wake.woke_of_called_le {w : Wake} (hnorm : w.asked.Normalised) (h : w.called ≤ w.asked.ns) :
    w.woke = w.asked.ns + w.latency := by
  rw [Wake.woke, if_pos hnorm, max_eq_right h]

theorem cycleStarts_spaced (h : Scheduled t₀ periodNs s) (i : ℕ)
    (hi : i < (cycleStarts t₀ s).length) :
    t₀ + i * periodNs ≤ (cycleStarts t₀ s)[i] := by
  cases i with
  | zero => simp [cycleStarts]
  | succ i =>
      have hi' : i < s.wakes.length := by simpa [cycleStarts] using hi
      obtain ⟨hnorm, hns, hlatency⟩ := h i hi'
      have := Wake.asked_le_woke hnorm hlatency
      simp only [cycleStarts, List.getElem_cons_succ, List.getElem_map]
      push_cast
      omega

end schedule

/-! ### The two threads -/

theorem OnSchedule.start {t₀ : Timespec} (ht₀ : t₀.Normalised) (periodNs time : ℤ) :
    OnSchedule t₀.ns periodNs t₀ ⟨time, []⟩ :=
  ⟨fun i hi => absurd hi (Nat.not_lt_zero i), ht₀, by simp⟩

theorem noSleep_of_only {α : Type} {p : SysM α} {P : SysCall → Prop} (h : p.Only P)
    (hP : ∀ wake, ¬ P (.clockNanosleep wake)) : p.Only NoSleep := by
  refine h.mono fun c hc wake hwake => hP wake ?_
  rw [hwake] at hc
  exact hc

theorem MotorThread.pacedWork_noSleep (buf : ℕ → TPCANMsg) (v : MotorThread × ℕ) :
    (pacedWork buf v).Only NoSleep := by
  refine ⟨by simp [NoSleep], fun shutdown => ?_⟩
  cases shutdown with
  | true => trivial
  | false =>
      have hsend : (sendCommands v.1.motors).Only NoSleep :=
        noSleep_of_only (sendCommands_only _) fun _ => id
      have hdrain : (drainFeedback v.1.channelIdx v.1.motors (buf v.2)).Only NoSleep :=
        noSleep_of_only (drainLoop_obeys _ _ _).only fun _ => id
      have hpublish : ∀ motors, (publishState v.1.channelIdx motors).Only NoSleep := fun motors =>
        noSleep_of_only (publishState_only _ motors) fun _ => id
      have hcycle : (cycle v.1 (buf v.2)).Only NoSleep :=
        hsend.bind fun _ => hdrain.bind fun d => (hpublish d.motors).bind fun _ => trivial
      exact hcycle.bind fun _ => trivial

theorem ImuDriver.pollAndPublish_noSleep (d : ImuDriver) : d.pollAndPublish.Only NoSleep := by
  unfold ImuDriver.pollAndPublish
  cases d.connected with
  | false => trivial
  | true =>
      refine ⟨by simp [NoSleep], ?_⟩
      rintro ⟨ok, data⟩
      cases ok with
      | false => trivial
      | true => exact ⟨by simp [NoSleep], fun _ => ⟨by simp [NoSleep], fun _ => trivial⟩⟩

theorem ImuThread.pacedWork_noSleep (t : ImuThread) : (pacedWork t).Only NoSleep :=
  t.driver.pollAndPublish_noSleep.bind fun _ => trivial

theorem ImuThread.waitLoop_noSleep (waitStart : ℤ) (n : ℕ) (d : ImuDriver) :
    (waitLoop waitStart n d).Only NoSleep := by
  induction n generalizing d with
  | zero => trivial
  | succ n ih =>
      rw [waitLoop]
      split
      · refine d.pollAndPublish_noSleep.bind fun r => ?_
        simp only [steadyNow_bind, sleepFor_bind, only_call]
        refine ⟨by simp [NoSleep], fun now => ?_⟩
        split
        · trivial
        · exact ⟨by simp [NoSleep], fun _ => ih r.2⟩
      · trivial

section threads
variable {α : Type} {periodNs time : ℤ} {n : ℕ} {s : Clocked}

/-- After the first reading of the clock, calls that do not sleep leave the schedule as it is. -/
theorem paced_schedule {work : α → SysM (α × Bool)} {note : α → ℤ → α} {β : Type} {start : SysM α}
    {result : α → β} {o : Option β} (hP : 0 < periodNs) (hstart : start.Only NoSleep)
    (hwork : ∀ v, (work v).Only NoSleep)
    (h : Runs clocked (clockGettime >>= fun next => start >>= fun v =>
      turns periodNs work note n ⟨v, next, next, 0⟩ >>= whenLeft result) ⟨time, []⟩ s o) :
    ∃ t₀, time ≤ t₀ ∧ Scheduled t₀ periodNs s := by
  rw [clockGettime_bind] at h
  cases h with
  | stop => exact ⟨time, le_rfl, fun i hi => absurd hi (Nat.not_lt_zero i)⟩
  | @call _ _ next _ _ _ _ hclock hrest =>
      obtain ⟨t₀, ht₀, hnorm, rfl, rfl⟩ := hclock
      have hon := OnSchedule.start hnorm periodNs next.ns
      refine ⟨_, ht₀, (hrest.sat (Q := fun _ _ => True) ?_ hon.scheduled).1⟩
      refine (hstart.sat (J := OnSchedule next.ns periodNs next) ?_ hon).bind fun v s₁ h₁ => ?_
      · intro s₁ c r s₂ hc h₁ hstep
        have h₂ := h₁.congr (hc.wakes hstep)
        exact ⟨h₂.scheduled, h₂⟩
      · refine (turns_sat hP hwork n (p := ⟨v, next, next, 0⟩) h₁).bind fun r s₂ _ => ?_
        unfold whenLeft
        split <;> trivial

/-- The motor loop keeps the schedule from its first reading of the clock on. -/
theorem MotorThread.run_schedule {buf : ℕ → TPCANMsg} {t : MotorThread} {o : Option MotorThread}
    (h : Runs clocked (run buf n t) ⟨time, []⟩ s o) :
    ∃ t₀, time ≤ t₀ ∧ Scheduled t₀ motorPeriodNs s := by
  have hrun : run buf n t = clockGettime >>= fun next => pure (t, n - 1) >>= fun v =>
      turns motorPeriodNs (pacedWork buf) noteCycle n ⟨v, next, next, 0⟩ >>=
        whenLeft Prod.fst :=
    congrArg _ (funext fun next => runLoop_eq buf n t next next 0)
  rw [hrun] at h
  refine paced_schedule (by decide) ?_ (pacedWork_noSleep buf) h
  trivial

/-- So does the IMU loop, which reads the clock before it waits for AHRS mode. -/
theorem ImuThread.run_schedule {t : ImuThread} {o : Option ImuThread}
    (h : Runs clocked (run n t) ⟨time, []⟩ s o) :
    ∃ t₀, time ≤ t₀ ∧ Scheduled t₀ imuPeriodNs s := by
  have hrun : run n t = clockGettime >>= fun next =>
      (steadyNow >>= fun waitStart => waitLoop waitStart n t.driver >>= fun driver =>
        pure { t with driver }) >>= fun v =>
      turns imuPeriodNs pacedWork noteCycle n ⟨v, next, next, 0⟩ >>= whenLeft id := by
    refine congrArg _ (funext fun next => ?_)
    simp only [bind_assoc, pure_bind]
    refine congrArg _ (funext fun waitStart => congrArg _ (funext fun driver => ?_))
    exact mainLoop_eq n _ next next 0
  rw [hrun] at h
  refine paced_schedule (by decide) ?_ pacedWork_noSleep h
  exact ⟨by simp [NoSleep], fun waitStart =>
    (waitLoop_noSleep waitStart n t.driver).bind fun _ => trivial⟩

end threads

/-- **The schedule does not drift.**  For every period, every work that does not sleep itself
and every normalised start, in every run of the loop: the `i`th wake-up time asked for is
normalised and is `t₀ + (i + 1) * P`; the cycle behind it does not start earlier, and starts
just by its own latency later if the cycle before it was finished in time; at most
`⌊(t - t₀) / P⌋ + 1` cycles have started by the time `t`; and after `k` turns `next` is
`t₀ + k * P` while the measured periods add up to the time since `t₀`. -/
theorem drift_free {α : Type} {periodNs : ℤ} (hP : 0 < periodNs) {work : α → SysM (α × Bool)}
    (note : α → ℤ → α) (hwork : ∀ v, (work v).Only NoSleep) (v : α) {t₀ : Timespec}
    (ht₀ : t₀.Normalised) {time : ℤ} {n : ℕ} {s : Clocked}
    {o : Option (List (Paced α) × Option (Paced α))}
    (h : Runs clocked (turns periodNs work note n ⟨v, t₀, t₀, 0⟩) ⟨time, []⟩ s o) :
    (∀ (i : ℕ) (hi : i < s.wakes.length),
      s.wakes[i].asked.Normalised ∧ s.wakes[i].asked.ns = t₀.ns + (i + 1) * periodNs ∧
      t₀.ns + (i + 1) * periodNs ≤ s.wakes[i].woke ∧
      (s.wakes[i].called ≤ t₀.ns + (i + 1) * periodNs →
        s.wakes[i].woke = t₀.ns + (i + 1) * periodNs + s.wakes[i].latency)) ∧
    (∀ t, t₀.ns ≤ t →
      ((cycleStarts t₀.ns s).countP (· ≤ t) : ℤ) ≤ (t - t₀.ns) / periodNs + 1) ∧
    ∀ ps left, o = some (ps, left) →
      s.wakes.length = ps.length ∧
      (∀ (i : ℕ) (hi : i < ps.length), ps[i].next.Normalised ∧
        ps[i].next.ns = t₀.ns + (i + 1) * periodNs) ∧
      (ps.map (·.lastPeriodNs)).sum = (ps.getLastD ⟨v, t₀, t₀, 0⟩).prevWake.ns - t₀.ns := by
  have hstart := OnSchedule.start ht₀ periodNs time
  obtain ⟨hsched, hpost⟩ := h.sat (turns_sat hP hwork n hstart) hstart.scheduled
  refine ⟨fun i hi => ?_, fun t ht => ?_, ?_⟩
  · obtain ⟨hnorm, hns, hlatency⟩ := hsched i hi
    refine ⟨hnorm, hns, ?_, ?_⟩
    · rw [← hns]
      exact Wake.asked_le_woke hnorm hlatency
    · rw [← hns]
      exact Wake.woke_of_called_le hnorm
  · exact countP_le_of_spaced hP (cycleStarts_spaced hsched) ht
  · rintro ps left rfl
    obtain ⟨hlen, hps⟩ := hpost _ rfl
    refine ⟨by simpa using hlen, fun i hi => ?_, hps.sum_eq⟩
    obtain ⟨hnorm, hns⟩ := hps.next_eq i hi
    refine ⟨hnorm, ?_⟩
    rw [hns]
    push_cast
    simp

/-- The writes of the first turn take five milliseconds and all else no time, but the sleeps; every
wake-up is five nanoseconds late. -/
def lateHandler : Handler Sys Clocked := fun s c =>
  match c with
  | .clockGettime => (timespecOf s.time.toNat, s)
  | .canWrite _ _ =>
      (pcanErrorOk, if s.wakes.length = 0 then { s with time := s.time + 5000000 } else s)
  | .clockNanosleep asked =>
      ((), ⟨(Wake.mk asked s.time 5).woke, s.wakes ++ [⟨asked, s.time, 5⟩]⟩)
  | c => (c.quiet, s)

theorem Wake.called_le_woke (w : Wake) (hlatency : 0 ≤ w.latency) : w.called ≤ w.woke := by
  unfold Wake.woke
  split
  · have := le_max_left w.called w.asked.ns
    omega
  · omega

theorem timespecOf_spec {t : ℤ} (ht : 0 ≤ t) :
    (timespecOf t.toNat).Normalised ∧ (timespecOf t.toNat).ns = t := by
  unfold timespecOf Timespec.Normalised Timespec.ns nsPerSec
  refine ⟨?_, ?_⟩
  · push_cast
    omega
  · push_cast
    omega

theorem lateHandler_allowed (s : Clocked) (c : SysCall) (hs : 0 ≤ s.time) :
    clocked s c (lateHandler s c).1 (lateHandler s c).2 ∧ 0 ≤ (lateHandler s c).2.time := by
  cases c with
  | clockGettime =>
      obtain ⟨hnorm, hns⟩ := timespecOf_spec hs
      exact ⟨⟨s.time, le_rfl, hnorm, hns, rfl⟩, hs⟩
  | clockNanosleep asked =>
      refine ⟨⟨s.time, le_rfl, 5, by decide, rfl⟩, hs.trans ?_⟩
      exact Wake.called_le_woke ⟨asked, s.time, 5⟩ (by simp)
  | canWrite ch msg =>
      by_cases hfirst : s.wakes.length = 0
      · simp only [lateHandler, hfirst, if_true]
        exact ⟨⟨s.time + 5000000, by omega, rfl⟩, by omega⟩
      · simp only [lateHandler, hfirst, if_false]
        exact ⟨⟨s.time, le_rfl, rfl⟩, hs⟩
  | _ => exact ⟨⟨s.time, le_rfl, rfl⟩, hs⟩

/-- Motor 4 on channel 0. -/
def pacedThread : MotorThread where
  channelIdx := 0
  motors := [⟨{ can := 0, motorId := 4 }, JointIdx.rKneePitch⟩]

/-- Four turns of the motor loop, of which the first takes five milliseconds: it and the second end
after the times for which they ask, and the others keep to the grid. -/
theorem drift_free_overrun : ∃ s o,
    Runs clocked (turns motorPeriodNs (MotorThread.pacedWork fun _ => {}) MotorThread.noteCycle 4
      ⟨(pacedThread, 4), ⟨7, 0⟩, ⟨7, 0⟩, 0⟩) ⟨7000000000, []⟩ s o ∧
    s.wakes.map (·.called) = [7005000000, 7005000005, 7005000010, 7006000005] ∧
    ∀ (i : ℕ) (hi : i < s.wakes.length),
      s.wakes[i].asked.ns = 7000000000 + (i + 1) * 2000000 := by
  have hrun := runs_exec lateHandler_allowed
    (turns motorPeriodNs (MotorThread.pacedWork fun _ => {}) MotorThread.noteCycle 4
      ⟨(pacedThread, 4), ⟨7, 0⟩, ⟨7, 0⟩, 0⟩) (s := ⟨7000000000, []⟩) (by decide)
  refine ⟨_, _, hrun, by decide +kernel, fun i hi => ?_⟩
  exact ((drift_free (by decide) MotorThread.noteCycle (MotorThread.pacedWork_noSleep _) _
    (by decide) hrun).1 i hi).2.1

end Qub
