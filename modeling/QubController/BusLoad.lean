import QubController.Cost
import QubController.Pacing

/-! # The load of a bus

A cycle of the motor loop writes a frame for each motor and reads at most one frame more than
`MAX_FRAMES_PER_CYCLE`.  The cycles after a late one follow each other at once, but they never get
ahead of the schedule: the calls up to any moment are at most those of the periods that have begun
(`bus_load_bounded`).  The calls are weighed; with the bits of a frame as its weight this bounds
the load of the bus. -/

namespace Qub

open Interaction

namespace MotorThread

/-- What the calls to the driver weigh. -/
def busCost (write read : ℕ) : SysCall → ℕ
  | .canWrite _ _ => write
  | .canRead _ => read
  | _ => 0

/-! ### A cycle -/

section cycle
variable {write read : ℕ}

theorem sendAll_within (act : ActionState) (motors : List MotorBinding) :
    (sendAll act motors).Within (busCost write read) (motors.length * write) := by
  induction motors with
  | nil => trivial
  | cons b rest ih =>
      rw [sendAll, sendCommand_eq]
      refine ⟨rest.length * write, ?_, fun _ => ih⟩
      rw [List.length_cons, Nat.succ_mul, Nat.add_comm]
      exact le_rfl

theorem dispatch_within (msg : TPCANMsg) (motors : List MotorBinding) :
    (dispatch msg motors).Within (busCost write read) 0 := by
  rw [dispatch_eq]
  split
  · exact within_free rfl fun _ => trivial
  · trivial

theorem drainLoop_within (ch : Fin numChannels) (left : ℕ) (d : Drained) :
    (drainLoop ch left d).Within (busCost write read) ((left + 1) * read) := by
  induction left generalizing d with
  | zero =>
      rw [drainLoop, canRead_bind]
      refine ⟨0, by simp [busCost], ?_⟩
      rintro ⟨sts, frame⟩
      dsimp only
      split <;> trivial
  | succ left ih =>
      rw [drainLoop, canRead_bind]
      refine ⟨(left + 1) * read, ?_, ?_⟩
      · rw [Nat.succ_mul (left + 1), Nat.add_comm]
        exact le_rfl
      rintro ⟨sts, frame⟩
      dsimp only
      split
      · exact (dispatch_within _ _).then fun motors => ih _
      · trivial

/-- The weight of a cycle with `m` motors. -/
def cycleCost (write read m : ℕ) : ℕ := m * write + (maxFramesPerCycle + 1) * read

theorem cycle_within (t : MotorThread) (msg : TPCANMsg) :
    (cycle t msg).Within (busCost write read) (cycleCost write read t.motors.length) := by
  refine Prog.Within.bind (within_free rfl fun act => sendAll_within act t.motors) fun _ => ?_
  refine (drainLoop_within t.channelIdx maxFramesPerCycle _).bind (d := 0) fun d => ?_
  exact within_free rfl fun _ => within_free rfl fun _ => trivial

theorem cycle_length (t : MotorThread) (msg : TPCANMsg) :
    (cycle t msg).Obeys (fun _ => True) (fun t' => t'.motors.length = t.motors.length) := by
  have hsend : (sendCommands t.motors).Obeys (fun _ => True) (fun _ => True) :=
    (sendCommands_only t.motors).obeys.mono (fun _ _ => trivial) fun _ h => h
  refine hsend.bind fun _ _ => ?_
  have hdrain : (drainFeedback t.channelIdx t.motors msg).Obeys (fun _ => True)
      (fun d => d.motors.map MotorBinding.key = t.motors.map MotorBinding.key) :=
    (drainLoop_keys _ _ _).mono (fun _ _ => trivial) fun _ h => h
  refine hdrain.bind fun d hd => ?_
  have hlength : d.motors.length = t.motors.length := by
    simpa using congrArg List.length hd
  exact ⟨trivial, fun _ => ⟨trivial, fun _ => hlength⟩⟩

end cycle

end MotorThread

/-! ### A run -/

/-- Also the weight of the calls so far, and the first reading of the clock. -/
structure Loaded extends Clocked where
  cost : ℕ := 0
  start : Option ℤ := none

def loaded (w : SysCall → ℕ) : World Sys Loaded := fun s c r s' =>
  clocked s.toClocked c r s'.toClocked ∧ s'.cost = s.cost + w c ∧
  match c, r with
  | .clockGettime, ts => s'.start = s.start.or (some ts.ns)
  | _, _ => s'.start = s.start

/-- Time has passed, and the calls weighed at most `b`. -/
structure Loaded.Moved (b : ℕ) (s s' : Loaded) : Prop where
  time : s.time ≤ s'.time
  cost : s'.cost ≤ s.cost + b
  start : ∀ t₀, s.start = some t₀ → s'.start = some t₀

/-- There were at most as many cycles as periods have begun since the first reading of the
clock. -/
def Loaded.InStep (periodNs : ℤ) (b : ℕ) (s : Loaded) : Prop :=
  ∀ t₀, s.start = some t₀ → ∃ k : ℕ, s.cost ≤ b * (k + 1) ∧ t₀ + k * periodNs ≤ s.time

namespace MotorThread

section load
variable {w : SysCall → ℕ} {b : ℕ} {s s' : Loaded}

theorem moved_refl (n : ℕ) (s : Loaded) : s.Moved n s :=
  ⟨le_rfl, Nat.le_add_right _ _, fun _ h => h⟩

theorem moved_trans (m n n' : ℕ) (s s' s'' : Loaded) (h : s.Moved m s') (h' : s'.Moved n s'')
    (hn : m + n ≤ n') : s.Moved n' s'' where
  time := h.time.trans h'.time
  cost := by
    have hfirst := h.cost
    have hthen := h'.cost
    omega
  start := fun t₀ ht₀ => h'.start t₀ (h.start t₀ ht₀)

theorem moved_call (s : Loaded) (c : SysCall) (r : c.Resp) (s' : Loaded)
    (h : loaded w s c r s') : s.Moved (w c) s' := by
  obtain ⟨⟨t, ht, heff⟩, hcost, hstart⟩ := h
  refine ⟨?_, hcost.le, fun t₀ ht₀ => ?_⟩
  · cases c with
    | clockNanosleep wake =>
        obtain ⟨latency, hlatency, heff⟩ := heff
        rw [congrArg Clocked.time heff]
        exact ht.trans (Wake.called_le_woke ⟨wake, t, latency⟩ hlatency)
    | clockGettime => rw [congrArg Clocked.time heff.2.2]; exact ht
    | _ => rw [congrArg Clocked.time heff]; exact ht
  · cases c with
    | clockGettime =>
        rw [show s'.start = s.start.or _ from hstart, ht₀]
        rfl
    | _ => exact (show s'.start = s.start from hstart).trans ht₀

/-- `k` cycles were started, and period `k` has begun. -/
structure AtPeriod (t₀ : ℤ) (b k : ℕ) (next : Timespec) (s : Loaded) : Prop where
  start : s.start = some t₀
  cost : s.cost ≤ b * k
  normalised : next.Normalised
  next_eq : next.ns = t₀ + k * motorPeriodNs
  reached : next.ns ≤ s.time

theorem AtPeriod.inStep {t₀ : ℤ} {k : ℕ} {next : Timespec} (h : AtPeriod t₀ b k next s)
    (hmoved : s.Moved b s') : s'.InStep motorPeriodNs b := by
  intro t₁ ht₁
  obtain rfl : t₀ = t₁ := Option.some.inj ((hmoved.start t₀ h.start).symm.trans ht₁)
  refine ⟨k, ?_, ?_⟩
  · rw [Nat.mul_succ]
    exact hmoved.cost.trans (Nat.add_le_add_right h.cost b)
  · rw [← h.next_eq]
    exact h.reached.trans hmoved.time

/-- A call that weighs nothing. -/
theorem AtPeriod.later {t₀ : ℤ} {k : ℕ} {next : Timespec} (h : AtPeriod t₀ b k next s)
    (hmoved : s.Moved 0 s') : AtPeriod t₀ b k next s' where
  start := hmoved.start t₀ h.start
  cost := hmoved.cost.trans h.cost
  normalised := h.normalised
  next_eq := h.next_eq
  reached := h.reached.trans hmoved.time

/-- The sleep ends when the next period has begun. -/
theorem AtPeriod.next {t₀ : ℤ} {k : ℕ} {next : Timespec} {s₁ : Loaded} (h : AtPeriod t₀ b k next s)
    (hmoved : s.Moved b s') {r : Unit}
    (hw : loaded w s₁ (.clockNanosleep (timespecAddNs next motorPeriodNs)) r s') :
    AtPeriod t₀ b (k + 1) (timespecAddNs next motorPeriodNs) s' := by
  obtain ⟨hnorm, hns⟩ := timespecAddNs_spec h.normalised (by decide : 0 ≤ motorPeriodNs)
  refine ⟨hmoved.start t₀ h.start, ?_, hnorm, ?_, ?_⟩
  · rw [Nat.mul_succ]
    exact hmoved.cost.trans (Nat.add_le_add_right h.cost b)
  · rw [hns, h.next_eq]
    push_cast
    ring
  · obtain ⟨⟨t, -, latency, hlatency, heff⟩, -⟩ := hw
    rw [congrArg Clocked.time heff]
    exact Wake.asked_le_woke (w := ⟨timespecAddNs next motorPeriodNs, t, latency⟩) hnorm hlatency

end load

section run
variable {write read : ℕ} {s : Loaded}

/-- By induction over the cycles; each of them is paid for by its period. -/
theorem runLoop_inStep (buf : ℕ → TPCANMsg) (n : ℕ) {m : ℕ} (t : MotorThread)
    (hm : t.motors.length = m) {t₀ : ℤ} {k : ℕ} {next : Timespec} (prevWake : Timespec)
    (h : AtPeriod t₀ (cycleCost write read m) k next s) :
    Sat (loaded (busCost write read)) (Loaded.InStep motorPeriodNs (cycleCost write read m))
      (runLoop buf n t next prevWake) (fun _ _ => True) s := by
  induction n generalizing t k next prevWake s with
  | zero => trivial
  | succ n ih =>
      rw [runLoop]
      simp only [loadShutdown_bind, sat_call]
      intro shutdown s₁ hw₁
      have h₁ := h.later (moved_call _ _ _ _ hw₁)
      refine ⟨h₁.inStep (moved_refl _ _), ?_⟩
      split
      · trivial
      · have hwithin : (cycle t (buf n)).Within (busCost write read) (cycleCost write read m) :=
          hm ▸ cycle_within t (buf n)
        refine (hwithin.sat (cycle_length t (buf n)) moved_refl moved_trans moved_call
          fun s' => h₁.inStep).bind ?_
        rintro t' s₂ ⟨hlength, hmoved₂⟩
        simp only [clockGettime_bind, sat_call]
        intro now s₃ hw₃
        have hmoved₃ := moved_trans _ _ _ _ _ _ hmoved₂ (moved_call _ _ _ _ hw₃) le_rfl
        refine ⟨h₁.inStep hmoved₃, ?_⟩
        unfold sleepUntilNextPeriod
        simp only [clockNanosleep_bind, Prog.call_bind, Prog.pure_eq, Prog.ret_bind, sat_call]
        intro _ s₄ hw₄
        have hmoved₄ := moved_trans _ _ _ _ _ _ hmoved₃ (moved_call _ _ _ _ hw₄) le_rfl
        refine ⟨h₁.inStep hmoved₄, ih _ ?_ now (h₁.next hmoved₄ hw₄)⟩
        exact hlength.trans hm

/-- **The bus keeps its rate.**  For any weights of a write and a read, in every run of the motor
thread, however long its calls take and however late its sleeps end, the calls to the driver up to
any moment weigh at most as much as those of one cycle for each period that has begun: `m` writes
and one read more than `MAX_FRAMES_PER_CYCLE`. -/
theorem bus_load_bounded {buf : ℕ → TPCANMsg} {n : ℕ} {t : MotorThread} {time t₀ : ℤ}
    {o : Option MotorThread} (h : Runs (loaded (busCost write read)) (run buf n t)
      ⟨⟨time, []⟩, 0, none⟩ s o) (hstart : s.start = some t₀) :
    (s.cost : ℤ) ≤
      cycleCost write read t.motors.length * ((s.time - t₀) / motorPeriodNs + 1) := by
  have hnone : Loaded.InStep motorPeriodNs (cycleCost write read t.motors.length)
      ⟨⟨time, []⟩, 0, none⟩ := fun _ h => nomatch h
  have hsat : Sat (loaded (busCost write read))
      (Loaded.InStep motorPeriodNs (cycleCost write read t.motors.length)) (run buf n t)
      (fun _ _ => True) ⟨⟨time, []⟩, 0, none⟩ := by
    unfold run
    simp only [clockGettime_bind, sat_call]
    rintro next s₁ ⟨⟨t₁, ht₁, hnorm, rfl, heff⟩, hcost, hfirst⟩
    have hat : AtPeriod next.ns (cycleCost write read t.motors.length) 0 next s₁ :=
      ⟨hfirst, hcost.le, hnorm, by simp, (congrArg Clocked.time heff).ge⟩
    exact ⟨hat.inStep (moved_refl _ _), runLoop_inStep buf n t rfl next hat⟩
  obtain ⟨k, hcost, hreached⟩ := (h.sat hsat hnone).1 t₀ hstart
  have hk : (k : ℤ) ≤ (s.time - t₀) / motorPeriodNs :=
    (Int.le_ediv_iff_mul_le (by decide)).mpr (by omega)
  calc (s.cost : ℤ) ≤ cycleCost write read t.motors.length * (k + 1) := by exact_mod_cast hcost
    _ ≤ cycleCost write read t.motors.length * ((s.time - t₀) / motorPeriodNs + 1) :=
      mul_le_mul_of_nonneg_left (by omega) (Int.natCast_nonneg _)

end run

/-- Nothing is received, and time passes only in the sleeps. -/
def idleBus (w : SysCall → ℕ) : Handler Sys Loaded := fun s c =>
  match c with
  | .clockGettime => (timespecOf s.time.toNat, { s with
      cost := s.cost + w .clockGettime
      start := s.start.or (some (timespecOf s.time.toNat).ns) })
  | .clockNanosleep asked => ((), { s with
      time := (Wake.mk asked s.time 0).woke
      wakes := s.wakes ++ [⟨asked, s.time, 0⟩]
      cost := s.cost + w (.clockNanosleep asked) })
  | .canRead ch => ((pcanErrorQrcvEmpty, {}), { s with cost := s.cost + w (.canRead ch) })
  | c => (c.quiet, { s with cost := s.cost + w c })

theorem idleBus_allowed (w : SysCall → ℕ) (s : Loaded) (c : SysCall) (hs : 0 ≤ s.time) :
    loaded w s c (idleBus w s c).1 (idleBus w s c).2 ∧ 0 ≤ (idleBus w s c).2.time := by
  cases c with
  | clockGettime =>
      obtain ⟨hnorm, hns⟩ := timespecOf_spec hs
      exact ⟨⟨⟨s.time, le_rfl, hnorm, hns, rfl⟩, rfl, rfl⟩, hs⟩
  | clockNanosleep asked =>
      refine ⟨⟨⟨s.time, le_rfl, 0, le_rfl, rfl⟩, rfl, rfl⟩, hs.trans ?_⟩
      exact Wake.called_le_woke ⟨asked, s.time, 0⟩ le_rfl
  | _ => exact ⟨⟨⟨s.time, le_rfl, rfl⟩, rfl, rfl⟩, hs⟩

def kneeAlone : MotorThread :=
  { channelIdx := 0, motors := [⟨{ can := 0, motorId := 1 }, 0⟩] }

/-- Two cycles with one motor; the third period has begun. -/
theorem bus_load_bounded_two : ∃ s o, Runs (loaded (busCost 1 0)) (run (fun _ => {}) 2 kneeAlone)
    ⟨⟨7, []⟩, 0, none⟩ s o ∧ s.cost = 2 ∧ s.time = 7 + 2 * motorPeriodNs ∧
      (s.cost : ℤ) ≤ 1 * ((s.time - 7) / motorPeriodNs + 1) := by
  have hrun := runs_exec (idleBus_allowed (busCost 1 0)) (run (fun _ => {}) 2 kneeAlone)
    (s := ⟨⟨7, []⟩, 0, none⟩) (by decide)
  obtain ⟨hcost, htime, hstart⟩ :
      (exec (idleBus (busCost 1 0)) (run (fun _ => {}) 2 kneeAlone) ⟨⟨7, []⟩, 0, none⟩).1.cost = 2 ∧
      (exec (idleBus (busCost 1 0)) (run (fun _ => {}) 2 kneeAlone)
        ⟨⟨7, []⟩, 0, none⟩).1.time = 7 + 2 * motorPeriodNs ∧
      (exec (idleBus (busCost 1 0)) (run (fun _ => {}) 2 kneeAlone)
        ⟨⟨7, []⟩, 0, none⟩).1.start = some 7 := by
    decide +kernel
  exact ⟨_, _, hrun, hcost, htime, bus_load_bounded hrun hstart⟩

end MotorThread

end Qub
