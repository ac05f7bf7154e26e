import QubController.Exclusive

/-! # One motor thread

`test_rt_thread.cpp` is the second test: one channel, its motors and one motor thread, in the
surroundings of `FourChannels`.  On an early return nothing raises the flag but the destructor of
the thread object, and the objects are destroyed in the reverse order.  `one_thread_safe` says for
it what `exclusive_use` and `safe_exit` say for the four. -/

namespace Qub

open Interaction FourChannels

namespace TestRtThread

/-! ### The program -/

/-- `TEST_CHANNEL_IDX`. -/
def testChannelIdx : Fin numChannels := 1
/-- `TEST_DURATION_SEC`. -/
def testDurationSec : ℤ := 5

/-- The monitoring loop, at most `n` times. -/
def monitor (start : ℤ) : ℕ → RobotM Unit
  | 0 => .cut
  | n + 1 => do
      let shutdown ← robot (.sys .loadShutdown)
      if shutdown then
        return
      else
        let now ← robot (.sys .steadyNow)
        let elapsed := (now - start).tdiv nsPerSec
        if testDurationSec ≤ elapsed then
          return
        else
          let _ ← robot (.loadChannel testChannelIdx)
          robot (.sys (.sleepFor nsPerSec))
          monitor start n

/-- What `main` does with the open channel; `HOLD_KP` and `HOLD_KD` have the same values in both
tests. -/
def session (table : List MotorMapEntry) (n : ℕ) : RobotM ℤ := do
  let now ← robot (.sys .clockGettime)
  robot (.storeAction (holdAction now.toNs))
  let (err, t) ← (MotorThread.start (threadOf table testChannelIdx)).through
    (onThread testChannelIdx)
  if err ≠ 0 then
    destroyThreads [(testChannelIdx, t)]
    return 1
  else
    let start ← robot (.sys .steadyNow)
    monitor start n
    robot (.sys (.storeShutdown true))
    let threads ← stopThreads [(testChannelIdx, t)]
    destroyThreads threads
    return 0

/-- `main`, for a motor table. -/
def main (table : List MotorMapEntry) (n : ℕ) : RobotM ℤ := do
  let sts ← robot (.sys (.canInitialize testChannelIdx))
  if sts != pcanErrorOk then
    return 1
  else
    let code ← session table n
    closeChannels [testChannelIdx]
    return code

/-! ### Its runs -/

section program
variable {table : List MotorMapEntry} {s : Robot}

theorem monitor_only (start : ℤ) (n : ℕ) : (monitor start n).Only IsMonitor := by
  induction n with
  | zero => trivial
  | succ n ih =>
      refine ⟨trivial, fun shutdown => ?_⟩
      cases shutdown with
      | true => trivial
      | false =>
          refine ⟨trivial, fun now => ?_⟩
          show Prog.Only _ (ite _ _ _)
          split
          · trivial
          · exact ⟨trivial, fun state => ⟨trivial, fun _ => ih⟩⟩

/-- The phases of the test: only its own channel is used. -/
def phaseOf (p : Phase) : Phases := Function.update (fun _ => .unopened) testChannelIdx p

theorem covers_one {p : Phase} {t : MotorThread}
    (hmotors : t.motors = bindingsPerCh table testChannelIdx)
    (hrunning : p = .running ↔ t.started = true) :
    Covers table [(testChannelIdx, t)] (phaseOf p) := by
  refine ⟨by simp, by simpa using hmotors, fun ch => ?_⟩
  rcases eq_or_ne ch testChannelIdx with rfl | hne
  · simpa [phaseOf] using hrunning
  · simp [phaseOf, hne, hne.symm]

theorem ended_one (p : Phase) :
    ended (phaseOf p) = phaseOf (if p = .running then .stopped else p) := by
  funext ch
  rcases eq_or_ne ch testChannelIdx with rfl | hne
  · simp [ended, phaseOf]
  · simp [ended, phaseOf, hne]

theorem session_sat (n : ℕ) (h : Knows table (phaseOf .idle) s) :
    Sat (robotWorld table) (Safe table) (session table n)
      (fun r s' => r = 0 ∧ Knows table (phaseOf .stopped) s' ∨
        r = 1 ∧ Knows table (phaseOf .idle) s') s := by
  have hidle : phaseOf .idle testChannelIdx = .idle := Function.update_self ..
  refine sat_robot h fun s₁ h₁ _ now s' heff => ?_
  obtain rfl : s' = s₁ := heff
  refine ⟨⟨_, h₁⟩, ?_⟩
  refine sat_robot h₁ fun s₂ h₂ _ _ s' heff => ?_
  obtain rfl : s' = _ := heff
  have halive : ∀ ch, (phaseOf .idle ch).isAlive = false := by
    intro ch
    rcases eq_or_ne ch testChannelIdx with rfl | hne
    · rw [hidle]
      rfl
    · rw [phaseOf, Function.update_of_ne hne]
      rfl
  have h₃ := h₂.act halive now.toNs
  refine ⟨⟨_, h₃⟩, ?_⟩
  refine (sat_through.mpr (start_sat hidle h₃ List.mem_cons_self)).bind ?_
  rintro ⟨err, t⟩ s₄ ⟨hmotors, hst, -, h₄⟩
  by_cases herr : err = 0
  · subst herr
    have hrunning : Function.update (phaseOf .idle) testChannelIdx .running = phaseOf .running :=
      Function.update_idem ..
    rw [if_pos rfl, hrunning] at h₄
    simp only [ne_eq, not_true_eq_false, if_false]
    refine sat_robot h₄ fun s₅ h₅ _ start s' heff => ?_
    obtain rfl : s' = s₅ := heff
    refine ⟨⟨_, h₅⟩, ?_⟩
    refine (monitors_sat (monitor_only start n) h₅).bind fun _ s₆ h₆ => ?_
    refine sat_robot h₆ fun s₇ h₇ _ _ s' heff => ?_
    obtain rfl : s' = _ := heff
    refine ⟨⟨_, h₇.raise⟩, ?_⟩
    refine (stopThreads_sat _ (covers_one hmotors (by simpa using hst)) h₇.raise).bind ?_
    rintro threads s₈ ⟨h₈, hmap, hms, hsts⟩
    rw [ended_one, if_pos rfl] at h₈
    have hdone : Covers table threads (phaseOf .stopped) := by
      refine ⟨by simp [hmap], hms, fun ch => iff_of_false ?_ ?_⟩
      · rcases eq_or_ne ch testChannelIdx with rfl | hne <;> simp [phaseOf, *]
      · rintro ⟨x, hx, -, hxs⟩
        rw [hsts x hx] at hxs
        cases hxs
    refine (destroyThreads_sat _ hdone h₈).bind fun _ s₉ h₉ => ?_
    rw [ended_one] at h₉
    exact .inl ⟨rfl, h₉⟩
  · rw [if_neg herr] at h₄
    simp only [ne_eq, herr, not_false_eq_true, if_true]
    have hnot : t.started = false := hst.trans (by simp [herr])
    have hcovers : Covers table [(testChannelIdx, t)] (phaseOf .idle) :=
      covers_one hmotors (by simp [hnot])
    refine (destroyThreads_sat _ hcovers h₄).bind fun _ s₅ h₅ => ?_
    rw [ended_one] at h₅
    exact .inr ⟨rfl, h₅⟩

theorem main_sat (n : ℕ) (h : Knows table (fun _ => .unopened) s) :
    Sat (robotWorld table) (Safe table) (main table n)
      (fun r s' => r = 0 ∧ Knows table (phaseOf (.closed true)) s' ∨
        r = 1 ∧ ∃ p, (p = .unopened ∨ p = .closed false) ∧ Knows table (phaseOf p) s') s := by
  refine sat_robot h fun s₁ h₁ _ sts s' heff => ?_
  by_cases hok : sts = pcanErrorOk
  · obtain rfl : s' = s₁.note (.opened testChannelIdx) := by simpa [mainEffect, hok] using heff
    have h₂ : Knows table (phaseOf .idle) (s₁.note (.opened testChannelIdx)) := h₁.opened rfl
    refine ⟨⟨_, h₂⟩, ?_⟩
    show Sat _ _ (ite _ _ _) _ _
    rw [if_neg (by simp [hok])]
    refine (session_sat n h₂).bind fun code s₃ h₃ => ?_
    have hclose : ∀ {p : Phase}, p = .idle ∨ p = .stopped → Knows table (phaseOf p) s₃ →
        Sat (robotWorld table) (Safe table) (closeChannels [testChannelIdx])
          (fun _ s' => Knows table (phaseOf p.close) s') s₃ := by
      intro p hp hknows
      refine (closeChannels_sat [testChannelIdx] (by simp) (by simpa [phaseOf] using hp)
        hknows).mono fun _ s₄ h₄ => ?_
      convert h₄ using 1
      funext ch
      rcases eq_or_ne ch testChannelIdx with rfl | hne
      · simp [phaseOf]
      · simp [phaseOf, hne]
    rcases h₃ with ⟨rfl, h₃⟩ | ⟨rfl, h₃⟩
    · exact (hclose (.inr rfl) h₃).bind fun _ s₄ h₄ => .inl ⟨rfl, h₄⟩
    · exact (hclose (.inl rfl) h₃).bind fun _ s₄ h₄ => .inr ⟨rfl, _, .inr rfl, h₄⟩
  · obtain rfl : s' = s₁ := by simpa [mainEffect, hok] using heff
    refine ⟨⟨_, h₁⟩, ?_⟩
    show Sat _ _ (ite _ _ _) _ _
    rw [if_pos (by simpa using hok)]
    refine .inr ⟨rfl, .unopened, .inl rfl, ?_⟩
    rwa [phaseOf, Function.update_eq_self]

/-- **One thread, used and given back.**  At every moment of every run of the test, whatever the
thread, the signals, the bus and `pthread_create` do, channel, slot and action are used by one
actor at a time, and only while they are there, and only lawful frames are written.  When `main`
has returned, the channel is closed, no thread is left, and the last two frames or more to each of
its motors were STOP frames if the thread was created; the exit code is 0 exactly in that case,
and 1 else. -/
theorem one_thread_safe {n : ℕ} {o : Option ℤ}
    (h : Runs (robotWorld table) (main table n) Robot.init s o) :
    (∀ s', Background s s' →
      Each Proper s'.shared.log ∧ ∀ e ∈ s'.shared.log, Lawful table e) ∧
    ∀ code, o = some code →
      (∀ ch, isOpen ch s.shared.log = false ∧ s.threads ch = none) ∧
      (.created testChannelIdx true ∈ s.shared.log → Stopped table testChannelIdx s.shared.log) ∧
      (code = 0 ∨ code = 1) ∧ (code = 0 ↔ .created testChannelIdx true ∈ s.shared.log) := by
  obtain ⟨⟨phase, hknows⟩, hpost⟩ := h.sat (main_sat n (knows_init table)) ⟨_, knows_init table⟩
  refine ⟨fun s' hs' => ?_, fun code ho => ?_⟩
  · obtain ⟨h', -⟩ := hknows.background hs'
    exact ⟨h'.logged.proper, h'.logged.lawful⟩
  -- what the last phase says
  have hend : ∀ {p : Phase}, p.isOpen = false → p.isAlive = false → Knows table (phaseOf p) s →
      ∀ ch, isOpen ch s.shared.log = false ∧ s.threads ch = none := by
    intro p hopen halive hp ch
    have hphase : (phaseOf p ch).isOpen = false ∧ (phaseOf p ch).isAlive = false := by
      rcases eq_or_ne ch testChannelIdx with rfl | hne
      · simpa [phaseOf] using ⟨hopen, halive⟩
      · simp [phaseOf, hne, Phase.isOpen, Phase.isAlive]
    refine ⟨(hp.logged.open_eq ch).trans hphase.1, ?_⟩
    have hthread := hp.thread_eq ch
    rw [hphase.2] at hthread
    simpa using hthread
  have hmade : ∀ {p : Phase}, Knows table (phaseOf p) s →
      (.created testChannelIdx true ∈ s.shared.log ↔ p.made = true) := by
    intro p hp
    rw [hp.logged.made_iff, phaseOf, Function.update_self]
  rcases hpost code ho with ⟨rfl, hp⟩ | ⟨rfl, p, hnot, hp⟩
  · refine ⟨hend rfl rfl hp, fun _ => hp.logged.settled testChannelIdx ?_, .inl rfl, ?_⟩
    · rw [phaseOf, Function.update_self]
      rfl
    · rw [hmade hp]
      exact iff_of_true rfl rfl
  · have hno : p.isOpen = false ∧ p.isAlive = false ∧ p.made = false := by
      rcases hnot with rfl | rfl <;> exact ⟨rfl, rfl, rfl⟩
    refine ⟨hend hno.1 hno.2.1 hp, fun hc => ?_, .inr rfl, ?_⟩
    · rw [hmade hp, hno.2.2] at hc
      cases hc
    · rw [hmade hp, hno.2.2]
      simp

end program

/-! ### A run -/

def torsoTable : List MotorMapEntry := [⟨1, 0, JointIdx.torsoYaw, "torso_yaw"⟩]

/-- A signal ends the test at once; the thread looks at the flag and returns, is joined, and the
motor is stopped. -/
theorem signalled_run :
    ∃ s, Runs (robotWorld torsoTable) (main torsoTable 1) Robot.init s (some 0) := by
  have hclock : ∀ shared, threadWorld 1 shared .clockGettime (⟨0, 0⟩ : Timespec) shared :=
    fun _ => rfl
  have hlook : ∀ shared : Shared, shared.flag = true →
      threadWorld 1 shared .loadShutdown true shared := fun _ h => ⟨h.symm, rfl⟩
  exact
    ⟨_, call_alone pcanErrorOk rfl <| call_alone (⟨0, 0⟩ : Timespec) rfl <|
      call_alone () rfl <| call_alone pcanErrorOk rfl <|
      call_alone (0 : ℤ) (create_effect _ 1 1 _) <| call_alone (0 : ℤ) rfl <|
      call_beside true (.single .signal) ⟨rfl, rfl⟩ <|
      call_alone () rfl <| call_alone () rfl <|
      -- the thread sees the flag
      call_beside () (thread_beside 1 _ rfl (hclock _) <|
        thread_beside 1 _ rfl (hlook _ rfl) .refl) ⟨_, rfl, rfl⟩ <|
      call_alone pcanErrorOk rfl <| call_alone pcanErrorOk rfl <| call_alone () rfl <| .ret _ _⟩

/-- The thread was created, and its motor has been stopped. -/
theorem one_thread_safe_signalled : ∃ s,
    Runs (robotWorld torsoTable) (main torsoTable 1) Robot.init s (some 0) ∧
      .created testChannelIdx true ∈ s.shared.log ∧
      Stopped torsoTable testChannelIdx s.shared.log := by
  obtain ⟨s, h⟩ := signalled_run
  obtain ⟨-, hend⟩ := one_thread_safe h
  obtain ⟨-, hstopped, -, hcode⟩ := hend 0 rfl
  exact ⟨s, h, hcode.mp rfl, hstopped (hcode.mp rfl)⟩

end TestRtThread

end Qub
