import QubController.Exclusive
import QubController.Shutdown

/-! # One flag for all threads

The four threads of `test_4ch.cpp` look at the one flag of `SharedState`, which a signal, the end of
`main`, a failed `start()` and the `stop()` of another thread raise.  `Shutdown` has shown for one
thread, in a world where the flag may rise at any moment, that it starts at most one more cycle.
Each thread sees the robot through its `view`, the others only raise the flag there, and so the
result holds of all threads in every interleaving. -/

namespace Qub

open Interaction

namespace FourChannels

/-- What thread `ch` sees: the flag, and the cycles it started since it was raised. -/
def view (ch : Fin numChannels) (s : Shared) : Flagged := ⟨s.flag, s.startedSince ch⟩

/-- What the others do to the view. -/
def Meanwhile (v v' : Flagged) : Prop :=
  (v.raised = true → v'.raised = true) ∧ v'.startedSince = v.startedSince

theorem Meanwhile.refl (v : Flagged) : Meanwhile v v := ⟨id, rfl⟩

/-- The world of one motor thread is how it sees the robot. -/
theorem threads_local :
    Local threadWorld (fun _ => flagged) AtMostOne Meanwhile view where
  own := fun t s c r s' hw => by
    refine ⟨s.flag, id, ?_⟩
    cases c with
    | loadShutdown =>
        obtain ⟨hr, rfl⟩ := hw
        exact ⟨hr, rfl⟩
    | loadAction =>
        obtain ⟨-, rfl⟩ := hw
        simp [view]
    | _ =>
        obtain rfl := hw
        rfl
  others := fun t t' s c r s' hne hw => by
    cases c with
    | loadShutdown =>
        obtain ⟨-, rfl⟩ := hw
        exact .refl _
    | loadAction =>
        obtain ⟨-, rfl⟩ := hw
        exact ⟨id, by simp [view, hne]⟩
    | _ =>
        obtain rfl := hw
        exact ⟨id, rfl⟩
  absorb := fun _ v v' c r v'' henv hstep => by
    obtain ⟨raised, hmono, heff⟩ := hstep
    refine ⟨raised, fun hv => hmono (henv.1 hv), ?_⟩
    have hwith : ({ v' with raised } : Flagged) = { v with raised } := by
      rw [Flagged.mk.injEq]
      exact ⟨rfl, henv.2⟩
    cases c with
    | loadShutdown => exact ⟨heff.1, heff.2.trans hwith⟩
    | loadAction => exact heff.trans (by rw [henv.2])
    | _ => exact heff.trans hwith
  stable := fun v v' henv h =>
    ⟨henv.2 ▸ h.started_le, fun hone => henv.1 (h.of_started (henv.2 ▸ hone))⟩

/-- Every thread is verified to start at most one more cycle. -/
abbrev Honours (s : Robot) : Prop := Pool.Verified (fun _ => flagged) AtMostOne view s

section run
variable {table : List MotorMapEntry} {s s' : Robot}

theorem Honours.raise (h : Honours s) :
    Honours ⟨s.threads, { s.shared.note .raised with flag := true }⟩ :=
  h.interfere threads_local fun _ => ⟨fun _ => rfl, rfl⟩

theorem Honours.background (h : Honours s) (hs : Background s s') : Honours s' := by
  induction hs with
  | refl => exact h
  | tail _ hstep ih =>
      cases hstep with
      | thread hstep => exact ih.step threads_local hstep
      | signal => exact ih.raise

/-- A new thread is verified by itself. -/
theorem Honours.create (h : Honours s) (ch : Fin numChannels) (buf : ℕ → TPCANMsg) (n : ℕ)
    (t : MotorThread) (log : List RobotEvent) :
    Honours ⟨Function.update s.threads ch (some (MotorThread.run buf n t)),
      { s.shared with log, startedSince := Function.update s.shared.startedSince ch 0 }⟩ where
  inv := fun c => by
    rcases eq_or_ne c ch with rfl | hne
    · exact ⟨by simp [view], by simp [view]⟩
    · simpa [view, hne] using h.inv c
  sat := fun c p hp => by
    replace hp : Function.update s.threads ch _ c = some p := hp
    rcases eq_or_ne c ch with rfl | hne
    · rw [Function.update_self] at hp
      cases hp
      have hnew : AtMostOne ⟨s.shared.flag, 0⟩ := ⟨by simp, by simp⟩
      simp only [view, Function.update_self]
      intro next v hclock
      have hv := hnew.keep (c := .clockGettime) (by simp) hclock
      exact ⟨hv, runLoop_atMostOne buf n t next next hv⟩
    · rw [Function.update_of_ne hne] at hp
      simpa [view, hne] using h.sat c p hp

/-- The joined thread is gone. -/
theorem Honours.join (h : Honours s) (ch : Fin numChannels) (log : List RobotEvent) :
    Honours ⟨Function.update s.threads ch none, { s.shared with log }⟩ where
  inv := h.inv
  sat := fun c p hp => by
    replace hp : Function.update s.threads ch none c = some p := hp
    rcases eq_or_ne c ch with rfl | hne
    · rw [Function.update_self] at hp
      cases hp
    · rw [Function.update_of_ne hne] at hp
      exact h.sat c p hp

/-- A call that does not lower the flag. -/
def IsNoLowering : RobotCall → Prop
  | .sys (.storeShutdown value) => value = true
  | .onThread _ (.storeShutdown value) => value = true
  | _ => True

/-- Whatever `main` calls, as long as it does not lower the flag. -/
theorem Honours.call {c : RobotCall} {r : c.Resp} (h : Honours s) (hc : IsNoLowering c)
    (hw : robotWorld table s c r s') : Honours s' := by
  obtain ⟨s₁, hback, heff⟩ := hw
  have h₁ := h.background hback
  have hlog : ∀ e, Honours (s₁.note e) := fun e =>
    h₁.interfere threads_local fun _ => .refl _
  cases c with
  | sys c =>
      cases c with
      | canInitialize ch =>
          replace heff : s' = if r = pcanErrorOk then s₁.note (.opened ch) else s₁ := heff
          subst heff
          split
          · exact hlog _
          · exact h₁
      | loadShutdown =>
          obtain ⟨-, rfl⟩ := heff
          exact h₁
      | storeShutdown value =>
          obtain rfl : value = true := hc
          obtain rfl := heff
          exact h₁.raise
      | _ =>
          obtain rfl := heff
          exact h₁
  | onThread ch c =>
      cases c with
      | storeShutdown value =>
          obtain rfl : value = true := hc
          obtain rfl := heff
          exact h₁.raise
      | canWrite ch' msg =>
          obtain rfl := heff
          exact hlog _
      | canRead ch' =>
          obtain rfl := heff
          exact hlog _
      | storeChannel ch' state =>
          obtain rfl := heff
          exact h₁.interfere threads_local fun _ => .refl _
      | pthreadCreate =>
          by_cases hr : r = 0
          · subst hr
            obtain ⟨buf, n, rfl⟩ := heff
            exact h₁.create ch buf n _ _
          · replace heff : if r = 0 then _ else s' = s₁.note (.created ch false) := heff
            rw [if_neg hr] at heff
            subst heff
            exact hlog _
      | pthreadJoin =>
          obtain ⟨t, -, rfl⟩ := heff
          exact h₁.join ch _
      | _ =>
          obtain rfl := heff
          exact h₁
  | canUnInitialize ch =>
      obtain rfl := heff
      exact hlog _
  | storeAction act =>
      obtain rfl := heff
      exact h₁.interfere threads_local fun _ => .refl _
  | loadChannel ch =>
      obtain ⟨-, rfl⟩ := heff
      exact h₁
  | report state =>
      obtain rfl := heff
      exact h₁

end run

/-! ### main never lowers the flag -/

theorem through_only {α : Type} {ch : Fin numChannels} {p : SysM α}
    (h : p.Only fun c => IsNoLowering (.onThread ch c)) :
    (p.through (onThread ch)).Only IsNoLowering := by
  induction p with
  | ret a => trivial
  | cut => trivial
  | call c k ih => exact ⟨h.1, fun r => ih r (h.2 r)⟩

section only
variable (ch : Fin numChannels)

theorem enableAll_only : ∀ motors : List MotorBinding,
    (MotorThread.enableAll motors).Only fun c => IsNoLowering (.onThread ch c)
  | [] => trivial
  | _ :: rest => ⟨trivial, fun _ => enableAll_only rest⟩

theorem stopAll_only : ∀ motors : List MotorBinding,
    (MotorThread.stopAll motors).Only fun c => IsNoLowering (.onThread ch c)
  | [] => trivial
  | _ :: rest => ⟨trivial, fun _ => ⟨trivial, fun _ => stopAll_only rest⟩⟩

theorem start_only (t : MotorThread) :
    (MotorThread.start t).Only fun c => IsNoLowering (.onThread ch c) := by
  unfold MotorThread.start
  split
  · trivial
  · refine (enableAll_only ch _).bind fun _ => ⟨trivial, fun err => ?_⟩
    show Prog.Only _ (ite _ _ _)
    split <;> trivial

theorem stop_only (t : MotorThread) :
    (MotorThread.stop t).Only fun c => IsNoLowering (.onThread ch c) := by
  unfold MotorThread.stop
  split
  · trivial
  · exact ⟨rfl, fun _ => ⟨trivial, fun _ => (stopAll_only ch _).bind fun _ => trivial⟩⟩

theorem destroy_only (t : MotorThread) :
    (MotorThread.destroy t).Only fun c => IsNoLowering (.onThread ch c) := by
  unfold MotorThread.destroy
  split
  · exact stop_only ch t
  · trivial

end only

theorem stopThreads_only : ∀ threads : Objects, (stopThreads threads).Only IsNoLowering
  | [] => trivial
  | (ch, t) :: rest =>
      (through_only (stop_only ch t)).bind fun _ => (stopThreads_only rest).bind fun _ => trivial

theorem destroyThreads_only : ∀ threads : Objects, (destroyThreads threads).Only IsNoLowering
  | [] => trivial
  | (ch, t) :: rest =>
      (through_only (destroy_only ch t)).bind fun _ => destroyThreads_only rest

theorem closeChannels_only : ∀ opened, (closeChannels opened).Only IsNoLowering
  | [] => trivial
  | _ :: rest => ⟨trivial, fun _ => closeChannels_only rest⟩

theorem openChannels_only (rest : List (Fin numChannels)) (opened : List (Fin numChannels)) :
    (openChannels rest opened).Only IsNoLowering := by
  induction rest generalizing opened with
  | nil => trivial
  | cons ch rest ih =>
      refine ⟨trivial, fun sts => ?_⟩
      show Prog.Only _ (ite _ _ _)
      split
      · exact ih _
      · trivial

theorem startThreads_only (table : List MotorMapEntry) (rest : List (Fin numChannels))
    (threads : Objects) : (startThreads table rest threads).Only IsNoLowering := by
  induction rest generalizing threads with
  | nil => trivial
  | cons ch rest ih =>
      refine (through_only (start_only ch _)).bind ?_
      rintro ⟨err, t⟩
      show Prog.Only _ (ite _ _ _)
      split
      · exact ⟨rfl, fun _ => trivial⟩
      · exact ih _

theorem IsMonitor.noLowering {c : RobotCall} (h : IsMonitor c) : IsNoLowering c := by
  cases c with
  | sys c =>
      cases c with
      | storeShutdown value => exact h.elim
      | _ => trivial
  | onThread ch c => exact h.elim
  | _ => trivial

theorem session_only (table : List MotorMapEntry) (n : ℕ) :
    (session table n).Only IsNoLowering := by
  refine ⟨trivial, fun now => ⟨trivial, fun _ => (startThreads_only table _ _).bind ?_⟩⟩
  rintro ⟨ok, threads⟩
  cases ok with
  | false => exact (destroyThreads_only threads).bind fun _ => trivial
  | true =>
      refine ⟨trivial, fun start => ?_⟩
      refine ((monitor_only start n).mono fun _ => IsMonitor.noLowering).bind fun _ => ?_
      refine ⟨rfl, fun _ => ?_⟩
      exact (stopThreads_only _).bind fun _ => (destroyThreads_only _).bind fun _ => trivial

theorem main_only (table : List MotorMapEntry) (n : ℕ) : (main table n).Only IsNoLowering := by
  refine (openChannels_only _ _).bind ?_
  rintro ⟨ok, opened⟩
  cases ok with
  | false => exact (closeChannels_only opened).bind fun _ => trivial
  | true =>
      exact (session_only table n).bind fun _ => (closeChannels_only opened).bind fun _ => trivial

/-- **The flag ends all threads.**  At every moment of every run, each thread has started at most
one cycle since it was created and the flag was up, whoever raised it. -/
theorem flag_ends_threads {table : List MotorMapEntry} {n : ℕ} {o : Option ℤ} {s s' : Robot}
    (h : Runs (robotWorld table) (main table n) Robot.init s o) (hs' : Background s s')
    (ch : Fin numChannels) : s'.shared.startedSince ch ≤ 1 := by
  have hinit : Honours Robot.init :=
    ⟨fun _ => ⟨by simp [view, Robot.init], by simp [view, Robot.init]⟩, fun t p hp => by cases hp⟩
  have hs : Honours s :=
    h.only_keeps (main_only table n) (fun _ _ _ _ hc hon hw => hon.call hc hw) hinit
  exact ((hs.background hs').inv ch).started_le

/-- The flag goes up between the look at it and the action: that cycle is still run. -/
theorem flag_ends_threads_late : ∃ s s',
    Runs (robotWorld kneeTable) (main kneeTable 0) Robot.init s none ∧ Background s s' ∧
      s'.shared.flag = true ∧ s'.shared.startedSince 0 = 1 ∧ s'.shared.startedSince 0 ≤ 1 := by
  obtain ⟨⟨threads, shared⟩, h, ht, hflag, -, hzero⟩ := creating_run
  have hclock : threadWorld 0 shared .clockGettime (⟨0, 0⟩ : Timespec) shared := rfl
  have hlook : threadWorld 0 shared .loadShutdown false shared := ⟨hflag.symm, rfl⟩
  have hload :
      threadWorld 0 { shared.note .raised with flag := true } .loadAction shared.action _ :=
    ⟨rfl, rfl⟩
  have hs' := thread_beside 0 _ ht hclock <| thread_beside 0 _ rfl hlook <|
    .head .signal <| thread_beside 0 shared.action rfl hload .refl
  refine ⟨_, _, h, hs', rfl, ?_, flag_ends_threads h hs' 0⟩
  simpa [Shared.note] using hzero

end FourChannels

end Qub
