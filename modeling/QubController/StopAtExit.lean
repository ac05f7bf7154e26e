import QubController.HoldTargets

/-! # Which motors are stopped at the end

`stop_all` sends STOP to the motors whose flag is set.  A motor that was enabled and not stopped
since has its flag set, with one exception: when its hold command fails, the flag is cleared
whether or not the STOP that follows is written.  `Lost` is that exception, and
`stop_all_iff_not_lost` says that it is the only one. -/

namespace Qub

open Interaction

namespace PositionRead

/-! ### Live motors -/

section live
variable (k : Place)

/-- ENABLE was written to `k`, and since then no STOP. -/
def Live (log : List GuiEvent) : Prop :=
  ¬ Followed (Writes .enable k true) (Writes .stop k true) log

/-- While `k` was live its hold command and the STOP after it failed, and it has not been enabled
again. -/
def Lost (log : List GuiEvent) : Prop :=
  ∃ later stop hold earlier, log = later ++ stop :: hold :: earlier ∧ Writes .stop k false stop ∧
    Writes .mitControl k false hold ∧ Live k earlier ∧ ∀ e ∈ later, ¬ Writes .enable k true e

end live

section events
variable {k : Place} {e : GuiEvent} {log : List GuiEvent}

theorem Live.of_cons (h : Live k (e :: log)) (he : ¬ Writes .enable k true e) : Live k log :=
  fun hfollowed => h (hfollowed.cons he)

theorem not_live_of_stop (he : Writes .stop k true e) : ¬ Live k (e :: log) := by
  refine not_not.mpr (followed_cons_of_follower (fun hon => ?_) he)
  exact absurd (hon.inj he).1 (by decide)

theorem Lost.cons (h : Lost k log) (he : ¬ Writes .enable k true e) : Lost k (e :: log) := by
  obtain ⟨later, stop, hold, earlier, rfl, hstop, hhold, hlive, hlater⟩ := h
  exact ⟨e :: later, stop, hold, earlier, rfl, hstop, hhold, hlive,
    List.forall_mem_cons.mpr ⟨he, hlater⟩⟩

end events

/-! ### The invariant -/

variable {n : ℕ}

/-- The motors stand at the places `K`, and each live place is lost or has an enabled motor. -/
structure Watched (K : Fin n → Place) (motors : Motors n) (log : List GuiEvent) : Prop where
  place : ∀ i, AtPlace (K i) (motors i)
  live : ∀ k, Live k log → Lost k log ∨ ∃ i, K i = k ∧ (motors i).enabled = true

section watched
variable {K : Fin n → Place} {motors motors' : Motors n} {log : List GuiEvent} {e : GuiEvent}

theorem Watched.settings (hsame : SameSettings motors motors') (h : Watched K motors log) :
    Watched K motors' log where
  place := fun i => (h.place i).of_settings (hsame i)
  live := fun k hlive => by
    refine (h.live k hlive).imp_right ?_
    rintro ⟨i, hk, hon⟩
    exact ⟨i, hk, (hsame.enabled i).trans hon⟩

/-- Every event but a successful ENABLE. -/
theorem Watched.event (h : Watched K motors log) (he : ∀ k, ¬ Writes .enable k true e) :
    Watched K motors (e :: log) where
  place := h.place
  live := fun k hlive => (h.live k (hlive.of_cons (he k))).imp_left fun hlost => hlost.cons (he k)

theorem Watched.call (c : SysCall) {r : c.Resp} {log' : List GuiEvent} (hc : IsNotEnable c)
    (h : Watched K motors log) (hw : noted log c r log') : Watched K motors log' := by
  have hnote : log' = note log c r := hw
  rw [hnote]
  rcases note_notEnable r log hc with hsame | ⟨e, hcons, he⟩
  · rwa [hsame]
  · rw [hcons]
    exact h.event he

/-- ENABLE is written to motor `i`, and its flag is set. -/
theorem Watched.enable (h : Watched K motors log) {i : Fin n}
    (he : ∀ k, Writes .enable k true e → K i = k) : Watched K (setEnabled motors i true) (e :: log)
    where
  place := place_update h.place ((h.place i).flag true)
  live := fun k hlive => by
    by_cases hk : K i = k
    · exact .inr ⟨i, hk, setEnabled_enabled motors i true⟩
    · have hother : ¬ Writes .enable k true e := fun hon => hk (he k hon)
      refine (h.live k (hlive.of_cons hother)).imp (fun hlost => hlost.cons hother) ?_
      rintro ⟨j, hj, hon⟩
      have hij : j ≠ i := fun hij => hk (hij ▸ hj)
      exact ⟨j, hj, by rwa [setEnabled, Function.update_of_ne hij]⟩

/-- A target is set. -/
theorem Watched.aim (h : Watched K motors log) (i : Fin n) (p : CFloat) :
    Watched K (Function.update motors i { motors i with holdPositionRad := p }) log where
  place := place_update h.place ((h.place i).aim p)
  live := fun k hlive => by
    refine (h.live k hlive).imp_right ?_
    rintro ⟨j, hj, hon⟩
    refine ⟨j, hj, ?_⟩
    by_cases hij : j = i
    · subst hij
      rwa [Function.update_self]
    · rwa [Function.update_of_ne hij]

/-- The flag of a motor that is not live, or lost, is cleared. -/
theorem Watched.clear (h : Watched K motors log) {i : Fin n}
    (hi : Live (K i) log → Lost (K i) log) : Watched K (setEnabled motors i false) log where
  place := place_update h.place ((h.place i).flag false)
  live := fun k hlive => by
    by_cases hk : K i = k
    · subst hk
      exact .inl (hi hlive)
    · refine (h.live k hlive).imp_right ?_
      rintro ⟨j, hj, hon⟩
      have hij : j ≠ i := fun hij => hk (hij ▸ hj)
      exact ⟨j, hj, by rwa [setEnabled, Function.update_of_ne hij]⟩

theorem watched_on (i : Fin n) : OnRules i (Watched K) (Watched K) where
  settings := fun hsame h => h.settings hsame
  aim := fun p h => h.aim i p
  call := fun c _ _ hc h hw => h.call c hc hw
  enable := by
    intro motors log h
    refine hostFrame_wrote (h.place i) fun ok e he => ⟨trivial, ?_⟩
    cases ok with
    | false => exact h.event fun k hon => absurd (hon.inj he).2.2 (by simp)
    | true => exact h.enable fun k hon => (he.inj hon).2.1

/-! ### The loop -/

theorem stop_watched {i : Fin n} (h : Watched K motors log)
    (hfailed : ∀ e, Writes .stop (K i) false e → Live (K i) log → Lost (K i) (e :: log)) :
    Sat noted (fun _ => True) ((motors i).driver.stop false)
      (fun _ log' => Watched K (setEnabled motors i false) log') log := by
  refine hostFrame_wrote (h.place i) fun ok e he => ⟨trivial, ?_⟩
  have hnot : ∀ k, ¬ Writes .enable k true e := fun k hon => absurd (hon.inj he).1 (by decide)
  refine (h.event hnot).clear fun hlive => ?_
  cases ok with
  | true => exact absurd hlive (not_live_of_stop he)
  | false => exact hfailed e he (hlive.of_cons (hnot _))

theorem off_watched (i : Fin n) (h : Watched K motors log) :
    Sat noted (fun _ => True) ((motors i).driver.stop false)
      (fun stopped log' => Watched K (if stopped then setEnabled motors i false else motors) log')
      log := by
  refine hostFrame_wrote (h.place i) fun ok e he => ⟨trivial, ?_⟩
  have h' := h.event fun k hon => absurd (hon.inj he).1 (by decide)
  cases ok with
  | true => exact h'.clear fun hlive => absurd hlive (not_live_of_stop he)
  | false => exact h'

theorem hold_watched (config : Config) (i : Fin n) (h : Watched K motors log) :
    Sat noted (fun _ => True) (holdCommand config (motors i))
      (fun sent log' => if sent then Watched K motors log' else
        Sat noted (fun _ => True) ((motors i).driver.stop false)
          (fun _ log'' => Watched K (setEnabled motors i false) log'') log') log := by
  rw [holdCommand_eq (K i) (h.place i)]
  refine writeFrame_wrote (h.place i).can fun ok => ⟨trivial, ?_⟩
  have he : Writes .mitControl (K i) ok
      (.wrote (K i).1 (holdFrame config (K i) (motors i).holdPositionRad) ok) :=
    ⟨_, rfl, holdFrame_commType, holdFrame_destinationId⟩
  have hnot : ∀ k, ¬ Writes .enable k true
      (.wrote (K i).1 (holdFrame config (K i) (motors i).holdPositionRad) ok) :=
    fun k hon => absurd (hon.inj he).1 (by decide)
  cases ok with
  | true => exact h.event hnot
  | false =>
      -- the flag is cleared even when this STOP fails too
      refine stop_watched (h.event hnot) fun e hstop hlive => ?_
      exact ⟨[], e, _, log, rfl, hstop, he, hlive.of_cons (hnot _), by simp⟩

/-- The invariant keeps the rules of the terminal program. -/
theorem watched_rules (channels : Channels) (config : Config) :
    GuiRules channels config noted (fun _ => True) (Watched K) where
  settings := fun hsame h => h.settings hsame
  quiet := fun {_ _ c _ _} hw h hc => by
    refine ⟨trivial, h.call c ?_ hw⟩
    cases c with
    | canWrite => exact hc.elim
    | _ => trivial
  poll := by
    rintro motors log c status log' hw h ⟨i, -, rfl⟩
    refine ⟨trivial, h.call _ ?_ hw⟩
    simp only [IsNotEnable, positionRequest, commType_buildExtId, CommType.code_and]
    decide
  on := by
    intro motors log bytes log₁ i fuel _ h hw _
    have h₁ := h.call .readStdin trivial hw
    refine ((watched_on i).enableSelectedMotor_sat channels config fuel h₁).mono fun r log' hr => ?_
    cases r with
    | error motors => exact hr.elim id id
    | ok a =>
        obtain ⟨on, motors, statusMessage⟩ := a
        cases on with
        | true => exact hr
        | false => exact hr
  off := fun i _ h => off_watched i h
  hold := fun i _ h => hold_watched config i h

/-! ### The end of the program -/

/-- `stop_all` writes STOP to the motors whose flag is set, and to no others. -/
theorem stopLoop_stops (l : List (Fin n)) (hplace : ∀ i, AtPlace (K i) (motors i)) :
    Sat noted (fun _ => True) (stopLoop l motors) (fun _ log' => ∃ stops, log' = stops ++ log ∧
      (∀ i ∈ l, (motors i).enabled = true → ∃ e ∈ stops, ∃ ok, Writes .stop (K i) ok e) ∧
      ∀ e ∈ stops, ∃ i, (motors i).enabled = true ∧ ∃ ok, Writes .stop (K i) ok e) log := by
  induction l generalizing motors log with
  | nil => exact ⟨[], rfl, by simp, by simp⟩
  | cons i rest ih =>
      rw [stopLoop]
      by_cases hon : (motors i).enabled = true
      · simp only [hon, Bool.not_true, Bool.false_eq_true, if_false]
        have hstop : Sat noted (fun _ => True) ((motors i).driver.stop false)
            (fun _ log₁ => ∃ e ok, log₁ = e :: log ∧ Writes .stop (K i) ok e) log :=
          hostFrame_wrote (hplace i) fun ok e he => ⟨trivial, e, ok, rfl, he⟩
        refine hstop.bind ?_
        rintro _ _ ⟨e, ok, rfl, he⟩
        refine (ih (place_update hplace ((hplace i).flag false))).mono ?_
        rintro _ _ ⟨stops, rfl, hstops, honly⟩
        refine ⟨stops ++ [e], by simp, ?_, ?_⟩
        · intro j hj hjon
          by_cases hij : j = i
          · subst hij
            exact ⟨e, by simp, ok, he⟩
          · have hjrest := (List.mem_cons.mp hj).resolve_left hij
            obtain ⟨x, hx, hstop⟩ := hstops j hjrest (by rwa [Function.update_of_ne hij])
            exact ⟨x, List.mem_append_left _ hx, hstop⟩
        · intro x hx
          rcases List.mem_append.mp hx with hx | hx
          · obtain ⟨j, hj, hstop⟩ := honly x hx
            by_cases hij : j = i
            · subst hij
              rw [setEnabled_enabled] at hj
              cases hj
            · rw [Function.update_of_ne hij] at hj
              exact ⟨j, hj, hstop⟩
          · obtain rfl := List.mem_singleton.mp hx
            exact ⟨i, hon, ok, he⟩
      · simp only [hon, Bool.not_false, if_true]
        refine (ih hplace).mono ?_
        rintro _ _ ⟨stops, rfl, hstops, honly⟩
        refine ⟨stops, rfl, ?_, honly⟩
        intro j hj hjon
        rcases List.mem_cons.mp hj with rfl | hjrest
        · exact absurd hjon hon
        · exact hstops j hjrest hjon

/-- A motor that is held is not lost. -/
theorem Held.not_lost {config : Config} {k : Place} {p : CFloat} (h : Held config k p log) :
    ¬ Lost k log := by
  rintro ⟨later', stop, hold, earlier, hlog', hstop, hhold, -, hlater'⟩
  obtain ⟨later, on, before, hlog, hon, -, hlater⟩ := h
  rw [hlog] at hlog'
  rcases List.append_eq_append_iff.mp hlog' with ⟨as, hlater'_eq, htail⟩ | ⟨cs, hlater_eq, htail⟩
  · -- ENABLE is at the STOP or later
    cases as with
    | nil =>
        obtain ⟨rfl, -⟩ := List.cons.inj htail
        exact absurd (hon.inj hstop).1 (by decide)
    | cons x as =>
        obtain ⟨rfl, -⟩ := List.cons.inj htail
        exact hlater' on (by simp [hlater'_eq]) hon
  · -- ENABLE is before the failed command, which a held motor does not have
    cases cs with
    | nil =>
        obtain ⟨rfl, -⟩ := List.cons.inj htail
        exact absurd (hon.inj hstop).1 (by decide)
    | cons x cs =>
        obtain ⟨-, htail⟩ := List.cons.inj htail
        cases cs with
        | nil =>
            obtain ⟨rfl, -⟩ := List.cons.inj htail
            exact absurd (hon.inj hhold).1 (by decide)
        | cons y cs =>
            obtain ⟨rfl, -⟩ := List.cons.inj htail
            obtain ⟨msg, heq, htype, hdest⟩ := hhold
            rcases hlater hold (by simp [hlater_eq]) msg false heq hdest with ⟨-, hok⟩ | ⟨hstop', -⟩
            · cases hok
            · exact absurd (CommType.code_inj.mp (htype.symm.trans hstop')) (by decide)

end watched

/-! ### The guarantee -/

/-- **`stop_all` reaches every live motor that is not lost**, in each run of the terminal program
over any list of motors, and when no two of them are at one place it reaches no other. -/
theorem stop_all_iff_not_lost {channels : Channels} {config : Config} {fuel : ℕ}
    {devices : List DeviceInfo} {motors : Motors devices.length}
    (hmotors : SameSettings (makeMotorStates config devices) motors) {log : List GuiEvent}
    {code : ℤ} (hrun : Runs noted (runGui channels config fuel motors) [] log (some code)) :
    ∃ r left stops m, Runs noted (guiSession channels config fuel motors) [] left (some r) ∧
      Runs noted (stopAll (leftMotors id r)) left log (some m) ∧ log = stops ++ left ∧
      ∀ k, Live k left →
        (¬ Lost k left → ∃ e ∈ stops, ∃ ok, Writes .stop k ok e) ∧
        ((devices.map DeviceInfo.place).Nodup → Lost k left →
          ∀ e ∈ stops, ∀ ok, ¬ Writes .stop k ok e) := by
  have hplace : ∀ i, AtPlace (places devices i) (motors i) :=
    fun i => (makeMotorStates_place config devices i).of_settings (hmotors i)
  have hoff : ∀ i, (motors i).enabled = false := hmotors.enabled
  have hwatched : Watched (places devices) motors [] :=
    ⟨hplace, fun k hlive => absurd followed_nil hlive⟩
  have hconsistent : Consistent config (places devices) motors [] :=
    ⟨each_nil, hplace, fun i hon => absurd ((hoff i).symm.trans hon) (by simp)⟩
  obtain ⟨r, left, m, hsession, hstop⟩ := runs_runGui hrun
  have hleft : Watched (places devices) (leftMotors id r) left :=
    hsession.post ((watched_rules channels config).guiSession_sat fuel hwatched)
  obtain ⟨stops, hlog, hstops, honly⟩ :=
    hstop.post (stopLoop_stops (List.finRange _) hleft.place)
  refine ⟨r, left, stops, m, hsession, hstop, hlog, fun k hlive => ⟨fun hlost => ?_, ?_⟩⟩
  · obtain ⟨i, rfl, hon⟩ := (hleft.live k hlive).resolve_left hlost
    exact hstops i (List.mem_finRange i) hon
  · intro hnodup hlost e he ok hwrites
    obtain ⟨i, hon, ok', hwrites'⟩ := honly e he
    obtain ⟨-, rfl, -⟩ := hwrites'.inj hwrites
    have hrules := consistent_rules (places_injective hnodup) channels config
    have hheld := (hsession.sat (hrules.guiSession_sat fuel hconsistent) each_nil).2 r rfl
    exact (hheld.held i hon).2.not_lost hlost

/-- One motor, on channel 0. -/
abbrev onlyFour : List DeviceInfo := [⟨0, 4, zeroData⟩]

/-- The motor is enabled, held and stopped. -/
theorem stop_all_iff_not_lost_four : ∃ log left stops,
    Runs noted (runGui (fun _ => true) {} 3 (makeMotorStates {} onlyFour)) [] log (some 0) ∧
      log = stops ++ left ∧
      ∀ k, Live k left → ¬ Lost k left → ∃ e ∈ stops, ∃ ok, Writes .stop k ok e := by
  have hrun := runs_exec (P := fun _ => True) (W := noted) (h := handlerFour)
    (fun s c _ => ⟨rfl, trivial⟩)
    (runGui (fun _ => true) {} 3 (makeMotorStates {} onlyFour)) (s := []) trivial
  have hend : (exec handlerFour (runGui (fun _ => true) {} 3 (makeMotorStates {} onlyFour)) []).2 =
      some 0 := by decide +kernel
  rw [hend] at hrun
  obtain ⟨r, left, stops, m, -, -, hlog, hk⟩ := stop_all_iff_not_lost (.refl _) hrun
  exact ⟨_, left, stops, hrun, hlog, fun k hlive => (hk k hlive).1⟩

/-- As `answerFour`, but the write after ENABLE fails, and the next one too. -/
def answerFailing (log : List GuiEvent) : (c : SysCall) → c.Resp
  | .canWrite _ _ =>
      match log with
      | .wrote _ last ok :: _ =>
          if last.commType = CommType.enable.code ∨
              (last.commType = CommType.mitControl.code ∧ ok = false) then pcanErrorOk + 1
          else pcanErrorOk
      | _ => pcanErrorOk
  | c => answerFour log c

def handlerFailing : Handler Sys (List GuiEvent) := fun log c =>
  (answerFailing log c, note log c (answerFailing log c))

/-- The flags of the motors when the `try` block is left. -/
def leftFlags {n : ℕ} (r : Option (Except (Motors n) (Motors n))) : Option (List Bool) :=
  r.map fun r => (List.finRange n).map fun i => (leftMotors id r i).enabled

/-- The hold command after ENABLE fails and its STOP fails too: the motor is live at the end and
is not stopped. -/
theorem lost_motor_not_stopped :
    ¬ ∀ (channels : Channels) (config : Config) (fuel : ℕ) (devices : List DeviceInfo)
      (motors : Motors devices.length) left log r m,
      SameSettings (makeMotorStates config devices) motors →
      Runs noted (guiSession channels config fuel motors) [] left (some r) →
      Runs noted (stopAll (leftMotors id r)) left log (some m) →
      ∀ k, Live k left → ∃ stops, log = stops ++ left ∧ ∃ e ∈ stops, ∃ ok, Writes .stop k ok e := by
  intro hclaim
  have hrun := runs_exec (P := fun _ => True) (W := noted) (h := handlerFailing)
    (fun s c _ => ⟨rfl, trivial⟩)
    (guiSession (fun _ => true) {} 3 (makeMotorStates {} onlyFour)) (s := []) trivial
  have hflags : leftFlags (exec handlerFailing
      (guiSession (fun _ => true) {} 3 (makeMotorStates {} onlyFour)) []).2 = some [false] := by
    decide +kernel
  have hlive : Live (0, 4) (exec handlerFailing
      (guiSession (fun _ => true) {} 3 (makeMotorStates {} onlyFour)) []).1 :=
    show ¬ Followed _ _ _ by decide +kernel
  cases hr : (exec handlerFailing
      (guiSession (fun _ => true) {} 3 (makeMotorStates {} onlyFour)) []).2 with
  | none =>
      rw [hr] at hflags
      cases hflags
  | some r =>
      rw [hr] at hrun hflags
      have hoff : (leftMotors id r 0).enabled = false :=
        (List.cons.inj (Option.some.inj hflags)).1
      have hstop : stopAll (leftMotors id r) = .ret (leftMotors id r) := by
        have hall : List.finRange onlyFour.length = [0] := rfl
        rw [stopAll, hall, stopLoop, hoff]
        rfl
      have hstopped : ∀ log, Runs noted (stopAll (leftMotors id r)) log log
          (some (leftMotors id r)) := by
        rw [hstop]
        exact .ret _
      obtain ⟨stops, hlog, e, he, -⟩ := hclaim _ _ _ _ _ _ _ r _ (.refl _) hrun (hstopped _)
        (0, 4) hlive
      obtain rfl := List.self_eq_append_left.mp hlog
      cases he

end PositionRead

end Qub
