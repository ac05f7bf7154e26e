import QubController.HoldTargets

/-! # Chosen motors

The cursor of the terminal program is what the keys have made of it (`cursor`).  A motor is
`Pressed` while the last key was Space with the cursor on it, and `Chosen` from then on.  The
routines of one round make the calls that the motors and the key allow (`IsStep`), and so the
program writes ENABLE and the run mode only to a pressed motor, MIT commands and STOP only to
chosen ones, and queries else (`only_chosen_motors`). -/

namespace Qub

open Interaction

namespace PositionRead

variable {n : ℕ}

/-! ### The cursor -/

def moveCursor (n : ℕ) (key : Key) (selected : ℕ) : ℕ :=
  match key with
  | .up => (selected + n - 1) % n
  | .down => (selected + 1) % n
  | _ => selected

/-- Where the keys have brought the cursor. -/
def cursor (n : ℕ) : List GuiEvent → ℕ
  | [] => 0
  | .key bytes :: past => moveCursor n (readKey bytes) (cursor n past)
  | _ :: past => cursor n past

/-- No key was read from `past` to `log`. -/
def Keyless (past log : List GuiEvent) : Prop :=
  ∃ new, log = new ++ past ∧ ∀ e ∈ new, ∀ bytes, e ≠ .key bytes

/-- The last key was Space, with the cursor on motor `i`. -/
def Pressed (i : Fin n) (log : List GuiEvent) : Prop :=
  ∃ bytes before, Keyless (.key bytes :: before) log ∧ readKey bytes = .toggle ∧
    cursor n before = i.val

/-- Motor `i` was pressed. -/
def Chosen (i : Fin n) (log : List GuiEvent) : Prop := ∃ past, past <:+ log ∧ Pressed i past

/-- The frames for which a motor must be pressed, and those for which it must be chosen. -/
def Wanted (K : Fin n → Place) (log : List GuiEvent) (k : Place) (t : CommType) : Prop :=
  t = .getId ∨ t = .paramRead ∨ ∃ i, K i = k ∧
    ((t = .enable ∨ t = .paramWrite) ∧ Pressed i log ∨
      (t = .mitControl ∨ t = .stop) ∧ Chosen i log)

/-- The rule for every event. -/
def WantedWrite (K : Fin n → Place) (e : GuiEvent) (past : List GuiEvent) : Prop :=
  ∀ ch msg ok, e = .wrote ch msg ok →
    ∃ t : CommType, msg.commType = t.code ∧ Wanted K past (ch, msg.destinationId) t

theorem wantedWrite_of_ne {K : Fin n → Place} {e : GuiEvent} {past : List GuiEvent}
    (he : ∀ ch msg ok, e ≠ .wrote ch msg ok) : WantedWrite K e past :=
  fun ch msg ok h => absurd h (he ch msg ok)

section keys
variable {past log log' : List GuiEvent} {i : Fin n}

theorem Keyless.refl (log : List GuiEvent) : Keyless log log := ⟨[], rfl, by simp⟩

theorem Keyless.cons {e : GuiEvent} (h : Keyless past log) (he : ∀ bytes, e ≠ .key bytes) :
    Keyless past (e :: log) := by
  obtain ⟨new, rfl, hnew⟩ := h
  exact ⟨e :: new, rfl, List.forall_mem_cons.mpr ⟨he, hnew⟩⟩

theorem Keyless.trans (h : Keyless past log) (h' : Keyless log log') : Keyless past log' := by
  obtain ⟨new, rfl, hnew⟩ := h
  obtain ⟨new', rfl, hnew'⟩ := h'
  refine ⟨new' ++ new, by simp, fun e he => ?_⟩
  exact (List.mem_append.mp he).elim (hnew' e) (hnew e)

theorem Keyless.suffix (h : Keyless past log) : past <:+ log := by
  obtain ⟨new, rfl, -⟩ := h
  exact List.suffix_append new past

/-- The cursor stays without keys. -/
theorem Keyless.cursor (h : Keyless past log) : cursor n log = PositionRead.cursor n past := by
  obtain ⟨new, rfl, hnew⟩ := h
  induction new with
  | nil => rfl
  | cons e new ih =>
      have hrest := ih fun e he => hnew e (List.mem_cons_of_mem _ he)
      cases e with
      | key bytes => exact absurd rfl (hnew _ List.mem_cons_self bytes)
      | wrote ch msg ok => exact hrest
      | read ch msg => exact hrest

theorem Pressed.later (h : Pressed i past) (hlog : Keyless past log) : Pressed i log := by
  obtain ⟨bytes, before, hkey, htoggle, hcursor⟩ := h
  exact ⟨bytes, before, hkey.trans hlog, htoggle, hcursor⟩

theorem Pressed.chosen (h : Pressed i log) : Chosen i log := ⟨log, List.suffix_rfl, h⟩

theorem Chosen.later (h : Chosen i past) (hlog : past <:+ log) : Chosen i log :=
  h.imp fun _ h => ⟨h.1.trans hlog, h.2⟩

theorem Wanted.later {K : Fin n → Place} {k : Place} {t : CommType} (h : Wanted K past k t)
    (hlog : Keyless past log) : Wanted K log k t := by
  refine h.imp_right fun h => h.imp_right fun ⟨i, hi, hkind⟩ => ⟨i, hi, ?_⟩
  exact hkind.imp (fun h => ⟨h.1, h.2.later hlog⟩) fun h => ⟨h.1, h.2.later hlog.suffix⟩

end keys

/-! ### The calls of a routine -/

/-- Frames of type `t` may be written to `k` if `A k t`; no key is read, and the flag is not
looked at. -/
def IsStep (A : Place → CommType → Prop) : SysCall → Prop
  | .canWrite ch msg => ∃ t : CommType, msg.commType = t.code ∧ A (ch, msg.destinationId) t
  | .readStdin | .loadRunning => False
  | _ => True

/-- The motors stand at the places `K`, and only those in `S` are ON. -/
structure Roster (K : Fin n → Place) (S : Fin n → Prop) (motors : Motors n) : Prop where
  place : ∀ i, AtPlace (K i) (motors i)
  on : ∀ i, (motors i).enabled = true → S i

section roster
variable {K : Fin n → Place} {S S' : Fin n → Prop} {motors motors' : Motors n}

theorem Roster.settings (h : Roster K S motors) (hsame : SameSettings motors motors') :
    Roster K S motors' where
  place := fun i => (h.place i).of_settings (hsame i)
  on := fun i hon => h.on i ((hsame.enabled i).symm.trans hon)

theorem Roster.mono (h : Roster K S motors) (hS : ∀ i, S i → S' i) : Roster K S' motors :=
  ⟨h.place, fun i hon => hS i (h.on i hon)⟩

/-- One motor is changed. -/
theorem Roster.update (h : Roster K S motors) {i : Fin n} {motor : MotorState}
    (hplace : AtPlace (K i) motor) (hon : motor.enabled = true → S i) :
    Roster K S (Function.update motors i motor) := by
  refine ⟨place_update h.place hplace, fun j hj => ?_⟩
  by_cases hij : j = i
  · subst hij
    rw [Function.update_self] at hj
    exact hon hj
  · rw [Function.update_of_ne hij] at hj
    exact h.on j hj

end roster

section calls
variable {K : Fin n → Place} {S : Fin n → Prop} {A : Place → CommType → Prop} {motors : Motors n}
  {config : Config} {hostId : UInt8}

theorem IsListen.step {c : SysCall} (h : IsListen c) : IsStep A c := by
  cases c with
  | canWrite | readStdin | loadRunning => exact h.elim
  | _ => trivial

/-- Routines that only receive leave the places and the flags. -/
theorem listens_step {α : Type} {p : SysM α} {f : α → Motors n}
    (hp : p.Obeys IsListen fun a => SameSettings motors (f a)) (h : Roster K S motors) :
    p.Obeys (IsStep A) (fun a => Roster K S (f a)) :=
  hp.mono (fun _ => IsListen.step) fun _ => h.settings

theorem refreshPositionSync_step (channels : Channels) (timeoutMs : ℤ) (fuel : ℕ) (i : Fin n)
    (h : Roster K S motors) (hA : A (K i) .paramRead) :
    (refreshPositionSync channels hostId timeoutMs fuel i motors).Obeys (IsStep A)
      (fun r => Roster K S r.2) := by
  unfold refreshPositionSync
  by_cases hclosed : (!channels (motors i).channelIdx) = true
  · simp only [hclosed, if_true]
    exact h
  · simp only [hclosed, requestMechanicalPosition, canWrite_bind]
    refine ⟨⟨.paramRead, ?_, ?_⟩, fun status => ?_⟩
    · rw [commType_buildExtId, CommType.code_and]
    · rwa [destinationId_buildExtId, (h.place i).channelIdx, (h.place i).motorId]
    · by_cases hfailed : (status != pcanErrorOk) = true
      · simp only [hfailed, if_true]
        exact h
      · simp only [hfailed, steadyNow_bind]
        exact ⟨trivial, fun now => listens_step (refreshLoop_listens _ i _ _ fuel motors) h⟩

theorem finish_step {Q : Motors n → Prop} (result : Bool) (statusMessage : String) (h : Q motors) :
    (finish result statusMessage motors).Obeys (IsStep A) (fun r => Q (leftMotors (·.2.1) r)) := by
  refine ⟨trivial, fun throws => ?_⟩
  cases throws with
  | true => exact h
  | false => exact h

/-- A frame of the driver of motor `i`. -/
theorem writeFrame_step {i : Fin n} (h : Roster K S motors) {msg : TPCANMsg} {t : CommType}
    (htype : msg.commType = t.code) (hdest : msg.destinationId = (motors i).driver.motorId)
    (hA : A (K i) t) : ((motors i).driver.writeFrame msg).Obeys (IsStep A) (fun _ => True) := by
  refine ⟨⟨t, htype, ?_⟩, fun _ => trivial⟩
  rwa [hdest, (h.place i).can, (h.place i).driverId]

theorem hostFrame_step {i : Fin n} (h : Roster K S motors) {t : CommType} {data : Fin 8 → UInt8}
    (hA : A (K i) t) :
    ((motors i).driver.writeFrame ((motors i).driver.hostFrame t data)).Obeys (IsStep A)
      (fun _ => True) :=
  writeFrame_step h (Robstride.hostFrame_commType _ _ _) (Robstride.hostFrame_destinationId _ _ _)
    hA

theorem holdCommand_step {i : Fin n} (h : Roster K S motors) (hA : A (K i) .mitControl) :
    (holdCommand config (motors i)).Obeys (IsStep A) (fun _ => True) :=
  writeFrame_step h (Robstride.mitFrame_commType _ _ _ _ _ _)
    (Robstride.mitFrame_destinationId _ _ _ _ _ _) hA

end calls

/-! ### The requests and the hold commands -/

section requests
variable {K : Fin n → Place} {S : Fin n → Prop} {A : Place → CommType → Prop} {motors : Motors n}
  {config : Config} {i : Fin n}

/-- The frames that a routine writes without a key are allowed: position requests to any motor, and
hold commands and STOP to those in `S`. -/
structure Allows (A : Place → CommType → Prop) (K : Fin n → Place) (S : Fin n → Prop) : Prop where
  ask : ∀ k, A k .paramRead
  hold : ∀ i, S i → A (K i) .mitControl
  stop : ∀ i, S i → A (K i) .stop

theorem enableAt_step (h : Roster K S motors) (hA : Allows A K S) (hi : S i)
    (hmode : A (K i) .paramWrite) (henable : A (K i) .enable) :
    (enableAt config i motors).Obeys (IsStep A)
      (fun r => Roster K S (leftMotors (·.2.1) r)) := by
  have hon : Roster K S (setEnabled motors i true) := h.update ((h.place i).flag true) fun _ => hi
  unfold enableAt
  refine (hostFrame_step h (hA.stop i hi)).bind fun stopped _ => ?_
  cases stopped with
  | false => exact finish_step _ _ h
  | true =>
      simp only [Bool.not_true, Bool.false_eq_true, if_false, sleepFor_bind]
      refine ⟨trivial, fun _ => ?_⟩
      refine (hostFrame_step h hmode).bind fun moded _ => ?_
      cases moded with
      | false => exact finish_step _ _ h
      | true =>
          simp only [Bool.not_true, Bool.false_eq_true, if_false]
          refine ⟨trivial, fun _ => ?_⟩
          have hprime : (primeAndEnable config (motors i)).Obeys (IsStep A)
              (fun _ => True) := by
            unfold primeAndEnable
            refine (holdCommand_step h (hA.hold i hi)).bind fun primed _ => ?_
            cases primed with
            | false => trivial
            | true => exact hostFrame_step h henable
          refine hprime.bind fun on _ => ?_
          cases on with
          | false =>
              simp only [Bool.not_false, if_true]
              refine (hostFrame_step h (hA.stop i hi)).bind fun _ _ => ?_
              exact finish_step _ _ h
          | true => exact finish_step _ _ hon

theorem enableSelectedMotor_step (channels : Channels) (fuel : ℕ) (h : Roster K S motors)
    (hA : Allows A K S) (hi : S i)
    (hmode : A (K i) .paramWrite) (henable : A (K i) .enable) :
    (enableSelectedMotor channels config fuel i motors).Obeys (IsStep A)
      (fun r => Roster K S (leftMotors (·.2.1) r)) := by
  unfold enableSelectedMotor
  refine (refreshPositionSync_step _ _ _ _ h (hA.ask _)).bind ?_
  rintro ⟨refreshed, motors₁⟩ h₁
  cases refreshed with
  | false => exact finish_step _ _ h₁
  | true =>
      simp only [Bool.not_true, Bool.false_eq_true, if_false]
      split
      · exact finish_step _ _ h₁
      · exact enableAt_step (h₁.update ((h₁.place i).aim _) (h₁.on i)) hA hi hmode henable

theorem disableSelectedMotor_step (h : Roster K S motors) (hstop : A (K i) .stop) :
    (disableSelectedMotor i motors).Obeys (IsStep A)
      (fun r => Roster K S (leftMotors (·.2.1) r)) := by
  have hoff : Roster K S (setEnabled motors i false) :=
    h.update ((h.place i).flag false) fun hon => absurd hon Bool.false_ne_true
  unfold disableSelectedMotor
  refine (hostFrame_step h hstop).bind fun stopped _ => ?_
  cases stopped with
  | false => exact finish_step _ _ h
  | true => exact finish_step _ _ hoff

theorem toggleMotor_step (channels : Channels) (fuel : ℕ) (h : Roster K S motors)
    (hA : Allows A K S) (hi : S i) (hmode : A (K i) .paramWrite) (henable : A (K i) .enable) :
    (toggleMotor channels config fuel i motors).Obeys (IsStep A)
      (fun r => Roster K S (leftMotors (·.2.1) r)) := by
  unfold toggleMotor
  split
  · exact disableSelectedMotor_step h (hA.stop i hi)
  · exact enableSelectedMotor_step channels fuel h hA hi hmode henable

theorem holdLoop_step (l : List (Fin n)) (statusMessage : String) (h : Roster K S motors)
    (hA : Allows A K S) :
    (holdLoop config l motors statusMessage).Obeys (IsStep A)
      (fun r => Roster K S (leftMotors (·.1) r)) := by
  induction l generalizing motors statusMessage with
  | nil => exact h
  | cons i rest ih =>
      have hoff : Roster K S (setEnabled motors i false) :=
        h.update ((h.place i).flag false) fun hon => absurd hon Bool.false_ne_true
      rw [holdLoop]
      by_cases hon : (motors i).enabled = true
      · have hi := h.on i hon
        simp only [hon, Bool.not_true, Bool.false_eq_true, if_false]
        refine (holdCommand_step h (hA.hold i hi)).bind fun sent _ => ?_
        cases sent with
        | true => exact ih _ h
        | false =>
            simp only [Bool.not_false, if_true]
            refine (hostFrame_step h (hA.stop i hi)).bind fun _ _ => ?_
            refine ⟨trivial, fun throws => ?_⟩
            cases throws with
            | true => exact hoff
            | false => exact ih _ hoff
      · simp only [hon, Bool.not_false, if_true]
        exact ih _ h

theorem stopLoop_step (l : List (Fin n)) (h : Roster K S motors)
    (hA : Allows A K S) :
    (stopLoop l motors).Obeys (IsStep A) (Roster K S) := by
  induction l generalizing motors with
  | nil => exact h
  | cons i rest ih =>
      rw [stopLoop]
      by_cases hon : (motors i).enabled = true
      · simp only [hon, Bool.not_true, Bool.false_eq_true, if_false]
        refine (hostFrame_step h (hA.stop i (h.on i hon))).bind fun _ _ => ih ?_
        exact h.update ((h.place i).flag false) fun hon => absurd hon Bool.false_ne_true
      · simp only [hon, Bool.not_false, if_true]
        exact ih h

theorem pollWhenDue_step (channels : Channels) (tick : ℕ) (motors : Motors n)
    (cursors : Fin numChannels → ℕ) (hask : ∀ k, A k .paramRead) :
    (pollWhenDue channels config tick motors cursors).Obeys (IsStep A)
      (fun _ => True) := by
  unfold pollWhenDue
  split
  · refine ((pollDisabledPositions_only channels config.hostId motors cursors).mono ?_).obeys
    rintro _ ⟨i, -, rfl⟩
    refine ⟨.paramRead, ?_, hask _⟩
    rw [positionRequest, commType_buildExtId, CommType.code_and]
  · trivial

theorem renderGui_step : renderGui.Obeys (IsStep A) (fun _ => True) := by
  refine ⟨trivial, fun throws => ?_⟩
  cases throws with
  | true => trivial
  | false => exact ⟨trivial, fun _ => trivial⟩

theorem renderWhenDue_step (tick : ℕ) (key : Key) :
    (renderWhenDue tick key).Obeys (IsStep A) (fun _ => True) := by
  unfold renderWhenDue
  split
  · exact renderGui_step
  · trivial

theorem serviceMotors_step (channels : Channels) (config : Config) (tick : ℕ) (key : Key)
    {g : Gui n} (h : Roster K S g.motors) (hA : Allows A K S) :
    (serviceMotors channels config tick key g).Obeys (IsStep A)
      (fun r => Roster K S (leftMotors (·.motors) r) ∧ ∀ g', r = .ok g' →
        g'.selected = g.selected) := by
  unfold serviceMotors sendHoldCommands
  refine (holdLoop_step _ _ h hA).bind fun r hr => ?_
  cases r with
  | error motors => exact ⟨hr, by simp⟩
  | ok a =>
      refine (pollWhenDue_step channels tick _ _ hA.ask).bind fun cursors _ => ?_
      refine (listens_step (f := id) (drainAndProcess_listens _ _ _) hr).bind fun motors₁ h₁ => ?_
      refine (renderWhenDue_step tick key).bind fun rendered _ => ?_
      cases rendered with
      | false => exact ⟨h₁, by simp⟩
      | true => exact ⟨h₁, fun g' hg' => Except.ok.inj hg' ▸ rfl⟩

theorem handleKey_step (channels : Channels) (config : Config) (fuel : ℕ) (key : Key) {g : Gui n}
    (h : Roster K S g.motors) (hA : Allows A K S)
    (hpress : ∀ i : Fin n, g.selected = i.val → key = .toggle →
      S i ∧ A (K i) .paramWrite ∧ A (K i) .enable) :
    (handleKey channels config fuel key g).Obeys (IsStep A)
      (fun r => Roster K S (leftMotors (·.motors) r) ∧ ∀ g', r = .ok g' →
        g'.selected = if g.selected < n then moveCursor n key g.selected else g.selected) := by
  unfold handleKey
  split
  · rename_i hselected
    cases key with
    | up => exact ⟨h, fun g' hg' => Except.ok.inj hg' ▸ rfl⟩
    | down => exact ⟨h, fun g' hg' => Except.ok.inj hg' ▸ rfl⟩
    | none => exact ⟨h, fun g' hg' => Except.ok.inj hg' ▸ rfl⟩
    | quit => exact ⟨h, fun g' hg' => Except.ok.inj hg' ▸ rfl⟩
    | toggle =>
        obtain ⟨hi, hmode, henable⟩ := hpress ⟨g.selected, hselected⟩ rfl rfl
        refine (toggleMotor_step channels fuel h hA hi hmode henable).bind fun r hr => ?_
        cases r with
        | error motors => exact ⟨hr, by simp⟩
        | ok a => exact ⟨hr, fun g' hg' => Except.ok.inj hg' ▸ rfl⟩
  · exact ⟨h, fun g' hg' => Except.ok.inj hg' ▸ rfl⟩

end requests

/-! ### The scan -/

/-- Queries may be written, and no key is read. -/
def IsAsk : SysCall → Prop
  | .canWrite _ msg => msg.commType = CommType.getId.code ∨ msg.commType = CommType.paramRead.code
  | .readStdin => False
  | _ => True

theorem IsScan.ask {c : SysCall} (h : IsScan c) : IsAsk c := by
  cases c with
  | canWrite ch msg => exact .inl h
  | readStdin => exact h
  | _ => trivial

section scan

theorem scanChannels_ask (config : Config) (fuel : ℕ) : (scanChannels config fuel).Only IsAsk :=
  (scanChannels_obeys config fuel).only.mono fun _ => IsScan.ask

theorem refreshInitialPositions_ask {K : Fin n → Place} {S : Fin n → Prop} {motors : Motors n}
    (channels : Channels) (config : Config) (fuel : ℕ) (l : List (Fin n))
    (h : Roster K S motors) :
    (refreshInitialPositions channels config fuel l motors).Obeys IsAsk (Roster K S) := by
  induction l generalizing motors with
  | nil => exact h
  | cons i rest ih =>
      rw [refreshInitialPositions, loadRunning_bind]
      refine ⟨trivial, fun running => ?_⟩
      cases running with
      | false => exact h
      | true =>
          have hrefresh : (refreshPositionSync channels config.hostId positionTimeoutMs fuel i
              motors).Obeys (IsStep fun _ t => t = .paramRead) (fun r => Roster K S r.2) :=
            refreshPositionSync_step channels positionTimeoutMs fuel i h rfl
          refine (hrefresh.mono (fun c hc => ?_) fun _ h => h).bind fun r hr => ih hr
          cases c with
          | canWrite ch msg =>
              obtain ⟨t, htype, rfl⟩ := hc
              exact .inr htype
          | readStdin => exact hc
          | _ => trivial

end scan

/-! ### The loop -/

/-- What holds at the start of a round. -/
structure Attended (K : Fin n → Place) (g : Gui n) (log : List GuiEvent) : Prop where
  selected : g.selected < n → g.selected = cursor n log
  roster : Roster K (Chosen · log) g.motors
  each : Each (WantedWrite K) log

section loop
variable {K : Fin n → Place} {motors : Motors n} {config : Config} {channels : Channels}
  {past log : List GuiEvent}

/-- Chosen motors may be held and stopped. -/
theorem allows_wanted (past : List GuiEvent) : Allows (Wanted K past) K (Chosen · past) where
  ask := fun _ => .inr (.inl rfl)
  hold := fun i h => .inr (.inr ⟨i, rfl, .inr ⟨.inl rfl, h⟩⟩)
  stop := fun i h => .inr (.inr ⟨i, rfl, .inr ⟨.inr rfl, h⟩⟩)

theorem note_step {c : SysCall} (r : c.Resp) (hc : IsStep (Wanted K past) c)
    (heach : Each (WantedWrite K) log) (hkeyless : Keyless past log) :
    Each (WantedWrite K) (note log c r) ∧ Keyless past (note log c r) := by
  cases c with
  | canWrite ch msg =>
      obtain ⟨t, htype, hwanted⟩ := hc
      refine ⟨each_cons.mpr ⟨?_, heach⟩, hkeyless.cons (by simp)⟩
      rintro ch' msg' ok heq
      obtain ⟨rfl, rfl, -⟩ := GuiEvent.wrote.inj heq
      exact ⟨t, htype, hwanted.later hkeyless⟩
  | canRead ch =>
      by_cases hok : (r.1 == pcanErrorOk) = true
      · rw [note_read log hok]
        exact ⟨each_cons.mpr ⟨wantedWrite_of_ne (by simp), heach⟩, hkeyless.cons (by simp)⟩
      · rw [note_read_failed log hok]
        exact ⟨heach, hkeyless⟩
  | readStdin | loadRunning => exact hc.elim
  | _ => exact ⟨heach, hkeyless⟩

/-- A routine that makes the calls of one round. -/
theorem step_sat {α : Type} {p : SysM α} {R : α → Prop}
    (hp : p.Obeys (IsStep (Wanted K past)) R) (heach : Each (WantedWrite K) log)
    (hkeyless : Keyless past log) :
    Sat noted (Each (WantedWrite K)) p
      (fun a log' => R a ∧ Each (WantedWrite K) log' ∧ Keyless past log') log := by
  refine hp.sat (J := fun log => Each (WantedWrite K) log ∧ Keyless past log) ?_ ⟨heach, hkeyless⟩
  rintro log c r log' hc ⟨heach, hkeyless⟩ hw
  have hlog : log' = note log c r := hw
  rw [hlog]
  have hstep := note_step r hc heach hkeyless
  exact ⟨hstep.1, hstep⟩

/-- A motor that is ON stays chosen. -/
theorem Roster.later (h : Roster K (Chosen · past) motors) (hlog : past <:+ log) :
    Roster K (Chosen · log) motors := h.mono fun _ h => h.later hlog

/-- The key of a round moves the cursor or presses the motor under it. -/
theorem handleKey_attended {g : Gui n} (fuel : ℕ) (bytes : List Char) (h : Attended K g log) :
    Sat noted (Each (WantedWrite K)) (handleKey channels config fuel (readKey bytes) g)
      (fun r log' => Keyless (.key bytes :: log) log' ∧ Each (WantedWrite K) log' ∧
        match r with
        | .error motors => Roster K (Chosen · log') motors
        | .ok g' => Attended K g' log') (.key bytes :: log) := by
  have hroster : Roster K (Chosen · (.key bytes :: log)) g.motors :=
    h.roster.later (List.suffix_cons _ _)
  have hpress : ∀ i : Fin n, g.selected = i.val → readKey bytes = .toggle →
      Chosen i (.key bytes :: log) ∧ Wanted K (.key bytes :: log) (K i) .paramWrite ∧
        Wanted K (.key bytes :: log) (K i) .enable := by
    intro i hi hkey
    have hpressed : Pressed i (.key bytes :: log) :=
      ⟨bytes, log, .refl _, hkey, (h.selected (hi ▸ i.isLt)).symm.trans hi⟩
    exact ⟨hpressed.chosen, .inr (.inr ⟨i, rfl, .inl ⟨.inr rfl, hpressed⟩⟩),
      .inr (.inr ⟨i, rfl, .inl ⟨.inl rfl, hpressed⟩⟩)⟩
  have heach : Each (WantedWrite K) (.key bytes :: log) :=
    each_cons.mpr ⟨wantedWrite_of_ne (by simp), h.each⟩
  refine (step_sat (handleKey_step channels config fuel _ hroster (allows_wanted _) hpress) heach
    (.refl _)).mono ?_
  rintro r log' ⟨⟨hr, hselected⟩, heach', hkeyless⟩
  refine ⟨hkeyless, heach', ?_⟩
  cases r with
  | error motors => exact hr.later hkeyless.suffix
  | ok g' =>
      refine ⟨fun hlt => ?_, hr.later hkeyless.suffix, heach'⟩
      rw [hkeyless.cursor, hselected g' rfl]
      by_cases hbefore : g.selected < n
      · rw [if_pos hbefore, h.selected hbefore]
        rfl
      · rw [hselected g' rfl, if_neg hbefore] at hlt
        exact absurd hlt hbefore

theorem serviceMotors_attended {g : Gui n} (tick : ℕ) (key : Key) (h : Attended K g log) :
    Sat noted (Each (WantedWrite K)) (serviceMotors channels config tick key g)
      (fun r log' => Keyless log log' ∧ Each (WantedWrite K) log' ∧
        match r with
        | .error motors => Roster K (Chosen · log') motors
        | .ok g' => Attended K g' log') log := by
  refine (step_sat (serviceMotors_step channels config tick key h.roster (allows_wanted _)) h.each
    (.refl _)).mono ?_
  rintro r log' ⟨⟨hr, hselected⟩, heach', hkeyless⟩
  refine ⟨hkeyless, heach', ?_⟩
  cases r with
  | error motors => exact hr.later hkeyless.suffix
  | ok g' =>
      refine ⟨fun hlt => ?_, hr.later hkeyless.suffix, heach'⟩
      rw [hselected g' rfl] at hlt ⊢
      rw [hkeyless.cursor, h.selected hlt]

/-- By induction over the rounds. -/
theorem guiLoop_attended (fuel left tick : ℕ) (nextTick : ℤ) (running : Bool) {g : Gui n}
    (h : Attended K g log) :
    Sat noted (Each (WantedWrite K)) (guiLoop channels config fuel left tick nextTick running g)
      (fun r log' => Roster K (Chosen · log') (leftMotors id r) ∧ Each (WantedWrite K) log')
      log := by
  induction left generalizing tick nextTick running g log with
  | zero => trivial
  | succ left ih =>
      rw [guiLoop, loadRunning_bind]
      rintro flag _ rfl
      refine ⟨h.each, ?_⟩
      by_cases hleave : (!(running && flag)) = true
      · simp only [hleave, if_true]
        exact ⟨h.roster, h.each⟩
      · simp only [hleave]
        rintro bytes _ rfl
        refine ⟨each_cons.mpr ⟨wantedWrite_of_ne (by simp), h.each⟩, ?_⟩
        refine (handleKey_attended fuel bytes h).bind ?_
        rintro r log₁ ⟨-, heach₁, hr⟩
        cases r with
        | error motors => exact ⟨hr, heach₁⟩
        | ok g₁ =>
            refine (serviceMotors_attended tick _ hr).bind ?_
            rintro r log₂ ⟨-, heach₂, hr⟩
            cases r with
            | error motors => exact ⟨hr, heach₂⟩
            | ok g₂ =>
                simp only [steadyNow_bind]
                rintro now _ rfl
                refine ⟨heach₂, ?_⟩
                by_cases hearly : now < nextTick + ms controlPeriodMs
                · simp only [hearly, if_true]
                  rintro _ _ rfl
                  exact ⟨heach₂, ih _ _ _ hr⟩
                · simp only [hearly, if_false]
                  exact ih _ _ _ hr

theorem runGui_attended (fuel : ℕ) (hroster : Roster K (fun _ => False) motors)
    (heach : Each (WantedWrite K) log) (hkeyless : Keyless [] log) :
    Sat noted (Each (WantedWrite K)) (runGui channels config fuel motors) (fun _ _ => True)
      log := by
  have hstop : ∀ {motors : Motors n} {log : List GuiEvent}, Roster K (Chosen · log) motors →
      Each (WantedWrite K) log →
      Sat noted (Each (WantedWrite K)) (stopAll motors) (fun _ _ => True) log :=
    fun h heach => (step_sat (stopLoop_step _ h (allows_wanted _)) heach (.refl _)).mono
      fun _ _ _ => trivial
  have hoff : Roster K (Chosen · log) motors := hroster.mono fun _ => False.elim
  have hsession : Sat noted (Each (WantedWrite K)) (guiSession channels config fuel motors)
      (fun r log' => Roster K (Chosen · log') (leftMotors id r) ∧ Each (WantedWrite K) log')
      log := by
    unfold guiSession
    simp only [isatty_bind]
    rintro terminal _ rfl
    refine ⟨heach, ?_⟩
    cases terminal with
    | false => exact ⟨hoff, heach⟩
    | true =>
        simp only [Bool.not_true, Bool.false_eq_true, if_false]
        refine (step_sat renderGui_step heach (.refl _)).bind ?_
        rintro rendered log₁ ⟨-, heach₁, h₁⟩
        cases rendered with
        | false => exact ⟨hoff.later h₁.suffix, heach₁⟩
        | true =>
            rintro nextTick _ rfl
            refine ⟨heach₁, guiLoop_attended fuel fuel 0 nextTick true ?_⟩
            refine ⟨fun _ => ?_, hoff.later h₁.suffix, heach₁⟩
            exact (hkeyless.trans h₁).cursor.symm
  unfold runGui
  refine hsession.bind ?_
  rintro r log' ⟨hr, heach'⟩
  cases r with
  | error motors => exact (hstop hr heach').bind fun _ _ _ => trivial
  | ok motors => exact (hstop hr heach').bind fun _ _ _ => trivial

end loop

/-! ### The guarantee -/

/-- Only queries were written. -/
def Asked (e : GuiEvent) (_ : List GuiEvent) : Prop :=
  ∀ ch msg ok, e = .wrote ch msg ok →
    msg.commType = CommType.getId.code ∨ msg.commType = CommType.paramRead.code

section program
variable {config : Config} {log : List GuiEvent}

theorem note_ask {c : SysCall} (r : c.Resp) (hc : IsAsk c) (heach : Each Asked log)
    (hkeyless : Keyless [] log) : Each Asked (note log c r) ∧ Keyless [] (note log c r) := by
  cases c with
  | canWrite ch msg =>
      refine ⟨each_cons.mpr ⟨?_, heach⟩, hkeyless.cons (by simp)⟩
      rintro ch' msg' ok heq
      obtain ⟨-, rfl, -⟩ := GuiEvent.wrote.inj heq
      exact hc
  | canRead ch =>
      by_cases hok : (r.1 == pcanErrorOk) = true
      · rw [note_read log hok]
        exact ⟨each_cons.mpr ⟨by simp [Asked], heach⟩, hkeyless.cons (by simp)⟩
      · rw [note_read_failed log hok]
        exact ⟨heach, hkeyless⟩
  | readStdin => exact hc.elim
  | _ => exact ⟨heach, hkeyless⟩

/-- A query needs no key. -/
theorem wantedWrite_of_asked {n : ℕ} {K : Fin n → Place} {e : GuiEvent} {past : List GuiEvent}
    (h : Asked e past) : WantedWrite K e past := by
  intro ch msg ok heq
  rcases h ch msg ok heq with hid | hread
  · exact ⟨.getId, hid, .inl rfl⟩
  · exact ⟨.paramRead, hread, .inr (.inl rfl)⟩

theorem ask_sat {α : Type} {p : SysM α} {R : α → Prop} (hp : p.Obeys IsAsk R)
    (heach : Each Asked log) (hkeyless : Keyless [] log) :
    Sat noted (fun log => Each Asked log) p
      (fun a log' => R a ∧ Each Asked log' ∧ Keyless [] log') log := by
  refine hp.sat (J := fun log => Each Asked log ∧ Keyless [] log) ?_ ⟨heach, hkeyless⟩
  rintro log c r log' hc ⟨heach, hkeyless⟩ hw
  have hlog : log' = note log c r := hw
  rw [hlog]
  have hstep := note_ask r hc heach hkeyless
  exact ⟨hstep.1, hstep⟩

/-- The trace only grows. -/
theorem runs_suffix {α : Type} {p : SysM α} {past log : List GuiEvent} {o : Option α}
    (h : Runs noted p past log o) : past <:+ log := by
  refine h.keeps (J := fun log => past <:+ log) ?_ List.suffix_rfl
  rintro log c r _ rfl hlog
  cases c with
  | canWrite | readStdin => exact hlog.trans (List.suffix_cons _ _)
  | canRead =>
      unfold note
      dsimp only
      split
      · exact hlog.trans (List.suffix_cons _ _)
      · exact hlog
  | _ => exact hlog

/-- The program after the scan. -/
theorem afterScan_wanted {devices : List DeviceInfo} {past : List GuiEvent} {o : Option ℤ}
    (channels : Channels) (fuel : ℕ) (heach : Each Asked past) (hkeyless : Keyless [] past)
    (h : Runs noted (refreshInitialPositions channels config fuel (List.finRange devices.length)
      (makeMotorStates config devices) >>= runGui channels config fuel) past log o) :
    Each (WantedWrite (places devices)) log := by
  have hwanted : ∀ {log}, Each Asked log → Each (WantedWrite (places devices)) log :=
    fun heach later e earlier hlog => wantedWrite_of_asked (heach later e earlier hlog)
  have hroster : Roster (places devices) (fun _ => False) (makeMotorStates config devices) :=
    ⟨makeMotorStates_place config devices, fun i hon => absurd hon (by simp [makeMotorStates])⟩
  have hrefresh := ask_sat (refreshInitialPositions_ask channels config fuel
    (List.finRange devices.length) hroster) heach hkeyless
  rcases runs_bind h with ⟨-, hpart⟩ | ⟨motors, asked, hasked, hgui⟩
  · exact hwanted (hpart.sat hrefresh heach).1
  · obtain ⟨heach', hpost⟩ := hasked.sat hrefresh heach
    obtain ⟨hroster', -, hkeyless'⟩ := hpost _ rfl
    exact (hgui.sat (runGui_attended fuel hroster' (hwanted heach') hkeyless') (hwanted heach')).1

end program

/-- **Only chosen motors are commanded.**  In every run of the program, with the motors in the
order of the screen: ENABLE and the run mode are written only to the motor on which Space was the
last key, MIT commands and STOP only to motors on which Space was pressed before, and nothing else
but queries.  Before the scan has ended only queries are written. -/
theorem only_chosen_motors (config : Config) (fuel : ℕ) (log : List GuiEvent) (o : Option ℤ)
    (h : Runs noted (main config fuel) [] log o) :
    Each Asked log ∨ ∃ channels devices scanned,
      Runs noted (scanChannels config fuel) [] scanned (some (channels, devices)) ∧
        Each Asked scanned ∧ scanned <:+ log ∧ Each (WantedWrite (places devices)) log := by
  unfold main at h
  simp only [isatty_bind] at h
  cases h with
  | stop => exact .inl each_nil
  | @call _ _ terminal _ _ _ _ hw hrest =>
      cases hw
      cases terminal with
      | false =>
          cases hrest with
          | stop => exact .inl each_nil
          | ret => exact .inl each_nil
      | true =>
          simp only [Bool.not_true, Bool.false_eq_true, if_false] at hrest
          have hscan := ask_sat (scanChannels_ask config fuel).obeys each_nil (.refl [])
          rcases runs_bind hrest with ⟨-, hpart⟩ | ⟨⟨channels, devices⟩, scanned, hscanned, hrest⟩
          · exact .inl (hpart.sat hscan each_nil).1
          · obtain ⟨heach, hpost⟩ := hscanned.sat hscan each_nil
            obtain ⟨-, -, hkeyless⟩ := hpost _ rfl
            refine .inr ⟨channels, devices, scanned, hscanned, heach, runs_suffix hrest, ?_⟩
            exact afterScan_wanted channels fuel heach hkeyless hrest

/-- Motor 4 is held after Space. -/
theorem only_chosen_motors_four : ∃ log msg, Runs noted (main {} 3) [] log (some 0) ∧
    .wrote 0 msg true ∈ log ∧ msg.commType = CommType.mitControl.code ∧
      ∃ channels devices scanned,
        Runs noted (scanChannels {} 3) [] scanned (some (channels, devices)) ∧
          Each Asked scanned ∧ scanned <:+ log ∧ Each (WantedWrite (places devices)) log := by
  have hrun := runs_exec (P := fun _ => True) (W := noted) (h := handlerFour)
    (fun s c _ => ⟨rfl, trivial⟩) (main {} 3) (s := []) trivial
  obtain ⟨hend, hmit⟩ : (exec handlerFour (main {} 3) []).2 = some 0 ∧
      (exec handlerFour (main {} 3) []).1.any isCommand = true := by decide +kernel
  rw [hend] at hrun
  obtain ⟨e, he, hcommand⟩ := List.any_eq_true.mp hmit
  obtain ⟨later, earlier, hlog⟩ := List.append_of_mem he
  cases e with
  | wrote ch msg ok =>
      simp only [isCommand, Bool.and_eq_true, beq_iff_eq] at hcommand
      obtain ⟨⟨rfl, rfl⟩, htype⟩ := hcommand
      refine ⟨_, msg, hrun, he, htype, (only_chosen_motors {} 3 _ _ hrun).resolve_left ?_⟩
      intro hasked
      have hquery := hasked later _ earlier hlog 0 msg true rfl
      rw [htype] at hquery
      exact absurd hquery (by decide)
  | _ => cases hcommand

end PositionRead

end Qub
