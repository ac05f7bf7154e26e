import QubController.Chosen
import QubController.StopAtExit

/-! # Every round holds every motor

A round of the terminal program begins when the terminal is read.  The hold commands are sent after
the key has been handled, and what follows them in the round writes to motors that are OFF only.
So when the terminal is read again, the last frame to each live motor is a hold command that the
driver took, unless the motor is lost (`held_every_round`). -/

namespace Qub

open Interaction

namespace PositionRead

/-! ### The last frame to a motor -/

/-- The last frame to `k` is a hold command that the driver took, and the terminal was not read
since. -/
def HeldLast (k : Place) (log : List GuiEvent) : Prop :=
  ∃ after hold before, log = after ++ hold :: before ∧ Writes .mitControl k true hold ∧
    ∀ e ∈ after, (∀ bytes, e ≠ .key bytes) ∧ ∀ t ok, ¬ Writes t k ok e

/-- The rule for every event: when the terminal is read, each live motor is held or lost. -/
def HeldRound (e : GuiEvent) (past : List GuiEvent) : Prop :=
  ∀ bytes, e = .key bytes → ∀ k, Live k past → Lost k past ∨ HeldLast k past

/-- Neither a frame to `k` nor a read of the terminal. -/
def IsElsewhere (k : Place) : SysCall → Prop
  | .canWrite ch msg => (ch, msg.destinationId) ≠ k
  | .readStdin => False
  | _ => True

section events
variable {k : Place} {e : GuiEvent} {log : List GuiEvent}

theorem HeldLast.new (he : Writes .mitControl k true e) : HeldLast k (e :: log) :=
  ⟨[], e, log, rfl, he, by simp⟩

theorem HeldLast.cons (h : HeldLast k log) (hkey : ∀ bytes, e ≠ .key bytes)
    (he : ∀ t ok, ¬ Writes t k ok e) : HeldLast k (e :: log) := by
  obtain ⟨after, hold, before, rfl, hhold, hafter⟩ := h
  exact ⟨e :: after, hold, before, rfl, hhold, List.forall_mem_cons.mpr ⟨⟨hkey, he⟩, hafter⟩⟩

/-- A frame to another place. -/
theorem HeldLast.other {k' : Place} {t : CommType} {ok : Bool} (h : HeldLast k log)
    (he : Writes t k' ok e) (hk : k' ≠ k) : HeldLast k (e :: log) := by
  refine h.cons ?_ fun _ _ hw => hk (he.inj hw).2.1
  obtain ⟨msg, rfl, -⟩ := he
  simp

theorem HeldLast.note (h : HeldLast k log) {c : SysCall} (hc : IsElsewhere k c) (r : c.Resp) :
    HeldLast k (note log c r) := by
  cases c with
  | canWrite ch msg =>
      refine h.cons (by simp) ?_
      rintro t ok ⟨msg', heq, -, hdest⟩
      obtain ⟨rfl, rfl, -⟩ := GuiEvent.wrote.inj heq
      exact hc (Prod.ext rfl hdest)
  | canRead ch =>
      by_cases hok : (r.1 == pcanErrorOk) = true
      · rw [note_read log hok]
        refine h.cons (by simp) ?_
        rintro t ok ⟨msg, heq, -⟩
        cases heq
      · rwa [note_read_failed log hok]
  | readStdin => exact hc.elim
  | _ => exact h

theorem heldRound_of_ne (he : ∀ bytes, e ≠ .key bytes) : HeldRound e log :=
  fun bytes heq => absurd heq (he bytes)

/-- No key, nothing to show. -/
theorem Keyless.heldRound {past : List GuiEvent} (h : Keyless past log)
    (heach : Each HeldRound past) : Each HeldRound log := by
  obtain ⟨new, rfl, hnew⟩ := h
  induction new with
  | nil => exact heach
  | cons e new ih =>
      have hrest := ih fun e he => hnew e (List.mem_cons_of_mem _ he)
      exact each_cons.mpr ⟨heldRound_of_ne (hnew e List.mem_cons_self), hrest⟩

/-- Every call but the read of the terminal. -/
def IsNotKey : SysCall → Prop
  | .readStdin => False
  | _ => True

theorem note_keyless {c : SysCall} (r : c.Resp) (hc : IsNotKey c) :
    Keyless log (PositionRead.note log c r) := by
  cases c with
  | canWrite ch msg => exact (Keyless.refl log).cons (by simp)
  | canRead ch =>
      by_cases hok : (r.1 == pcanErrorOk) = true
      · rw [note_read log hok]
        exact (Keyless.refl log).cons (by simp)
      · rw [note_read_failed log hok]
        exact .refl log
  | readStdin => exact hc.elim
  | _ => exact .refl log

/-- A routine that does not read the terminal keeps the rule. -/
theorem keyless_sat {α : Type} {p : SysM α} {Q : α → List GuiEvent → Prop} (hp : p.Only IsNotKey)
    (h : Sat noted (fun _ => True) p Q log) (heach : Each HeldRound log) :
    Sat noted (Each HeldRound) p (fun a log' => Q a log' ∧ Each HeldRound log') log := by
  refine hp.keep h ?_ heach
  rintro log c r log' hc heach hw
  have hlog : log' = PositionRead.note log c r := hw
  rw [hlog]
  exact (note_keyless r hc).heldRound heach

theorem IsStep.isNotKey {A : Place → CommType → Prop} {c : SysCall} (h : IsStep A c) :
    IsNotKey c := by
  cases c with
  | readStdin => exact h
  | _ => trivial

theorem IsAsk.isNotKey {c : SysCall} (h : IsAsk c) : IsNotKey c := by
  cases c with
  | readStdin => exact h
  | _ => trivial

end events

/-! ### One round -/

section round
variable {n : ℕ} {K : Fin n → Place} {motors : Motors n} {config : Config} {channels : Channels}
  {log : List GuiEvent}

/-- No frame to a motor that is ON, and no read of the terminal. -/
def IsIdle (K : Fin n → Place) (motors : Motors n) (c : SysCall) : Prop :=
  ∀ i, (motors i).enabled = true → IsElsewhere (K i) c

/-- Each motor that is ON is held. -/
def HeldAll (K : Fin n → Place) (motors : Motors n) (log : List GuiEvent) : Prop :=
  ∀ i, (motors i).enabled = true → HeldLast (K i) log

theorem IsPoll.isIdle {hostId : UInt8} {c : SysCall} (hK : Function.Injective K)
    (hplace : ∀ i, AtPlace (K i) (motors i)) (h : IsPoll hostId motors c) : IsIdle K motors c := by
  obtain ⟨j, hoff, rfl⟩ := h
  intro i hon
  show ((motors j).channelIdx, (positionRequest hostId (motors j).motorId).destinationId) ≠ K i
  rw [positionRequest, destinationId_buildExtId, (hplace j).channelIdx, (hplace j).motorId]
  intro hsame
  rw [hK hsame, hon] at hoff
  cases hoff

theorem IsStep.isIdle {c : SysCall} (h : IsStep (fun _ _ => False) c) : IsIdle K motors c := by
  intro i _
  cases c with
  | canWrite ch msg =>
      obtain ⟨t, -, hfalse⟩ := h
      exact hfalse.elim
  | readStdin => exact h
  | _ => trivial

theorem idle_sat {α : Type} {p : SysM α} {R : α → Prop} (hp : p.Obeys (IsIdle K motors) R)
    (h : HeldAll K motors log) :
    Sat noted (fun _ => True) p (fun a log' => R a ∧ HeldAll K motors log') log := by
  refine hp.sat (J := HeldAll K motors) ?_ h
  rintro log c r log' hc h hw
  have hlog : log' = note log c r := hw
  rw [hlog]
  exact ⟨trivial, fun i hon => (h i hon).note (hc i hon) r⟩

theorem holdCommand_event {k : Place} {motor : MotorState} (hplace : AtPlace k motor) :
    Sat noted (fun _ => True) (holdCommand config motor)
      (fun sent log' => ∃ e, log' = e :: log ∧ Writes .mitControl k sent e) log := by
  rw [holdCommand_eq k hplace]
  refine writeFrame_wrote hplace.can fun ok => ⟨trivial, _, rfl, _, rfl, ?_, ?_⟩
  · exact holdFrame_commType
  · exact holdFrame_destinationId

theorem stop_event {k : Place} {motor : MotorState} (hplace : AtPlace k motor) :
    Sat noted (fun _ => True) (motor.driver.stop false)
      (fun stopped log' => ∃ e, log' = e :: log ∧ Writes .stop k stopped e) log :=
  hostFrame_wrote hplace fun _ e he => ⟨trivial, e, rfl, he⟩

/-- By induction over the motors that are left: those that were reached are held. -/
theorem holdLoop_held (hK : Function.Injective K) (l : List (Fin n)) (statusMessage : String)
    (hplace : ∀ i, AtPlace (K i) (motors i))
    (h : ∀ i ∉ l, (motors i).enabled = true → HeldLast (K i) log) :
    Sat noted (fun _ => True) (holdLoop config l motors statusMessage)
      (fun r log' => ∀ motors' statusMessage', r = .ok (motors', statusMessage') →
        HeldAll K motors' log') log := by
  induction l generalizing motors statusMessage log with
  | nil =>
      rintro _ _ ⟨⟩
      exact fun i hon => h i (by simp) hon
  | cons i rest ih =>
      rw [holdLoop]
      by_cases hon : (motors i).enabled = true
      · have hbefore : ∀ j ∉ rest, j ≠ i → (motors j).enabled = true → HeldLast (K j) log :=
          fun j hj hij hjon => h j (by simp [hij, hj]) hjon
        have hother : ∀ {t ok e j log}, j ≠ i → Writes t (K i) ok e → HeldLast (K j) log →
            HeldLast (K j) (e :: log) :=
          fun hij he hheld => hheld.other he fun hsame => hij (hK hsame).symm
        simp only [hon, Bool.not_true, Bool.false_eq_true, if_false]
        refine (holdCommand_event (hplace i)).bind ?_
        rintro sent _ ⟨e, rfl, he⟩
        cases sent with
        | true =>
            refine ih _ hplace fun j hj hjon => ?_
            by_cases hij : j = i
            · rw [hij]
              exact .new he
            · exact hother hij he (hbefore j hj hij hjon)
        | false =>
            simp only [Bool.not_false, if_true]
            refine (stop_event (hplace i)).bind ?_
            rintro stopped _ ⟨e', rfl, he'⟩ throws _ rfl
            refine ⟨trivial, ?_⟩
            cases throws with
            | true => rintro _ _ ⟨⟩
            | false =>
                refine ih _ (place_update hplace ((hplace i).flag false)) fun j hj hjon => ?_
                by_cases hij : j = i
                · rw [hij, setEnabled_enabled] at hjon
                  cases hjon
                · rw [Function.update_of_ne hij] at hjon
                  exact hother hij he' (hother hij he (hbefore j hj hij hjon))
      · simp only [hon, Bool.not_false, if_true]
        refine ih _ hplace fun j hj hjon => ?_
        have hij : j ≠ i := fun hij => hon (hij ▸ hjon)
        exact h j (by simp [hij, hj]) hjon

theorem pollWhenDue_idle (hK : Function.Injective K) (hplace : ∀ i, AtPlace (K i) (motors i))
    (tick : ℕ) (cursors : Fin numChannels → ℕ) :
    (pollWhenDue channels config tick motors cursors).Obeys (IsIdle K motors) (fun _ => True) := by
  unfold pollWhenDue
  split
  · exact ((pollDisabledPositions_only channels config.hostId motors cursors).mono fun _ hc =>
      hc.isIdle hK hplace).obeys
  · trivial

/-- The round after the key: what comes after the hold commands is idle. -/
theorem serviceMotors_held (hK : Function.Injective K) (tick : ℕ) (key : Key) {g : Gui n}
    (hplace : ∀ i, AtPlace (K i) (g.motors i)) :
    Sat noted (fun _ => True) (serviceMotors channels config tick key g)
      (fun r log' => ∀ g', r = .ok g' → HeldAll K g'.motors log') log := by
  have hsettings : (holdLoop config (List.finRange n) g.motors g.statusMessage).Obeys
      (IsStep fun _ _ => True) (fun r => Roster K (fun _ => True) (leftMotors (·.1) r)) :=
    holdLoop_step _ _ ⟨hplace, fun _ _ => trivial⟩ ⟨by simp, by simp, by simp⟩
  unfold serviceMotors sendHoldCommands
  refine ((hsettings.sat (J := fun _ => True) (by simp) trivial).and
    (holdLoop_held hK _ _ hplace (by simp))).bind ?_
  rintro r log₁ ⟨⟨hroster, -⟩, hheld⟩
  cases r with
  | error motors => rintro _ ⟨⟩
  | ok a =>
      obtain ⟨motors₁, statusMessage⟩ := a
      have h₁ : HeldAll K motors₁ log₁ := hheld _ _ rfl
      refine (idle_sat (pollWhenDue_idle hK hroster.place tick g.pollCursors) h₁).bind ?_
      rintro cursors log₂ ⟨-, h₂⟩
      have hdrain : (drainAndProcess channels config.hostId motors₁).Obeys (IsIdle K motors₁)
          (SameSettings motors₁) :=
        (drainAndProcess_listens _ _ _).mono (fun _ hc => (IsListen.step hc).isIdle) fun _ h => h
      refine (idle_sat hdrain h₂).bind ?_
      rintro motors₃ log₃ ⟨hsame, h₃⟩
      have hrender : (renderWhenDue tick key).Obeys (IsIdle K motors₁) (fun _ => True) :=
        (renderWhenDue_step tick key).mono (fun _ hc => hc.isIdle) fun _ h => h
      refine (idle_sat hrender h₃).bind ?_
      rintro rendered log₄ ⟨-, h₄⟩
      cases rendered with
      | false => rintro _ ⟨⟩
      | true =>
          rintro _ ⟨⟩
          exact fun i hon => h₄ i ((hsame.enabled i).symm.trans hon)

end round

/-! ### The loop -/

section loop
variable {n : ℕ} {K : Fin n → Place} {motors : Motors n} {config : Config} {channels : Channels}
  {log : List GuiEvent}

/-- What holds when a round begins. -/
structure Served (K : Fin n → Place) (motors : Motors n) (log : List GuiEvent) : Prop where
  watched : Watched K motors log
  held : HeldAll K motors log

theorem Served.heldRound (h : Served K motors log) (e : GuiEvent) : HeldRound e log := by
  intro bytes _ k hlive
  refine (h.watched.live k hlive).imp_right ?_
  rintro ⟨i, rfl, hon⟩
  exact h.held i hon

theorem Watched.roster (h : Watched K motors log) : Roster K (fun _ => True) motors :=
  ⟨h.place, fun _ _ => trivial⟩

theorem handleKey_notKey (fuel : ℕ) (key : Key) {g : Gui n} (h : Watched K g.motors log) :
    (handleKey channels config fuel key g).Only IsNotKey :=
  (handleKey_step (A := fun _ _ => True) channels config fuel key h.roster
    ⟨by simp, by simp, by simp⟩ (by simp)).only.mono fun _ hc => hc.isNotKey

theorem serviceMotors_notKey (tick : ℕ) (key : Key) {g : Gui n} (h : Watched K g.motors log) :
    (serviceMotors channels config tick key g).Only IsNotKey :=
  (serviceMotors_step (A := fun _ _ => True) channels config tick key h.roster
    ⟨by simp, by simp, by simp⟩).only.mono fun _ hc => hc.isNotKey

/-- A key may be read when each motor that is ON is held. -/
theorem handleKey_watched (fuel : ℕ) (bytes : List Char) {g : Gui n} (h : Served K g.motors log)
    (heach : Each HeldRound log) :
    Each HeldRound (.key bytes :: log) ∧
      Sat noted (Each HeldRound) (handleKey channels config fuel (readKey bytes) g)
        (fun r log' => Watched K (leftMotors (·.motors) r) log' ∧ Each HeldRound log')
        (.key bytes :: log) := by
  have heach' : Each HeldRound (.key bytes :: log) := each_cons.mpr ⟨h.heldRound _, heach⟩
  have hread : noted log .readStdin bytes (.key bytes :: log) := rfl
  have hkey := (watched_rules channels config).handleKey_sat fuel h.watched hread
  exact ⟨heach', keyless_sat (handleKey_notKey fuel _ h.watched) hkey.2 heach'⟩

theorem serviceMotors_served (hK : Function.Injective K) (tick : ℕ) (key : Key) {g : Gui n}
    (h : Watched K g.motors log) (heach : Each HeldRound log) :
    Sat noted (Each HeldRound) (serviceMotors channels config tick key g)
      (fun r log' => Each HeldRound log' ∧ match r with
        | .error motors => Watched K motors log'
        | .ok g' => Served K g'.motors log') log := by
  have hservice := ((watched_rules channels config).serviceMotors_sat tick key h).and
    (serviceMotors_held hK tick key h.place)
  refine (keyless_sat (serviceMotors_notKey tick key h) hservice heach).mono ?_
  rintro r log' ⟨⟨hwatched, hheld⟩, heach'⟩
  refine ⟨heach', ?_⟩
  cases r with
  | error motors => exact hwatched
  | ok g' => exact ⟨hwatched, hheld g' rfl⟩

/-- By induction over the rounds. -/
theorem guiLoop_held (hK : Function.Injective K) (fuel left tick : ℕ) (nextTick : ℤ)
    (running : Bool) {g : Gui n} (h : Served K g.motors log) (heach : Each HeldRound log) :
    Sat noted (Each HeldRound) (guiLoop channels config fuel left tick nextTick running g)
      (fun r log' => Watched K (leftMotors id r) log' ∧ Each HeldRound log') log := by
  induction left generalizing tick nextTick running g log with
  | zero => trivial
  | succ left ih =>
      rw [guiLoop, loadRunning_bind]
      rintro flag _ rfl
      refine ⟨heach, ?_⟩
      by_cases hleave : (!(running && flag)) = true
      · simp only [hleave, if_true]
        exact ⟨h.watched, heach⟩
      · simp only [hleave]
        rintro bytes _ rfl
        obtain ⟨heach', hkey⟩ := handleKey_watched fuel bytes h heach
        refine ⟨heach', hkey.bind ?_⟩
        rintro r log₁ ⟨h₁, heach₁⟩
        cases r with
        | error motors => exact ⟨h₁, heach₁⟩
        | ok g₁ =>
            refine (serviceMotors_served hK tick (readKey bytes) h₁ heach₁).bind ?_
            rintro r log₂ ⟨heach₂, h₂⟩
            cases r with
            | error motors => exact ⟨h₂, heach₂⟩
            | ok g₂ =>
                simp only [steadyNow_bind]
                rintro now _ rfl
                refine ⟨heach₂, ?_⟩
                by_cases hearly : now < nextTick + ms controlPeriodMs
                · simp only [hearly, if_true]
                  rintro _ _ rfl
                  exact ⟨heach₂, ih _ _ _ h₂ heach₂⟩
                · simp only [hearly, if_false]
                  exact ih _ _ _ h₂ heach₂

theorem runGui_held (hK : Function.Injective K) (fuel : ℕ) (h : Watched K motors log)
    (hoff : ∀ i, (motors i).enabled = false) (heach : Each HeldRound log) :
    Sat noted (Each HeldRound) (runGui channels config fuel motors) (fun _ _ => True) log := by
  have hsession : Sat noted (Each HeldRound) (guiSession channels config fuel motors)
      (fun r log' => Watched K (leftMotors id r) log' ∧ Each HeldRound log') log := by
    unfold guiSession
    simp only [isatty_bind]
    rintro terminal _ rfl
    refine ⟨heach, ?_⟩
    cases terminal with
    | false => exact ⟨h, heach⟩
    | true =>
        simp only [Bool.not_true, Bool.false_eq_true, if_false]
        have hrender : renderGui.Only IsNotKey :=
          (renderGui_step (A := fun _ _ => True)).only.mono fun _ hc => hc.isNotKey
        refine (keyless_sat hrender ((watched_rules channels config).renderGui_sat h) heach).bind ?_
        rintro rendered log₁ ⟨h₁, heach₁⟩
        cases rendered with
        | false => exact ⟨h₁, heach₁⟩
        | true =>
            rintro nextTick _ rfl
            refine ⟨heach₁, guiLoop_held hK fuel fuel 0 nextTick true ⟨h₁, fun i hon => ?_⟩ heach₁⟩
            exact absurd ((hoff i).symm.trans hon) (by simp)
  have hstop : ∀ {motors : Motors n} {log : List GuiEvent}, Watched K motors log →
      Each HeldRound log → Sat noted (Each HeldRound) (stopAll motors) (fun _ _ => True) log := by
    intro motors log h heach
    have hstep := stopLoop_step (A := fun _ _ => True) (List.finRange n) h.roster
      ⟨by simp, by simp, by simp⟩
    refine (keyless_sat (hstep.only.mono fun _ hc => hc.isNotKey) (sat_true _ log) heach).mono ?_
    exact fun _ _ _ => trivial
  unfold runGui
  refine hsession.bind ?_
  rintro r log' ⟨hr, heach'⟩
  cases r with
  | error motors => exact (hstop hr heach').bind fun _ _ _ => trivial
  | ok motors => exact (hstop hr heach').bind fun _ _ _ => trivial

end loop

/-! ### The guarantee -/

/-- No motor is live. -/
theorem not_live_of_harmless {log log' : List GuiEvent} {c : SysCall} {r : c.Resp}
    (hc : IsHarmless c) (h : ∀ k, ¬ Live k log) (hw : noted log c r log') : ∀ k, ¬ Live k log' := by
  have hlog : log' = note log c r := hw
  rw [hlog]
  have hnot : IsNotEnable c := by
    cases c with
    | canWrite ch msg => exact hc.2
    | _ => trivial
  rcases note_notEnable r log hnot with hsame | ⟨e, hcons, he⟩
  · rwa [hsame]
  · rw [hcons]
    exact fun k hlive => h k (hlive.of_cons (he k))

/-- **Every round holds every motor.**  In every run of the program, whenever the terminal is read,
the last frame to each motor that was enabled and not stopped since is a hold command that the
driver took after the terminal was read before; but for a motor whose hold command and STOP have
failed. -/
theorem held_every_round (config : Config) (fuel : ℕ) (log : List GuiEvent) (o : Option ℤ)
    (h : Runs noted (main config fuel) [] log o) : Each HeldRound log := by
  have hmain : Sat noted (Each HeldRound) (main config fuel) (fun _ _ => True) [] := by
    unfold main
    simp only [isatty_bind]
    rintro terminal _ rfl
    refine ⟨each_nil, ?_⟩
    cases terminal with
    | false => trivial
    | true =>
        simp only [Bool.not_true, Bool.false_eq_true, if_false]
        have hlive : Sat noted (fun _ => True) (scanChannels config fuel)
            (fun r log' => (r.2.map DeviceInfo.place).Nodup ∧ ∀ k, ¬ Live k log') [] :=
          (scanChannels_obeys config fuel).sat
            (fun _ _ _ _ hc h hw => ⟨trivial, not_live_of_harmless hc.harmless h hw⟩)
            fun k hlive => hlive followed_nil
        have hscan : (scanChannels config fuel).Only IsNotKey :=
          (scanChannels_ask config fuel).mono fun _ hc => hc.isNotKey
        refine (keyless_sat hscan hlive each_nil).bind ?_
        rintro ⟨channels, devices⟩ log₁ ⟨⟨hnodup, hnone⟩, heach₁⟩
        have hwatched : Watched (places devices) (makeMotorStates config devices) log₁ :=
          ⟨makeMotorStates_place config devices, fun k hlive => absurd hlive (hnone k)⟩
        have hrefresh := refreshInitialPositions_ask channels config fuel
          (List.finRange devices.length) hwatched.roster
        refine (keyless_sat (hrefresh.only.mono fun _ hc => hc.isNotKey)
          ((watched_rules channels config).refreshInitialPositions_sat fuel _ (fun _ => rfl)
            hwatched) heach₁).bind ?_
        rintro motors log₂ ⟨⟨hsame, h₂⟩, heach₂⟩
        exact runGui_held (places_injective hnodup) fuel h₂ hsame.enabled heach₂
  exact (h.sat hmain each_nil).1

/-- The trace back to the last read of the terminal. -/
def lastRead (log : List GuiEvent) : List GuiEvent := log.dropWhile fun e => !(e matches .key _)

def isFailed : GuiEvent → Bool
  | .wrote _ _ ok => !ok
  | _ => false

/-- Nothing is lost when no write has failed. -/
theorem not_lost_of_written {k : Place} {log : List GuiEvent} (h : log.any isFailed = false) :
    ¬ Lost k log := by
  rintro ⟨later, stop, hold, earlier, rfl, ⟨msg, rfl, -⟩, -⟩
  simp [isFailed] at h

/-- Motor 4 is live and held when the second key is read. -/
theorem held_every_round_four : ∃ log later bytes past, Runs noted (main {} 3) [] log (some 0) ∧
    log = later ++ .key bytes :: past ∧ Live (0, 4) past ∧ HeldLast (0, 4) past := by
  have hrun := runs_exec (P := fun _ => True) (W := noted) (h := handlerFour)
    (fun s c _ => ⟨rfl, trivial⟩) (main {} 3) (s := []) trivial
  obtain ⟨hend, hkey, hwritten⟩ : (exec handlerFour (main {} 3) []).2 = some 0 ∧
      (lastRead (exec handlerFour (main {} 3) []).1).head?.any (· matches .key _) = true ∧
        (lastRead (exec handlerFour (main {} 3) []).1).tail.any isFailed = false := by
    decide +kernel
  have hlive : Live (0, 4) (lastRead (exec handlerFour (main {} 3) []).1).tail :=
    show ¬ Followed _ _ _ by decide +kernel
  rw [hend] at hrun
  generalize (exec handlerFour (main {} 3) []).1 = log at hrun hkey hwritten hlive
  have hlog : log = log.takeWhile (fun e => !(e matches .key _)) ++ lastRead log :=
    List.takeWhile_append_dropWhile.symm
  cases hlast : lastRead log with
  | nil =>
      rw [hlast] at hkey
      cases hkey
  | cons e past =>
      rw [hlast] at hkey hwritten hlive hlog
      cases e with
      | key bytes =>
          refine ⟨log, _, bytes, past, hrun, hlog, hlive, ?_⟩
          have hheld := held_every_round {} 3 log _ hrun _ _ past hlog bytes rfl (0, 4) hlive
          exact hheld.resolve_left (not_lost_of_written hwritten)
      | _ => cases hkey

end PositionRead

end Qub
