import QubController.Messages
import QubController.Polling

/-! # Invariants of the terminal program

`GuiRules` lists what has to be shown of an invariant `J` of the motors and the surroundings: it
does not look at what messages change, and the calls and the requests of the loop keep it.  Then
the whole program keeps it, until the loop is left in any way. -/

namespace Qub

open Interaction

namespace PositionRead

variable {n : ℕ} {σ : Type}

/-! ### What the routines leave alone -/

/-- The motors agree but for what messages change. -/
def SameSettings (motors motors' : Motors n) : Prop :=
  ∀ i, (motors' i).settings = (motors i).settings

theorem SameSettings.refl (motors : Motors n) : SameSettings motors motors := fun _ => rfl

theorem SameSettings.trans {motors motors' motors'' : Motors n} (h : SameSettings motors motors')
    (h' : SameSettings motors' motors'') : SameSettings motors motors'' :=
  fun i => (h' i).trans (h i)

theorem SameSettings.enabled {motors motors' : Motors n} (h : SameSettings motors motors')
    (i : Fin n) : (motors' i).enabled = (motors i).enabled := congrArg Settings.enabled (h i)

theorem SameSettings.channelIdx {motors motors' : Motors n} (h : SameSettings motors motors')
    (i : Fin n) : (motors' i).channelIdx = (motors i).channelIdx :=
  congrArg Settings.channelIdx (h i)

/-- The motors with the flag of motor `i` set to `b`. -/
abbrev setEnabled (motors : Motors n) (i : Fin n) (b : Bool) : Motors n :=
  Function.update motors i { motors i with enabled := b }

theorem setEnabled_enabled (motors : Motors n) (i : Fin n) (b : Bool) :
    (setEnabled motors i b i).enabled = b := by
  rw [setEnabled, Function.update_self]

theorem setEnabled_driver (motors : Motors n) (i : Fin n) (b : Bool) :
    (setEnabled motors i b i).driver = (motors i).driver := by
  rw [setEnabled, Function.update_self]

/-- Every call but a write. -/
def IsQuiet : SysCall → Prop
  | .canWrite _ _ => False
  | _ => True

/-- A call of the routines that only receive. -/
def IsListen : SysCall → Prop
  | .canWrite _ _ | .readStdin | .loadRunning => False
  | _ => True

theorem IsListen.quiet {c : SysCall} (h : IsListen c) : IsQuiet c := by
  cases c with
  | canWrite => exact h
  | _ => trivial

section obeys
variable {hostId : UInt8} {ch : Fin numChannels}

theorem processMessage_listens (ch : Fin numChannels) (msg : TPCANMsg) (hostId : UInt8)
    (motors : Motors n) :
    (processMessage ch msg hostId motors).Obeys IsListen (SameSettings motors) := by
  refine (processMessage_obeys ch msg hostId motors).mono (fun c hc => ?_) fun _ h => h.settings
  cases c with
  | canWrite | readStdin | loadRunning => exact hc
  | _ => trivial

theorem processQueue_listens (ch : Fin numChannels) (hostId : UInt8) (left : ℕ)
    (motors : Motors n) :
    (processQueue ch hostId left motors).Obeys IsListen (SameSettings motors) := by
  induction left generalizing motors with
  | zero => exact .refl motors
  | succ left ih =>
      rw [processQueue, canRead_bind]
      refine ⟨trivial, fun r => ?_⟩
      by_cases hok : (r.1 == pcanErrorOk) = true
      · simp only [hok, if_true]
        refine (processMessage_listens _ _ _ _).bind fun motors₁ h₁ => ?_
        exact (ih motors₁).mono (fun _ h => h) fun _ h => h₁.trans h
      · simp only [hok]
        exact .refl motors

theorem drainAndProcess_listens (channels : Channels) (hostId : UInt8) (motors : Motors n) :
    (drainAndProcess channels hostId motors).Obeys IsListen (SameSettings motors) := by
  unfold drainAndProcess
  generalize List.finRange numChannels = l
  induction l generalizing motors with
  | nil => exact .refl motors
  | cons ch rest ih =>
      rw [processChannels]
      split
      · refine (processQueue_listens _ _ _ _).bind fun motors₁ h₁ => ?_
        exact (ih motors₁).mono (fun _ h => h) fun _ h => h₁.trans h
      · exact ih motors

theorem refreshLoop_listens (hostId : UInt8) (target : Fin n) (previousGeneration : UInt64)
    (deadline : ℤ) (fuel : ℕ) (motors : Motors n) :
    (refreshLoop hostId target previousGeneration deadline fuel motors).Obeys IsListen
      (fun r => SameSettings motors r.2) := by
  induction fuel generalizing motors with
  | zero => trivial
  | succ fuel ih =>
      rw [refreshLoop, steadyNow_bind]
      refine ⟨trivial, fun now => ?_⟩
      by_cases hnow : now < deadline
      · simp only [hnow, if_true, canRead_bind]
        refine ⟨trivial, fun r => ?_⟩
        by_cases hok : (r.1 == pcanErrorOk) = true
        · simp only [hok, if_true]
          refine (processMessage_listens _ _ _ _).bind fun motors₁ h₁ => ?_
          by_cases hchanged :
              ((motors₁ target).positionGeneration != previousGeneration) = true
          · simp only [hchanged, if_true]
            exact h₁
          · simp only [hchanged]
            exact (ih motors₁).mono (fun _ h => h) fun _ h => h₁.trans h
        · by_cases hempty : (r.1 != pcanErrorQrcvEmpty) = true
          · simp only [hok, hempty]
            exact .refl motors
          · simp only [hok, hempty]
            exact ⟨trivial, fun _ => ih motors⟩
      · simp only [hnow, if_false]
        exact .refl motors

/-- A position request to a disabled motor. -/
def IsPoll (hostId : UInt8) (motors : Motors n) (c : SysCall) : Prop :=
  ∃ i, (motors i).enabled = false ∧
    c = .canWrite (motors i).channelIdx (positionRequest hostId (motors i).motorId)

theorem pollDisabledPositions_only (channels : Channels) (hostId : UInt8) (motors : Motors n)
    (cursors : Fin numChannels → ℕ) :
    (pollDisabledPositions channels hostId motors cursors).Only (IsPoll hostId motors) := by
  unfold pollDisabledPositions
  split
  · trivial
  · rename_i hn
    have : NeZero n := ⟨hn⟩
    generalize List.finRange numChannels = l
    induction l generalizing cursors with
    | nil => trivial
    | cons ch rest ih =>
        rw [pollChannels]
        split
        · refine Prog.Only.bind ?_ fun cursor => ih _
          rw [pollChannel_eq]
          cases hfind : ((List.range n).map fun checked => Fin.ofNat n (cursors ch + checked)).find?
              (polled motors ch) with
          | none => trivial
          | some i =>
              obtain ⟨hch, hoff⟩ := polled_iff.mp (List.find?_some hfind)
              exact ⟨⟨i, hoff, by rw [hch]⟩, fun _ => trivial⟩
        · exact ih cursors

end obeys

/-! ### The rules -/

/-- The motors in the result of a routine that may throw. -/
def leftMotors {α : Type} (f : α → Motors n) : Except (Motors n) α → Motors n
  | .error motors => motors
  | .ok a => f a

/-- A finished run has left the `try` block and then finished `stop_all`. -/
theorem runs_runGui {channels : Channels} {config : Config} {fuel : ℕ} {motors : Motors n}
    {W : World Sys σ} {s s' : σ} {code : ℤ}
    (h : Runs W (runGui channels config fuel motors) s s' (some code)) :
    ∃ r left m, Runs W (guiSession channels config fuel motors) s left (some r) ∧
      Runs W (stopAll (leftMotors id r)) left s' (some m) := by
  unfold runGui at h
  rcases runs_bind h with ⟨hnone, -⟩ | ⟨r, left, hsession, hrest⟩
  · cases hnone
  cases r with
  | error motors' =>
      rcases runs_bind hrest with ⟨hnone, -⟩ | ⟨m, s₁, hstop, hret⟩
      · cases hnone
      · cases hret
        exact ⟨_, left, m, hsession, hstop⟩
  | ok motors' =>
      rcases runs_bind hrest with ⟨hnone, -⟩ | ⟨m, s₁, hstop, hret⟩
      · cases hnone
      · cases hret
        exact ⟨_, left, m, hsession, hstop⟩

/-- What is asked of an invariant `J`; `Inv` is what holds after every call. -/
structure GuiRules (channels : Channels) (config : Config) (W : World Sys σ) (Inv : σ → Prop)
    (J : Motors n → σ → Prop) : Prop where
  settings : ∀ {motors motors' s}, SameSettings motors motors' → J motors s → J motors' s
  quiet : ∀ {motors s c r s'}, W s c r s' → J motors s → IsQuiet c → Inv s' ∧ J motors s'
  poll : ∀ {motors s c r s'}, W s c r s' → J motors s → IsPoll config.hostId motors c →
    Inv s' ∧ J motors s'
  /-- Space on a motor that is OFF. -/
  on : ∀ {motors s bytes s₁} (i : Fin n) (fuel : ℕ), (motors i).enabled = false → J motors s →
    W s .readStdin bytes s₁ → readKey bytes = .toggle →
    Sat W Inv (enableSelectedMotor channels config fuel i motors)
      (fun r s' => J (leftMotors (·.2.1) r) s') s₁
  /-- The STOP of a motor that is ON. -/
  off : ∀ {motors s} (i : Fin n), (motors i).enabled = true → J motors s →
    Sat W Inv ((motors i).driver.stop false)
      (fun stopped s' => J (if stopped then setEnabled motors i false else motors) s') s
  /-- The hold command of a motor that is ON, and the STOP when it fails. -/
  hold : ∀ {motors s} (i : Fin n), (motors i).enabled = true → J motors s →
    Sat W Inv (holdCommand config (motors i))
      (fun sent s' => if sent then J motors s' else
        Sat W Inv ((motors i).driver.stop false)
          (fun _ s'' => J (setEnabled motors i false) s'') s') s

namespace GuiRules

variable {channels : Channels} {config : Config} {W : World Sys σ} {Inv : σ → Prop}
  {J : Motors n → σ → Prop} {motors : Motors n} {s : σ}

section obeys
variable (h : GuiRules channels config W Inv J)
include h

/-- A quiet routine that returns motors with the same settings. -/
theorem obeys_sat {α : Type} {p : SysM α} {f : α → Motors n}
    (hp : p.Obeys IsQuiet fun a => SameSettings motors (f a)) (hJ : J motors s) :
    Sat W Inv p (fun a s' => J (f a) s') s := by
  have hW : ∀ s c r s', IsQuiet c → J motors s → W s c r s' → Inv s' ∧ J motors s' :=
    fun _ _ _ _ hc hJ hw => h.quiet hw hJ hc
  exact (hp.sat hW hJ).mono fun a s' ha => h.settings ha.1 ha.2

theorem finish_sat (result : Bool) (statusMessage : String) (hJ : J motors s) :
    Sat W Inv (finish result statusMessage motors) (fun r s' => J (leftMotors (·.2.1) r) s') s := by
  rintro throws s' hw
  obtain ⟨hinv, hJ'⟩ := h.quiet hw hJ trivial
  cases throws with
  | true => exact ⟨hinv, hJ'⟩
  | false => exact ⟨hinv, hJ'⟩

theorem disableSelectedMotor_sat (i : Fin n) (hon : (motors i).enabled = true) (hJ : J motors s) :
    Sat W Inv (disableSelectedMotor i motors) (fun r s' => J (leftMotors (·.2.1) r) s') s := by
  refine (h.off i hon hJ).bind fun stopped s₁ h₁ => ?_
  cases stopped with
  | false => exact h.finish_sat _ _ h₁
  | true => exact h.finish_sat _ _ h₁

theorem toggleMotor_sat {bytes : List Char} {s₁ : σ} (i : Fin n) (fuel : ℕ) (hJ : J motors s)
    (hw : W s .readStdin bytes s₁) (hkey : readKey bytes = .toggle) :
    Sat W Inv (toggleMotor channels config fuel i motors)
      (fun r s' => J (leftMotors (·.2.1) r) s') s₁ := by
  obtain ⟨-, hJ₁⟩ := h.quiet hw hJ trivial
  unfold toggleMotor
  by_cases hon : (motors i).enabled = true
  · rw [if_pos hon]
    exact h.disableSelectedMotor_sat i hon hJ₁
  · rw [if_neg hon]
    exact h.on i fuel (Bool.not_eq_true _ ▸ hon) hJ hw hkey

theorem handleKey_sat {g : Gui n} {bytes : List Char} {s₁ : σ} (fuel : ℕ) (hJ : J g.motors s)
    (hw : W s .readStdin bytes s₁) :
    Inv s₁ ∧ Sat W Inv (handleKey channels config fuel (readKey bytes) g)
      (fun r s' => J (leftMotors (·.motors) r) s') s₁ := by
  obtain ⟨hinv, hJ₁⟩ := h.quiet hw hJ trivial
  refine ⟨hinv, ?_⟩
  unfold handleKey
  split
  · rename_i hselected
    split
    · exact hJ₁
    · exact hJ₁
    · rename_i hkey
      refine (h.toggleMotor_sat _ fuel hJ hw hkey).bind fun r s₂ h₂ => ?_
      cases r with
      | error motors => exact h₂
      | ok a => exact h₂
    · exact hJ₁
  · exact hJ₁

theorem holdLoop_sat (l : List (Fin n)) (statusMessage : String) (hJ : J motors s) :
    Sat W Inv (holdLoop config l motors statusMessage)
      (fun r s' => J (leftMotors (·.1) r) s') s := by
  induction l generalizing motors statusMessage s with
  | nil => exact hJ
  | cons i rest ih =>
      rw [holdLoop]
      by_cases hon : (motors i).enabled = true
      · simp only [hon, Bool.not_true, Bool.false_eq_true, if_false]
        refine (h.hold i hon hJ).bind fun sent s₁ h₁ => ?_
        cases sent with
        | true => exact ih _ h₁
        | false =>
            simp only [Bool.not_false, if_true]
            refine Sat.bind h₁ fun _ s₂ h₂ => ?_
            rintro throws s₃ hw
            obtain ⟨hinv, hJ₃⟩ := h.quiet hw h₂ trivial
            refine ⟨hinv, ?_⟩
            cases throws with
            | true => exact hJ₃
            | false => exact ih _ hJ₃
      · simp only [hon, Bool.not_false, if_true]
        exact ih _ hJ

theorem renderGui_sat (hJ : J motors s) :
    Sat W Inv renderGui (fun _ s' => J motors s') s := by
  rintro throws s₁ hw
  obtain ⟨hinv, hJ₁⟩ := h.quiet hw hJ trivial
  refine ⟨hinv, ?_⟩
  cases throws with
  | true => exact hJ₁
  | false =>
      rintro _ s₂ hw₂
      exact h.quiet hw₂ hJ₁ trivial

theorem renderWhenDue_sat (tick : ℕ) (key : Key) (hJ : J motors s) :
    Sat W Inv (renderWhenDue tick key) (fun _ s' => J motors s') s := by
  unfold renderWhenDue
  split
  · exact h.renderGui_sat hJ
  · exact hJ

theorem pollWhenDue_sat (tick : ℕ) (cursors : Fin numChannels → ℕ) (hJ : J motors s) :
    Sat W Inv (pollWhenDue channels config tick motors cursors) (fun _ s' => J motors s') s := by
  unfold pollWhenDue
  split
  · have hW : ∀ s c r s', IsPoll config.hostId motors c → J motors s → W s c r s' →
        Inv s' ∧ J motors s' := fun _ _ _ _ hc hJ hw => h.poll hw hJ hc
    exact (pollDisabledPositions_only _ _ _ _).sat hW hJ
  · exact hJ

theorem serviceMotors_sat (tick : ℕ) (key : Key) {g : Gui n} (hJ : J g.motors s) :
    Sat W Inv (serviceMotors channels config tick key g)
      (fun r s' => J (leftMotors (·.motors) r) s') s := by
  unfold serviceMotors sendHoldCommands
  refine (h.holdLoop_sat _ _ hJ).bind fun r s₁ h₁ => ?_
  cases r with
  | error motors => exact h₁
  | ok a =>
      obtain ⟨motors, statusMessage⟩ := a
      refine (h.pollWhenDue_sat tick g.pollCursors h₁).bind fun cursors s₂ h₂ => ?_
      have hdrain := (drainAndProcess_listens channels config.hostId motors).mono
        (fun _ => IsListen.quiet) fun _ h => h
      refine (h.obeys_sat (f := id) hdrain h₂).bind fun motors₃ s₃ h₃ => ?_
      refine (h.renderWhenDue_sat tick key h₃).bind fun rendered s₄ h₄ => ?_
      cases rendered with
      | false => exact h₄
      | true => exact h₄

theorem guiLoop_sat (fuel left tick : ℕ) (nextTick : ℤ) (running : Bool) {g : Gui n}
    (hJ : J g.motors s) :
    Sat W Inv (guiLoop channels config fuel left tick nextTick running g)
      (fun r s' => J (leftMotors id r) s') s := by
  induction left generalizing tick nextTick running g s with
  | zero => trivial
  | succ left ih =>
      rw [guiLoop, loadRunning_bind]
      intro flag s₁ hw
      obtain ⟨hinv, hJ₁⟩ := h.quiet hw hJ trivial
      refine ⟨hinv, ?_⟩
      by_cases hleave : (!(running && flag)) = true
      · simp only [hleave, if_true]
        exact hJ₁
      · simp only [hleave]
        intro bytes s₂ hw₂
        obtain ⟨hinv₂, hkey⟩ := h.handleKey_sat fuel hJ₁ hw₂
        refine ⟨hinv₂, hkey.bind fun r s₃ h₃ => ?_⟩
        cases r with
        | error motors => exact h₃
        | ok g₁ =>
            refine (h.serviceMotors_sat tick _ h₃).bind fun r s₄ h₄ => ?_
            cases r with
            | error motors => exact h₄
            | ok g₂ =>
                simp only [steadyNow_bind]
                intro now s₅ hw₅
                obtain ⟨hinv₅, hJ₅⟩ := h.quiet hw₅ h₄ trivial
                refine ⟨hinv₅, ?_⟩
                by_cases hearly : now < nextTick + ms controlPeriodMs
                · simp only [hearly, if_true]
                  intro _ s₆ hw₆
                  obtain ⟨hinv₆, hJ₆⟩ := h.quiet hw₆ hJ₅ trivial
                  exact ⟨hinv₆, ih _ _ _ hJ₆⟩
                · simp only [hearly, if_false]
                  exact ih _ _ _ hJ₅

/-- **The whole `try` block keeps the invariant**, however it is left. -/
theorem guiSession_sat (fuel : ℕ) (hJ : J motors s) :
    Sat W Inv (guiSession channels config fuel motors) (fun r s' => J (leftMotors id r) s') s := by
  unfold guiSession
  simp only [isatty_bind]
  intro terminal s₁ hw
  obtain ⟨hinv, hJ₁⟩ := h.quiet hw hJ trivial
  refine ⟨hinv, ?_⟩
  cases terminal with
  | false => exact hJ₁
  | true =>
      simp only [Bool.not_true, Bool.false_eq_true, if_false]
      refine (h.renderGui_sat hJ₁).bind fun rendered s₂ h₂ => ?_
      cases rendered with
      | false => exact h₂
      | true =>
          intro nextTick s₃ hw₃
          obtain ⟨hinv₃, hJ₃⟩ := h.quiet hw₃ h₂ trivial
          exact ⟨hinv₃, h.guiLoop_sat fuel fuel 0 nextTick true hJ₃⟩

theorem refreshPositionSync_sat (timeoutMs : ℤ) (fuel : ℕ) (i : Fin n)
    (hoff : (motors i).enabled = false) (hJ : J motors s) :
    Sat W Inv (refreshPositionSync channels config.hostId timeoutMs fuel i motors)
      (fun r s' => SameSettings motors r.2 ∧ J r.2 s') s := by
  unfold refreshPositionSync
  by_cases hclosed : (!channels (motors i).channelIdx) = true
  · simp only [hclosed, if_true]
    exact ⟨.refl motors, hJ⟩
  · simp only [hclosed, requestMechanicalPosition, canWrite_bind]
    intro status s₁ hw
    obtain ⟨hinv, hJ₁⟩ := h.poll hw hJ ⟨i, hoff, rfl⟩
    refine ⟨hinv, ?_⟩
    by_cases hfailed : (status != pcanErrorOk) = true
    · simp only [hfailed, if_true]
      exact ⟨.refl motors, hJ₁⟩
    · simp only [hfailed]
      intro now s₂ hw₂
      obtain ⟨hinv₂, hJ₂⟩ := h.quiet hw₂ hJ₁ trivial
      refine ⟨hinv₂, ?_⟩
      have hW : ∀ s c r s', IsListen c → J motors s → W s c r s' → Inv s' ∧ J motors s' :=
        fun _ _ _ _ hc hJ hw => h.quiet hw hJ hc.quiet
      refine ((refreshLoop_listens config.hostId i _ _ fuel motors).sat
        hW hJ₂).mono fun r s' hr => ?_
      exact ⟨hr.1, h.settings hr.1 hr.2⟩

theorem refreshInitialPositions_sat (fuel : ℕ) (l : List (Fin n))
    (hoff : ∀ i, (motors i).enabled = false) (hJ : J motors s) :
    Sat W Inv (refreshInitialPositions channels config fuel l motors)
      (fun motors' s' => SameSettings motors motors' ∧ J motors' s') s := by
  induction l generalizing motors s with
  | nil => exact ⟨.refl motors, hJ⟩
  | cons i rest ih =>
      rw [refreshInitialPositions, loadRunning_bind]
      intro running s₁ hw
      obtain ⟨hinv, hJ₁⟩ := h.quiet hw hJ trivial
      refine ⟨hinv, ?_⟩
      cases running with
      | false => exact ⟨.refl motors, hJ₁⟩
      | true =>
          refine (h.refreshPositionSync_sat positionTimeoutMs fuel i (hoff i) hJ₁).bind ?_
          rintro ⟨_, motors₂⟩ s₂ ⟨hsame, hJ₂⟩
          have hoff₂ : ∀ j, (motors₂ j).enabled = false :=
            fun j => (hsame.enabled j).trans (hoff j)
          refine (ih hoff₂ hJ₂).mono fun motors₃ s₃ h₃ => ?_
          exact ⟨hsame.trans h₃.1, h₃.2⟩

end obeys

end GuiRules

end PositionRead

end Qub
