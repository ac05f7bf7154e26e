import QubController.Cost
import QubController.GuiPacing

/-! # The way out of the terminal program

A signal clears `g_running` at some time `T`; the program looks at it once for each ID of the scan,
each motor of the first refresh and each round.  In the world `signalled` the driver may answer
every read with any frame, time passes during all calls, and a read of a channel takes at least
`δ`; so the deadline of a query also bounds the reads it can make.

Whatever is on the bus and whatever the user does, `main` returns, and the channels are read at
most `k + 1024` times after the signal, if a query has time for `k` reads
(`returns_when_signalled`). -/

namespace Qub

open Interaction

namespace PositionRead

structure Signalled extends Ticking where
  /-- The reads of a channel that were started after the signal. -/
  late : ℕ := 0

/-- The weight of a read. -/
def readCost : SysCall → ℕ
  | .canRead _ => 1
  | _ => 0

/-- The signal comes at `T`, and a read takes at least `δ`. -/
def signalled (T δ : ℤ) : World Sys Signalled := fun s c r s' =>
  ticking s.toTicking c r s'.toTicking ∧
  s'.late = s.late + (if T ≤ s.time then readCost c else 0) ∧
  match c, r with
  | .canRead _, _ => s.time + δ ≤ s'.time
  | .loadRunning, up => T ≤ s.time → up = false
  | _, _ => True

/-- Time has passed, and there were at most `k` reads after the signal. -/
structure Passed (T : ℤ) (k : ℕ) (s s' : Signalled) : Prop where
  time : s.time ≤ s'.time
  late : s'.late ≤ s.late + k
  told : s'.late = s.late ∨ T ≤ s'.time

section signalled
variable {T δ : ℤ} {s s' s'' : Signalled} {k l m : ℕ}

theorem Passed.refl (s : Signalled) : Passed T k s s := ⟨le_rfl, Nat.le_add_right _ _, .inl rfl⟩

theorem Passed.trans (h : Passed T k s s') (h' : Passed T l s' s'') (hm : k + l ≤ m) :
    Passed T m s s'' where
  time := h.time.trans h'.time
  late := by
    have hfirst := h.late
    have hthen := h'.late
    omega
  told := by
    rcases h'.told with hsame | htold
    · rcases h.told with hsame' | htold
      · exact .inl (hsame.trans hsame')
      · exact .inr (htold.trans h'.time)
    · exact .inr htold

theorem passed_call {c : SysCall} {r : c.Resp} (h : signalled T δ s c r s') :
    Passed T (readCost c) s s' := by
  obtain ⟨htick, hlate, -⟩ := h
  by_cases hT : T ≤ s.time
  · rw [if_pos hT] at hlate
    exact ⟨htick.1, hlate.le, .inr (hT.trans htick.1)⟩
  · rw [if_neg hT] at hlate
    exact ⟨htick.1, by omega, .inl hlate⟩

/-- A routine that reads at most `k` times. -/
theorem within_passed {α : Type} {p : SysM α} (hp : p.Within readCost k) (s : Signalled) :
    Completes (signalled T δ) p (fun _ s' => Passed T k s s') s :=
  hp.completes (M := Passed T) (fun _ => Passed.refl) (fun _ _ _ _ _ _ h h' => h.trans h')
    (fun _ _ _ _ => passed_call) s

end signalled

/-! ### Routines without a deadline -/

section within
variable {n : ℕ}

theorem drainChannel_within (ch : Fin numChannels) (left : ℕ) :
    (drainChannel ch left).Within readCost left := by
  induction left with
  | zero => trivial
  | succ left ih =>
      rw [drainChannel, canRead_bind]
      refine ⟨left, by simp [readCost, Nat.add_comm], ?_⟩
      rintro ⟨status, frame⟩
      dsimp only
      split
      · trivial
      · exact ih

theorem takeFeedback_within (ch : Fin numChannels) (msg : TPCANMsg) (motors : Motors n)
    (l : List (Fin n)) : (takeFeedback ch msg motors l).Within readCost 0 := by
  induction l with
  | nil => trivial
  | cons i rest ih =>
      rw [takeFeedback]
      split
      · exact ih
      · have hparse : ((motors i).driver.tryParseFeedback msg).Within readCost 0 := by
          unfold Robstride.tryParseFeedback
          split
          · exact within_free rfl fun _ => trivial
          · trivial
        refine hparse.then ?_
        rintro ⟨parsed, driver⟩
        dsimp only
        split
        · exact ih
        · exact within_free rfl fun _ => trivial

theorem takePosition_within (ch : Fin numChannels) (motorId : UInt8) (position : CFloat)
    (motors : Motors n) (l : List (Fin n)) :
    (takePosition ch motorId position motors l).Within readCost 0 := by
  induction l with
  | nil => trivial
  | cons i rest ih =>
      rw [takePosition]
      split
      · exact within_free rfl fun _ => trivial
      · exact ih

theorem processMessage_within (ch : Fin numChannels) (msg : TPCANMsg) (hostId : UInt8)
    (motors : Motors n) : (processMessage ch msg hostId motors).Within readCost 0 := by
  have hposition : (processPosition ch msg hostId motors).Within readCost 0 := by
    unfold processPosition
    split
    · trivial
    · exact takePosition_within _ _ _ _ _
  unfold processMessage
  split
  · trivial
  · split
    · refine (takeFeedback_within ch msg motors _).then fun taken => ?_
      cases taken with
      | none => exact hposition
      | some motors => trivial
    · exact hposition

theorem processQueue_within (ch : Fin numChannels) (hostId : UInt8) (left : ℕ)
    (motors : Motors n) : (processQueue ch hostId left motors).Within readCost left := by
  induction left generalizing motors with
  | zero => trivial
  | succ left ih =>
      rw [processQueue, canRead_bind]
      refine ⟨left, by simp [readCost, Nat.add_comm], ?_⟩
      rintro ⟨status, frame⟩
      dsimp only
      split
      · exact (processMessage_within ch _ hostId motors).then ih
      · trivial

theorem processChannels_within (channels : Channels) (hostId : UInt8) (l : List (Fin numChannels))
    (motors : Motors n) :
    (processChannels channels hostId l motors).Within readCost (256 * l.length) := by
  induction l generalizing motors with
  | nil => trivial
  | cons ch rest ih =>
      rw [processChannels, List.length_cons]
      split
      · have hnext := (processQueue_within ch hostId 256 motors).bind ih
        exact hnext.mono (by omega)
      · exact (ih motors).mono (by omega)

/-- A write, and nothing else. -/
theorem writeFrame_within (m : Robstride) (frame : TPCANMsg) :
    (m.writeFrame frame).Within readCost 0 :=
  within_free rfl fun _ => trivial

theorem finish_within (result : Bool) (statusMessage : String) (motors : Motors n) :
    (finish result statusMessage motors).Within readCost 0 := by
  unfold finish
  rw [allocThrows_bind]
  refine within_free rfl fun throws => ?_
  split <;> trivial

theorem enableAt_within (config : Config) (i : Fin n) (motors : Motors n) :
    (enableAt config i motors).Within readCost 0 := by
  unfold enableAt
  refine (writeFrame_within _ _).then fun stopped => ?_
  split
  · exact finish_within _ _ _
  · refine within_free rfl fun _ => ?_
    refine (writeFrame_within _ _).then fun moded => ?_
    split
    · exact finish_within _ _ _
    · refine within_free rfl fun _ => ?_
      have hprime : (primeAndEnable config (motors i)).Within readCost 0 := by
        refine (writeFrame_within _ _).then fun primed => ?_
        split
        · exact writeFrame_within _ _
        · trivial
      refine hprime.then fun on => ?_
      split
      · exact (writeFrame_within _ _).then fun _ => finish_within _ _ _
      · exact finish_within _ _ _

theorem disableSelectedMotor_within (i : Fin n) (motors : Motors n) :
    (disableSelectedMotor i motors).Within readCost 0 := by
  unfold disableSelectedMotor
  refine (writeFrame_within _ _).then fun stopped => ?_
  split <;> exact finish_within _ _ _

theorem stopLoop_within (l : List (Fin n)) (motors : Motors n) :
    (stopLoop l motors).Within readCost 0 := by
  induction l generalizing motors with
  | nil => trivial
  | cons i rest ih =>
      rw [stopLoop]
      split
      · exact ih motors
      · exact (writeFrame_within _ _).then fun _ => ih _

theorem holdLoop_within (config : Config) (l : List (Fin n)) (motors : Motors n)
    (statusMessage : String) : (holdLoop config l motors statusMessage).Within readCost 0 := by
  induction l generalizing motors statusMessage with
  | nil => trivial
  | cons i rest ih =>
      rw [holdLoop]
      split
      · exact ih _ _
      · refine (writeFrame_within _ _).then fun sent => ?_
        split
        · refine (writeFrame_within _ _).then fun _ => ?_
          rw [allocThrows_bind]
          refine within_free rfl fun throws => ?_
          split
          · trivial
          · exact ih _ _
        · exact ih _ _

theorem pollWhenDue_within (channels : Channels) (config : Config) (tick : ℕ) (motors : Motors n)
    (cursors : Fin numChannels → ℕ) :
    (pollWhenDue channels config tick motors cursors).Within readCost 0 := by
  have hchannel : ∀ [NeZero n] (ch : Fin numChannels) (cursor : ℕ) (l : List ℕ),
      (pollChannel config.hostId ch motors cursor l).Within readCost 0 := by
    intro _ ch cursor l
    induction l with
    | nil => trivial
    | cons checked rest ih =>
        rw [pollChannel]
        split
        · exact ih
        · exact within_free rfl fun _ => trivial
  have hchannels : ∀ [NeZero n] (l : List (Fin numChannels)) (cursors : Fin numChannels → ℕ),
      (pollChannels channels config.hostId motors l cursors).Within readCost 0 := by
    intro _ l
    induction l with
    | nil => exact fun _ => trivial
    | cons ch rest ih =>
        intro cursors
        rw [pollChannels]
        split
        · exact (hchannel ch _ _).then fun _ => ih _
        · exact ih cursors
  unfold pollWhenDue pollDisabledPositions
  split
  · split
    · trivial
    · next hn =>
        have : NeZero n := ⟨hn⟩
        exact hchannels _ _
  · trivial

theorem renderGui_within : renderGui.Within readCost 0 := by
  unfold renderGui
  rw [allocThrows_bind]
  refine within_free rfl fun throws => ?_
  split
  · trivial
  · exact within_free rfl fun _ => trivial

theorem serviceMotors_within (channels : Channels) (config : Config) (tick : ℕ) (key : Key)
    (g : Gui n) : (serviceMotors channels config tick key g).Within readCost 1024 := by
  have hrender : (renderWhenDue tick key).Within readCost 0 := by
    unfold renderWhenDue
    split
    · exact renderGui_within
    · trivial
  unfold serviceMotors
  refine (holdLoop_within config _ g.motors g.statusMessage).then
    fun held => ?_
  cases held with
  | error motors => trivial
  | ok held =>
      refine (pollWhenDue_within channels config tick held.1 _).then
        fun cursors => ?_
      refine (processChannels_within channels config.hostId _ held.1).bind (d := 0)
        fun motors => ?_
      refine hrender.then fun rendered => ?_
      split <;> trivial

end within

/-! ### Queries -/

section queries
variable {n : ℕ} {T δ : ℤ} {s : Signalled} {k : ℕ}

/-- A turn of a query: no read without time for it. -/
theorem turn_completes {α : Type} {ch : Fin numChannels} {deadline : ℤ} {stop : α}
    {f : TPCANStatus × TPCANMsg → SysM α} (hk : deadline - s.time ≤ k * δ)
    (hf : ∀ r k' s', k = k' + 1 → deadline - s'.time ≤ k' * δ →
      Completes (signalled T δ) (f r) (fun _ s'' => Passed T k' s' s'') s') :
    Completes (signalled T δ)
      (steadyNow >>= fun now => if now < deadline then canRead ch >>= f else .ret stop)
      (fun _ s' => Passed T k s s') s := by
  simp only [steadyNow_bind, completes_call]
  intro (now : ℤ) s₁ hw₁
  have hpassed₁ : Passed T 0 s s₁ := passed_call hw₁
  have hnow : s.time ≤ now := hw₁.1.2.1
  by_cases hlt : now < deadline
  · obtain ⟨k', rfl⟩ : ∃ k', k = k' + 1 := by
      refine Nat.exists_eq_succ_of_ne_zero fun hzero => ?_
      rw [hzero, Nat.cast_zero, zero_mul] at hk
      omega
    rw [if_pos hlt]
    simp only [canRead_bind, completes_call]
    intro r s₂ hw₂
    have hpassed₂ : Passed T 1 s s₂ := hpassed₁.trans (passed_call hw₂) le_rfl
    have hk₂ : deadline - s₂.time ≤ k' * δ := by
      have hread : s₁.time + δ ≤ s₂.time := hw₂.2.2
      have htime := hpassed₁.time
      push_cast at hk
      linarith
    exact (hf r k' s₂ rfl hk₂).mono fun _ _ h => hpassed₂.trans h (Nat.add_comm 1 k').le
  · rw [if_neg hlt]
    exact hpassed₁.trans (.refl _) (Nat.zero_add k).le

/-- The sleep before the next turn. -/
theorem sleepFor_completes {α : Type} {ns deadline : ℤ} {p : SysM α}
    (hk : deadline - s.time ≤ k * δ)
    (hp : ∀ s', deadline - s'.time ≤ k * δ →
      Completes (signalled T δ) p (fun _ s'' => Passed T k s' s'') s') :
    Completes (signalled T δ) (sleepFor ns >>= fun _ => p) (fun _ s' => Passed T k s s') s := by
  simp only [sleepFor_bind, completes_call]
  intro _ s₁ hw₁
  have hpassed : Passed T 0 s s₁ := passed_call hw₁
  have hk₁ : deadline - s₁.time ≤ k * δ := by
    have htime := hpassed.time
    omega
  exact (hp s₁ hk₁).mono fun _ _ h => hpassed.trans h (Nat.zero_add k).le

/-- By induction over the reads for which there is time. -/
theorem queryLoop_completes (config : Config) (ch : Fin numChannels) (motorId : UInt8)
    {deadline : ℤ} {fuel : ℕ} (hfuel : k ≤ fuel) (hk : deadline - s.time ≤ k * δ) :
    Completes (signalled T δ) (queryLoop config ch motorId deadline (fuel + 1))
      (fun _ s' => Passed T k s s') s := by
  induction fuel generalizing k s with
  | zero =>
      rw [queryLoop]
      exact turn_completes hk fun _ _ _ hk' => by omega
  | succ fuel ih =>
      rw [queryLoop]
      refine turn_completes hk ?_
      rintro ⟨status, frame⟩ k' s' rfl hk'
      dsimp only
      split
      · split
        · exact .refl _
        · exact ih (by omega) hk'
      · split
        · exact .refl _
        · exact sleepFor_completes hk' fun s'' hk'' => ih (by omega) hk''

theorem refreshLoop_completes (hostId : UInt8) (target : Fin n) (previousGeneration : UInt64)
    {deadline : ℤ} {fuel : ℕ} (hfuel : k ≤ fuel) (hk : deadline - s.time ≤ k * δ)
    (motors : Motors n) :
    Completes (signalled T δ)
      (refreshLoop hostId target previousGeneration deadline (fuel + 1) motors)
      (fun _ s' => Passed T k s s') s := by
  induction fuel generalizing k s motors with
  | zero =>
      rw [refreshLoop]
      exact turn_completes hk fun _ _ _ hk' => by omega
  | succ fuel ih =>
      rw [refreshLoop]
      refine turn_completes hk ?_
      rintro ⟨status, frame⟩ k' s' rfl hk'
      dsimp only
      split
      · refine (within_passed (processMessage_within _ _ hostId motors) s').bind ?_
        intro motors s'' hpassed
        have hk'' : deadline - s''.time ≤ k' * δ := by
          have htime := hpassed.time
          omega
        split
        · exact hpassed.trans (.refl _) (Nat.zero_add k').le
        · exact (ih (by omega) hk'' motors).mono fun _ _ h => hpassed.trans h (Nat.zero_add k').le
      · split
        · exact .refl _
        · exact sleepFor_completes hk' fun s'' hk'' => ih (by omega) hk'' motors

theorem queryDevice_completes (config : Config) (ch : Fin numChannels) (motorId : UInt8)
    {fuel : ℕ} (hfuel : k ≤ fuel) (hk : ms config.scanTimeoutMs ≤ k * δ) :
    Completes (signalled T δ) (queryDevice config (fuel + 1) ch motorId)
      (fun _ s' => Passed T (256 + k) s s') s := by
  unfold queryDevice
  refine (within_passed (drainChannel_within ch 256) s).bind ?_
  intro _ s₁ hpassed₁
  simp only [canWrite_bind, completes_call]
  intro status s₂ hw₂
  have hpassed₂ : Passed T 256 s s₂ := hpassed₁.trans (passed_call hw₂) le_rfl
  split
  · exact hpassed₂.trans (.refl _) le_rfl
  · simp only [steadyNow_bind, completes_call]
    intro (now : ℤ) s₃ hw₃
    have hpassed₃ : Passed T 256 s s₃ := hpassed₂.trans (passed_call hw₃) le_rfl
    have hnow : now ≤ s₃.time := hw₃.1.2.2.1
    exact (queryLoop_completes config ch motorId hfuel (by omega)).mono
      fun _ _ h => hpassed₃.trans h le_rfl

theorem refreshPositionSync_completes (channels : Channels) (hostId : UInt8) {timeoutMs : ℤ}
    {fuel : ℕ} (hfuel : k ≤ fuel) (hk : ms timeoutMs ≤ k * δ) (target : Fin n)
    (motors : Motors n) :
    Completes (signalled T δ)
      (refreshPositionSync channels hostId timeoutMs (fuel + 1) target motors)
      (fun _ s' => Passed T k s s') s := by
  unfold refreshPositionSync
  dsimp only
  split
  · exact .refl _
  · unfold requestMechanicalPosition
    simp only [canWrite_bind, completes_call]
    intro status s₁ hw₁
    have hpassed₁ : Passed T 0 s s₁ := passed_call hw₁
    split
    · exact hpassed₁.trans (.refl _) (Nat.zero_add k).le
    · simp only [steadyNow_bind, completes_call]
      intro (now : ℤ) s₂ hw₂
      have hpassed₂ : Passed T 0 s s₂ := hpassed₁.trans (passed_call hw₂) le_rfl
      have hnow : now ≤ s₂.time := hw₂.1.2.2.1
      exact (refreshLoop_completes hostId target _ hfuel (by omega) motors).mono
        fun _ _ h => hpassed₂.trans h (Nat.zero_add k).le

theorem handleKey_completes (channels : Channels) (config : Config) {fuel : ℕ} (hfuel : k ≤ fuel)
    (hk : ms positionTimeoutMs ≤ k * δ) (key : Key) (g : Gui n) :
    Completes (signalled T δ) (handleKey channels config (fuel + 1) key g)
      (fun _ s' => Passed T k s s') s := by
  have henable : ∀ i : Fin n, Completes (signalled T δ)
      (enableSelectedMotor channels config (fuel + 1) i g.motors)
      (fun _ s' => Passed T k s s') s := by
    intro i
    unfold enableSelectedMotor
    refine (refreshPositionSync_completes channels config.hostId hfuel hk i g.motors).bind ?_
    rintro ⟨refreshed, motors⟩ s₁ hpassed
    have hrest : ∀ {α : Type} {p : SysM α}, p.Within readCost 0 →
        Completes (signalled T δ) p (fun _ s' => Passed T k s s') s₁ :=
      fun hp => (within_passed hp s₁).mono fun _ _ h => hpassed.trans h le_rfl
    dsimp only
    split
    · exact hrest (finish_within _ _ _)
    · split
      · exact hrest (finish_within _ _ _)
      · exact hrest (enableAt_within config i _)
  have htoggle : ∀ i : Fin n, Completes (signalled T δ)
      (toggleMotor channels config (fuel + 1) i g.motors) (fun _ s' => Passed T k s s') s := by
    intro i
    unfold toggleMotor
    split
    · exact (within_passed (disableSelectedMotor_within i g.motors) s).mono
        fun _ _ h => h.trans (.refl _) (Nat.zero_add k).le
    · exact henable i
  unfold handleKey
  split
  · cases key with
    | toggle =>
        refine (htoggle _).bind ?_
        intro r s₁ hpassed
        cases r with
        | error motors => exact hpassed
        | ok r => exact hpassed
    | _ => exact .refl _
  · exact .refl _

end queries

/-! ### The looks at the flag -/

/-- It is `t` or later, and there were at most `b` reads after the signal. -/
structure Bounded (T t : ℤ) (b : ℕ) (s : Signalled) : Prop where
  since : t ≤ s.time
  late : s.late ≤ b
  told : s.late = 0 ∨ T ≤ s.time

section flag
variable {n : ℕ} {T δ t : ℤ} {s s' : Signalled} {k b : ℕ}

theorem Bounded.free (h : Bounded T t b s) (hpassed : Passed T 0 s s') : Bounded T t b s' where
  since := h.since.trans hpassed.time
  late := hpassed.late.trans h.late
  told := by
    rcases hpassed.told with hsame | htold
    · rcases h.told with hnone | htold
      · exact .inl (hsame.trans hnone)
      · exact .inr (htold.trans hpassed.time)
    · exact .inr htold

/-- What begins before the signal may go on for `b` reads. -/
theorem Bounded.spend (h : Bounded T t b s) (hnone : s.late = 0) (hpassed : Passed T k s s')
    (hk : k ≤ b) : Bounded T t b s' where
  since := h.since.trans hpassed.time
  late := by
    have hlate := hpassed.late
    omega
  told := hpassed.told.imp (·.trans hnone) id

/-- The flag is up: the signal had not come. -/
theorem Bounded.up (h : Bounded T t b s) (hw : signalled T δ s .loadRunning true s') :
    s.time < T ∧ s'.late = 0 := by
  have hbefore : ¬T ≤ s.time := fun hT => Bool.noConfusion (hw.2.2 hT)
  refine ⟨not_le.mp hbefore, ?_⟩
  have hlate := hw.2.1
  rw [if_neg hbefore, h.told.resolve_right hbefore] at hlate
  exact hlate

theorem Bounded.within {α : Type} {p : SysM α} (h : Bounded T t b s) (hp : p.Within readCost 0) :
    Completes (signalled T δ) p (fun _ s' => Bounded T t b s') s :=
  (within_passed hp s).mono fun _ _ => h.free

theorem scanIds_completes (config : Config) (ch : Fin numChannels) {fuel : ℕ} (hfuel : k ≤ fuel)
    (hk : ms config.scanTimeoutMs ≤ k * δ) (hb : 256 + k ≤ b) (ids : List UInt8)
    (h : Bounded T t b s) :
    Completes (signalled T δ) (scanIds config (fuel + 1) ch ids)
      (fun _ s' => Bounded T t b s') s := by
  induction ids generalizing s with
  | nil => exact h
  | cons id rest ih =>
      rw [scanIds]
      simp only [loadRunning_bind, completes_call]
      intro up s₁ hw₁
      have h₁ := h.free (passed_call hw₁)
      cases up with
      | false => exact h₁
      | true =>
          obtain ⟨-, hnone⟩ := h.up hw₁
          refine (queryDevice_completes config ch id hfuel hk).bind fun device s₂ hpassed => ?_
          exact (ih (h₁.spend hnone hpassed hb)).bind fun _ _ h => h

theorem scanLoop_completes (config : Config) {fuel : ℕ} (hfuel : k ≤ fuel)
    (hk : ms config.scanTimeoutMs ≤ k * δ) (hb : 256 + k ≤ b) (l : List (Fin numChannels))
    (channels : Channels) (devices : List DeviceInfo) (h : Bounded T t b s) :
    Completes (signalled T δ) (scanLoop config (fuel + 1) l channels devices)
      (fun _ s' => Bounded T t b s') s := by
  induction l generalizing channels devices s with
  | nil => exact h
  | cons ch rest ih =>
      rw [scanLoop]
      simp only [canInitialize_bind, completes_call]
      intro status s₁ hw₁
      have h₁ := h.free (passed_call hw₁)
      split
      · exact (scanIds_completes config ch hfuel hk hb scannedIds h₁).bind
          fun found _ h => ih _ _ h
      · exact ih _ _ h₁

theorem refreshInitialPositions_completes (channels : Channels) (config : Config) {fuel : ℕ}
    (hfuel : k ≤ fuel) (hk : ms positionTimeoutMs ≤ k * δ) (hb : k ≤ b) (l : List (Fin n))
    (motors : Motors n) (h : Bounded T t b s) :
    Completes (signalled T δ) (refreshInitialPositions channels config (fuel + 1) l motors)
      (fun _ s' => Bounded T t b s') s := by
  induction l generalizing motors s with
  | nil => exact h
  | cons i rest ih =>
      rw [refreshInitialPositions]
      simp only [loadRunning_bind, completes_call]
      intro up s₁ hw₁
      have h₁ := h.free (passed_call hw₁)
      cases up with
      | false => exact h₁
      | true =>
          obtain ⟨-, hnone⟩ := h.up hw₁
          refine (refreshPositionSync_completes channels config.hostId hfuel hk i motors).bind ?_
          rintro ⟨_, motors⟩ s₂ hpassed
          exact ih motors (h₁.spend hnone hpassed hb)

/-- By induction over the periods that are left to the signal: the flag is down at the last look,
and each round moves the deadline by at least a period. -/
theorem guiLoop_completes (channels : Channels) (config : Config) {fuel : ℕ} (hfuel : k ≤ fuel)
    (hk : ms positionTimeoutMs ≤ k * δ) (hb : k + 1024 ≤ b) (left tick : ℕ) {nextTick : ℤ}
    (hleft : T - nextTick ≤ left * ms controlPeriodMs) (hreached : nextTick ≤ s.time)
    (running : Bool) (g : Gui n) (h : Bounded T t b s) :
    Completes (signalled T δ)
      (guiLoop channels config (fuel + 1) (left + 1) tick nextTick running g)
      (fun _ s' => Bounded T t b s') s := by
  induction left generalizing tick nextTick running g s with
  | zero =>
      rw [guiLoop]
      simp only [loadRunning_bind, completes_call]
      intro up s₁ hw₁
      cases up with
      | false =>
          simp only [Bool.and_false, Bool.not_false, if_true]
          exact h.free (passed_call hw₁)
      | true =>
          obtain ⟨hbefore, -⟩ := h.up hw₁
          rw [Nat.cast_zero, zero_mul] at hleft
          omega
  | succ left ih =>
      rw [guiLoop]
      simp only [loadRunning_bind, completes_call]
      intro up s₁ hw₁
      have h₁ := h.free (passed_call hw₁)
      by_cases hleave : (!(running && up)) = true
      · simp only [hleave, if_true]
        exact h₁
      · simp only [hleave]
        obtain rfl : up = true := by
          cases up with
          | true => rfl
          | false => exact absurd (by simp) hleave
        obtain ⟨-, hnone⟩ := h.up hw₁
        intro bytes s₂ hw₂
        have hpassed₂ : Passed T 0 s₁ s₂ := passed_call hw₂
        refine (handleKey_completes channels config hfuel hk (readKey bytes) g).bind ?_
        intro r s₃ hpassed₃
        have hround : Passed T k s₁ s₃ := hpassed₂.trans hpassed₃ (Nat.zero_add k).le
        cases r with
        | error motors => exact h₁.spend hnone hround (by omega)
        | ok g₁ =>
            refine (within_passed (serviceMotors_within channels config tick (readKey bytes) g₁)
              s₃).bind ?_
            intro r s₄ hpassed₄
            have hround₄ : Passed T (k + 1024) s₁ s₄ := hround.trans hpassed₄ le_rfl
            have h₄ : Bounded T t b s₄ := h₁.spend hnone hround₄ hb
            cases r with
            | error motors => exact h₄
            | ok g₂ =>
                simp only [steadyNow_bind, completes_call]
                intro (now : ℤ) s₅ hw₅
                have h₅ := h₄.free (passed_call hw₅)
                have hnow : now ≤ s₅.time := hw₅.1.2.2.1
                have hreading : s₅.reading = now := hw₅.1.2.2.2.1
                push_cast at hleft
                split
                · simp only [sleepFor_bind, completes_call]
                  intro _ s₆ hw₆
                  have hslept : s₅.reading + (nextTick + ms controlPeriodMs - now) ≤ s₆.time :=
                    hw₆.1.2.1
                  exact ih _ (by linarith) (by omega) _ _ (h₅.free (passed_call hw₆))
                · exact ih _ (by linarith) hnow _ _ h₅

theorem runGui_completes (channels : Channels) (config : Config) {fuel : ℕ} (hfuel : k ≤ fuel)
    (hk : ms positionTimeoutMs ≤ k * δ) (hb : k + 1024 ≤ b)
    (hround : T - s.time ≤ fuel * ms controlPeriodMs) (motors : Motors n) (h : Bounded T t b s) :
    Completes (signalled T δ) (runGui channels config (fuel + 1) motors)
      (fun _ s' => Bounded T t b s') s := by
  have hsession : Completes (signalled T δ) (guiSession channels config (fuel + 1) motors)
      (fun _ s' => Bounded T t b s') s := by
    unfold guiSession
    simp only [isatty_bind, completes_call]
    intro terminal s₁ hw₁
    have hpassed₁ : Passed T 0 s s₁ := passed_call hw₁
    split
    · exact h.free hpassed₁
    · refine (within_passed renderGui_within s₁).bind ?_
      intro rendered s₂ hpassed₂
      have hpassed : Passed T 0 s s₂ := hpassed₁.trans hpassed₂ le_rfl
      split
      · exact h.free hpassed
      · simp only [steadyNow_bind, completes_call]
        intro (nextTick : ℤ) s₃ hw₃
        have hfrom : s₂.time ≤ nextTick := hw₃.1.2.1
        have htime := hpassed.time
        exact guiLoop_completes channels config hfuel hk hb fuel 0 (by omega) hw₃.1.2.2.1 true _
          (h.free (hpassed.trans (passed_call hw₃) le_rfl))
  unfold runGui
  refine hsession.bind ?_
  intro r s₁ h₁
  cases r with
  | error motors => exact (h₁.within (stopLoop_within _ motors)).bind fun _ _ h => h
  | ok motors => exact (h₁.within (stopLoop_within _ motors)).bind fun _ _ h => h

end flag

/-- **The signal ends the program.**  If a query has time for at most `k` reads of a channel, then
`main` returns, whatever frames arrive and whatever keys are pressed, and reads the channels at
most `k + 1024` times after the signal at `T`. -/
theorem returns_when_signalled (config : Config) {k fuel : ℕ} {T δ : ℤ} {s : Signalled}
    (hscan : ms config.scanTimeoutMs ≤ k * δ) (hrefresh : ms positionTimeoutMs ≤ k * δ)
    (hfuel : k ≤ fuel) (hround : T - s.time ≤ fuel * ms controlPeriodMs) (hs : s.late = 0) :
    Completes (signalled T δ) (main config (fuel + 1)) (fun _ s' => s'.late ≤ k + 1024) s := by
  have h : Bounded T s.time (k + 1024) s := ⟨le_rfl, by omega, .inl hs⟩
  unfold main
  simp only [isatty_bind, completes_call]
  intro terminal s₁ hw₁
  have hpassed₁ : Passed T 0 s s₁ := passed_call hw₁
  have h₁ := h.free hpassed₁
  split
  · exact h₁.late
  · have hchannels : Completes (signalled T δ) (scanChannels config (fuel + 1))
        (fun _ s' => Bounded T s.time (k + 1024) s') s₁ :=
      (scanLoop_completes config hfuel hscan (by omega) _ _ _ h₁).bind fun _ _ h => h
    refine hchannels.bind ?_
    rintro ⟨channels, devices⟩ s₂ h₂
    refine (refreshInitialPositions_completes channels config hfuel hrefresh (by omega) _ _
      h₂).bind ?_
    intro motors s₃ h₃
    have hsince := h₃.since
    exact (runGui_completes channels config hfuel hrefresh le_rfl (by omega) motors h₃).mono
      fun _ _ h => h.late

/-- Only the first channel is there, and frames that nobody has asked for keep coming on it, one
each millisecond. -/
def busyChannel (T : ℤ) : Handler Sys Signalled := fun s c =>
  match c with
  | .isatty => (true, s)
  | .loadRunning => (decide (s.time < T), s)
  | .canInitialize ch => (if ch = 0 then pcanErrorOk else pcanErrorQrcvEmpty, s)
  | .canRead _ => ((pcanErrorOk, {}),
      { s with time := s.time + ms 1, late := s.late + if T ≤ s.time then 1 else 0 })
  | .steadyNow => (s.time, { s with reading := s.time })
  | .sleepFor ns => ((), { s with time := max s.time (s.reading + ns) })
  | .readStdin => ([], { s with rounds := s.time :: s.rounds })
  | c => (c.quiet, s)

/-- The signal comes when the channel is drained for the first query. -/
theorem returns_when_signalled_busy :
    ∃ s', Runs (signalled (ms 100) (ms 1)) (main {} 31) ⟨⟨0, 0, []⟩, 0⟩ s' (some 0) ∧
      s'.late = 164 ∧ s'.late ≤ 30 + 1024 := by
  have hrun := runs_exec (P := fun _ => True) (W := signalled (ms 100) (ms 1))
    (h := busyChannel (ms 100)) (fun s c _ => by
      refine ⟨⟨⟨?_, ?_⟩, ?_, ?_⟩, trivial⟩
      · cases c with
        | sleepFor ns => exact le_max_left _ _
        | canRead ch => exact Int.le_add_of_nonneg_right (by decide)
        | _ => exact le_rfl
      · cases c with
        | steadyNow => exact ⟨le_rfl, le_rfl, rfl, rfl⟩
        | sleepFor ns => exact ⟨le_max_right _ _, rfl, rfl⟩
        | readStdin => exact ⟨s.time, le_rfl, le_rfl, rfl, rfl⟩
        | _ => exact ⟨rfl, rfl⟩
      · cases c with
        | canRead ch => rfl
        | _ => simp [busyChannel, readCost]
      · cases c with
        | canRead ch => exact le_rfl
        | loadRunning => exact fun hT => decide_eq_false (not_lt.mpr hT)
        | _ => trivial) (main {} 31) (s := ⟨⟨0, 0, []⟩, 0⟩) trivial
  obtain ⟨hend, hlate⟩ : (exec (busyChannel (ms 100)) (main {} 31) ⟨⟨0, 0, []⟩, 0⟩).2 = some 0 ∧
      (exec (busyChannel (ms 100)) (main {} 31) ⟨⟨0, 0, []⟩, 0⟩).1.late = 164 := by
    decide +kernel
  rw [hend] at hrun
  have hreturns : Completes (signalled (ms 100) (ms 1)) (main {} 31)
      (fun _ s' => s'.late ≤ 30 + 1024) ⟨⟨0, 0, []⟩, 0⟩ :=
    returns_when_signalled {} (by decide) (by decide) le_rfl (by decide) rfl
  exact ⟨_, hrun, hlate, hreturns.post hrun⟩

end PositionRead

end Qub
