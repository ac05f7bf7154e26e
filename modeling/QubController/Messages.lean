import QubController.Addressed
import QubController.PositionRead

/-! # Received frames reach their own motors

What `process_message` can do (`Processed`), and from it that the motors, but for the two clock
values that a motor keeps, are components with addresses: a frame reaches the motor on its
channel with its source ID and no other one. -/

namespace Qub

open Interaction

namespace PositionRead

variable {n : ℕ}

/-! ### What a message does -/

/-- The motor takes the message as its feedback. -/
def MotorState.TakesFeedback (motor : MotorState) (ch : Fin numChannels) (msg : TPCANMsg) : Prop :=
  motor.channelIdx = ch ∧ motor.driver.accepts msg = true

/-- The motor takes the message as its position. -/
def MotorState.TakesPosition (motor : MotorState) (hostId : UInt8) (ch : Fin numChannels)
    (msg : TPCANMsg) (position : CFloat) : Prop :=
  motor.channelIdx = ch ∧ parseMechanicalPosition msg hostId = some (motor.motorId, position)

theorem parseMechanicalPosition_some {msg : TPCANMsg} {hostId motorId : UInt8} {position : CFloat}
    (h : parseMechanicalPosition msg hostId = some (motorId, position)) :
    msg.extended = true ∧ msg.commType = CommType.paramRead.code ∧ msg.sourceMotorId = motorId ∧
      position.isFinite = true := by
  unfold parseMechanicalPosition at h
  split at h
  · cases h
  · rename_i hframe
    split at h
    · cases h
    · rename_i haddress
      split at h
      · cases h
      · split at h
        · rename_i hfinite
          obtain ⟨rfl, rfl⟩ := Prod.mk.inj (Option.some.inj h)
          simp only [Bool.or_eq_true, Bool.not_eq_true', bne_iff_ne, not_or, not_not,
            Bool.not_eq_false] at hframe haddress
          exact ⟨hframe.1, haddress.1, rfl, hfinite⟩
        · cases h

/-- What `process_message` can make of the motors. -/
inductive Processed (hostId : UInt8) (ch : Fin numChannels) (msg : TPCANMsg) (motors : Motors n) :
    Motors n → Prop
  | rejected : (∀ i, ¬ (motors i).TakesFeedback ch msg) →
      (∀ i position, ¬ (motors i).TakesPosition hostId ch msg position) →
      Processed hostId ch msg motors motors
  | feedback (i : Fin n) (ts : Timespec) (now : ℤ) : (motors i).TakesFeedback ch msg →
      Processed hostId ch msg motors (Function.update motors i ((motors i).withFeedback
        { (motors i).driver with lastFeedback := Robstride.decodeFeedback msg ts } now))
  | position (i : Fin n) (position : CFloat) (now : ℤ) :
      (motors i).TakesPosition hostId ch msg position →
      Processed hostId ch msg motors
        (Function.update motors i ((motors i).withPosition position now))

/-- A call that only looks at a clock. -/
def IsClock : SysCall → Prop
  | .clockGettime => True
  | .steadyNow => True
  | _ => False

section process
variable {hostId : UInt8} {ch : Fin numChannels} {msg : TPCANMsg} {motors : Motors n}

theorem takeFeedback_obeys (hostId : UInt8) (l : List (Fin n)) :
    (takeFeedback ch msg motors l).Obeys IsClock (fun r => r.elim
      (∀ i ∈ l, ¬ (motors i).TakesFeedback ch msg) (Processed hostId ch msg motors)) := by
  induction l with
  | nil => exact fun i hi => absurd hi (by simp)
  | cons i rest ih =>
      have hskip : ¬ (motors i).TakesFeedback ch msg →
          (takeFeedback ch msg motors rest).Obeys IsClock (fun r => r.elim
            (∀ j ∈ i :: rest, ¬ (motors j).TakesFeedback ch msg)
            (Processed hostId ch msg motors)) := by
        intro hi
        refine ih.mono (fun _ h => h) fun r hr => ?_
        cases r with
        | some motors' => exact hr
        | none => exact List.forall_mem_cons.mpr ⟨hi, hr⟩
      rw [takeFeedback]
      by_cases hch : (motors i).channelIdx = ch
      · by_cases hid : (motors i).driver.accepts msg = true
        · simp only [hch, bne_self_eq_false, Bool.false_eq_true, if_false,
            Robstride.tryParseFeedback, hid, if_true]
          exact ⟨trivial, fun ts => ⟨trivial, fun now => .feedback i ts now ⟨hch, hid⟩⟩⟩
        · simp only [hch, bne_self_eq_false, Bool.false_eq_true, if_false,
            Robstride.tryParseFeedback, hid]
          exact hskip fun h => hid h.2
      · simp only [bne_iff_ne.mpr hch, if_true]
        exact hskip fun h => hch h.1

theorem takePosition_obeys {motorId : UInt8} {position : CFloat}
    (hparse : parseMechanicalPosition msg hostId = some (motorId, position))
    (hfeedback : ∀ i, ¬ (motors i).TakesFeedback ch msg) (l : List (Fin n))
    (hl : ∀ i, i ∉ l → ∀ position, ¬ (motors i).TakesPosition hostId ch msg position) :
    (takePosition ch motorId position motors l).Obeys IsClock (Processed hostId ch msg motors) := by
  induction l with
  | nil => exact .rejected hfeedback fun i => hl i (by simp)
  | cons i rest ih =>
      rw [takePosition]
      by_cases htakes : (motors i).channelIdx = ch ∧ (motors i).motorId = motorId
      · simp only [htakes.1, htakes.2, beq_self_eq_true, Bool.and_self, if_true]
        refine ⟨trivial, fun now => .position i position now ⟨htakes.1, ?_⟩⟩
        rw [hparse, htakes.2]
      · have hcond : ((motors i).channelIdx == ch && (motors i).motorId == motorId) = false := by
          simpa using htakes
        simp only [hcond, Bool.false_eq_true, if_false]
        refine ih fun j hj position' hpos => ?_
        by_cases hji : j = i
        · subst hji
          obtain ⟨hid, -⟩ := Prod.mk.inj (Option.some.inj (hparse.symm.trans hpos.2))
          exact htakes ⟨hpos.1, hid.symm⟩
        · exact hl j (by simp [hji, hj]) position' hpos

theorem processPosition_obeys (hfeedback : ∀ i, ¬ (motors i).TakesFeedback ch msg) :
    (processPosition ch msg hostId motors).Obeys IsClock (Processed hostId ch msg motors) := by
  unfold processPosition
  cases hparse : parseMechanicalPosition msg hostId with
  | none =>
      refine .rejected hfeedback fun i position h => ?_
      exact absurd (hparse.symm.trans h.2) (by simp)
  | some r =>
      exact takePosition_obeys hparse hfeedback _ fun i hi => absurd (List.mem_finRange i) hi

/-- Only the clock is looked at, and the result is one of `Processed`. -/
theorem processMessage_obeys (ch : Fin numChannels) (msg : TPCANMsg) (hostId : UInt8)
    (motors : Motors n) :
    (processMessage ch msg hostId motors).Obeys IsClock (Processed hostId ch msg motors) := by
  rw [processMessage]
  by_cases hext : msg.extended = true
  · simp only [hext, Bool.not_true, Bool.false_eq_true, if_false]
    by_cases htype : msg.commType = CommType.feedback.code
    · simp only [htype, beq_self_eq_true, if_true]
      refine (takeFeedback_obeys hostId _).bind fun r hr => ?_
      cases r with
      | some motors' => exact hr
      | none => exact processPosition_obeys fun i => hr i (List.mem_finRange i)
    · simp only [beq_eq_false_iff_ne.mpr htype, Bool.false_eq_true, if_false]
      exact processPosition_obeys fun i h => htype (Robstride.isFeedbackFrom_iff.mp h.2).2.1
  · rw [Bool.not_eq_true] at hext
    simp only [hext, Bool.not_false, if_true]
    refine .rejected (fun i h => ?_) (fun i position h => ?_)
    · exact absurd (Robstride.isFeedbackFrom_iff.mp h.2).1 (by simp [hext])
    · exact absurd h.2 (by simp [parseMechanicalPosition, hext])

end process

/-! ### Settings -/

/-- What no message changes. -/
structure Settings where
  channelIdx : Fin numChannels
  motorId : UInt8
  uid : Fin 8 → UInt8
  can : Fin numChannels
  driverId : UInt8
  hostId : UInt8
  enabled : Bool
  holdPositionRad : CFloat

def MotorState.settings (motor : MotorState) : Settings where
  channelIdx := motor.channelIdx
  motorId := motor.motorId
  uid := motor.uid
  can := motor.driver.can
  driverId := motor.driver.motorId
  hostId := motor.driver.hostId
  enabled := motor.enabled
  holdPositionRad := motor.holdPositionRad

theorem Processed.settings {hostId : UInt8} {ch : Fin numChannels} {msg : TPCANMsg}
    {motors motors' : Motors n} (h : Processed hostId ch msg motors motors') (i : Fin n) :
    (motors' i).settings = (motors i).settings := by
  cases h with
  | rejected => rfl
  | feedback j ts now _ =>
      by_cases hij : i = j
      · subst hij
        rw [Function.update_self]
        rfl
      · rw [Function.update_of_ne hij]
  | position j position now _ =>
      by_cases hij : i = j
      · subst hij
        rw [Function.update_self]
        rfl
      · rw [Function.update_of_ne hij]

/-! ### One motor -/

/-- The place of a motor. -/
def MotorState.key (motor : MotorState) : Fin numChannels × UInt8 :=
  (motor.channelIdx, motor.motorId)

/-- The motor without the two clock values that it keeps. -/
def MotorState.timeless (motor : MotorState) : MotorState :=
  { motor with
    lastUpdate := 0
    driver := { motor.driver with lastFeedback := motor.driver.lastFeedback.values } }

/-- What a message to it makes of a motor. -/
def MotorState.receive (hostId : UInt8) (msg : TPCANMsg) (motor : MotorState) : MotorState :=
  if motor.driver.accepts msg then
    motor.withFeedback
      { motor.driver with lastFeedback := (Robstride.decodeFeedback msg ⟨0, 0⟩).values } 0
  else
    match parseMechanicalPosition msg hostId with
    | some (_, position) => motor.withPosition position 0
    | none => motor

/-- Is the message one that the motor with its source ID accepts? -/
def isAccepted (hostId : UInt8) (msg : TPCANMsg) : Bool :=
  Robstride.isFeedbackFrom msg.sourceMotorId msg || (parseMechanicalPosition msg hostId).isSome

/-- Each motor has the driver for its ID, and no two of them are in one place. -/
structure Distinct (motors : Motors n) : Prop where
  wired : ∀ i, (motors i).driver.motorId = (motors i).motorId
  inj : Function.Injective fun i => (motors i).key

/-- Where a frame of channel `ch` comes from. -/
def source (x : Fin numChannels × TPCANMsg) : Fin numChannels × UInt8 := (x.1, x.2.sourceMotorId)

/-- The motors, without clock values, as components with addresses. -/
abbrev deliver (hostId : UInt8) (motors : Motors n) (x : Fin numChannels × TPCANMsg) :
    Motors n → Motors n :=
  Addressed.deliver (fun i => (motors i).key) source (fun x => MotorState.receive hostId x.2) x

section receive
variable {hostId : UInt8} {ch : Fin numChannels} {msg : TPCANMsg} {motors motors' : Motors n}
  {motor : MotorState} {position : CFloat}

theorem decodeFeedback_values (msg : TPCANMsg) (ts : Timespec) :
    (Robstride.decodeFeedback msg ts).values = (Robstride.decodeFeedback msg ⟨0, 0⟩).values := by
  simp only [MotorFeedback.values, Robstride.decodeFeedback]

theorem MotorState.TakesFeedback.receive (h : motor.TakesFeedback ch msg) (ts : Timespec)
    (now : ℤ) :
    (motor.withFeedback
      { motor.driver with lastFeedback := Robstride.decodeFeedback msg ts } now).timeless =
      motor.timeless.receive hostId msg := by
  have haccepts : motor.timeless.driver.accepts msg = true := h.2
  rw [MotorState.receive, if_pos haccepts]
  simp only [MotorState.timeless, MotorState.withFeedback, decodeFeedback_values msg ts]
  simp only [MotorFeedback.values, Robstride.decodeFeedback]

theorem MotorState.TakesPosition.not_accepts {m : UInt8}
    (h : motor.TakesPosition hostId ch msg position) : ¬ Robstride.isFeedbackFrom m msg = true := by
  intro hfeedback
  have htype := (Robstride.isFeedbackFrom_iff.mp hfeedback).2.1
  rw [(parseMechanicalPosition_some h.2).2.1, CommType.code_inj] at htype
  cases htype

theorem MotorState.TakesPosition.receive (h : motor.TakesPosition hostId ch msg position)
    (now : ℤ) :
    (motor.withPosition position now).timeless = motor.timeless.receive hostId msg := by
  have haccepts : ¬ motor.timeless.driver.accepts msg = true := h.not_accepts
  rw [MotorState.receive, if_neg haccepts, h.2]
  rfl

theorem MotorState.receive_rejected (hfeedback : ¬ motor.TakesFeedback ch msg)
    (hposition : ∀ position, ¬ motor.TakesPosition hostId ch msg position)
    (hkey : motor.key = (ch, msg.sourceMotorId)) :
    motor.timeless.receive hostId msg = motor.timeless := by
  obtain ⟨hch, hid⟩ := Prod.mk.inj hkey
  have haccepts : ¬ motor.timeless.driver.accepts msg = true := fun h => hfeedback ⟨hch, h⟩
  rw [MotorState.receive, if_neg haccepts]
  cases hparse : parseMechanicalPosition msg hostId with
  | none => rfl
  | some r =>
      obtain ⟨m, position⟩ := r
      refine absurd ⟨hch, ?_⟩ (hposition position)
      rw [hparse, hid, (parseMechanicalPosition_some hparse).2.2.1]

theorem Distinct.key_of_feedback (h : Distinct motors) {i : Fin n}
    (htakes : (motors i).TakesFeedback ch msg) : (motors i).key = (ch, msg.sourceMotorId) := by
  have hid := (Robstride.isFeedbackFrom_iff.mp htakes.2).2.2
  rw [h.wired] at hid
  exact Prod.ext htakes.1 hid.symm

theorem MotorState.TakesPosition.key (h : motor.TakesPosition hostId ch msg position) :
    motor.key = (ch, msg.sourceMotorId) :=
  Prod.ext h.1 (parseMechanicalPosition_some h.2).2.2.1.symm

/-- An update of the motor at the source is a delivery. -/
theorem Distinct.deliver_update (h : Distinct motors) {i : Fin n} {motor : MotorState}
    (hkey : (motors i).key = (ch, msg.sourceMotorId))
    (hmotor : motor.timeless = (motors i).timeless.receive hostId msg) :
    (fun j => (Function.update motors i motor j).timeless) =
      deliver hostId motors (ch, msg) fun j => (motors j).timeless := by
  funext j
  by_cases hij : j = i
  · subst hij
    have hsource : source (ch, msg) = (motors j).key := hkey.symm
    rw [Function.update_self, hmotor]
    exact (if_pos hsource).symm
  · have hsource : ¬ source (ch, msg) = (motors j).key :=
      fun hj => hij (h.inj (hj.symm.trans hkey.symm))
    rw [Function.update_of_ne hij]
    exact (if_neg hsource).symm

/-- **`process_message` is a delivery**, but for the clock values. -/
theorem Processed.deliver (h : Processed hostId ch msg motors motors') (hd : Distinct motors) :
    (fun i => (motors' i).timeless) =
      deliver hostId motors (ch, msg) fun i => (motors i).timeless := by
  cases h with
  | rejected hfeedback hposition =>
      funext i
      by_cases hsource : source (ch, msg) = (motors i).key
      · refine Eq.trans ?_ (if_pos hsource).symm
        exact (MotorState.receive_rejected (hfeedback i) (hposition i) hsource.symm).symm
      · exact (if_neg hsource).symm
  | feedback i ts now htakes =>
      exact hd.deliver_update (hd.key_of_feedback htakes) (htakes.receive ts now)
  | position i position now htakes =>
      exact hd.deliver_update htakes.key (htakes.receive now)

end receive

/-! ### One message after the other -/

/-- `process_message` on each message of a list. -/
def processMessages (hostId : UInt8) :
    List (Fin numChannels × TPCANMsg) → Motors n → SysM (Motors n)
  | [], motors => return motors
  | x :: rest, motors => do
      let motors ← processMessage x.1 x.2 hostId motors
      processMessages hostId rest motors

/-- The messages `xs` have been processed. -/
structure Delivered (hostId : UInt8) (xs : List (Fin numChannels × TPCANMsg))
    (motors motors' : Motors n) : Prop where
  settings : ∀ i, (motors' i).settings = (motors i).settings
  timeless : (fun i => (motors' i).timeless) =
    Addressed.deliverAll (fun i => (motors i).key) source
      (fun x => MotorState.receive hostId x.2) xs fun i => (motors i).timeless

section delivered
variable {hostId : UInt8} {ch : Fin numChannels} {msg : TPCANMsg}
  {motors motors' motors'' : Motors n} {xs ys : List (Fin numChannels × TPCANMsg)}

theorem key_of_settings {motor motor' : MotorState} (h : motor'.settings = motor.settings) :
    motor'.key = motor.key := congrArg (fun t => (t.channelIdx, t.motorId)) h

theorem Distinct.of_settings (hd : Distinct motors)
    (h : ∀ i, (motors' i).settings = (motors i).settings) : Distinct motors' where
  wired := fun i => by
    have hdriver : (motors' i).driver.motorId = (motors i).driver.motorId :=
      congrArg Settings.driverId (h i)
    have hid : (motors' i).motorId = (motors i).motorId := congrArg Settings.motorId (h i)
    rw [hdriver, hid, hd.wired]
  inj := fun i j hij => by
    apply hd.inj
    simpa only [key_of_settings (h i), key_of_settings (h j)] using hij

theorem Delivered.nil (hostId : UInt8) (motors : Motors n) : Delivered hostId [] motors motors :=
  ⟨fun _ => rfl, rfl⟩

theorem Delivered.trans (h : Delivered hostId xs motors motors')
    (h' : Delivered hostId ys motors' motors'') : Delivered hostId (xs ++ ys) motors motors'' where
  settings := fun i => (h'.settings i).trans (h.settings i)
  timeless := by
    have hkeys : (fun i => (motors' i).key) = fun i => (motors i).key :=
      funext fun i => key_of_settings (h.settings i)
    rw [Addressed.deliverAll_append, h'.timeless, hkeys, h.timeless]

theorem Processed.delivered (h : Processed hostId ch msg motors motors') (hd : Distinct motors) :
    Delivered hostId [(ch, msg)] motors motors' := ⟨h.settings, h.deliver hd⟩

theorem processMessages_obeys (hd : Distinct motors) (xs : List (Fin numChannels × TPCANMsg)) :
    (processMessages hostId xs motors).Obeys IsClock (Delivered hostId xs motors) := by
  induction xs generalizing motors with
  | nil => exact .nil hostId motors
  | cons x rest ih =>
      rw [processMessages]
      refine (processMessage_obeys _ _ _ _).bind fun motors₁ h₁ => ?_
      have hx := h₁.delivered hd
      exact (ih (hd.of_settings hx.settings)).mono (fun _ h => h) fun _ h => hx.trans h

end delivered

/-! ### The four queues -/

/-- The receive queues of the channels. -/
abbrev Queues := Fin numChannels → List TPCANMsg

/-- The world of the queues: reads report their frames, and then that a queue is empty. -/
def queues : World Sys Queues := fun s c r s' =>
  match c, r with
  | .canRead ch, r =>
      (s ch = [] ∧ r.1 = pcanErrorQrcvEmpty ∧ s' = s) ∨
        ∃ f rest, s ch = f :: rest ∧ r = (pcanErrorOk, f) ∧ s' = Function.update s ch rest
  | _, _ => s' = s

/-- The messages that `process_message` gets from the frames of a channel. -/
def received (ch : Fin numChannels) (frames : List TPCANMsg) : List (Fin numChannels × TPCANMsg) :=
  frames.map fun f => (ch, ({} : TPCANMsg).fill f)

/-- All messages that `drain_and_process` handles: those of the open channels. -/
def pending (channels : Channels) (s : Queues) (ch : Fin numChannels) :
    List (Fin numChannels × TPCANMsg) :=
  if channels ch then received ch (s ch) else []

/-- The messages to the motor at `k`: its channel's frames with its source ID, in their order. -/
def own (channels : Channels) (s : Queues) (k : Fin numChannels × UInt8) :
    List (Fin numChannels × TPCANMsg) :=
  if channels k.1 then received k.1 ((s k.1).filter fun f => f.sourceMotorId = k.2) else []

section queues
variable {hostId : UInt8} {channels : Channels} {motors motors' : Motors n} {s s' : Queues}

theorem processMessage_queues (hd : Distinct motors) (ch : Fin numChannels) (msg : TPCANMsg)
    (s : Queues) :
    Sat queues (fun _ => True) (processMessage ch msg hostId motors)
      (fun motors' s' => Delivered hostId [(ch, msg)] motors motors' ∧ s' = s) s := by
  have hkeep : ∀ (s₁ : Queues) (c : SysCall) (r : c.Resp) (s₂ : Queues), IsClock c → s₁ = s →
      queues s₁ c r s₂ → True ∧ s₂ = s := by
    intro s₁ c r s₂ hc hs h
    cases c with
    | clockGettime => exact ⟨trivial, Eq.trans h hs⟩
    | steadyNow => exact ⟨trivial, Eq.trans h hs⟩
    | _ => exact hc.elim
  refine ((processMessage_obeys ch msg hostId motors).sat hkeep rfl).mono fun motors' s' h => ?_
  exact ⟨h.1.delivered hd, h.2⟩

/-- A channel's queue is emptied and its messages are delivered. -/
theorem processQueue_queues (hd : Distinct motors) (ch : Fin numChannels) (left : ℕ)
    (hlen : (s ch).length ≤ left) :
    Sat queues (fun _ => True) (processQueue ch hostId left motors)
      (fun motors' s' => Delivered hostId (received ch (s ch)) motors motors' ∧
        ∀ c, c ≠ ch → s' c = s c) s := by
  induction left generalizing motors s with
  | zero =>
      rw [List.length_eq_zero_iff.mp (Nat.le_zero.mp hlen)]
      exact ⟨.nil hostId motors, fun _ _ => rfl⟩
  | succ left ih =>
      rw [processQueue, canRead_bind, sat_call]
      intro r s₁ hr
      refine ⟨trivial, ?_⟩
      rcases hr with ⟨hempty, hstatus, rfl⟩ | ⟨f, rest, hqueue, rfl, rfl⟩
      · have hne : (r.1 == pcanErrorOk) = false := by
          rw [hstatus]
          decide
        simp only [hne, hempty]
        exact ⟨.nil hostId motors, fun _ _ => rfl⟩
      · simp only [beq_self_eq_true, if_true]
        refine (processMessage_queues hd ch _ _).bind ?_
        rintro motors₁ _ ⟨h₁, rfl⟩
        have hlen₁ : (Function.update s ch rest ch).length ≤ left := by
          rw [Function.update_self]
          rw [hqueue, List.length_cons] at hlen
          omega
        refine (ih (hd.of_settings h₁.settings) hlen₁).mono fun motors₂ s₂ h₂ => ?_
        rw [Function.update_self] at h₂
        refine ⟨?_, fun c hc => ?_⟩
        · rw [hqueue]
          exact h₁.trans h₂.1
        · rw [h₂.2 c hc, Function.update_of_ne hc]

theorem processChannels_queues (hd : Distinct motors) (l : List (Fin numChannels)) (hl : l.Nodup)
    (hlen : ∀ ch ∈ l, (s ch).length ≤ 256) :
    Sat queues (fun _ => True) (processChannels channels hostId l motors)
      (fun motors' _ => Delivered hostId (l.flatMap (pending channels s)) motors motors') s := by
  induction l generalizing motors s with
  | nil => exact .nil hostId motors
  | cons ch rest ih =>
      obtain ⟨hch, hrest⟩ := List.nodup_cons.mp hl
      rw [processChannels]
      by_cases hopen : channels ch = true
      · simp only [hopen, if_true]
        refine (processQueue_queues hd ch 256 (hlen ch List.mem_cons_self)).bind ?_
        rintro motors₁ s₁ ⟨h₁, hkeep⟩
        have hkeep' : ∀ c ∈ rest, s₁ c = s c := fun c hc => hkeep c fun h => hch (h ▸ hc)
        have hpending : rest.flatMap (pending channels s₁) = rest.flatMap (pending channels s) := by
          apply List.flatMap_congr
          intro c hc
          rw [pending, pending, hkeep' c hc]
        have hlen₁ : ∀ c ∈ rest, (s₁ c).length ≤ 256 := fun c hc => by
          rw [hkeep' c hc]
          exact hlen c (List.mem_cons_of_mem ch hc)
        refine (ih (hd.of_settings h₁.settings) hrest hlen₁).mono fun motors₂ _ h₂ => ?_
        rw [hpending] at h₂
        rw [List.flatMap_cons, pending, if_pos hopen]
        exact h₁.trans h₂
      · simp only [hopen]
        refine (ih hd hrest fun c hc => hlen c (List.mem_cons_of_mem ch hc)).mono ?_
        intro motors' _ h
        rw [List.flatMap_cons, pending, if_neg hopen]
        exact h

/-- A list of parts of which one only is not empty. -/
theorem flatMap_single {α β : Type} {l : List α} {f : α → List β} {a : α} (hl : l.Nodup)
    (ha : a ∈ l) (hf : ∀ b, b ≠ a → f b = []) : l.flatMap f = f a := by
  induction l with
  | nil => cases ha
  | cons b l ih =>
      obtain ⟨hb, hl⟩ := List.nodup_cons.mp hl
      rw [List.flatMap_cons]
      rcases List.mem_cons.mp ha with rfl | ha
      · have hrest : l.flatMap f = [] :=
          List.flatMap_eq_nil_iff.mpr fun c hc => hf c fun h => hb (h ▸ hc)
        rw [hrest, List.append_nil]
      · rw [hf b fun h => hb (h ▸ ha), List.nil_append, ih hl ha]

/-- The messages to one motor among all that are handled. -/
theorem stream_pending (channels : Channels) (s : Queues) (k : Fin numChannels × UInt8) :
    Addressed.stream source k ((List.finRange numChannels).flatMap (pending channels s)) =
      own channels s k := by
  have hother : ∀ ch, ch ≠ k.1 → Addressed.stream source k (pending channels s ch) = [] := by
    intro ch hch
    apply List.filter_eq_nil_iff.mpr
    intro x hx hk
    unfold pending at hx
    split at hx
    · obtain ⟨f, -, rfl⟩ := List.mem_map.mp hx
      exact hch (congrArg Prod.fst (of_decide_eq_true hk))
    · cases hx
  have hsplit : Addressed.stream source k ((List.finRange numChannels).flatMap
      (pending channels s)) = (List.finRange numChannels).flatMap fun ch =>
        Addressed.stream source k (pending channels s ch) := List.filter_flatMap ..
  rw [hsplit, flatMap_single (List.nodup_finRange _) (List.mem_finRange k.1) hother]
  unfold pending own
  split
  · unfold Addressed.stream received
    rw [List.filter_map]
    congr 1
    apply List.filter_congr
    intro f _
    refine Bool.eq_iff_iff.mpr ⟨fun h => ?_, fun h => ?_⟩
    · exact decide_eq_true (congrArg Prod.snd (of_decide_eq_true h))
    · exact decide_eq_true (Prod.ext rfl (of_decide_eq_true h))
  · rfl

end queues

/-! ### Independence -/

section independence
variable {hostId : UInt8} {channels : Channels} {motors motors' : Motors n} {s s' : Queues}

/-- The steps of accepted messages raise the generation. -/
theorem receive_generation {m : UInt8} {msg : TPCANMsg} {motor : MotorState}
    (hsource : msg.sourceMotorId = m) (hdriver : motor.driver.motorId = m) :
    (motor.receive hostId msg).driver.motorId = m ∧
      (motor.receive hostId msg).positionGeneration =
        if isAccepted hostId msg then motor.positionGeneration + 1
        else motor.positionGeneration := by
  unfold MotorState.receive isAccepted
  rw [hsource]
  by_cases hfeedback : Robstride.isFeedbackFrom m msg = true
  · have haccepts : motor.driver.accepts msg = true := by rwa [Robstride.accepts, hdriver]
    simp only [haccepts, hfeedback, if_true, Bool.true_or]
    exact ⟨hdriver, rfl⟩
  · have haccepts : ¬ motor.driver.accepts msg = true := by rwa [Robstride.accepts, hdriver]
    simp only [haccepts, hfeedback]
    cases parseMechanicalPosition msg hostId with
    | none => exact ⟨hdriver, rfl⟩
    | some r => exact ⟨hdriver, rfl⟩

theorem own_source {k : Fin numChannels × UInt8} {x : Fin numChannels × TPCANMsg}
    (h : x ∈ own channels s k) : source x = k := by
  rw [← stream_pending] at h
  exact of_decide_eq_true (List.mem_filter.mp h).2

theorem own_generation {k : Fin numChannels × UInt8} {motor : MotorState}
    (hmotor : motor.driver.motorId = k.2) :
    ((own channels s k).foldl (fun motor x => motor.receive hostId x.2) motor).positionGeneration =
      motor.positionGeneration +
        UInt64.ofNat ((own channels s k).countP fun x => isAccepted hostId x.2) := by
  have hstep : ∀ x ∈ own channels s k, ∀ motor : MotorState, motor.driver.motorId = k.2 →
      (motor.receive hostId x.2).driver.motorId = k.2 ∧
        (motor.receive hostId x.2).positionGeneration =
          if isAccepted hostId x.2 then motor.positionGeneration + 1
          else motor.positionGeneration :=
    fun x hx motor h => receive_generation (congrArg Prod.snd (own_source hx)) h
  let step (x : Fin numChannels × TPCANMsg) (motor : MotorState) := motor.receive hostId x.2
  have hcount := Addressed.count_foldl step MotorState.positionGeneration
    (fun x => isAccepted hostId x.2) (fun motor => motor.driver.motorId = k.2) hstep hmotor
  exact hcount

/-- A motor after the drain, by its own messages. -/
theorem Delivered.apply
    (h : Delivered hostId ((List.finRange numChannels).flatMap (pending channels s)) motors motors')
    (i : Fin n) :
    (motors' i).timeless = (own channels s (motors i).key).foldl
      (fun motor x => motor.receive hostId x.2) (motors i).timeless := by
  rw [← stream_pending]
  exact (congrFun h.timeless i).trans (Addressed.deliverAll_apply _ _ i)

theorem drainAndProcess_queues (hd : Distinct motors) (hlen : ∀ ch, (s ch).length ≤ 256) :
    Sat queues (fun _ => True) (drainAndProcess channels hostId motors)
      (fun motors' _ => Delivered hostId
        ((List.finRange numChannels).flatMap (pending channels s)) motors motors') s :=
  processChannels_queues hd _ (List.nodup_finRange _) fun ch _ => hlen ch

/-- A motor that does not take the message is left as it is. -/
theorem Processed.untouched {ch : Fin numChannels} {msg : TPCANMsg}
    (h : Processed hostId ch msg motors motors') (hd : Distinct motors) {i : Fin n}
    (hi : ¬ ((motors i).key = (ch, msg.sourceMotorId) ∧ isAccepted hostId msg = true)) :
    motors' i = motors i := by
  cases h with
  | rejected => rfl
  | feedback j ts now htakes =>
      have hne : i ≠ j := by
        rintro rfl
        have hid := (Robstride.isFeedbackFrom_iff.mp htakes.2)
        refine hi ⟨hd.key_of_feedback htakes, ?_⟩
        have hfeedback : Robstride.isFeedbackFrom msg.sourceMotorId msg = true :=
          Robstride.isFeedbackFrom_iff.mpr ⟨hid.1, hid.2.1, rfl⟩
        rw [isAccepted, hfeedback, Bool.true_or]
      exact Function.update_of_ne hne _ _
  | position j position now htakes =>
      have hne : i ≠ j := by
        rintro rfl
        refine hi ⟨htakes.key, ?_⟩
        rw [isAccepted, htakes.2, Option.isSome_some, Bool.or_true]
      exact Function.update_of_ne hne _ _

/-- **Motors are independent.**  After `drain_and_process` a motor is what its own messages alone
make of it; its generation counts the accepted ones; its settings are as before; a message changes
no motor but the one at its source that accepts it; and queues with the same messages for every
motor lead to the same motors. -/
theorem messages_independent (channels : Channels) (hostId : UInt8) (motors : Motors n)
    (hd : Distinct motors) (s s' : Queues) (hlen : ∀ ch, (s ch).length ≤ 256) (motors' : Motors n)
    (hrun : Runs queues (drainAndProcess channels hostId motors) s s' (some motors')) :
    (∀ i, ∀ (σ : Type) (W : World Sys σ) (t t' : σ) (alone : Motors n),
      Runs W (processMessages hostId (own channels s (motors i).key) motors) t t' (some alone) →
        (motors' i).timeless = (alone i).timeless) ∧
    (∀ i, (motors' i).positionGeneration = (motors i).positionGeneration +
      UInt64.ofNat ((own channels s (motors i).key).countP fun x => isAccepted hostId x.2)) ∧
    (∀ i, (motors' i).settings = (motors i).settings) ∧
    (∀ (σ : Type) (W : World Sys σ) (t t' : σ) (ch : Fin numChannels) (msg : TPCANMsg)
      (after : Motors n), Runs W (processMessage ch msg hostId motors) t t' (some after) →
        ∀ i, ¬ ((motors i).key = (ch, msg.sourceMotorId) ∧ isAccepted hostId msg = true) →
          after i = motors i) ∧
    (∀ (s₂ s₂' : Queues) (motors₂ : Motors n), (∀ ch, (s₂ ch).length ≤ 256) →
      Runs queues (drainAndProcess channels hostId motors) s₂ s₂' (some motors₂) →
        (∀ i, own channels s₂ (motors i).key = own channels s (motors i).key) →
          ∀ i, (motors₂ i).timeless = (motors' i).timeless) := by
  have hdrain := hrun.post (drainAndProcess_queues hd hlen)
  refine ⟨?_, ?_, hdrain.settings, ?_, ?_⟩
  · intro i σ W t t' alone halone
    have hall : ∀ (s : σ) (c : SysCall) (r : c.Resp) (s' : σ), IsClock c → True → W s c r s' →
        True ∧ True := fun _ _ _ _ _ _ _ => ⟨trivial, trivial⟩
    have hown := (halone.post ((processMessages_obeys hd _).sat hall trivial)).1
    have halone' := congrFun hown.timeless i
    rw [← stream_pending, Addressed.deliverAll_stream] at halone'
    exact (congrFun hdrain.timeless i).trans halone'.symm
  · intro i
    have hgeneration : (motors' i).timeless.positionGeneration = _ :=
      congrArg MotorState.positionGeneration (hdrain.apply i)
    have hwired : (motors i).timeless.driver.motorId = (motors i).key.2 := hd.wired i
    rw [own_generation hwired] at hgeneration
    exact hgeneration
  · intro σ W t t' ch msg after hafter i hi
    have hall : ∀ (s : σ) (c : SysCall) (r : c.Resp) (s' : σ), IsClock c → True → W s c r s' →
        True ∧ True := fun _ _ _ _ _ _ _ => ⟨trivial, trivial⟩
    have hprocessed :=
      (hafter.post ((processMessage_obeys ch msg hostId motors).sat hall trivial)).1
    exact hprocessed.untouched hd hi
  · intro s₂ s₂' motors₂ hlen₂ hrun₂ hown i
    have hdrain₂ := hrun₂.post (drainAndProcess_queues hd hlen₂)
    have hstream : ∀ i, Addressed.stream source (motors i).key
        ((List.finRange numChannels).flatMap (pending channels s₂)) =
          Addressed.stream source (motors i).key
            ((List.finRange numChannels).flatMap (pending channels s)) := by
      intro i
      rw [stream_pending, stream_pending, hown i]
    have hsame := hdrain₂.timeless.trans (Addressed.deliverAll_congr hstream)
    exact congrFun (hsame.trans hdrain.timeless.symm) i

end independence

/-! ### Motors with the same ID -/

/-- Motors 4 of channels 0 and 1. -/
def twoFours : Motors 2 := fun i =>
  { channelIdx := Fin.castLE (by decide) i
    motorId := 4
    uid := zeroData
    driver := { can := Fin.castLE (by decide) i, motorId := 4 } }

/-- A feedback frame of motor 4 is queued on channel 0. -/
def feedbackOnZero : Queues := fun ch =>
  if ch = 0 then [extendedFrame (buildExtId CommType.feedback.code 4 hostIdDefault) zeroData]
  else []

theorem twoFours_distinct : Distinct twoFours := by
  refine ⟨fun _ => rfl, fun i j hij => ?_⟩
  exact Fin.val_inj.mp (congrArg (fun k : Fin numChannels × UInt8 => k.1.val) hij)

/-- The queues as a handler. -/
def queuesHandler : Handler Sys Queues := fun s c =>
  match c with
  | .canRead ch =>
      match s ch with
      | [] => ((pcanErrorQrcvEmpty, {}), s)
      | f :: rest => ((pcanErrorOk, f), Function.update s ch rest)
  | c => (c.quiet, s)

theorem queues_handler (s : Queues) (c : SysCall) :
    queues s c (queuesHandler s c).1 (queuesHandler s c).2 := by
  cases c with
  | canRead ch =>
      cases h : s ch with
      | nil => simp [queues, queuesHandler, h]
      | cons f rest => simp [queues, queuesHandler, h]
  | _ => rfl

/-- The one on channel 0 has the frame, the other one has nothing. -/
theorem messages_independent_fours : ∃ (s' : Queues) (motors' : Motors 2),
    Runs queues (drainAndProcess (fun _ => true) hostIdDefault twoFours) feedbackOnZero s'
      (some motors') ∧
    (motors' 0).positionGeneration = 1 ∧ (motors' 1).positionGeneration = 0 := by
  have hrun := runs_exec (P := fun _ => True) (fun s c _ => ⟨queues_handler s c, trivial⟩)
    (drainAndProcess (fun _ => true) hostIdDefault twoFours) (s := feedbackOnZero) trivial
  have hlen : ∀ ch, (feedbackOnZero ch).length ≤ 256 := by decide
  obtain ⟨motors', hmotors'⟩ : ∃ motors', (exec queuesHandler
      (drainAndProcess (fun _ => true) hostIdDefault twoFours) feedbackOnZero).2 = some motors' :=
    ⟨_, rfl⟩
  rw [hmotors'] at hrun
  have hcount := (messages_independent (fun _ => true) hostIdDefault twoFours twoFours_distinct
    feedbackOnZero _ hlen motors' hrun).2.1
  refine ⟨_, motors', hrun, ?_, ?_⟩
  · rw [hcount 0]
    decide
  · rw [hcount 1]
    decide

end PositionRead

end Qub
