import Mathlib.Tactic.FinCases
import QubController.Feedback
import QubController.MitCodec

/-! # Which bytes a feedback is made of

`CAN_Read` leaves the data bytes beyond `LEN` as they were in the message buffer, which
`drain_feedback` uses for all its reads, and `try_parse_feedback` decodes eight bytes without
a look at `LEN`.  The values of a short frame thus come from an earlier frame or from the
uninitialised buffer; `received_bytes_iff` says for which queues this shows. -/

namespace Qub

open Interaction

namespace MotorThread

/-! ### Setting a motor's feedback -/

/-- The first motor with ID `m` has the feedback `x`. -/
def setFeedback (m : UInt8) (x : MotorFeedback) : List MotorBinding → List MotorBinding
  | [] => []
  | bind :: rest =>
      if bind.motor.motorId = m then
        { bind with motor := { bind.motor with lastFeedback := x } } :: rest
      else bind :: setFeedback m x rest

/-- The feedback of the first motor with ID `m`. -/
def feedbackOf (m : UInt8) : List MotorBinding → Option MotorFeedback
  | [] => none
  | bind :: rest =>
      if bind.motor.motorId = m then some bind.motor.lastFeedback else feedbackOf m rest

def motorIds (motors : List MotorBinding) : List UInt8 := motors.map (·.motor.motorId)

section setFeedback
variable {m m' : UInt8} {x y : MotorFeedback} {motors : List MotorBinding}

@[simp] theorem motorIds_setFeedback : motorIds (setFeedback m x motors) = motorIds motors := by
  induction motors with
  | nil => rfl
  | cons bind rest ih =>
      unfold setFeedback
      split
      · rfl
      · exact congrArg (bind.motor.motorId :: ·) ih

theorem setFeedback_of_not_mem (h : m ∉ motorIds motors) : setFeedback m x motors = motors := by
  induction motors with
  | nil => rfl
  | cons bind rest ih =>
      simp only [motorIds, List.map_cons, List.mem_cons, not_or] at h
      unfold setFeedback
      rw [if_neg (Ne.symm h.1), ih h.2]

theorem setFeedback_setFeedback :
    setFeedback m x (setFeedback m y motors) = setFeedback m x motors := by
  induction motors with
  | nil => rfl
  | cons bind rest ih =>
      by_cases hm : bind.motor.motorId = m
      · simp [setFeedback, hm]
      · simp [setFeedback, hm, ih]

theorem setFeedback_comm (h : m ≠ m') :
    setFeedback m x (setFeedback m' y motors) = setFeedback m' y (setFeedback m x motors) := by
  induction motors with
  | nil => rfl
  | cons bind rest ih =>
      by_cases hm : bind.motor.motorId = m
      · have hm' : bind.motor.motorId ≠ m' := fun h' => h (hm.symm.trans h')
        simp [setFeedback, hm, h]
      · by_cases hm' : bind.motor.motorId = m'
        · simp [setFeedback, hm', Ne.symm h]
        · simp [setFeedback, hm, hm', ih]

theorem feedbackOf_setFeedback (h : m ∈ motorIds motors) :
    feedbackOf m (setFeedback m x motors) = some x := by
  induction motors with
  | nil => simp [motorIds] at h
  | cons bind rest ih =>
      by_cases hm : bind.motor.motorId = m
      · simp [setFeedback, feedbackOf, hm]
      · have hrest : m ∈ motorIds rest := by
          rcases List.mem_cons.mp h with heq | hrest
          · exact absurd heq.symm hm
          · exact hrest
        simp [setFeedback, feedbackOf, hm, ih hrest]

theorem feedbackOf_setFeedback_ne (h : m ≠ m') :
    feedbackOf m (setFeedback m' x motors) = feedbackOf m motors := by
  induction motors with
  | nil => rfl
  | cons bind rest ih =>
      by_cases hm' : bind.motor.motorId = m'
      · simp [setFeedback, feedbackOf, hm', Ne.symm h]
      · simp [setFeedback, feedbackOf, hm', ih]

theorem feedbackOf_of_not_mem (h : m ∉ motorIds motors) : feedbackOf m motors = none := by
  induction motors with
  | nil => rfl
  | cons bind rest ih =>
      simp only [motorIds, List.map_cons, List.mem_cons, not_or] at h
      unfold feedbackOf
      rw [if_neg (Ne.symm h.1), ih h.2]

end setFeedback

/-- The motors with the feedback of those in `ids` wiped out. -/
def wipe (ids : List UInt8) (motors : List MotorBinding) : List MotorBinding :=
  ids.foldr (fun m motors => setFeedback m {} motors) motors

theorem wipe_setFeedback_of_not_mem {m : UInt8} {x : MotorFeedback} {ids : List UInt8}
    (h : m ∉ ids) (motors : List MotorBinding) :
    wipe ids (setFeedback m x motors) = setFeedback m x (wipe ids motors) := by
  induction ids with
  | nil => rfl
  | cons t ids ih =>
      obtain ⟨hne, hids⟩ := not_or.mp (List.mem_cons.not.mp h)
      show setFeedback t {} (wipe ids (setFeedback m x motors)) = _
      rw [ih hids, setFeedback_comm (Ne.symm hne)]
      rfl

/-- A feedback that is wiped out leaves no trace. -/
theorem wipe_setFeedback {m : UInt8} {x : MotorFeedback} {ids : List UInt8} (h : m ∈ ids)
    (motors : List MotorBinding) : wipe ids (setFeedback m x motors) = wipe ids motors := by
  induction ids with
  | nil => cases h
  | cons t ids ih =>
      show setFeedback t {} (wipe ids (setFeedback m x motors)) = setFeedback t {} (wipe ids motors)
      by_cases hids : m ∈ ids
      · rw [ih hids]
      · obtain rfl : m = t := (List.mem_cons.mp h).resolve_right hids
        rw [wipe_setFeedback_of_not_mem hids, setFeedback_setFeedback]

/-! ### Handling a list of frames -/

/-- The type-2 frames. -/
def isFeedback (msg : TPCANMsg) : Bool := msg.extended && msg.commType == CommType.feedback.code

/-- The values that a message carries. -/
def valuesOf (msg : TPCANMsg) : MotorFeedback := (Robstride.decodeFeedback msg ⟨0, 0⟩).values

theorem valuesOf_eq (msg : TPCANMsg) (now : Timespec) :
    valuesOf msg = (Robstride.decodeFeedback msg now).values := by
  simp only [valuesOf, MotorFeedback.values, Robstride.decodeFeedback]

/-- The motors without the time stamps of their feedback. -/
def timeless (motors : List MotorBinding) : List MotorBinding :=
  motors.map fun bind =>
    { bind with motor := { bind.motor with lastFeedback := bind.motor.lastFeedback.values } }

theorem timeless_cons (bind : MotorBinding) (rest : List MotorBinding) :
    timeless (bind :: rest) =
      { bind with motor :=
        { bind.motor with lastFeedback := bind.motor.lastFeedback.values } } :: timeless rest := rfl

/-- What a message does to the motors. -/
def handleFrame (msg : TPCANMsg) (motors : List MotorBinding) : List MotorBinding :=
  if isFeedback msg then setFeedback msg.sourceMotorId (valuesOf msg) motors else motors

/-- What a list of frames, read into the buffer `buf` one after the other, does to them. -/
def handle : TPCANMsg → List TPCANMsg → List MotorBinding → List MotorBinding
  | _, [], motors => motors
  | buf, f :: rest, motors => handle (buf.fill f) rest (handleFrame (buf.fill f) motors)

/-- The buffer after these frames. -/
def fills (buf : TPCANMsg) (frames : List TPCANMsg) : TPCANMsg := frames.foldl TPCANMsg.fill buf

theorem deliver_of_not_any {msg : TPCANMsg} {now : Timespec} {motors : List MotorBinding}
    (h : ¬ motors.any (·.motor.accepts msg) = true) : deliver msg now motors = motors := by
  induction motors with
  | nil => rfl
  | cons bind rest ih =>
      simp only [List.any_cons, Bool.or_eq_true, not_or] at h
      rw [deliver, if_neg h.1, ih h.2]

theorem timeless_deliver (msg : TPCANMsg) (now : Timespec) (motors : List MotorBinding) :
    timeless (deliver msg now motors) = handleFrame msg (timeless motors) := by
  unfold handleFrame
  induction motors with
  | nil => cases isFeedback msg <;> rfl
  | cons bind rest ih =>
      by_cases hfb : isFeedback msg = true
      · rw [if_pos hfb] at ih ⊢
        by_cases hid : bind.motor.motorId = msg.sourceMotorId
        · have haccepts : bind.motor.accepts msg = true := by
            simp [Robstride.isFeedbackFrom, hid]
            simpa [isFeedback] using hfb
          rw [deliver, if_pos haccepts, timeless_cons, timeless_cons, setFeedback, if_pos hid,
            valuesOf_eq msg now]
        · have haccepts : ¬ bind.motor.accepts msg = true := by
            simp [Robstride.isFeedbackFrom, Ne.symm hid]
          simp [deliver, haccepts, timeless, setFeedback, hid] at ih ⊢
          exact ih
      · rw [if_neg hfb] at ih ⊢
        have haccepts : ¬ bind.motor.accepts msg = true := by
          intro h
          simp only [Robstride.isFeedbackFrom, Bool.and_eq_true] at h
          exact hfb (by simp [isFeedback, h.1.1, h.1.2])
        simp [deliver, haccepts, timeless] at ih ⊢
        exact ih

/-! ### One drain -/

/-- What a drain leaves of the motors, but for the time stamps. -/
theorem drainLoop_handles {ch : Fin numChannels} (left : ℕ) (d : Drained) (s : Rx) :
    Sat (fifo ch) (fun _ => True) (drainLoop ch left d)
      (fun d' _ => timeless d'.motors =
        handle d.msg ((leading s.queue).take left) (timeless d.motors)) s := by
  induction left generalizing d s with
  | zero =>
      rw [drainLoop, canRead_bind, sat_call]
      intro r s' h
      refine ⟨trivial, ?_⟩
      by_cases hok : r.1 = pcanErrorOk <;> simp [hok, handle]
  | succ left ih =>
      rw [drainLoop, canRead_bind, sat_call]
      intro r s' h
      refine ⟨trivial, ?_⟩
      simp only [fifo, if_pos] at h
      cases h with
      | empty => simp [leading, handle, pcanErrorQrcvEmpty, pcanErrorOk]
      | fails rest taken sts failed => simp [leading, handle, failed]
      | frame rest taken f =>
          have hdispatch : Sat (fifo ch) (fun _ => True) (dispatch (d.msg.fill f) d.motors)
              (fun motors s' => s' = ⟨rest, taken ++ [f]⟩ ∧
                timeless motors = handleFrame (d.msg.fill f) (timeless d.motors))
              ⟨rest, taken ++ [f]⟩ := by
            refine (dispatch_fifo _ _ _).and ?_
            rw [dispatch_eq]
            split
            · exact fun now _ _ => ⟨trivial, timeless_deliver _ now _⟩
            · rename_i hany
              rw [sat_ret, ← timeless_deliver _ ⟨0, 0⟩, deliver_of_not_any hany]
          refine hdispatch.bind ?_
          rintro motors _ ⟨rfl, hmotors⟩
          refine (ih _ _).mono fun d' s' hd' => ?_
          rw [hd', hmotors]
          rfl

/-! ### Bytes of a buffer -/

section bytes
variable {buf buf' : TPCANMsg} {frames pre post : List TPCANMsg} {f : TPCANMsg}
  {m : UInt8} {motors : List MotorBinding}

theorem handle_append : handle buf (pre ++ post) motors =
    handle (fills buf pre) post (handle buf pre motors) := by
  induction pre generalizing buf motors with
  | nil => rfl
  | cons f pre ih => exact ih

@[simp] theorem motorIds_handleFrame (msg : TPCANMsg) :
    motorIds (handleFrame msg motors) = motorIds motors := by
  unfold handleFrame
  split
  · exact motorIds_setFeedback
  · rfl

@[simp] theorem motorIds_handle : motorIds (handle buf frames motors) = motorIds motors := by
  induction frames generalizing buf motors with
  | nil => rfl
  | cons f frames ih => rw [handle, ih, motorIds_handleFrame]

@[simp] theorem motorIds_timeless : motorIds (timeless motors) = motorIds motors := by
  simp [motorIds, timeless]

/-- Only a motor's own frames touch its feedback. -/
theorem feedbackOf_handle (h : ∀ g ∈ frames, isFeedback g = true → g.sourceMotorId ≠ m) :
    feedbackOf m (handle buf frames motors) = feedbackOf m motors := by
  induction frames generalizing buf motors with
  | nil => rfl
  | cons f frames ih =>
      rw [handle, ih fun g hg => h g (List.mem_cons_of_mem f hg), handleFrame]
      split
      · rename_i hfb
        exact feedbackOf_setFeedback_ne (Ne.symm (h f List.mem_cons_self hfb))
      · rfl

/-- The last feedback of a motor is what it keeps. -/
theorem feedbackOf_handle_last (hf : isFeedback f = true) (hm : f.sourceMotorId ∈ motorIds motors)
    (hpost : ∀ g ∈ post, isFeedback g = true → g.sourceMotorId ≠ f.sourceMotorId) :
    feedbackOf f.sourceMotorId (handle buf (pre ++ f :: post) motors) =
      some (valuesOf ((fills buf pre).fill f)) := by
  have hf' : isFeedback ((fills buf pre).fill f) = true := hf
  rw [handle_append, handle, feedbackOf_handle hpost, handleFrame, if_pos hf']
  exact feedbackOf_setFeedback (by rwa [motorIds_handle])

/-- Bytes beyond all lengths stay what they were. -/
theorem fills_data (i : Fin 8) (h : ∀ g ∈ frames, g.len.toNat ≤ i.val) :
    (fills buf frames).data i = buf.data i := by
  induction frames generalizing buf with
  | nil => rfl
  | cons f frames ih =>
      have hkeep : (buf.fill f).data i = buf.data i :=
        if_neg (not_lt.mpr (h f List.mem_cons_self))
      rw [← hkeep]
      exact ih fun g hg => h g (List.mem_cons_of_mem f hg)

theorem fill_data_beyond {i : Fin 8} (h : f.len.toNat ≤ i.val) :
    (buf.fill f).data i = buf.data i := if_neg (not_lt.mpr h)

theorem fill_congr (h : ∀ i : Fin 8, f.len.toNat ≤ i.val → buf.data i = buf'.data i) :
    buf.fill f = buf'.fill f := by
  have hdata : (buf.fill f).data = (buf'.fill f).data := by
    funext i
    by_cases hi : i.val < f.len.toNat
    · simp [TPCANMsg.fill, hi]
    · simpa [TPCANMsg.fill, hi] using h i (not_lt.mp hi)
  show { f with data := (buf.fill f).data } = { f with data := (buf'.fill f).data }
  rw [hdata]

theorem bigEndian_inj {data data' : Fin 8 → UInt8} {i j : Fin 8}
    (h : bigEndian data i j = bigEndian data' i j) : data i = data' i ∧ data j = data' j := by
  have hword : ∀ (a b : UInt8), (a.toUInt16 <<< 8 ||| b.toUInt16).toNat =
      2 ^ 8 * a.toNat + b.toNat := by
    intro a b
    have h8 : (8 : UInt16).toNat % 16 = 8 := by decide
    have ha := a.toNat_lt
    have hb := b.toNat_lt
    rw [UInt16.toNat_or, UInt16.toNat_shiftLeft, h8, UInt8.toNat_toUInt16, UInt8.toNat_toUInt16,
      Nat.shiftLeft_eq, Nat.mod_eq_of_lt (by omega), Nat.mul_comm,
      ← Nat.two_pow_add_eq_or_of_lt (by omega)]
  have hnat : 2 ^ 8 * (data i).toNat + (data j).toNat =
      2 ^ 8 * (data' i).toNat + (data' j).toNat := by
    rw [← hword, ← hword]
    exact congrArg UInt16.toNat h
  have hj := (data j).toNat_lt
  have hj' := (data' j).toNat_lt
  exact ⟨UInt8.toNat_inj.mp (by omega), UInt8.toNat_inj.mp (by omega)⟩

theorem uintToFloat_inj {lo hi : ℚ} (h : lo < hi) {u u' : UInt16}
    (heq : uintToFloat u (.rat lo) (.rat hi) = uintToFloat u' (.rat lo) (.rat hi)) : u = u' := by
  rw [← floatToUint_uintToFloat h u, heq, floatToUint_uintToFloat h u']

/-- All eight bytes show in the values. -/
theorem valuesOf_data {msg msg' : TPCANMsg} (h : valuesOf msg = valuesOf msg') :
    msg.data = msg'.data := by
  have hposition : bigEndian msg.data 0 1 = bigEndian msg'.data 0 1 :=
    uintToFloat_inj MitField.position.lo_lt_hi (congrArg MotorFeedback.position h)
  have hvelocity : bigEndian msg.data 2 3 = bigEndian msg'.data 2 3 :=
    uintToFloat_inj MitField.velocity.lo_lt_hi (congrArg MotorFeedback.velocity h)
  have htorque : bigEndian msg.data 4 5 = bigEndian msg'.data 4 5 :=
    uintToFloat_inj MitField.torque.lo_lt_hi (congrArg MotorFeedback.torque h)
  have htemperature : bigEndian msg.data 6 7 = bigEndian msg'.data 6 7 := by
    have hrat := CFloat.rat.inj (congrArg MotorFeedback.temperature h)
    have hnat : ((bigEndian msg.data 6 7).toNat : ℚ) = (bigEndian msg'.data 6 7).toNat := by
      linarith
    exact UInt16.toNat_inj.mp (by exact_mod_cast hnat)
  funext i
  have h01 := bigEndian_inj hposition
  have h23 := bigEndian_inj hvelocity
  have h45 := bigEndian_inj htorque
  have h67 := bigEndian_inj htemperature
  fin_cases i
  exacts [h01.1, h01.2, h23.1, h23.2, h45.1, h45.2, h67.1, h67.2]

end bytes

/-! ### Complete frames -/

/-- Every feedback of a bound motor comes in a frame of eight bytes, or in a frame that no
longer one precedes and that a later feedback of the motor replaces. -/
def Complete (motors : List MotorBinding) (frames : List TPCANMsg) : Prop :=
  ∀ pre f post, frames = pre ++ f :: post → isFeedback f = true →
    f.sourceMotorId ∈ motorIds motors →
      f.len = 8 ∨
        (∃ g ∈ post, isFeedback g = true ∧ g.sourceMotorId = f.sourceMotorId) ∧
          ∀ g ∈ pre, g.len ≤ f.len

/-- A frame without its data bytes. -/
def header (msg : TPCANMsg) : TPCANMsg := { msg with data := zeroData }

/-- The feedback in `frames` that does not come in a whole frame is replaced. -/
def Replaced (ids : List UInt8) (frames : List TPCANMsg) : Prop :=
  ∀ pre f post, frames = pre ++ f :: post → isFeedback f = true → f.sourceMotorId ∈ ids →
    f.len = 8 ∨ ∃ g ∈ post, isFeedback g = true ∧ g.sourceMotorId = f.sourceMotorId

section complete
variable {ids : List UInt8} {m : UInt8} {f : TPCANMsg} {frames : List TPCANMsg}

theorem Replaced.tail (h : Replaced ids (f :: frames)) : Replaced ids frames := by
  intro pre g post heq hg hids
  exact h (f :: pre) g post (by rw [heq]; rfl) hg hids

/-- Setting a motor's feedback makes up for what was wiped out. -/
theorem setFeedback_wipe {x : MotorFeedback} (ids : List UInt8) (motors : List MotorBinding) :
    setFeedback m x (wipe ids motors) =
      wipe (ids.filter (· ≠ m)) (setFeedback m x motors) := by
  induction ids with
  | nil => rfl
  | cons t ids ih =>
      show setFeedback m x (setFeedback t {} (wipe ids motors)) = _
      by_cases ht : t = m
      · subst ht
        rw [setFeedback_setFeedback, ih, List.filter_cons_of_neg (by simp)]
      · rw [setFeedback_comm (Ne.symm ht), ih, List.filter_cons_of_pos (by simpa using ht)]
        rfl

/-- The motors agree but for feedback that `frames` is still to replace. -/
def Agree (frames : List TPCANMsg) (motors motors' : List MotorBinding) : Prop :=
  ∃ wiped, (∀ t ∈ wiped, ∃ g ∈ frames, isFeedback g = true ∧ g.sourceMotorId = t) ∧
    wipe wiped motors = wipe wiped motors'

theorem agree_refl (frames : List TPCANMsg) (motors : List MotorBinding) :
    Agree frames motors motors := ⟨[], by simp, rfl⟩

/-- What is wiped out and not set by `f` is set later. -/
theorem replaced_later {t : UInt8} (ht : ∃ g ∈ f :: frames, isFeedback g = true ∧
    g.sourceMotorId = t) (hne : isFeedback f = true → t ≠ f.sourceMotorId) :
    ∃ g ∈ frames, isFeedback g = true ∧ g.sourceMotorId = t := by
  obtain ⟨g, hg, hfb, hsrc⟩ := ht
  rcases List.mem_cons.mp hg with rfl | hg
  · exact absurd hsrc.symm (hne hfb)
  · exact ⟨g, hg, hfb, hsrc⟩

section agree
variable {motors motors' : List MotorBinding} {buf buf' : TPCANMsg}

/-- The same feedback is set. -/
theorem Agree.set (h : Agree (f :: frames) motors motors') (x : MotorFeedback) :
    Agree frames (setFeedback f.sourceMotorId x motors)
      (setFeedback f.sourceMotorId x motors') := by
  obtain ⟨wiped, hwiped, hagree⟩ := h
  refine ⟨wiped.filter (· ≠ f.sourceMotorId), fun t ht => ?_, ?_⟩
  · obtain ⟨ht, hne⟩ := List.mem_filter.mp ht
    exact replaced_later (hwiped t ht) fun _ => of_decide_eq_true hne
  · rw [← setFeedback_wipe, ← setFeedback_wipe, hagree]

/-- Different feedback is set, which is replaced later. -/
theorem Agree.set_ne (h : Agree (f :: frames) motors motors') (x x' : MotorFeedback)
    (hlater : ∃ g ∈ frames, isFeedback g = true ∧ g.sourceMotorId = f.sourceMotorId) :
    Agree frames (setFeedback f.sourceMotorId x motors)
      (setFeedback f.sourceMotorId x' motors') := by
  obtain ⟨wiped, hwiped, hagree⟩ := h
  refine ⟨f.sourceMotorId :: wiped, fun t ht => ?_, ?_⟩
  · by_cases hne : t = f.sourceMotorId
    · rwa [hne]
    · exact replaced_later (hwiped t ((List.mem_cons.mp ht).resolve_left hne)) fun _ => hne
  · rw [wipe_setFeedback List.mem_cons_self, wipe_setFeedback List.mem_cons_self]
    exact congrArg (setFeedback f.sourceMotorId {}) hagree

theorem Agree.step (h : Agree (f :: frames) motors motors') (hframes : Replaced ids (f :: frames))
    (hids : motorIds motors = ids) (hids' : motorIds motors' = ids) :
    Agree frames (handleFrame (buf.fill f) motors) (handleFrame (buf'.fill f) motors') := by
  by_cases hfb : isFeedback f = true
  · have hset : handleFrame (buf.fill f) motors =
        setFeedback f.sourceMotorId (valuesOf (buf.fill f)) motors := if_pos hfb
    have hset' : handleFrame (buf'.fill f) motors' =
        setFeedback f.sourceMotorId (valuesOf (buf'.fill f)) motors' := if_pos hfb
    rw [hset, hset']
    by_cases hbound : f.sourceMotorId ∈ ids
    · rcases hframes [] f frames rfl hfb hbound with hlen | hlater
      · have hmsg : buf.fill f = buf'.fill f := by
          refine fill_congr fun i hi => ?_
          have hi' := i.isLt
          rw [hlen] at hi
          exact absurd hi (not_le.mpr hi')
        rw [hmsg]
        exact h.set _
      · exact h.set_ne _ _ hlater
    · -- no motor has this ID, and the values do not matter
      have hsame := h.set {}
      rw [setFeedback_of_not_mem (by rwa [hids]), setFeedback_of_not_mem (by rwa [hids'])] at hsame
      rwa [setFeedback_of_not_mem (by rwa [hids]), setFeedback_of_not_mem (by rwa [hids'])]
  · have hkeep : handleFrame (buf.fill f) motors = motors := if_neg hfb
    have hkeep' : handleFrame (buf'.fill f) motors' = motors' := if_neg hfb
    rw [hkeep, hkeep']
    obtain ⟨wiped, hwiped, hagree⟩ := h
    exact ⟨wiped, fun t ht => replaced_later (hwiped t ht) fun h => absurd h hfb, hagree⟩

/-- Two runs over the same frames agree at the end. -/
theorem handle_agree (hframes : Replaced ids frames) (hids : motorIds motors = ids)
    (hids' : motorIds motors' = ids) (h : Agree frames motors motors') :
    handle buf frames motors = handle buf' frames motors' := by
  induction frames generalizing buf buf' motors motors' with
  | nil =>
      obtain ⟨wiped, hwiped, hagree⟩ := h
      cases wiped with
      | nil => exact hagree
      | cons t wiped =>
          obtain ⟨g, hg, -⟩ := hwiped t List.mem_cons_self
          cases hg
  | cons f frames ih =>
      rw [handle, handle]
      apply ih hframes.tail
      · rw [motorIds_handleFrame, hids]
      · rw [motorIds_handleFrame, hids']
      · exact h.step hframes hids hids'

end agree

/-- The last element of a kind. -/
theorem exists_last {α : Type} {P : α → Prop} {l : List α} (h : ∃ x ∈ l, P x) :
    ∃ l₁ x l₂, l = l₁ ++ x :: l₂ ∧ P x ∧ ∀ y ∈ l₂, ¬ P y := by
  induction l with
  | nil =>
      obtain ⟨x, hx, -⟩ := h
      cases hx
  | cons y l ih =>
      by_cases hl : ∃ x ∈ l, P x
      · obtain ⟨l₁, x, l₂, rfl, hx, hlast⟩ := ih hl
        exact ⟨y :: l₁, x, l₂, rfl, hx, hlast⟩
      · obtain ⟨x, hx, hP⟩ := h
        rcases List.mem_cons.mp hx with rfl | hx
        · exact ⟨[], x, l, rfl, hP, fun z hz hPz => hl ⟨z, hz, hPz⟩⟩
        · exact absurd ⟨x, hx, hP⟩ hl

theorem fills_append (buf : TPCANMsg) (pre post : List TPCANMsg) :
    fills buf (pre ++ post) = fills (fills buf pre) post := List.foldl_append

/-- The buffer's byte after frames that are too short for it but for one. -/
theorem fills_data_last {buf g : TPCANMsg} {i : Fin 8} {pre post : List TPCANMsg}
    (hg : i.val < g.len.toNat) (hpost : ∀ x ∈ post, x.len.toNat ≤ i.val) :
    (fills buf (pre ++ g :: post)).data i = g.data i := by
  rw [fills_append]
  exact (fills_data i hpost).trans (if_pos hg)

theorem Complete.replaced {motors : List MotorBinding} (h : Complete motors frames) :
    Replaced (motorIds motors) frames := by
  intro pre f post heq hfb hids
  exact (h pre f post heq hfb hids).imp_right fun h => h.1

end complete

section drain
variable {ch : Fin numChannels} {motors : List MotorBinding} {queue : List RxEvent}

theorem drainFeedback_handles {buf : TPCANMsg} {d : Drained} {s' : Rx}
    (h : Runs (fifo ch) (drainFeedback ch motors buf) ⟨queue, []⟩ s' (some d)) :
    timeless d.motors =
      handle buf ((leading queue).take maxFramesPerCycle) (timeless motors) :=
  h.post (drainLoop_handles _ _ _)

theorem drainFeedback_runs (ch : Fin numChannels) (motors : List MotorBinding)
    (queue : List RxEvent) (buf : TPCANMsg) :
    ∃ s' d, Runs (fifo ch) (drainFeedback ch motors buf) ⟨queue, []⟩ s' (some d) :=
  (drainLoop_total ch maxFramesPerCycle _).runs (fifo_answers ch) _

/-- Frames that agree but for their data bytes have equal lengths. -/
theorem len_of_header {pre pre' : List TPCANMsg} (h : pre'.map header = pre.map header)
    {n : UInt8} (hlen : ∀ g ∈ pre, g.len ≤ n) : ∀ g ∈ pre', g.len ≤ n := by
  intro g hg
  have hmem : header g ∈ pre.map header := h ▸ List.mem_map_of_mem hg
  obtain ⟨g₀, hg₀, heq⟩ := List.mem_map.mp hmem
  have hglen : (header g₀).len = (header g).len := congrArg TPCANMsg.len heq
  show (header g).len ≤ n
  exact hglen ▸ hlen g₀ hg₀

/-- What a frame leaves depends on the bytes before it only if it is short. -/
theorem fills_fill_congr {pre pre' : List TPCANMsg} {f : TPCANMsg} (buf : TPCANMsg)
    (hheader : pre'.map header = pre.map header) (h : f.len = 8 ∨ ∀ g ∈ pre, g.len ≤ f.len) :
    (fills buf pre).fill f = (fills buf pre').fill f := by
  refine fill_congr fun i hi => ?_
  rcases h with h | h
  · have hi' := i.isLt
    rw [h] at hi
    exact absurd hi (not_le.mpr hi')
  · have hle : ∀ l : List TPCANMsg, (∀ g ∈ l, g.len ≤ f.len) → ∀ g ∈ l, g.len.toNat ≤ i.val :=
      fun l hl g hg => (UInt8.le_iff_toNat_le.mp (hl g hg)).trans hi
    rw [fills_data i (hle pre h), fills_data i (hle pre' (len_of_header hheader h))]

/-- Whether the values left by one drain depend on the buffer's first contents. -/
def BufferFree (ch : Fin numChannels) (motors : List MotorBinding) (queue : List RxEvent) : Prop :=
  ∀ buf buf' s s' d d',
    Runs (fifo ch) (drainFeedback ch motors buf) ⟨queue, []⟩ s (some d) →
    Runs (fifo ch) (drainFeedback ch motors buf') ⟨queue, []⟩ s' (some d') →
      timeless d.motors = timeless d'.motors

/-- Whether the values taken from one frame depend on the data bytes of those before it. -/
def EarlierFree (ch : Fin numChannels) (motors : List MotorBinding) (queue : List RxEvent) :
    Prop :=
  ∀ pre pre' f buf s s' d d',
    pre ++ [f] <+: (leading queue).take maxFramesPerCycle →
    pre'.map header = pre.map header → isFeedback f = true →
    Runs (fifo ch) (drainFeedback ch motors buf) ⟨(pre ++ [f]).map .frame, []⟩ s (some d) →
    Runs (fifo ch) (drainFeedback ch motors buf) ⟨(pre' ++ [f]).map .frame, []⟩ s' (some d') →
      feedbackOf f.sourceMotorId (timeless d.motors) =
        feedbackOf f.sourceMotorId (timeless d'.motors)

/-- The drain of a prefix of the frames. -/
theorem drainFeedback_taken {pre : List TPCANMsg} {f buf : TPCANMsg} {d : Drained} {s' : Rx}
    (hlen : (pre ++ [f]).length ≤ maxFramesPerCycle)
    (h : Runs (fifo ch) (drainFeedback ch motors buf) ⟨(pre ++ [f]).map .frame, []⟩ s' (some d)) :
    timeless d.motors = handle buf (pre ++ [f]) (timeless motors) := by
  rw [drainFeedback_handles h, leading_map_frame, List.take_of_length_le hlen]

theorem length_of_prefix {pre pre' : List TPCANMsg} {f : TPCANMsg}
    (hpre : pre ++ [f] <+: (leading queue).take maxFramesPerCycle)
    (hheader : pre'.map header = pre.map header) :
    (pre ++ [f]).length ≤ maxFramesPerCycle ∧ (pre' ++ [f]).length ≤ maxFramesPerCycle := by
  have hlen := hpre.length_le
  have heq := congrArg List.length hheader
  simp only [List.length_map, List.length_take, List.length_append] at hlen heq ⊢
  omega

theorem Complete.bufferFree
    (h : Complete motors ((leading queue).take maxFramesPerCycle)) :
    BufferFree ch motors queue := by
  intro buf buf' s s' d d' hd hd'
  rw [drainFeedback_handles hd, drainFeedback_handles hd']
  exact handle_agree h.replaced motorIds_timeless motorIds_timeless (agree_refl _ _)

theorem Complete.earlierFree
    (h : Complete motors ((leading queue).take maxFramesPerCycle)) :
    EarlierFree ch motors queue := by
  intro pre pre' f buf s s' d d' hpre hheader hfb hd hd'
  obtain ⟨hlen, hlen'⟩ := length_of_prefix hpre hheader
  rw [drainFeedback_taken hlen hd, drainFeedback_taken hlen' hd']
  by_cases hbound : f.sourceMotorId ∈ motorIds (timeless motors)
  · obtain ⟨post, hpost⟩ := hpre
    have hcomplete :=
      h pre f post (by rw [← hpost]; simp) hfb (by rwa [motorIds_timeless] at hbound)
    rw [feedbackOf_handle_last hfb hbound (by simp), feedbackOf_handle_last hfb hbound (by simp),
      fills_fill_congr buf hheader (hcomplete.imp_right fun h => h.2)]
  · rw [feedbackOf_of_not_mem (by rwa [motorIds_handle]),
      feedbackOf_of_not_mem (by rwa [motorIds_handle])]

/-- A shorter frame after a longer one shows a byte of it. -/
theorem EarlierFree.len_le (h : EarlierFree ch motors queue)
    (hlen : ∀ f ∈ leading queue, f.len ≤ 8) {pre post : List TPCANMsg} {f : TPCANMsg}
    (hsplit : (leading queue).take maxFramesPerCycle = pre ++ f :: post)
    (hfb : isFeedback f = true) (hbound : f.sourceMotorId ∈ motorIds motors) :
    ∀ g ∈ pre, g.len ≤ f.len := by
  by_contra hlong
  have hex : ∃ g ∈ pre, ¬ g.len ≤ f.len := by simpa using hlong
  obtain ⟨l₁, g, l₂, rfl, hg, hlast⟩ := exists_last hex
  have hmem : g ∈ leading queue := by
    have : g ∈ (leading queue).take maxFramesPerCycle := by simp [hsplit]
    exact List.mem_of_mem_take this
  have hg8 := UInt8.le_iff_toNat_le.mp (hlen g hmem)
  have hfg := UInt8.lt_iff_toNat_lt.mp (UInt8.not_le.mp hg)
  have h8 : (8 : UInt8).toNat = 8 := rfl
  let i : Fin 8 := ⟨f.len.toNat, by omega⟩
  let g' : TPCANMsg := { g with data := fun j => g.data j + 1 }
  have hheader : (l₁ ++ g' :: l₂).map header = (l₁ ++ g :: l₂).map header := by
    simp [header, g']
  have hpre : (l₁ ++ g :: l₂) ++ [f] <+: (leading queue).take maxFramesPerCycle :=
    ⟨post, by simp [hsplit]⟩
  obtain ⟨hlen₁, hlen₂⟩ := length_of_prefix hpre hheader
  obtain ⟨s, d, hd⟩ := drainFeedback_runs ch motors (((l₁ ++ g :: l₂) ++ [f]).map .frame) {}
  obtain ⟨s', d', hd'⟩ := drainFeedback_runs ch motors (((l₁ ++ g' :: l₂) ++ [f]).map .frame) {}
  have heq := h _ _ f {} s s' d d' hpre hheader hfb hd hd'
  have hbound' : f.sourceMotorId ∈ motorIds (timeless motors) := by rwa [motorIds_timeless]
  rw [drainFeedback_taken hlen₁ hd, drainFeedback_taken hlen₂ hd',
    feedbackOf_handle_last hfb hbound' (by simp),
    feedbackOf_handle_last hfb hbound' (by simp)] at heq
  have hdata := congrFun (valuesOf_data (Option.some.inj heq)) i
  have hl₂ : ∀ x ∈ l₂, x.len.toNat ≤ i.val :=
    fun x hx => UInt8.le_iff_toNat_le.mp (not_not.mp (hlast x hx))
  rw [fill_data_beyond (le_refl _), fill_data_beyond (le_refl _),
    fills_data_last (by exact hfg) hl₂, fills_data_last (by exact hfg) hl₂] at hdata
  exact absurd hdata (by simp [g'])

/-- A short last frame shows a byte of the buffer. -/
theorem BufferFree.len_eq (h : BufferFree ch motors queue)
    (hlen : ∀ f ∈ leading queue, f.len ≤ 8) {pre post : List TPCANMsg} {f : TPCANMsg}
    (hsplit : (leading queue).take maxFramesPerCycle = pre ++ f :: post)
    (hfb : isFeedback f = true) (hbound : f.sourceMotorId ∈ motorIds motors)
    (hpre : ∀ g ∈ pre, g.len ≤ f.len)
    (hpost : ∀ g ∈ post, isFeedback g = true → g.sourceMotorId ≠ f.sourceMotorId) :
    f.len = 8 := by
  by_contra hshort
  have hmem : f ∈ leading queue := by
    have : f ∈ (leading queue).take maxFramesPerCycle := by simp [hsplit]
    exact List.mem_of_mem_take this
  have hlt : f.len.toNat < 8 := by
    have hle := UInt8.le_iff_toNat_le.mp (hlen f hmem)
    have hne : f.len.toNat ≠ (8 : UInt8).toNat := fun heq => hshort (UInt8.toNat_inj.mp heq)
    have h8 : (8 : UInt8).toNat = 8 := rfl
    omega
  let i : Fin 8 := ⟨f.len.toNat, hlt⟩
  obtain ⟨s, d, hd⟩ := drainFeedback_runs ch motors queue { data := fun _ => 0 }
  obtain ⟨s', d', hd'⟩ := drainFeedback_runs ch motors queue { data := fun _ => 1 }
  have hbound' : f.sourceMotorId ∈ motorIds (timeless motors) := by rwa [motorIds_timeless]
  have heq := congrArg (feedbackOf f.sourceMotorId) (h _ _ s s' d d' hd hd')
  rw [drainFeedback_handles hd, drainFeedback_handles hd', hsplit,
    feedbackOf_handle_last hfb hbound' hpost, feedbackOf_handle_last hfb hbound' hpost] at heq
  have hdata := congrFun (valuesOf_data (Option.some.inj heq)) i
  have hshorter : ∀ g ∈ pre, g.len.toNat ≤ i.val :=
    fun g hg => UInt8.le_iff_toNat_le.mp (hpre g hg)
  rw [fill_data_beyond (le_refl _), fill_data_beyond (le_refl _), fills_data i hshorter,
    fills_data i hshorter] at hdata
  have h01 : (0 : UInt8) = 1 := hdata
  exact absurd h01 (by decide)

/-- **Feedback is made of received bytes exactly if the frames are complete.**  Any two first
contents of the message buffer give the same values, and what one frame leaves does not depend
on the data bytes of the frames before it. -/
theorem received_bytes_iff (ch : Fin numChannels) (motors : List MotorBinding)
    (queue : List RxEvent) (hlen : ∀ f ∈ leading queue, f.len ≤ 8) :
    BufferFree ch motors queue ∧ EarlierFree ch motors queue ↔
      Complete motors ((leading queue).take maxFramesPerCycle) := by
  constructor
  · rintro ⟨hbuffer, hearlier⟩ pre f post hsplit hfb hbound
    have hpre := hearlier.len_le hlen hsplit hfb hbound
    by_cases hpost : ∃ g ∈ post, isFeedback g = true ∧ g.sourceMotorId = f.sourceMotorId
    · exact .inr ⟨hpost, hpre⟩
    · refine .inl (hbuffer.len_eq hlen hsplit hfb hbound hpre fun g hg hgfb hsrc => ?_)
      exact hpost ⟨g, hg, hgfb, hsrc⟩
  · intro h
    exact ⟨h.bufferFree, h.earlierFree⟩

/-- Frames of eight bytes are complete. -/
theorem complete_of_len {frames : List TPCANMsg} (h : ∀ f ∈ frames, f.len = 8) :
    Complete motors frames := by
  intro pre f post heq _ _
  exact .inl (h f (by simp [heq]))

end drain

/-- Two whole feedback frames. -/
theorem received_bytes_iff_whole :
    BufferFree 0 [motorFour] [.frame feedbackOfFour, .frame feedbackOfFour] ∧
      EarlierFree 0 [motorFour] [.frame feedbackOfFour, .frame feedbackOfFour] := by
  have hframes : ∀ f ∈ [feedbackOfFour, feedbackOfFour], f.len = 8 := by simp [feedbackOfFour]
  refine (received_bytes_iff 0 [motorFour] [.frame feedbackOfFour, .frame feedbackOfFour]
    fun f hf => ?_).mpr (complete_of_len hframes)
  have hlen : f.len = 8 := hframes f hf
  rw [hlen]
  exact UInt8.le_refl 8

/-- A feedback frame of motor 4 without data bytes. -/
def emptyFeedback : TPCANMsg := { feedbackOfFour with len := 0 }

/-- **A feedback frame without data shows the buffer and the frame before it.** -/
theorem empty_feedback_decoded :
    ¬ BufferFree 0 [motorFour] [.frame emptyFeedback] ∧
      ¬ EarlierFree 0 [motorFour] [.frame feedbackOfFour, .frame emptyFeedback] := by
  have hfb : isFeedback emptyFeedback = true := by decide
  have hbound : emptyFeedback.sourceMotorId ∈ motorIds [motorFour] := by decide
  constructor
  · intro h
    have h8 : emptyFeedback.len = 8 := by
      have hsplit : (leading [.frame emptyFeedback]).take maxFramesPerCycle =
          [] ++ emptyFeedback :: [] := rfl
      exact h.len_eq (by decide) hsplit hfb hbound (by simp) (by simp)
    exact absurd h8 (by decide)
  · intro h
    have hle : feedbackOfFour.len ≤ emptyFeedback.len := by
      have hsplit : (leading [.frame feedbackOfFour, .frame emptyFeedback]).take
          maxFramesPerCycle = [feedbackOfFour] ++ emptyFeedback :: [] := rfl
      exact h.len_le (by decide) hsplit hfb hbound _ (by simp)
    exact absurd hle (by decide)

end MotorThread

end Qub
