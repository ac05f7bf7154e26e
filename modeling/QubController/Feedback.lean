import Mathlib.Data.List.TakeWhile
import Mathlib.Logic.Function.Iterate
import QubController.MotorThread

/-! # What the motor loop does with the frames it receives

The receive side of a channel is the list of what its next reads report: frames, and reads
that fail; when the list is used up the queue is empty.  The calls of `try_parse_feedback` are
no calls to the driver, so `drainFeedbackLog` is `drain_feedback` with a record of them, and
`drainLoopLog_spec` says exactly what one call takes from the queue and what it offers to the
motors.  The loop's condition reads a frame before it looks at the count, so a thirty-third frame
is taken and dropped: `no_frame_lost_iff` is the exact condition under which no frame is lost. -/

namespace Qub

open Interaction

namespace MotorThread

/-! ### Frames and motors -/

/-- The motors after `msg` was handed to them at time `now`: the first that accepts it has
parsed it. -/
def deliver (msg : TPCANMsg) (now : Timespec) : List MotorBinding → List MotorBinding
  | [] => []
  | bind :: rest =>
      if bind.motor.accepts msg then
        { bind with
          motor := { bind.motor with lastFeedback := Robstride.decodeFeedback msg now } } :: rest
      else bind :: deliver msg now rest

/-- A binding without what its driver has heard. -/
def settings (bind : MotorBinding) : MotorBinding :=
  { bind with motor := { bind.motor with lastFeedback := {} } }

theorem deliver_settings (msg : TPCANMsg) (now : Timespec) :
    ∀ motors : List MotorBinding, (deliver msg now motors).map settings = motors.map settings
  | [] => rfl
  | bind :: rest => by
      unfold deliver
      split
      · rfl
      · rw [List.map_cons, List.map_cons, deliver_settings msg now rest]

/-- Motors stay where they are. -/
theorem keys_of_settings {motors motors' : List MotorBinding}
    (h : motors'.map settings = motors.map settings) :
    motors'.map MotorBinding.key = motors.map MotorBinding.key := by
  have hkeys : ∀ motors : List MotorBinding,
      motors.map MotorBinding.key = (motors.map settings).map MotorBinding.key := by
    intro motors
    rw [List.map_map]
    rfl
  rw [hkeys, h, ← hkeys]

theorem deliver_keys (msg : TPCANMsg) (now : Timespec) (motors : List MotorBinding) :
    (deliver msg now motors).map MotorBinding.key = motors.map MotorBinding.key :=
  keys_of_settings (deliver_settings msg now motors)

/-- `dispatch` reads the clock once if some motor accepts the frame, and does nothing else. -/
theorem dispatch_eq (msg : TPCANMsg) : ∀ motors : List MotorBinding,
    dispatch msg motors =
      if motors.any (·.motor.accepts msg) then
        Prog.call (I := Sys) .clockGettime (fun ts => .ret (deliver msg ts motors))
      else .ret motors
  | [] => rfl
  | bind :: rest => by
      have ih := dispatch_eq msg rest
      by_cases h : bind.motor.accepts msg = true
      · simp [dispatch, Robstride.tryParseFeedback, deliver, h]
      · by_cases hr : (rest.any (·.motor.accepts msg)) = true
        · simp [dispatch, Robstride.tryParseFeedback, deliver, h, ih, hr]
        · simp [dispatch, Robstride.tryParseFeedback, h, ih, hr]

/-- The frame that `send_commands` writes for one motor. -/
def commandFrame (act : ActionState) (bind : MotorBinding) : TPCANMsg :=
  let j := bind.jointIdx
  if act.valid then
    bind.motor.mitFrame (act.qDes j) (act.dqDes j) (act.kp j) (act.kd j) (act.tauFf j)
  else bind.motor.mitFrame (.rat 0) (.rat 0) (.rat 0) (.rat 0) (.rat 0)

theorem sendCommand_eq (act : ActionState) (bind : MotorBinding) :
    sendCommand act bind = bind.motor.writeFrame (commandFrame act bind) := by
  cases h : act.valid <;> simp [sendCommand, commandFrame, Robstride.sendMitCommand, h]

/-! ### The calls of each part -/

def IsWrite : SysCall → Prop
  | .canWrite _ _ => True
  | _ => False

/-- A call of `send_commands`. -/
def IsSend : SysCall → Prop
  | .loadAction => True
  | .canWrite _ _ => True
  | _ => False

/-- A call of `drain_feedback`. -/
def IsReceive : SysCall → Prop
  | .canRead _ => True
  | .clockGettime => True
  | _ => False

/-- A call of `publish_state`. -/
def IsPublish : SysCall → Prop
  | .clockGettime => True
  | .storeChannel _ _ => True
  | _ => False

theorem sendAll_only (act : ActionState) : ∀ motors, (sendAll act motors).Only IsWrite
  | [] => trivial
  | bind :: rest => by
      rw [sendAll, sendCommand_eq]
      exact ⟨trivial, fun _ => sendAll_only act rest⟩

theorem sendCommands_only (motors : List MotorBinding) : (sendCommands motors).Only IsSend := by
  refine ⟨trivial, fun act => (sendAll_only act motors).mono fun c hc => ?_⟩
  cases c <;> trivial

theorem dispatch_obeys (msg : TPCANMsg) (motors : List MotorBinding) :
    (dispatch msg motors).Obeys IsReceive
      (fun motors' => motors'.map settings = motors.map settings) := by
  rw [dispatch_eq]
  split
  · exact ⟨trivial, fun ts => deliver_settings msg ts motors⟩
  · exact rfl

theorem drainLoop_obeys (ch : Fin numChannels) (left : ℕ) (d : Drained) :
    (drainLoop ch left d).Obeys IsReceive
      (fun d' => d'.motors.map settings = d.motors.map settings) := by
  induction left generalizing d with
  | zero =>
      rw [drainLoop, canRead_bind]
      refine ⟨trivial, ?_⟩
      rintro ⟨sts, frame⟩
      by_cases h : sts = pcanErrorOk <;> simp [h, Prog.Obeys]
  | succ left ih =>
      rw [drainLoop, canRead_bind]
      refine ⟨trivial, ?_⟩
      rintro ⟨sts, frame⟩
      by_cases h : sts = pcanErrorOk
      · simp only [h, beq_self_eq_true, if_true]
        refine (dispatch_obeys _ _).bind fun motors hmotors => ?_
        exact (ih _).mono (fun _ hc => hc) fun d' hd' => hd'.trans hmotors
      · simp [h, Prog.Obeys]

theorem drainLoop_keys (ch : Fin numChannels) (left : ℕ) (d : Drained) :
    (drainLoop ch left d).Obeys IsReceive
      (fun d' => d'.motors.map MotorBinding.key = d.motors.map MotorBinding.key) :=
  (drainLoop_obeys ch left d).mono (fun _ hc => hc) fun _ => keys_of_settings

theorem publishState_only (ch : Fin numChannels) (motors : List MotorBinding) :
    (publishState ch motors).Only IsPublish :=
  ⟨trivial, fun _ => ⟨trivial, fun _ => trivial⟩⟩

/-! ### A record of the offers

The definitions of `drain_feedback` and of the cycle once more, with a record of every call of
`try_parse_feedback`; the theorems `_val` say that without the record they are the definitions
themselves. -/

/-- The calls of `try_parse_feedback` for one frame: its message, and the motors called. -/
structure Offer where
  msg : TPCANMsg
  motors : List (Fin numChannels × UInt8)

def dispatchLog (msg : TPCANMsg) :
    List MotorBinding → SysM (List MotorBinding × List (Fin numChannels × UInt8))
  | [] => return ([], [])
  | bind :: rest => do
      let (parsed, motor) ← bind.motor.tryParseFeedback msg
      if parsed then
        return ({ bind with motor } :: rest, [bind.key])
      else
        let (rest, called) ← dispatchLog msg rest
        return (bind :: rest, bind.key :: called)

def drainLoopLog (ch : Fin numChannels) (left : ℕ) (d : Drained) : SysM (Drained × List Offer) := do
  let (sts, frame) ← canRead ch
  if sts == pcanErrorOk then
    let msg := d.msg.fill frame
    match left with
    | 0 => return ({ d with sts, msg }, [])
    | left + 1 =>
        let (motors, called) ← dispatchLog msg d.motors
        let (d, log) ← drainLoopLog ch left { sts, motors, msg }
        return (d, ⟨msg, called⟩ :: log)
  else
    return ({ d with sts }, [])

def drainFeedbackLog (ch : Fin numChannels) (motors : List MotorBinding) (msg : TPCANMsg) :
    SysM (Drained × List Offer) :=
  drainLoopLog ch maxFramesPerCycle ⟨pcanErrorOk, motors, msg⟩

def cycleLog (t : MotorThread) (msg : TPCANMsg) : SysM (MotorThread × List Offer) := do
  sendCommands t.motors
  let (d, log) ← drainFeedbackLog t.channelIdx t.motors msg
  publishState t.channelIdx d.motors
  return ({ t with motors := d.motors }, log)

/-- `n` consecutive cycles. -/
def cycles (buf : ℕ → TPCANMsg) : ℕ → MotorThread → SysM MotorThread
  | 0, t => return t
  | n + 1, t => do
      let t ← cycle t (buf n)
      cycles buf n t

def cyclesLog (buf : ℕ → TPCANMsg) : ℕ → MotorThread → SysM (MotorThread × List Offer)
  | 0, t => return (t, [])
  | n + 1, t => do
      let (t, log) ← cycleLog t (buf n)
      let (t, more) ← cyclesLog buf n t
      return (t, log ++ more)

theorem dispatchLog_val (msg : TPCANMsg) : ∀ motors : List MotorBinding,
    Prod.fst <$> dispatchLog msg motors = dispatch msg motors
  | [] => rfl
  | bind :: rest => by
      rw [dispatchLog, dispatch, map_bind]
      refine bind_congr ?_
      rintro ⟨parsed, motor⟩
      cases parsed with
      | true => rfl
      | false =>
          simp only [Bool.false_eq_true, if_false]
          rw [map_bind, ← dispatchLog_val msg rest, bind_map_left]
          rfl

theorem drainLoopLog_val (ch : Fin numChannels) (left : ℕ) (d : Drained) :
    Prod.fst <$> drainLoopLog ch left d = drainLoop ch left d := by
  induction left generalizing d with
  | zero =>
      rw [drainLoopLog, drainLoop, map_bind]
      refine bind_congr ?_
      rintro ⟨sts, frame⟩
      by_cases h : sts = pcanErrorOk <;> simp [h]
  | succ left ih =>
      rw [drainLoopLog, drainLoop, map_bind]
      refine bind_congr ?_
      rintro ⟨sts, frame⟩
      by_cases h : sts = pcanErrorOk
      · simp only [h, beq_self_eq_true, if_true]
        rw [map_bind, ← dispatchLog_val, bind_map_left]
        refine bind_congr fun r => ?_
        rw [map_bind, ← ih]
        rfl
      · simp [h]

theorem drainFeedbackLog_val (ch : Fin numChannels) (motors : List MotorBinding) (msg : TPCANMsg) :
    Prod.fst <$> drainFeedbackLog ch motors msg = drainFeedback ch motors msg :=
  drainLoopLog_val ch _ _

theorem cycleLog_val (t : MotorThread) (msg : TPCANMsg) :
    Prod.fst <$> cycleLog t msg = cycle t msg := by
  rw [cycleLog, cycle, map_bind]
  refine bind_congr fun _ => ?_
  rw [map_bind, ← drainFeedbackLog_val, bind_map_left]
  refine bind_congr fun r => ?_
  rw [map_bind]
  rfl

theorem cyclesLog_val (buf : ℕ → TPCANMsg) (n : ℕ) (t : MotorThread) :
    Prod.fst <$> cyclesLog buf n t = cycles buf n t := by
  induction n generalizing t with
  | zero => rfl
  | succ n ih =>
      rw [cyclesLog, cycles, map_bind, ← cycleLog_val, bind_map_left]
      refine bind_congr fun r => ?_
      rw [map_bind, ← ih]
      rfl

/-- The motors called for `msg`: up to the first that takes it. -/
def called (msg : TPCANMsg) : List (Fin numChannels × UInt8) → List (Fin numChannels × UInt8)
  | [] => []
  | key :: rest => if Robstride.isFeedbackFrom key.2 msg then [key] else key :: called msg rest

theorem called_eq_nil (msg : TPCANMsg) (keys : List (Fin numChannels × UInt8)) :
    called msg keys = [] ↔ keys = [] := by
  cases keys with
  | nil => simp [called]
  | cons key rest =>
      unfold called
      split <;> simp

/-- `log` has the calls for each of `frames`, in that order. -/
def Dispatched (keys : List (Fin numChannels × UInt8)) (frames : List TPCANMsg)
    (log : List Offer) : Prop :=
  List.Forall₂ (fun frame offer => (∃ buf : TPCANMsg, offer.msg = buf.fill frame) ∧
    offer.motors = called offer.msg keys) frames log

theorem Dispatched.called_eq {keys : List (Fin numChannels × UInt8)} {frames : List TPCANMsg}
    {log : List Offer} (h : Dispatched keys frames log) {offer : Offer} (hoffer : offer ∈ log) :
    offer.motors = called offer.msg keys := by
  induction h with
  | nil => cases hoffer
  | cons hfirst _ ih =>
      rcases List.mem_cons.mp hoffer with rfl | hrest
      · exact hfirst.2
      · exact ih hrest

/-- The frames offered to the motors are exactly `frames`, in that order: the message of each was
given to at least one of the motors, and to none twice. -/
def Offered (keys : List (Fin numChannels × UInt8)) (frames : List TPCANMsg) (log : List Offer) :
    Prop :=
  Dispatched keys frames log ∧ ∀ offer ∈ log, offer.motors ≠ []

/-- If the frames dispatched are some of those taken, all are only if no more were taken. -/
theorem offered_iff {keys : List (Fin numChannels × UInt8)} {taken sent : List TPCANMsg}
    {log : List Offer} {c : Prop} (hsent : Dispatched keys sent log)
    (hlen : taken.length ≤ sent.length → c) (hall : c → taken = sent) :
    Offered keys taken log ↔ c ∧ (keys = [] → taken = []) := by
  constructor
  · rintro ⟨htaken, hcalled⟩
    refine ⟨hlen (htaken.length_eq.trans hsent.length_eq.symm).le, ?_⟩
    rintro rfl
    cases htaken with
    | nil => rfl
    | cons h _ => exact absurd h.2 (hcalled _ List.mem_cons_self)
  · rintro ⟨hc, hnone⟩
    obtain rfl := hall hc
    refine ⟨hsent, fun offer hoffer => ?_⟩
    rw [hsent.called_eq hoffer, Ne, called_eq_nil]
    intro hkeys
    rw [hnone hkeys] at hsent
    cases hsent
    cases hoffer

/-! ### The receive queue -/

/-- What one read of the channel reports. -/
inductive RxEvent
  | frame (msg : TPCANMsg)
  | fails (sts : TPCANStatus) (failed : sts ≠ pcanErrorOk)

/-- The receive side of a channel: what its next reads report, and the frames removed so far. -/
structure Rx where
  queue : List RxEvent
  taken : List TPCANMsg := []

/-- One `CAN_Read` with the status `sts` and, if that is `PCAN_ERROR_OK`, the frame `msg`. -/
inductive Rx.Reads : Rx → TPCANStatus × TPCANMsg → Rx → Prop
  | empty (taken msg) : Reads ⟨[], taken⟩ (pcanErrorQrcvEmpty, msg) ⟨[], taken⟩
  | fails (rest taken sts failed msg) :
      Reads ⟨.fails sts failed :: rest, taken⟩ (sts, msg) ⟨rest, taken⟩
  | frame (rest taken f) :
      Reads ⟨.frame f :: rest, taken⟩ (pcanErrorOk, f) ⟨rest, taken ++ [f]⟩

/-- The world in which channel `ch` reports `Rx.queue`; all other calls are answered in any
way. -/
def fifo (ch : Fin numChannels) : World Sys Rx := fun s c r s' =>
  match c, r with
  | .canRead c', r => if c' = ch then s.Reads r s' else s' = s
  | _, _ => s' = s

/-- The frames that reads report before the first empty or failed one. -/
def leading : List RxEvent → List TPCANMsg
  | .frame f :: rest => f :: leading rest
  | _ => []

/-- What is left of the receive queue after one call of `drain_feedback`. -/
def afterDrain (queue : List RxEvent) : List RxEvent :=
  queue.drop (min (leading queue).length maxFramesPerCycle + 1)

theorem leading_map_frame : ∀ frames : List TPCANMsg, leading (frames.map .frame) = frames
  | [] => rfl
  | f :: rest => congrArg (f :: ·) (leading_map_frame rest)

section fifo
variable {ch : Fin numChannels}

theorem dispatch_fifo (msg : TPCANMsg) (motors : List MotorBinding) (s : Rx) :
    Sat (fifo ch) (fun _ => True) (dispatch msg motors) (fun _ s' => s' = s) s := by
  rw [dispatch_eq]
  split
  · exact fun _ _ h => ⟨trivial, h⟩
  · rfl

/-- The clock is no part of the receive side. -/
theorem dispatchLog_fifo (msg : TPCANMsg) (motors : List MotorBinding) (s : Rx) :
    Sat (fifo ch) (fun _ => True) (dispatchLog msg motors)
      (fun r s' => s' = s ∧ r.1.map MotorBinding.key = motors.map MotorBinding.key ∧
        r.2 = called msg (motors.map MotorBinding.key)) s := by
  induction motors with
  | nil => exact ⟨rfl, rfl, rfl⟩
  | cons bind rest ih =>
      rw [dispatchLog, Robstride.tryParseFeedback, List.map_cons, called]
      by_cases h : bind.motor.accepts msg = true
      · have hkey : Robstride.isFeedbackFrom bind.key.2 msg = true := h
        simp only [h, if_true, hkey, clockGettime_bind]
        rintro ts s' rfl
        exact ⟨trivial, rfl, rfl, rfl⟩
      · have hkey : ¬ Robstride.isFeedbackFrom bind.key.2 msg = true := h
        simp only [h, if_false, hkey, Bool.false_eq_true, Prog.pure_eq, Prog.ret_bind]
        refine ih.bind ?_
        rintro ⟨motors, calls⟩ _ ⟨rfl, hmotors, hcalls⟩
        exact ⟨rfl, congrArg (bind.key :: ·) hmotors, congrArg (bind.key :: ·) hcalls⟩

/-- **What one drain takes and what it offers to the motors.**  With `left` dispatches to go
it takes one frame more than it dispatches, if there is one more. -/
theorem drainLoopLog_spec (left : ℕ) (d : Drained) (s : Rx) :
    Sat (fifo ch) (fun _ => True) (drainLoopLog ch left d)
      (fun r s' => r.1.motors.map MotorBinding.key = d.motors.map MotorBinding.key ∧
        s'.taken = s.taken ++ (leading s.queue).take (left + 1) ∧
        Dispatched (d.motors.map MotorBinding.key) ((leading s.queue).take left) r.2 ∧
        s'.queue = s.queue.drop (min (leading s.queue).length left + 1)) s := by
  induction left generalizing d s with
  | zero =>
      rw [drainLoopLog, canRead_bind, sat_call]
      intro r s' h
      refine ⟨trivial, ?_⟩
      simp only [fifo, if_pos] at h
      cases h with
      | empty => simp [leading, Dispatched, pcanErrorQrcvEmpty, pcanErrorOk]
      | fails rest taken sts failed => simp [leading, Dispatched, failed]
      | frame rest taken f => simp [leading, Dispatched]
  | succ left ih =>
      rw [drainLoopLog, canRead_bind, sat_call]
      intro r s' h
      refine ⟨trivial, ?_⟩
      simp only [fifo, if_pos] at h
      cases h with
      | empty => simp [leading, Dispatched, pcanErrorQrcvEmpty, pcanErrorOk]
      | fails rest taken sts failed => simp [leading, Dispatched, failed]
      | frame rest taken f =>
          refine (dispatchLog_fifo (d.msg.fill f) d.motors _).bind ?_
          rintro ⟨motors, calls⟩ _ ⟨rfl, hmotors, hcalls⟩
          refine (ih _ _).bind ?_
          rintro ⟨d', log⟩ s' ⟨hmotors', htaken, hlog, hqueue⟩
          simp only at hmotors hcalls hmotors' hlog
          rw [hmotors] at hlog
          refine ⟨hmotors'.trans hmotors, ?_, .cons ⟨⟨d.msg, rfl⟩, hcalls⟩ hlog, ?_⟩
          · simp [leading, htaken]
          · simp [leading, hqueue, Nat.add_min_add_right]

/-- The other calls leave the receive side as it is. -/
theorem fifo_other {s s' : Rx} {c : SysCall} {r : c.Resp} (hc : ∀ c', c ≠ .canRead c') :
    fifo ch s c r s' ↔ s' = s := by
  cases c with
  | canRead c' => exact absurd rfl (hc c')
  | _ => exact Iff.rfl

theorem sendCommands_fifo (motors : List MotorBinding) (s : Rx) :
    Sat (fifo ch) (fun _ => True) (sendCommands motors) (fun _ s' => s' = s) s := by
  refine (sendCommands_only motors).sat ?_ rfl
  rintro s₁ c r s₂ hc rfl h
  refine ⟨trivial, (fifo_other ?_).mp h⟩
  rintro c' rfl
  exact hc

theorem publishState_fifo (c : Fin numChannels) (motors : List MotorBinding) (s : Rx) :
    Sat (fifo ch) (fun _ => True) (publishState c motors) (fun _ s' => s' = s) s := by
  refine (publishState_only c motors).sat ?_ rfl
  rintro s₁ c r s₂ hc rfl h
  refine ⟨trivial, (fifo_other ?_).mp h⟩
  rintro c' rfl
  exact hc

/-- One cycle of the loop. -/
theorem cycleLog_spec (t : MotorThread) (msg : TPCANMsg) (s : Rx) :
    Sat (fifo t.channelIdx) (fun _ => True) (cycleLog t msg)
      (fun r s' => r.1.channelIdx = t.channelIdx ∧
        r.1.motors.map MotorBinding.key = t.motors.map MotorBinding.key ∧
        s'.taken = s.taken ++ (leading s.queue).take (maxFramesPerCycle + 1) ∧
        Dispatched (t.motors.map MotorBinding.key) ((leading s.queue).take maxFramesPerCycle) r.2 ∧
        s'.queue = afterDrain s.queue) s := by
  rw [cycleLog]
  refine (sendCommands_fifo t.motors s).bind ?_
  rintro _ _ rfl
  refine (drainLoopLog_spec _ _ _).bind ?_
  rintro ⟨d, log⟩ s₁ ⟨hmotors, htaken, hlog, hqueue⟩
  refine (publishState_fifo _ _ _).bind ?_
  rintro _ _ rfl
  exact ⟨rfl, hmotors, htaken, hlog, hqueue⟩

end fifo

/-! ### Consecutive cycles -/

/-- The first `k` of the frames that each of `n` drains finds. -/
def found (k : ℕ) : ℕ → List RxEvent → List TPCANMsg
  | 0, _ => []
  | n + 1, queue => (leading queue).take k ++ found k n (afterDrain queue)

theorem found_length_le (k n : ℕ) (queue : List RxEvent) :
    (found k n queue).length ≤ (found (k + 1) n queue).length := by
  induction n generalizing queue with
  | zero => simp [found]
  | succ n ih =>
      have htail := ih (afterDrain queue)
      simp only [found, List.length_append, List.length_take]
      omega

/-- Taking one more than what is dispatched takes more, unless there is no more. -/
theorem fits_of_found_length (k n : ℕ) (queue : List RxEvent)
    (h : (found (k + 1) n queue).length ≤ (found k n queue).length) :
    ∀ i < n, (leading (afterDrain^[i] queue)).length ≤ k := by
  induction n generalizing queue with
  | zero => simp
  | succ n ih =>
      have htail := found_length_le k n (afterDrain queue)
      simp only [found, List.length_append, List.length_take] at h
      rw [Nat.forall_lt_succ_left]
      exact ⟨show (leading queue).length ≤ k by omega, ih (afterDrain queue) (by omega)⟩

theorem found_eq_of_fits (k n : ℕ) (queue : List RxEvent)
    (h : ∀ i < n, (leading (afterDrain^[i] queue)).length ≤ k) :
    found (k + 1) n queue = found k n queue := by
  induction n generalizing queue with
  | zero => rfl
  | succ n ih =>
      rw [Nat.forall_lt_succ_left] at h
      have hfirst : (leading queue).length ≤ k := h.1
      rw [found, found, ih _ h.2, List.take_of_length_le hfirst,
        List.take_of_length_le (by omega)]

theorem found_eq_nil (k n : ℕ) (queue : List RxEvent) :
    found (k + 1) n queue = [] ↔ ∀ i < n, leading (afterDrain^[i] queue) = [] := by
  induction n generalizing queue with
  | zero => simp [found]
  | succ n ih =>
      rw [found, List.append_eq_nil_iff, ih, Nat.forall_lt_succ_left, List.take_eq_nil_iff]
      simp

theorem cyclesLog_spec (buf : ℕ → TPCANMsg) (n : ℕ) (t : MotorThread) (s : Rx) :
    Sat (fifo t.channelIdx) (fun _ => True) (cyclesLog buf n t)
      (fun r s' => s'.taken = s.taken ++ found (maxFramesPerCycle + 1) n s.queue ∧
        Dispatched (t.motors.map MotorBinding.key) (found maxFramesPerCycle n s.queue) r.2) s := by
  induction n generalizing t s with
  | zero => exact ⟨(List.append_nil _).symm, .nil⟩
  | succ n ih =>
      rw [cyclesLog]
      refine (cycleLog_spec t (buf n) s).bind ?_
      rintro ⟨t₁, log₁⟩ s₁ ⟨hch, hmotors, htaken, hlog, hqueue⟩
      have ih₁ := ih t₁ s₁
      simp only at hch hmotors hlog
      rw [hch, hmotors] at ih₁
      refine ih₁.bind ?_
      rintro ⟨t₂, log₂⟩ s₂ ⟨htaken₂, hlog₂⟩
      refine ⟨?_, ?_⟩
      · rw [htaken₂, htaken, hqueue, List.append_assoc, found]
      · rw [hqueue] at hlog₂
        exact List.rel_append hlog hlog₂

/-- **No frame is lost if and only if no drain finds more than thirty-two.**  A frame is offered
when `try_parse_feedback` is called with it, and without motors nobody is asked.  For one call of
`drain_feedback`; for a queue of `n` frames and nothing else; and for any number of cycles. -/
theorem no_frame_lost_iff (queue : List RxEvent) :
    (∀ ch motors msg, Prod.fst <$> drainFeedbackLog ch motors msg = drainFeedback ch motors msg) ∧
    (∀ buf n t, Prod.fst <$> cyclesLog buf n t = cycles buf n t) ∧
    (∀ ch motors msg d log s',
      Runs (fifo ch) (drainFeedbackLog ch motors msg) ⟨queue, []⟩ s' (some (d, log)) →
      (Offered (motors.map MotorBinding.key) s'.taken log ↔
        (leading queue).length ≤ maxFramesPerCycle ∧ (motors = [] → leading queue = []))) ∧
    (∀ ch motors msg d log s' (frames : List TPCANMsg), queue = frames.map .frame →
      Runs (fifo ch) (drainFeedbackLog ch motors msg) ⟨queue, []⟩ s' (some (d, log)) →
      (s'.taken = frames.take maxFramesPerCycle ∧
        Offered (motors.map MotorBinding.key) (frames.take maxFramesPerCycle) log ∧
        s'.queue = (frames.drop maxFramesPerCycle).map .frame ↔
          frames.length ≤ maxFramesPerCycle ∧ (motors = [] → frames = []))) ∧
    (∀ t buf n t' log s',
      Runs (fifo t.channelIdx) (cyclesLog buf n t) ⟨queue, []⟩ s' (some (t', log)) →
      (Offered (t.motors.map MotorBinding.key) s'.taken log ↔
        (∀ i < n, (leading (afterDrain^[i] queue)).length ≤ maxFramesPerCycle) ∧
        (t.motors = [] → ∀ i < n, leading (afterDrain^[i] queue) = []))) := by
  have hone : ∀ ch motors msg d log s',
      Runs (fifo ch) (drainFeedbackLog ch motors msg) ⟨queue, []⟩ s' (some (d, log)) →
      (Offered (motors.map MotorBinding.key) s'.taken log ↔
        (leading queue).length ≤ maxFramesPerCycle ∧ (motors = [] → leading queue = [])) := by
    intro ch motors msg d log s' hr
    obtain ⟨-, htaken, hlog, -⟩ := hr.post (drainLoopLog_spec _ _ _)
    rw [List.nil_append] at htaken
    rw [offered_iff (c := (leading queue).length ≤ maxFramesPerCycle) hlog, List.map_eq_nil_iff,
      htaken, List.take_eq_nil_iff]
    · simp
    · intro hlen
      simp only [htaken, List.length_take] at hlen
      omega
    · intro hfits
      rw [htaken, List.take_of_length_le hfits, List.take_of_length_le (Nat.le_succ_of_le hfits)]
  refine ⟨drainFeedbackLog_val, cyclesLog_val, hone, ?_, ?_⟩
  · rintro ch motors msg d log s' frames rfl hr
    obtain ⟨-, htaken, -, hqueue⟩ := hr.post (drainLoopLog_spec _ _ _)
    have hiff := hone ch motors msg d log s' hr
    simp only [leading_map_frame, List.nil_append] at htaken hqueue hiff
    constructor
    · rintro ⟨htake, hoffered, -⟩
      exact hiff.mp (htake ▸ hoffered)
    · rintro ⟨hlen, hnone⟩
      have hall : frames.take maxFramesPerCycle = s'.taken := by
        rw [htaken, List.take_of_length_le hlen, List.take_of_length_le (by omega)]
      refine ⟨hall.symm, hall ▸ hiff.mpr ⟨hlen, hnone⟩, ?_⟩
      rw [hqueue, List.drop_eq_nil_of_le hlen, List.drop_eq_nil_of_le (by simp; omega)]
      rfl
  · intro t buf n t' log s' hr
    obtain ⟨htaken, hlog⟩ := hr.post (cyclesLog_spec buf n t _)
    rw [List.nil_append] at htaken
    rw [htaken, offered_iff hlog (fits_of_found_length _ _ _) (found_eq_of_fits _ _ _),
      List.map_eq_nil_iff, found_eq_nil]

/-! ### A queue of thirty-three frames -/

theorem sendAll_total (act : ActionState) : ∀ motors, (sendAll act motors).Total
  | [] => trivial
  | bind :: rest => by
      rw [sendAll, sendCommand_eq]
      exact fun _ => sendAll_total act rest

theorem dispatch_total (msg : TPCANMsg) (motors : List MotorBinding) :
    (dispatch msg motors).Total := by
  rw [dispatch_eq]
  split
  · exact fun _ => trivial
  · trivial

/-- `drain_feedback` returns, whatever the driver reports. -/
theorem drainLoop_total (ch : Fin numChannels) (left : ℕ) (d : Drained) :
    (drainLoop ch left d).Total := by
  induction left generalizing d with
  | zero =>
      rw [drainLoop, canRead_bind]
      rintro ⟨sts, frame⟩
      by_cases h : sts = pcanErrorOk <;> simp [h]
  | succ left ih =>
      rw [drainLoop, canRead_bind]
      rintro ⟨sts, frame⟩
      by_cases h : sts = pcanErrorOk
      · simp only [h, beq_self_eq_true, if_true]
        exact (dispatch_total _ _).bind fun _ => ih _
      · simp [h]

/-- Every call has an answer. -/
theorem fifo_answers (ch : Fin numChannels) (s : Rx) (c : SysCall) :
    ∃ r s', fifo ch s c r s' := by
  by_cases hc : ∃ c', c = .canRead c'
  · obtain ⟨c', rfl⟩ := hc
    by_cases h : c' = ch
    · rcases s with ⟨_ | ⟨f | ⟨sts, failed⟩, rest⟩, taken⟩
      · exact ⟨_, _, by simpa [fifo, h] using Rx.Reads.empty taken {}⟩
      · exact ⟨_, _, by simpa [fifo, h] using Rx.Reads.frame rest taken f⟩
      · exact ⟨_, _, by simpa [fifo, h] using Rx.Reads.fails rest taken sts failed {}⟩
    · exact ⟨(pcanErrorQrcvEmpty, {}), s, by simp [fifo, h]⟩
  · exact ⟨c.quiet, s, (fifo_other fun c' h => hc ⟨c', h⟩).mpr rfl⟩

/-- A feedback frame of motor 4. -/
def feedbackOfFour : TPCANMsg :=
  extendedFrame (buildExtId CommType.feedback.code 4 hostIdDefault) zeroData

/-- Channel 0 with thirty-three such frames. -/
def fullQueue : Rx := ⟨(List.replicate 33 feedbackOfFour).map .frame, []⟩

/-- Its driver. -/
def motorFour : MotorBinding := ⟨{ can := 0, motorId := 4 }, JointIdx.rKneePitch⟩

theorem drainFeedbackLog_runs (ch : Fin numChannels) (motors : List MotorBinding)
    (msg : TPCANMsg) (s : Rx) : ∃ s' d log,
      Runs (fifo ch) (drainFeedback ch motors msg) s s' (some d) ∧
      Runs (fifo ch) (drainFeedbackLog ch motors msg) s s' (some (d, log)) := by
  obtain ⟨s', d, hr⟩ := (drainLoop_total ch maxFramesPerCycle _).runs (fifo_answers ch) s
  have hlog : Runs (fifo ch) (Prod.fst <$> drainFeedbackLog ch motors msg) s s' (some d) := by
    rw [drainFeedbackLog_val]
    exact hr
  obtain ⟨⟨d', log⟩, rfl, hrlog⟩ := runs_map.mp hlog
  exact ⟨s', d', log, hr, hrlog⟩

/-- **A queue of thirty-three frames loses its last one.** -/
theorem frame_lost : ∃ d log s',
    Runs (fifo 0) (drainFeedback 0 [motorFour] {}) fullQueue s' (some d) ∧
      Runs (fifo 0) (drainFeedbackLog 0 [motorFour] {}) fullQueue s' (some (d, log)) ∧
      s'.queue = [] ∧ s'.taken.length = 33 ∧ log.length = 32 ∧
      ¬ Offered [motorFour.key] s'.taken log := by
  obtain ⟨s', d, log, hr, hrlog⟩ := drainFeedbackLog_runs 0 [motorFour] {} fullQueue
  obtain ⟨-, htaken, hlog, hqueue⟩ := hrlog.post (drainLoopLog_spec _ _ _)
  simp only [fullQueue, leading_map_frame, List.nil_append] at htaken hlog hqueue
  have htaken' : s'.taken.length = 33 := by
    rw [htaken]
    rfl
  have hlog' : log.length = 32 := by
    rw [← hlog.length_eq]
    rfl
  refine ⟨d, log, s', hr, hrlog, ?_, htaken', hlog', ?_⟩
  · rw [hqueue]
    rfl
  · rintro ⟨hall, -⟩
    have := hall.length_eq
    omega

/-- Three frames are all offered. -/
theorem no_frame_lost_three : ∃ d log s',
    Runs (fifo 0) (drainFeedbackLog 0 [motorFour] {})
        ⟨(List.replicate 3 feedbackOfFour).map .frame, []⟩ s' (some (d, log)) ∧
      Offered [motorFour.key] s'.taken log := by
  obtain ⟨s', d, log, -, hr⟩ := drainFeedbackLog_runs 0 [motorFour] {}
    ⟨(List.replicate 3 feedbackOfFour).map .frame, []⟩
  exact ⟨d, log, s', hr, ((no_frame_lost_iff _).2.2.1 _ _ _ _ _ _ hr).mpr (by decide)⟩

end MotorThread

end Qub
