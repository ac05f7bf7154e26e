import QubController.ChannelPhases
import QubController.Trace

/-! # The stream of commands

What a motor thread writes is a function of the actions it loads: one frame for each bound motor,
in the order of the bindings, for each action, and nothing else, whatever is received, however the
writes end and however long anything takes (`command_stream`).  When the loop has ended every cycle
is complete, and `loop_count()` is their number. -/

namespace Qub

open Interaction

namespace MotorThread

/-- The commands to all motors. -/
def commandFrames (motors : List MotorBinding) (act : ActionState) :
    List (Fin numChannels × TPCANMsg) :=
  motors.map fun b => (b.motor.can, commandFrame act b)

def actionOf : Event Sys → Option ActionState
  | ⟨.loadAction, act⟩ => some act
  | _ => none

def sentOf : Event Sys → Option (Fin numChannels × TPCANMsg)
  | ⟨.canWrite ch msg, _⟩ => some (ch, msg)
  | _ => none

def publishedOf : Event Sys → Option ChannelState
  | ⟨.storeChannel _ state, _⟩ => some state
  | _ => none

/-- The actions loaded, the frames written and the states published, each with the newest first. -/
def actions (log : List (Event Sys)) : List ActionState := log.filterMap actionOf
def sent (log : List (Event Sys)) : List (Fin numChannels × TPCANMsg) := log.filterMap sentOf
def published (log : List (Event Sys)) : List ChannelState := log.filterMap publishedOf

/-- The commands for a list of actions, the newest first. -/
def stream (motors : List MotorBinding) (acts : List ActionState) :
    List (Fin numChannels × TPCANMsg) :=
  acts.flatMap fun act => (commandFrames motors act).reverse

/-- The actions loaded, the frames written and the number of the states published so far. -/
structure Done (acts : List ActionState) (frames : List (Fin numChannels × TPCANMsg)) (states : ℕ)
    (log : List (Event Sys)) : Prop where
  actions_eq : actions log = acts
  sent_eq : sent log = frames
  published_eq : (published log).length = states

/-- At any moment: the commands for all actions but the newest, and the first of those for that
one; and a state for each action but perhaps the newest. -/
def Streaming (motors : List MotorBinding) (log : List (Event Sys)) : Prop :=
  ∃ acts, Done acts (stream motors acts) acts.length log ∨
    ∃ act l, l <+: commandFrames motors act ∧
      Done (act :: acts) (l.reverse ++ stream motors acts) acts.length log

/-- A command is a matter of the settings. -/
theorem commandFrames_of_settings {motors motors' : List MotorBinding}
    (h : motors'.map settings = motors.map settings) (act : ActionState) :
    commandFrames motors' act = commandFrames motors act := by
  have hsettings : ∀ motors : List MotorBinding, commandFrames motors act =
      (motors.map settings).map fun b => (b.motor.can, commandFrame act b) := by
    intro motors
    rw [List.map_map]
    rfl
  rw [hsettings, h, ← hsettings]

section stream
variable {motors : List MotorBinding} {acts : List ActionState} {act : ActionState}
  {frames : List (Fin numChannels × TPCANMsg)} {states : ℕ} {log : List (Event Sys)}

/-- The calls that neither load nor write nor publish. -/
def IsSilent : SysCall → Prop
  | .canRead _ => True
  | .clockGettime => True
  | .clockNanosleep _ => True
  | .loadShutdown => True
  | _ => False

theorem isSilent_of_receive {c : SysCall} (hc : IsReceive c) : IsSilent c := by
  cases c <;> trivial

theorem Done.silent {c : SysCall} (h : Done acts frames states log) (hc : IsSilent c)
    (r : c.Resp) : Done acts frames states (⟨c, r⟩ :: log) := by
  cases c with
  | canRead ch => exact ⟨h.actions_eq, h.sent_eq, h.published_eq⟩
  | clockGettime => exact ⟨h.actions_eq, h.sent_eq, h.published_eq⟩
  | clockNanosleep wake => exact ⟨h.actions_eq, h.sent_eq, h.published_eq⟩
  | loadShutdown => exact ⟨h.actions_eq, h.sent_eq, h.published_eq⟩
  | _ => exact hc.elim

theorem Done.load (h : Done acts frames states log) (act : ActionState) :
    Done (act :: acts) frames states (⟨.loadAction, act⟩ :: log) :=
  ⟨congrArg (act :: ·) h.actions_eq, h.sent_eq, h.published_eq⟩

theorem Done.write (h : Done acts frames states log) (ch : Fin numChannels) (msg : TPCANMsg)
    (sts : TPCANStatus) :
    Done acts ((ch, msg) :: frames) states (⟨.canWrite ch msg, sts⟩ :: log) :=
  ⟨h.actions_eq, congrArg ((ch, msg) :: ·) h.sent_eq, h.published_eq⟩

theorem Done.publish (h : Done acts frames states log) (ch : Fin numChannels)
    (state : ChannelState) :
    Done acts frames (states + 1) (⟨.storeChannel ch state, ()⟩ :: log) :=
  ⟨h.actions_eq, h.sent_eq, congrArg (· + 1) h.published_eq⟩

theorem Done.streaming (h : Done acts (stream motors acts) acts.length log) :
    Streaming motors log := ⟨acts, .inl h⟩

/-- All commands for the newest action have been written. -/
theorem Done.streaming_full (h : Done (act :: acts) (stream motors (act :: acts)) acts.length log) :
    Streaming motors log := ⟨acts, .inr ⟨act, _, List.prefix_rfl, h⟩⟩

/-- By induction over the bindings that are left; `l` are the frames for those before them. -/
theorem sendAll_stream (left : List MotorBinding) {l : List (Fin numChannels × TPCANMsg)}
    (hl : l ++ commandFrames left act = commandFrames motors act)
    (h : Done (act :: acts) (l.reverse ++ stream motors acts) acts.length log) :
    Sat World.trace (Streaming motors) (sendAll act left)
      (fun _ log' => Done (act :: acts) (stream motors (act :: acts)) acts.length log') log := by
  induction left generalizing l log with
  | nil =>
      have hall : l = commandFrames motors act := by simpa [commandFrames] using hl
      rw [hall] at h
      exact h
  | cons b rest ih =>
      rw [sendAll, sendCommand_eq]
      refine sat_trace_call.mpr fun sts => ?_
      have hsplit : (l ++ [(b.motor.can, commandFrame act b)]) ++ commandFrames rest act =
          commandFrames motors act := by
        rw [← hl]
        simp [commandFrames]
      have hnext := h.write b.motor.can (commandFrame act b) sts
      have hreverse : (b.motor.can, commandFrame act b) :: (l.reverse ++ stream motors acts) =
          (l ++ [(b.motor.can, commandFrame act b)]).reverse ++ stream motors acts := by simp
      rw [hreverse] at hnext
      exact ⟨⟨acts, .inr ⟨act, _, ⟨_, hsplit⟩, hnext⟩⟩, ih hsplit hnext⟩

/-- One cycle: one more action, with all its commands and a state. -/
theorem cycle_stream (t : MotorThread) (msg : TPCANMsg)
    (hmotors : t.motors.map settings = motors.map settings)
    (h : Done acts (stream motors acts) acts.length log) :
    Sat World.trace (Streaming motors) (cycle t msg)
      (fun t' log' => t'.motors.map settings = motors.map settings ∧
        t'.loopCount = t.loopCount ∧
        ∃ act, Done (act :: acts) (stream motors (act :: acts)) (act :: acts).length log') log := by
  refine sat_trace_call.mpr fun act => ⟨?_, ?_⟩
  · exact ⟨acts, .inr ⟨act, [], List.nil_prefix, h.load act⟩⟩
  refine (sendAll_stream t.motors (l := []) (commandFrames_of_settings hmotors act)
    (h.load act)).bind fun _ log₁ h₁ => ?_
  refine ((drainLoop_obeys t.channelIdx _ _).sat
    (J := Done (act :: acts) (stream motors (act :: acts)) acts.length) ?_ h₁).bind ?_
  · rintro log₂ c r _ hc h₂ rfl
    have h₃ := h₂.silent (isSilent_of_receive hc) r
    exact ⟨h₃.streaming_full, h₃⟩
  · rintro d log₂ ⟨hsettings, h₂⟩
    refine sat_trace_call.mpr fun ts => ?_
    have hread := h₂.silent (c := .clockGettime) trivial ts
    refine ⟨hread.streaming_full, sat_trace_call.mpr fun _ => ?_⟩
    have h₃ := hread.publish t.channelIdx (channelState d.motors ts.toNs)
    exact ⟨h₃.streaming, hsettings.trans hmotors, rfl, act, h₃⟩

theorem runLoop_stream (buf : ℕ → TPCANMsg) (n : ℕ) (t : MotorThread) (next prevWake : Timespec)
    {count : UInt64} (hmotors : t.motors.map settings = motors.map settings)
    (hcount : t.loopCount = count + UInt64.ofNat acts.length)
    (h : Done acts (stream motors acts) acts.length log) :
    Sat World.trace (Streaming motors) (runLoop buf n t next prevWake)
      (fun t' log' => ∃ acts, Done acts (stream motors acts) acts.length log' ∧
        t'.loopCount = count + UInt64.ofNat acts.length) log := by
  induction n generalizing t next prevWake acts log with
  | zero => trivial
  | succ n ih =>
      rw [runLoop, loadShutdown_bind]
      refine sat_trace_call.mpr fun shutdown => ?_
      have h₁ := h.silent (c := .loadShutdown) trivial shutdown
      refine ⟨h₁.streaming, ?_⟩
      cases shutdown with
      | true => exact ⟨acts, h₁, hcount⟩
      | false =>
          refine (cycle_stream t (buf n) hmotors h₁).bind ?_
          rintro t' log₂ ⟨hmotors', hsame, act, h₂⟩
          refine sat_trace_call.mpr fun now => ?_
          have h₃ := h₂.silent (c := .clockGettime) trivial now
          refine ⟨h₃.streaming, sat_trace_call.mpr fun _ => ?_⟩
          have h₄ := h₃.silent (c := .clockNanosleep (timespecAddNs next motorPeriodNs)) trivial ()
          refine ⟨h₄.streaming, ih _ _ _ hmotors' ?_ h₄⟩
          show t'.loopCount + 1 = count + UInt64.ofNat (acts.length + 1)
          have hsame' : t'.loopCount = t.loopCount := hsame
          rw [hsame', hcount, UInt64.ofNat_add, UInt64.add_assoc]
          rfl

end stream

/-- **The stream of commands.**  At every moment of every run of a motor thread, whatever is
received and however the writes end, the frames written are the commands to the bound motors, in
the order of the bindings, for each action that was loaded; only for the newest of them some, from
the end of the bindings, may still be missing, and its state may still have to be published.  When
the loop has ended nothing is missing, and `loop_count()` is the number of the actions. -/
theorem command_stream {buf : ℕ → TPCANMsg} {n : ℕ} {t : MotorThread} {log : List (Event Sys)}
    {o : Option MotorThread} (h : Runs World.trace (run buf n t) [] log o) :
    Streaming t.motors log ∧ ∀ t', o = some t' →
      sent log = stream t.motors (actions log) ∧
      (published log).length = (actions log).length ∧
      t'.loopCount = t.loopCount + UInt64.ofNat (actions log).length := by
  have hstart : Done [] (stream t.motors []) 0 [] := ⟨rfl, rfl, rfl⟩
  have hrun : Sat World.trace (Streaming t.motors) (run buf n t)
      (fun t' log' => ∃ acts, Done acts (stream t.motors acts) acts.length log' ∧
        t'.loopCount = t.loopCount + UInt64.ofNat acts.length) [] := by
    refine sat_trace_call.mpr fun next => ?_
    have hread := hstart.silent (c := .clockGettime) trivial next
    exact ⟨hread.streaming, runLoop_stream buf n t next next rfl (by simp) hread⟩
  obtain ⟨hstream, hpost⟩ := h.sat hrun hstart.streaming
  refine ⟨hstream, fun t' ho => ?_⟩
  obtain ⟨acts, hdone, hcount⟩ := hpost t' ho
  rw [hdone.actions_eq]
  exact ⟨hdone.sent_eq, hdone.published_eq, hcount⟩

/-- The flag is raised after the second cycle, and no write succeeds. -/
def twoCycles (log : List (Event Sys)) : (c : SysCall) → c.Resp
  | .loadShutdown => decide ((actions log).length = 2)
  | .canWrite _ _ => (1 : TPCANStatus)
  | c => c.quiet

def twoMotors : MotorThread where
  channelIdx := 0
  motors := [⟨{ can := 0, motorId := 4 }, JointIdx.rKneePitch⟩,
    ⟨{ can := 0, motorId := 5 }, JointIdx.rAnklePitch⟩]

theorem command_stream_two : ∃ log t',
    Runs World.trace (run (fun _ => {}) 3 twoMotors) [] log (some t') ∧
    sent log = stream twoMotors.motors (actions log) ∧ (sent log).length = 4 ∧
    t'.loopCount = 2 := by
  have hrun := runs_exec (P := fun _ => True) (W := World.trace)
    (h := fun log c => (twoCycles log c, ⟨c, twoCycles log c⟩ :: log))
    (fun s c _ => ⟨rfl, trivial⟩) (run (fun _ => {}) 3 twoMotors) (s := []) trivial
  obtain ⟨t', ht', hcount⟩ := Option.map_eq_some_iff.mp
    (by decide +kernel : (exec (fun log c => (twoCycles log c, ⟨c, twoCycles log c⟩ :: log))
      (run (fun _ => {}) 3 twoMotors) []).2.map (·.loopCount) = some 2)
  rw [ht'] at hrun
  exact ⟨_, t', hrun, ((command_stream hrun).2 t' rfl).1, by decide +kernel, hcount⟩

end MotorThread

end Qub
