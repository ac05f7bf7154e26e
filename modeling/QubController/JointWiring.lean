import Mathlib.Data.List.FinRange
import QubController.Feedback

/-! # From the motor table to the joints and back

`test_4ch.cpp` splits the motor table into the bindings of four motor threads and later merges
their published slots into arrays over the joints (`combineChannels`).  Between the two stand
the parts of the four loops, in any order: rounds of commands, received frames that are handed
to the motors, and publications.

`Plant` is what they share: the action, the frames written so far and the four slots.
`Tracks` says that a channel's motors are those of the table and that each has parsed the last
frame it accepted; it is kept by every part, and a slot is an image of motors that track the
events before the last publication.  `joint_wiring` reads both directions off it. -/

namespace Qub

open Interaction

/-! ### The code of the policy side -/

/-- One entry of the table gets its driver and is pushed to its channel's bindings. -/
def pushBinding (bindings : Fin numChannels → List MotorBinding) (e : MotorMapEntry) :
    Fin numChannels → List MotorBinding :=
  Function.update bindings e.channelIdx
    (bindings e.channelIdx ++ [⟨{ can := e.channelIdx, motorId := e.motorId }, e.jointIdx⟩])

/-- The bindings of the four threads, as `main` of `test_4ch.cpp` collects them. -/
def bindingsPerCh (entries : List MotorMapEntry) : Fin numChannels → List MotorBinding :=
  entries.foldl pushBinding (fun _ => [])

structure CombinedState where
  q : Fin numJoints → CFloat := fun _ => .rat 0
  dq : Fin numJoints → CFloat := fun _ => .rat 0
  tauEst : Fin numJoints → CFloat := fun _ => .rat 0
  online : Fin numJoints → Bool := fun _ => false

/-- The entries of all four arrays at joint `j` are set. -/
def CombinedState.put (out : CombinedState) (j : Fin numJoints) (q dq tauEst : CFloat)
    (online : Bool) : CombinedState where
  q := Function.update out.q j q
  dq := Function.update out.dq j dq
  tauEst := Function.update out.tauEst j tauEst
  online := Function.update out.online j online

/-- The body of `combine_channels` for the local index `i`. -/
def mergeMotor (cs : ChannelState) (out : CombinedState) (i : Fin maxMotorsPerChannel) :
    CombinedState :=
  if h : 0 ≤ cs.jointIdx i ∧ cs.jointIdx i < numJoints then
    out.put ⟨(cs.jointIdx i).toNat, by omega⟩ (cs.q i) (cs.dq i) (cs.tauEst i) (cs.online i)
  else out

/-- The inner loop of `combine_channels`, over the array indices below `num_motors`. -/
def mergeChannel (out : CombinedState) (cs : ChannelState) : CombinedState :=
  ((List.finRange maxMotorsPerChannel).filter (·.val < cs.numMotors)).foldl (mergeMotor cs) out

/-- `combine_channels`, on the four snapshots that it loads. -/
def combineChannels (channel : Fin numChannels → ChannelState) : CombinedState :=
  ((List.finRange numChannels).map channel).foldl mergeChannel {}

/-! ### The parts of the four loops -/

/-- One part of a motor loop. -/
inductive LoopEvent
  | send
  | frame (msg : TPCANMsg)
  | publish

/-- A part of the loop of channel `c`; `motors` are the drivers of all channels. -/
def handle (motors : Fin numChannels → List MotorBinding) (c : Fin numChannels) :
    LoopEvent → SysM (Fin numChannels → List MotorBinding)
  | .send => do
      MotorThread.sendCommands (motors c)
      return motors
  | .frame msg => do
      let parsed ← MotorThread.dispatch msg (motors c)
      return Function.update motors c parsed
  | .publish => do
      MotorThread.publishState c (motors c)
      return motors

/-- Parts of the four loops, in the order in which they happen. -/
def handleAll (motors : Fin numChannels → List MotorBinding) :
    List (Fin numChannels × LoopEvent) → SysM (Fin numChannels → List MotorBinding)
  | [] => return motors
  | (c, e) :: rest => do
      let motors ← handle motors c e
      handleAll motors rest

/-- What the loops share with the policy and the bus; `action` is the snapshot loaded last. -/
structure Plant where
  action : ActionState := {}
  written : List (Fin numChannels × TPCANMsg) := []
  slot : Fin numChannels → ChannelState := fun _ => {}

/-- The policy may store any action before it is loaded, writes are recorded whether they
succeed or not, and publications replace a slot. -/
def plant : World Sys Plant := fun s c r s' =>
  match c, r with
  | .loadAction, r => s' = { s with action := r }
  | .canWrite ch msg, _ => s' = { s with written := s.written ++ [(ch, msg)] }
  | .storeChannel ch state, _ => s' = { s with slot := Function.update s.slot ch state }
  | _, _ => s' = s

/-! ### The table and its bindings -/

namespace MotorTable

variable (T : MotorTable)

/-- The table's entries on channel `c`, in the table's order. -/
def onChannel (c : Fin numChannels) : List MotorMapEntry :=
  T.entries.filter (·.channelIdx = c)

variable {T}

theorem mem_onChannel {c : Fin numChannels} {e : MotorMapEntry} :
    e ∈ T.onChannel c ↔ e ∈ T.entries ∧ e.channelIdx = c := by
  simp [onChannel]

/-- A joint has one entry. -/
theorem eq_of_joint {e e' : MotorMapEntry} (he : e ∈ T.entries) (he' : e' ∈ T.entries)
    (h : e.jointIdx = e'.jointIdx) : e = e' :=
  List.inj_on_of_nodup_map T.joints_nodup he he' h

/-- A motor has one entry. -/
theorem eq_of_key {e e' : MotorMapEntry} (he : e ∈ T.entries) (he' : e' ∈ T.entries)
    (h : e.key = e'.key) : e = e' :=
  List.inj_on_of_nodup_map T.keys_nodup he he' h

theorem onChannel_ids_nodup (c : Fin numChannels) :
    ((T.onChannel c).map (·.motorId)).Nodup := by
  have hnd : (T.onChannel c).Nodup := (List.Nodup.of_map _ T.keys_nodup).filter _
  refine hnd.map_on ?_
  intro e he e' he' h
  obtain ⟨hmem, hc⟩ := mem_onChannel.mp he
  obtain ⟨hmem', hc'⟩ := mem_onChannel.mp he'
  exact eq_of_key hmem hmem' (by simp [MotorMapEntry.key, hc, hc', h])

end MotorTable

/-- The driver and the joint of a table entry. -/
def MotorMapEntry.binding (e : MotorMapEntry) : MotorBinding :=
  ⟨{ can := e.channelIdx, motorId := e.motorId }, e.jointIdx⟩

/-- The split is by channel and keeps the table's order. -/
theorem bindingsPerCh_eq (entries : List MotorMapEntry) (c : Fin numChannels) :
    bindingsPerCh entries c =
      (entries.filter (·.channelIdx = c)).map MotorMapEntry.binding := by
  have h : ∀ bindings : Fin numChannels → List MotorBinding,
      entries.foldl pushBinding bindings c =
        bindings c ++ (entries.filter (·.channelIdx = c)).map MotorMapEntry.binding := by
    induction entries with
    | nil => simp
    | cons e rest ih =>
        intro bindings
        rw [List.foldl_cons, ih]
        by_cases h : e.channelIdx = c
        · subst h
          simp [pushBinding, MotorMapEntry.binding]
        · simp [pushBinding, h, Ne.symm h]
  exact (h _).trans (List.nil_append _)

/-! ### What the motors of a channel know -/

/-- The frame that a motor with ID `m` accepts from an event. -/
def acceptedFrom (m : UInt8) : LoopEvent → Option TPCANMsg
  | .frame msg => if Robstride.isFeedbackFrom m msg then some msg else none
  | _ => none

/-- The last feedback frame accepted from motor `m`. -/
def lastAccepted (m : UInt8) (events : List LoopEvent) : Option TPCANMsg :=
  events.reverse.findSome? (acceptedFrom m)

def LoopEvent.isPublish : LoopEvent → Bool
  | publish => true
  | _ => false

/-- The events up to the last publication; none if there was no publication. -/
def upToPublish (events : List LoopEvent) : List LoopEvent :=
  (events.reverse.dropWhile (!·.isPublish)).reverse

/-- The feedback is that of the frame, or untouched. -/
def Feeds (fb : MotorFeedback) : Option TPCANMsg → Prop
  | none => fb = {}
  | some msg => fb.position = Robstride.feedbackPosition msg ∧
      fb.velocity = Robstride.feedbackVelocity msg ∧ fb.torque = Robstride.feedbackTorque msg

/-- The motors are those of the table entries `l`, and each has parsed the last frame it
accepted. -/
structure Tracks (l : List MotorMapEntry) (motors : List MotorBinding) (events : List LoopEvent) :
    Prop where
  ids : motors.map (fun b => (b.motor.can, b.motor.motorId, b.jointIdx)) =
    l.map (fun e => (e.channelIdx, e.motorId, e.jointIdx))
  fed : ∀ b ∈ motors, Feeds b.motor.lastFeedback (lastAccepted b.motor.motorId events)

@[simp] theorem lastAccepted_append (m : UInt8) (events : List LoopEvent) (e : LoopEvent) :
    lastAccepted m (events ++ [e]) = (acceptedFrom m e).or (lastAccepted m events) := by
  simp only [lastAccepted, List.reverse_append, List.reverse_singleton, List.singleton_append,
    List.findSome?_cons]
  cases acceptedFrom m e <;> rfl

@[simp] theorem upToPublish_append_publish (events : List LoopEvent) :
    upToPublish (events ++ [.publish]) = events ++ [.publish] := by
  simp [upToPublish, LoopEvent.isPublish]

theorem upToPublish_append (events : List LoopEvent) {e : LoopEvent} (h : e.isPublish = false) :
    upToPublish (events ++ [e]) = upToPublish events := by
  simp [upToPublish, h]

/-- A motor after `msg` was offered to it. -/
def MotorBinding.receive (msg : TPCANMsg) (now : Timespec) (b : MotorBinding) : MotorBinding :=
  if b.motor.accepts msg then
    { b with motor := { b.motor with lastFeedback := Robstride.decodeFeedback msg now } }
  else b

/-- With distinct IDs, that only the first motor parses the frame makes no difference. -/
theorem deliver_eq_map (msg : TPCANMsg) (now : Timespec) :
    ∀ {motors : List MotorBinding}, (motors.map (·.motor.motorId)).Nodup →
      MotorThread.deliver msg now motors = motors.map (·.receive msg now)
  | [], _ => rfl
  | b :: rest, h => by
      rw [List.map_cons, List.nodup_cons] at h
      by_cases hb : b.motor.accepts msg = true
      · have hrest : rest.map (·.receive msg now) = rest := by
          refine (List.map_congr_left fun x hx => ?_).trans (List.map_id _)
          have hx' : ¬ x.motor.accepts msg = true := by
            intro hacc
            have hid := Robstride.isFeedbackFrom_iff.mp hacc
            have hid' := Robstride.isFeedbackFrom_iff.mp hb
            exact h.1 (List.mem_map.mpr ⟨x, hx, hid.2.2.symm.trans hid'.2.2⟩)
          simp [MotorBinding.receive, hx']
        rw [MotorThread.deliver, if_pos hb, List.map_cons, hrest, MotorBinding.receive, if_pos hb]
      · rw [MotorThread.deliver, if_neg hb, List.map_cons, deliver_eq_map msg now h.2,
          MotorBinding.receive, if_neg hb]

namespace Tracks

variable {l : List MotorMapEntry} {motors : List MotorBinding} {events : List LoopEvent}

/-- Fresh drivers have accepted nothing. -/
theorem fresh (l : List MotorMapEntry) : Tracks l (l.map MotorMapEntry.binding) [] where
  ids := by simp [MotorMapEntry.binding]
  fed := by
    intro b hb
    obtain ⟨e, -, rfl⟩ := List.mem_map.mp hb
    rfl

/-- Events in which nothing is received. -/
theorem idle (h : Tracks l motors events) {e : LoopEvent} (he : ∀ m, acceptedFrom m e = none) :
    Tracks l motors (events ++ [e]) := by
  refine ⟨h.ids, fun b hb => ?_⟩
  rw [lastAccepted_append, he, Option.none_or]
  exact h.fed b hb

/-- A frame is offered to all motors. -/
theorem receive (h : Tracks l motors events) (msg : TPCANMsg) (now : Timespec) :
    Tracks l (motors.map (·.receive msg now)) (events ++ [.frame msg]) := by
  constructor
  · rw [← h.ids, List.map_map]
    refine List.map_congr_left fun b _ => ?_
    by_cases hb : b.motor.accepts msg = true
    · simp [MotorBinding.receive, hb]
    · simp [MotorBinding.receive, hb]
  · intro b' hb'
    obtain ⟨b, hb, rfl⟩ := List.mem_map.mp hb'
    have hacc : acceptedFrom b.motor.motorId (.frame msg) =
        if b.motor.accepts msg then some msg else none := rfl
    by_cases h' : b.motor.accepts msg = true
    · simp only [MotorBinding.receive, h', if_true, lastAccepted_append, hacc, Option.some_or]
      exact ⟨rfl, rfl, rfl⟩
    · have hsame : b.receive msg now = b := if_neg h'
      rw [hsame, lastAccepted_append, hacc, if_neg h', Option.none_or]
      exact h.fed b hb

theorem length_eq (h : Tracks l motors events) : motors.length = l.length := by
  have := congrArg List.length h.ids
  simpa using this

theorem motorIds (h : Tracks l motors events) :
    motors.map (·.motor.motorId) = l.map (·.motorId) := by
  have := congrArg (List.map (·.2.1)) h.ids
  simpa [Function.comp_def] using this

/-- Every motor has its entry. -/
theorem entry (h : Tracks l motors events) {b : MotorBinding} (hb : b ∈ motors) :
    ∃ e ∈ l, e.motorId = b.motor.motorId ∧ e.jointIdx = b.jointIdx := by
  have hmem : (b.motor.can, b.motor.motorId, b.jointIdx) ∈
      l.map (fun e => (e.channelIdx, e.motorId, e.jointIdx)) := by
    rw [← h.ids]
    exact List.mem_map.mpr ⟨b, hb, rfl⟩
  obtain ⟨e, he, heq⟩ := List.mem_map.mp hmem
  simp only [Prod.mk.injEq] at heq
  exact ⟨e, he, heq.2.1, heq.2.2⟩

/-- Every entry has its motor. -/
theorem motor (h : Tracks l motors events) {e : MotorMapEntry} (he : e ∈ l) :
    ∃ b ∈ motors, b.jointIdx = e.jointIdx := by
  have hmem : (e.channelIdx, e.motorId, e.jointIdx) ∈
      motors.map (fun b => (b.motor.can, b.motor.motorId, b.jointIdx)) := by
    rw [h.ids]
    exact List.mem_map.mpr ⟨e, he, rfl⟩
  obtain ⟨b, hb, heq⟩ := List.mem_map.mp hmem
  simp only [Prod.mk.injEq] at heq
  exact ⟨b, hb, heq.2.2⟩

end Tracks

/-! ### The parts against the plant -/

/-- The command due to a table entry: the action at its joint, or zeros. -/
def commandTo (act : ActionState) (e : MotorMapEntry) : TPCANMsg :=
  let value (x : Fin numJoints → CFloat) := if act.valid then x e.jointIdx else .rat 0
  extendedFrame
    (buildExtId CommType.mitControl.code (floatToUint (value act.tauFf) tMin tMax) e.motorId)
    (Robstride.mitData (floatToUint (value act.qDes) pMin pMax)
      (floatToUint (value act.dqDes) vMin vMax) (floatToUint (value act.kp) kpMin kpMax)
      (floatToUint (value act.kd) kdMin kdMax))

@[simp] theorem commandTo_destinationId (act : ActionState) (e : MotorMapEntry) :
    (commandTo act e).destinationId = e.motorId := destinationId_buildExtId _ _ _ _

theorem commandFrame_eq (act : ActionState) (b : MotorBinding) :
    MotorThread.commandFrame act b =
      commandTo act ⟨b.motor.can, b.motor.motorId, b.jointIdx, ""⟩ := by
  cases h : act.valid <;>
    simp [MotorThread.commandFrame, Robstride.mitFrame, commandTo, h]

theorem Tracks.commands {l : List MotorMapEntry} {motors : List MotorBinding}
    {events : List LoopEvent} (h : Tracks l motors events) (act : ActionState) :
    motors.map (fun b => (b.motor.can, MotorThread.commandFrame act b)) =
      l.map (fun e => (e.channelIdx, commandTo act e)) := by
  have := congrArg (List.map fun x => (x.1, commandTo act ⟨x.1, x.2.1, x.2.2, ""⟩)) h.ids
  rw [List.map_map, List.map_map] at this
  refine Eq.trans ?_ this
  exact List.map_congr_left fun b _ => by rw [commandFrame_eq]; rfl

section plant

open MotorThread

theorem sendAll_plant (act : ActionState) (motors : List MotorBinding) (s : Plant) :
    Sat plant (fun _ => True) (sendAll act motors)
      (fun _ s' => s' = { s with
        written := s.written ++ motors.map fun b => (b.motor.can, commandFrame act b) }) s := by
  induction motors generalizing s with
  | nil => simp [sendAll]
  | cons b rest ih =>
      rw [sendAll, sendCommand_eq]
      rintro r s₁ rfl
      refine ⟨trivial, (ih _).mono ?_⟩
      rintro _ _ rfl
      simp

theorem sendCommands_plant (motors : List MotorBinding) (s : Plant) :
    Sat plant (fun _ => True) (sendCommands motors)
      (fun _ s' => s'.slot = s.slot ∧ s'.written =
        s.written ++ motors.map fun b => (b.motor.can, commandFrame s'.action b)) s := by
  rintro act s₁ rfl
  refine ⟨trivial, (sendAll_plant act motors _).mono ?_⟩
  rintro _ _ rfl
  exact ⟨rfl, rfl⟩

theorem dispatch_plant (msg : TPCANMsg) {motors : List MotorBinding}
    (hids : (motors.map (·.motor.motorId)).Nodup) (s : Plant) :
    Sat plant (fun _ => True) (dispatch msg motors)
      (fun motors' s' => s' = s ∧ ∃ now, motors' = motors.map (·.receive msg now)) s := by
  rw [dispatch_eq]
  by_cases hany : (motors.any (·.motor.accepts msg)) = true
  · rw [if_pos hany]
    rintro now s₁ rfl
    exact ⟨trivial, rfl, now, deliver_eq_map msg now hids⟩
  · rw [if_neg hany]
    refine ⟨rfl, ⟨0, 0⟩, Eq.symm ?_⟩
    refine (List.map_congr_left fun b hb => ?_).trans (List.map_id _)
    have : ¬ b.motor.accepts msg = true := fun h => hany (List.any_eq_true.mpr ⟨b, hb, h⟩)
    simp [MotorBinding.receive, this]

theorem publishState_plant (c : Fin numChannels) (motors : List MotorBinding) (s : Plant) :
    Sat plant (fun _ => True) (publishState c motors)
      (fun _ s' => ∃ now, s' = { s with
        slot := Function.update s.slot c (channelState motors now) }) s := by
  rintro ts s₁ rfl
  refine ⟨trivial, ?_⟩
  rintro _ s₂ rfl
  exact ⟨trivial, ts.toNs, rfl⟩

end plant

/-! ### All channels -/

/-- The events of channel `c`. -/
def eventsOn (c : Fin numChannels) (events : List (Fin numChannels × LoopEvent)) :
    List LoopEvent :=
  (events.filter (·.1 = c)).map (·.2)

theorem eventsOn_append_self (c : Fin numChannels) (events : List (Fin numChannels × LoopEvent))
    (e : LoopEvent) : eventsOn c (events ++ [(c, e)]) = eventsOn c events ++ [e] := by
  simp [eventsOn]

theorem eventsOn_append_ne {c c' : Fin numChannels} (h : c ≠ c')
    (events : List (Fin numChannels × LoopEvent)) (e : LoopEvent) :
    eventsOn c' (events ++ [(c, e)]) = eventsOn c' events := by
  simp [eventsOn, h]

/-- A slot that no event has filled, or the image of motors that track the events up to the
last publication. -/
def SlotOf (l : List MotorMapEntry) (events : List LoopEvent) (cs : ChannelState) : Prop :=
  (cs = {} ∧ upToPublish events = []) ∨
    ∃ motors now, cs = MotorThread.channelState motors now ∧ Tracks l motors (upToPublish events)

/-- The invariant of the four loops: the motors track what happened on their channel, and so
do the slots up to the last publication. -/
structure Wired (T : MotorTable) (events : List (Fin numChannels × LoopEvent))
    (motors : Fin numChannels → List MotorBinding) (slot : Fin numChannels → ChannelState) :
    Prop where
  tracks : ∀ c, Tracks (T.onChannel c) (motors c) (eventsOn c events)
  slots : ∀ c, SlotOf (T.onChannel c) (eventsOn c events) (slot c)

variable {T : MotorTable} {done : List (Fin numChannels × LoopEvent)}
  {motors : Fin numChannels → List MotorBinding}

theorem wired_init (T : MotorTable) : Wired T [] (bindingsPerCh T.entries) (fun _ => {}) where
  tracks c := by
    rw [bindingsPerCh_eq]
    exact Tracks.fresh _
  slots _ := .inl ⟨rfl, rfl⟩

/-- An event on `c` changes only what belongs to `c`. -/
theorem Wired.update {slot : Fin numChannels → ChannelState} (h : Wired T done motors slot)
    {c : Fin numChannels} {e : LoopEvent} {own : List MotorBinding} {cs : ChannelState}
    (hown : Tracks (T.onChannel c) own (eventsOn c done ++ [e]))
    (hcs : SlotOf (T.onChannel c) (eventsOn c done ++ [e]) cs) :
    Wired T (done ++ [(c, e)]) (Function.update motors c own) (Function.update slot c cs) := by
  constructor
  · intro c'
    by_cases hc : c = c'
    · subst hc
      rw [eventsOn_append_self, Function.update_self]
      exact hown
    · rw [eventsOn_append_ne hc, Function.update_of_ne (Ne.symm hc)]
      exact h.tracks c'
  · intro c'
    by_cases hc : c = c'
    · subst hc
      rw [eventsOn_append_self, Function.update_self]
      exact hcs
    · rw [eventsOn_append_ne hc, Function.update_of_ne (Ne.symm hc)]
      exact h.slots c'

theorem SlotOf.append {l : List MotorMapEntry} {events : List LoopEvent} {cs : ChannelState}
    (h : SlotOf l events cs) {e : LoopEvent} (he : e.isPublish = false) :
    SlotOf l (events ++ [e]) cs := by
  unfold SlotOf
  rw [upToPublish_append events he]
  exact h

/-- Step lemma: one part of one loop. -/
theorem handle_wired {s : Plant} (h : Wired T done motors s.slot) (c : Fin numChannels)
    (e : LoopEvent) :
    Sat plant (fun _ => True) (handle motors c e)
      (fun motors' s' => Wired T (done ++ [(c, e)]) motors' s'.slot) s := by
  cases e with
  | send =>
      refine (sendCommands_plant (motors c) s).bind ?_
      rintro _ s' ⟨hslot, -⟩
      have := h.update (c := c) ((h.tracks c).idle (e := .send) fun _ => rfl)
        ((h.slots c).append rfl)
      rw [Function.update_eq_self, Function.update_eq_self, ← hslot] at this
      exact this
  | frame msg =>
      have hids : ((motors c).map (·.motor.motorId)).Nodup := by
        rw [(h.tracks c).motorIds]
        exact MotorTable.onChannel_ids_nodup c
      refine (dispatch_plant msg hids s).bind ?_
      rintro parsed s' ⟨rfl, now, rfl⟩
      have := h.update (c := c) ((h.tracks c).receive msg now) ((h.slots c).append rfl)
      rwa [Function.update_eq_self c s'.slot] at this
  | publish =>
      refine (publishState_plant c (motors c) s).bind ?_
      rintro _ s' ⟨now, rfl⟩
      have htracks := (h.tracks c).idle (e := .publish) fun _ => rfl
      have hslot : SlotOf (T.onChannel c) (eventsOn c done ++ [.publish])
          (MotorThread.channelState (motors c) now) :=
        .inr ⟨motors c, now, rfl, by rw [upToPublish_append_publish]; exact htracks⟩
      have := h.update htracks hslot
      rwa [Function.update_eq_self] at this

/-- Run lemma: any parts of the four loops, in any order. -/
theorem handleAll_wired (events : List (Fin numChannels × LoopEvent)) {s : Plant}
    (h : Wired T done motors s.slot) :
    Sat plant (fun _ => True) (handleAll motors events)
      (fun motors' s' => Wired T (done ++ events) motors' s'.slot) s := by
  induction events generalizing done motors s with
  | nil =>
      rw [List.append_nil]
      exact h
  | cons ce rest ih =>
      obtain ⟨c, e⟩ := ce
      refine (handle_wired h c e).bind fun motors' s' h' => ?_
      have := ih h'
      rwa [List.append_assoc] at this

/-! ### The merged state -/

/-- What the merged state should hold for a joint whose motor sent `fed` last. -/
def Value (fed : Option TPCANMsg) (q dq tauEst : CFloat) (online : Bool) : Prop :=
  match fed with
  | none => q = .rat 0 ∧ dq = .rat 0 ∧ tauEst = .rat 0 ∧ online = false
  | some msg => q = Robstride.feedbackPosition msg ∧ dq = Robstride.feedbackVelocity msg ∧
      tauEst = Robstride.feedbackTorque msg

/-- The merged state holds it at joint `j`. -/
def CombinedState.Shows (out : CombinedState) (j : Fin numJoints) (fed : Option TPCANMsg) :
    Prop :=
  Value fed (out.q j) (out.dq j) (out.tauEst j) (out.online j)

theorem Feeds.value {fb : MotorFeedback} {fed : Option TPCANMsg} (h : Feeds fb fed)
    (now : UInt64) :
    Value fed fb.position fb.velocity fb.torque (MotorThread.isOnline fb now) := by
  cases fed with
  | none =>
      cases h
      exact ⟨rfl, rfl, rfl, MotorThread.isOnline_untouched now⟩
  | some msg => exact h

section merge
variable {j : Fin numJoints} {fed : Option TPCANMsg} {out : CombinedState}

theorem put_shows_self {q dq tauEst : CFloat} {online : Bool} (h : Value fed q dq tauEst online) :
    (out.put j q dq tauEst online).Shows j fed := by
  simpa [CombinedState.Shows, CombinedState.put] using h

theorem put_shows_ne {j' : Fin numJoints} (hj : j' ≠ j) (h : out.Shows j fed)
    (q dq tauEst : CFloat) (online : Bool) : (out.put j' q dq tauEst online).Shows j fed := by
  simpa [CombinedState.Shows, CombinedState.put, Function.update_of_ne (Ne.symm hj)] using h

/-- The body of the merge loop puts the values of the local motor at its joint. -/
theorem mergeMotor_channelState {motors : List MotorBinding} {i : Fin maxMotorsPerChannel}
    {b : MotorBinding} (hb : motors[i.val]? = some b) (now : UInt64) (out : CombinedState) :
    mergeMotor (MotorThread.channelState motors now) out i =
      out.put b.jointIdx b.motor.lastFeedback.position b.motor.lastFeedback.velocity
        b.motor.lastFeedback.torque (MotorThread.isOnline b.motor.lastFeedback now) := by
  have hrange : (0 : ℤ) ≤ (b.jointIdx : ℤ) ∧ ((b.jointIdx : ℕ) : ℤ) < (numJoints : ℕ) :=
    ⟨by omega, by exact_mod_cast b.jointIdx.isLt⟩
  simp only [mergeMotor, MotorThread.channelState, MotorThread.localArray, hb, Option.map_some,
    Option.getD_some]
  rw [dif_pos hrange]
  rfl

theorem foldl_mergeMotor_shows {motors : List MotorBinding} {now : UInt64}
    (hval : ∀ b ∈ motors, b.jointIdx = j → Feeds b.motor.lastFeedback fed)
    (idx : List (Fin maxMotorsPerChannel)) (hidx : ∀ i ∈ idx, i.val < motors.length)
    (h : out.Shows j fed ∨ ∃ i ∈ idx, ∃ b, motors[i.val]? = some b ∧ b.jointIdx = j) :
    (idx.foldl (mergeMotor (MotorThread.channelState motors now)) out).Shows j fed := by
  induction idx generalizing out with
  | nil =>
      rcases h with h | ⟨i, hi, -⟩
      · exact h
      · cases hi
  | cons i rest ih =>
      have hlt := hidx i List.mem_cons_self
      have hb : motors[i.val]? = some motors[i.val] := List.getElem?_eq_getElem hlt
      rw [List.foldl_cons, mergeMotor_channelState hb]
      refine ih (fun i' hi' => hidx i' (List.mem_cons_of_mem _ hi')) ?_
      by_cases hj : motors[i.val].jointIdx = j
      · subst hj
        exact .inl (put_shows_self ((hval _ (List.getElem_mem hlt) rfl).value now))
      · rcases h with h | ⟨i', hi', b, hb', hbj⟩
        · exact .inl (put_shows_ne hj h _ _ _ _)
        · rcases List.mem_cons.mp hi' with rfl | hi'
          · rw [hb] at hb'
            exact absurd (Option.some.inj hb' ▸ hbj) hj
          · exact .inr ⟨i', hi', b, hb', hbj⟩

/-- One slot: joint `j` shows what it should before the merge, or one of its motors has it. -/
theorem mergeChannel_shows {motors : List MotorBinding} {now : UInt64}
    (hlen : motors.length ≤ maxMotorsPerChannel)
    (hval : ∀ b ∈ motors, b.jointIdx = j → Feeds b.motor.lastFeedback fed)
    (h : out.Shows j fed ∨ ∃ b ∈ motors, b.jointIdx = j) :
    (mergeChannel out (MotorThread.channelState motors now)).Shows j fed := by
  refine foldl_mergeMotor_shows hval _ ?_ ?_
  · intro i hi
    exact of_decide_eq_true (List.mem_filter.mp hi).2
  · refine h.imp_right ?_
    rintro ⟨b, hb, hj⟩
    obtain ⟨i, hi, rfl⟩ := List.mem_iff_getElem.mp hb
    refine ⟨⟨i, by omega⟩, ?_, motors[i], List.getElem?_eq_getElem hi, hj⟩
    exact List.mem_filter.mpr ⟨List.mem_finRange _, decide_eq_true hi⟩

/-- All slots: each keeps what joint `j` shows, and it shows from the start or one sets it. -/
theorem foldl_mergeChannel_shows (slots : List ChannelState)
    (hkeep : ∀ cs ∈ slots, ∀ out : CombinedState,
      out.Shows j fed → (mergeChannel out cs).Shows j fed)
    (h : out.Shows j fed ∨ ∃ cs ∈ slots, ∀ out, (mergeChannel out cs).Shows j fed) :
    (slots.foldl mergeChannel out).Shows j fed := by
  induction slots generalizing out with
  | nil =>
      rcases h with h | ⟨cs, hcs, -⟩
      · exact h
      · cases hcs
  | cons cs rest ih =>
      refine ih (fun cs' hcs' => hkeep cs' (List.mem_cons_of_mem _ hcs')) ?_
      rcases h with h | ⟨cs', hcs', hset⟩
      · exact .inl (hkeep cs List.mem_cons_self out h)
      · rcases List.mem_cons.mp hcs' with rfl | hcs'
        · exact .inl (hset out)
        · exact .inr ⟨cs', hcs', hset⟩

end merge

/-- A slot keeps what a joint shows if every motor of the channel on that joint is fed by it. -/
theorem SlotOf.keeps {l : List MotorMapEntry} {events : List LoopEvent} {cs : ChannelState}
    (h : SlotOf l events cs) (hlen : l.length ≤ maxMotorsPerChannel) {j : Fin numJoints}
    {fed : Option TPCANMsg}
    (hfed : ∀ e ∈ l, e.jointIdx = j → lastAccepted e.motorId (upToPublish events) = fed)
    (out : CombinedState) (hout : out.Shows j fed) : (mergeChannel out cs).Shows j fed := by
  rcases h with ⟨rfl, -⟩ | ⟨motors, now, rfl, htracks⟩
  · simpa [mergeChannel] using hout
  · refine mergeChannel_shows (htracks.length_eq ▸ hlen) ?_ (.inl hout)
    intro b hb hj
    obtain ⟨e, he, hid, hje⟩ := htracks.entry hb
    rw [← hfed e he (hje.trans hj), hid]
    exact htracks.fed b hb

variable {slot : Fin numChannels → ChannelState}

/-- The merged state shows every joint's last published feedback. -/
theorem Wired.shows (h : Wired T done motors slot) {e : MotorMapEntry} (he : e ∈ T.entries) :
    (combineChannels slot).Shows e.jointIdx
      (lastAccepted e.motorId (upToPublish (eventsOn e.channelIdx done))) := by
  have hfed : ∀ c, ∀ e' ∈ T.onChannel c, e'.jointIdx = e.jointIdx →
      lastAccepted e'.motorId (upToPublish (eventsOn c done)) =
        lastAccepted e.motorId (upToPublish (eventsOn e.channelIdx done)) := by
    intro c e' he' hj
    obtain ⟨hmem, hc⟩ := MotorTable.mem_onChannel.mp he'
    rw [MotorTable.eq_of_joint hmem he hj] at hc ⊢
    rw [hc]
  refine foldl_mergeChannel_shows _ ?_ ?_
  · intro cs hcs
    obtain ⟨c, -, rfl⟩ := List.mem_map.mp hcs
    exact (h.slots c).keeps (T.channel_le c) (hfed c)
  · rcases h.slots e.channelIdx with ⟨-, hnone⟩ | ⟨published, now, hcs, htracks⟩
    · rw [hnone]
      exact .inl ⟨rfl, rfl, rfl, rfl⟩
    · refine .inr ⟨slot e.channelIdx, List.mem_map.mpr ⟨_, List.mem_finRange _, rfl⟩, ?_⟩
      intro out
      rw [hcs]
      refine mergeChannel_shows (htracks.length_eq ▸ T.channel_le _) ?_
        (.inr (htracks.motor (MotorTable.mem_onChannel.mpr ⟨he, rfl⟩)))
      intro b hb hj
      obtain ⟨e', he', hid, hje⟩ := htracks.entry hb
      rw [← hfed _ e' he' (hje.trans hj), hid]
      exact htracks.fed b hb

/-- A joint without an entry shows nothing. -/
theorem Wired.shows_none (h : Wired T done motors slot) {j : Fin numJoints}
    (hj : ∀ e ∈ T.entries, e.jointIdx ≠ j) : (combineChannels slot).Shows j none := by
  refine foldl_mergeChannel_shows _ ?_ (.inl ⟨rfl, rfl, rfl, rfl⟩)
  intro cs hcs
  obtain ⟨c, -, rfl⟩ := List.mem_map.mp hcs
  refine (h.slots c).keeps (T.channel_le c) ?_
  intro e he hje
  exact absurd hje (hj e (MotorTable.mem_onChannel.mp he).1)

/-! ### The wiring -/

theorem filter_eq_singleton {α β : Type} [DecidableEq β] {f : α → β} {l : List α}
    (h : (l.map f).Nodup) {a : α} (ha : a ∈ l) : l.filter (fun x => f x = f a) = [a] := by
  induction l with
  | nil => cases ha
  | cons x rest ih =>
      rw [List.map_cons, List.nodup_cons] at h
      rcases List.mem_cons.mp ha with rfl | ha
      · rw [List.filter_cons_of_pos (by simp), List.filter_eq_nil_iff.mpr]
        intro y hy hfy
        exact h.1 (List.mem_map.mpr ⟨y, hy, of_decide_eq_true hfy⟩)
      · rw [List.filter_cons_of_neg, ih h.2 ha]
        intro hfx
        exact h.1 (of_decide_eq_true hfx ▸ List.mem_map.mpr ⟨a, ha, rfl⟩)

/-- **Joint wiring.**  After any parts of the four loops: a round of commands on a channel
writes one command for each of its entries, addressed to the entry's motor and made from the
entry's joint, and nothing else; and the merged state shows at every joint the feedback that
was last accepted from the joint's motor before its channel's last publication. -/
theorem joint_wiring (T : MotorTable) (events : List (Fin numChannels × LoopEvent))
    {motors : Fin numChannels → List MotorBinding} {s : Plant}
    (h : Runs plant (handleAll (bindingsPerCh T.entries) events) {} s (some motors)) :
    (∀ c s', Runs plant (MotorThread.sendCommands (motors c)) s s' (some ()) →
      ∃ frames, s'.written = s.written ++ frames ∧
        frames = (T.onChannel c).map (fun e => (c, commandTo s'.action e)) ∧
        ∀ e ∈ T.entries, e.channelIdx = c →
          frames.filter (·.2.destinationId = e.motorId) = [(c, commandTo s'.action e)]) ∧
    (∀ e ∈ T.entries, (combineChannels s.slot).Shows e.jointIdx
      (lastAccepted e.motorId (upToPublish (eventsOn e.channelIdx events)))) ∧
    ∀ j, (∀ e ∈ T.entries, e.jointIdx ≠ j) → (combineChannels s.slot).Shows j none := by
  have hwired := h.post (handleAll_wired events (wired_init T))
  rw [List.nil_append] at hwired
  refine ⟨?_, fun e he => hwired.shows he, fun j hj => hwired.shows_none hj⟩
  intro c s' hr
  obtain ⟨-, hwritten⟩ := hr.post (sendCommands_plant _ _)
  rw [(hwired.tracks c).commands] at hwritten
  have hchannel : (T.onChannel c).map (fun e => (e.channelIdx, commandTo s'.action e)) =
      (T.onChannel c).map (fun e => (c, commandTo s'.action e)) :=
    List.map_congr_left fun e he => by rw [(MotorTable.mem_onChannel.mp he).2]
  rw [hchannel] at hwritten
  refine ⟨_, hwritten, rfl, ?_⟩
  intro e he hc
  have hmem : e ∈ T.onChannel c := MotorTable.mem_onChannel.mpr ⟨he, hc⟩
  have := filter_eq_singleton (MotorTable.onChannel_ids_nodup c) hmem
  rw [List.filter_map]
  simp only [Function.comp_def, commandTo_destinationId]
  rw [this]
  rfl

/-! ### A run -/

theorem handle_total (motors : Fin numChannels → List MotorBinding) (c : Fin numChannels)
    (e : LoopEvent) : (handle motors c e).Total := by
  cases e with
  | send =>
      refine Prog.Total.bind (fun act => ?_) fun _ => trivial
      exact MotorThread.sendAll_total act _
  | frame msg => exact (MotorThread.dispatch_total msg _).bind fun _ => trivial
  | publish => exact fun _ _ => trivial

theorem handleAll_total (motors : Fin numChannels → List MotorBinding)
    (events : List (Fin numChannels × LoopEvent)) : (handleAll motors events).Total := by
  induction events generalizing motors with
  | nil => trivial
  | cons ce rest ih => exact (handle_total _ _ _).bind fun _ => ih _

theorem plant_answers (s : Plant) (c : SysCall) : ∃ r s', plant s c r s' := by
  refine ⟨c.quiet, ?_⟩
  cases c <;> exact ⟨_, rfl⟩

/-- Motor 4 of channel 0 reports once; the right knee shows it. -/
theorem joint_wiring_knee : ∃ s motors,
    Runs plant (handleAll (bindingsPerCh motorMapTable.entries)
      [(1, .send), (0, .frame MotorThread.feedbackOfFour), (0, .publish)]) {} s (some motors) ∧
    (combineChannels s.slot).Shows JointIdx.rKneePitch (some MotorThread.feedbackOfFour) := by
  obtain ⟨s, motors, hr⟩ := (handleAll_total _ _).runs plant_answers _
  refine ⟨s, motors, hr, ?_⟩
  have hknee : (⟨0, 4, JointIdx.rKneePitch, "R_knee_pitch"⟩ : MotorMapEntry) ∈
      motorMapTable.entries := by decide
  exact (joint_wiring motorMapTable _ hr).2.1 _ hknee

end Qub
