import QubController.Delivery
import QubController.HoldTargets

/-! # Was the target measured for this request?

Frames are in transit between a motor and the read that takes them from the channel, for any time,
and an ON request does not empty the queue before it asks for the position.  The target is the
first position that is read after the request, so it was sent after the request exactly when no
position of the motor was in transit then: `fresh_target_iff`. -/

namespace Qub

open Interaction

namespace PositionRead

/-! ### Frames in transit -/

/-- An event with the frames that are in transit before it.  Time is counted in events; `sentAt`
is the time of the message that is read. -/
structure Entry where
  event : GuiEvent
  sentAt : ℕ
  transit : Fin numChannels → List (Sent TPCANMsg)

/-- The trace and the frames in transit, as a read into an empty message leaves them. -/
structure Net where
  log : List Entry := []
  transit : Fin numChannels → List (Sent TPCANMsg) := fun _ => []

def Net.add (s : Net) (event : GuiEvent) (sentAt : ℕ)
    (transit : Fin numChannels → List (Sent TPCANMsg)) : Net :=
  { log := ⟨event, sentAt, s.transit⟩ :: s.log, transit }

/-- What `event` leaves in transit: a read takes one frame, the oldest one if `fifo`. -/
def Net.Takes (fifo : Prop) (s : Net) (event : GuiEvent) (sentAt : ℕ)
    (transit : Fin numChannels → List (Sent TPCANMsg)) : Prop :=
  match event with
  | .read ch msg => ∃ before after, s.transit ch = before ++ ⟨msg, sentAt⟩ :: after ∧
      (fifo → before = []) ∧ transit = Function.update s.transit ch (before ++ after)
  | _ => transit = s.transit

/-- A call and its answer.  Any read may find nothing, whatever is in transit. -/
def Net.After (fifo : Prop) (s : Net) (c : SysCall) (r : c.Resp) (s' : Net) : Prop :=
  match note [] c r with
  | [] => s' = s
  | event :: _ => ∃ sentAt transit, s.Takes fifo event sentAt transit ∧
      s' = s.add event sentAt transit

/-- Motors send frames. -/
def Net.Arrivals (s s' : Net) : Prop :=
  s'.log = s.log ∧
    ∀ ch, ∃ new, s'.transit ch = s.transit ch ++ new ∧ ∀ f ∈ new, f.sentAt = s.log.length

/-- The world of frames in transit, in which reads keep their order if `fifo`. -/
def net (fifo : Prop) : World Sys Net := fun s c r s' => ∃ s₁, s.After fifo c r s₁ ∧ s₁.Arrivals s'

/-- The trace without times. -/
def Net.trace (s : Net) : List GuiEvent := s.log.map Entry.event

/-- The message that `e` has read on `ch`. -/
def Entry.readOn (ch : Fin numChannels) (e : Entry) : List (Sent TPCANMsg) :=
  match e.event with
  | .read ch' msg => if ch' = ch then [⟨msg, e.sentAt⟩] else []
  | _ => []

/-- The messages that were read on `ch`, the oldest first. -/
def readsOn (ch : Fin numChannels) : List Entry → List (Sent TPCANMsg)
  | [] => []
  | e :: log => readsOn ch log ++ e.readOn ch

theorem Entry.readOn_read {ch : Fin numChannels} {msg : TPCANMsg} {e : Entry}
    (h : e.event = .read ch msg) : e.readOn ch = [⟨msg, e.sentAt⟩] := by
  rw [Entry.readOn, h]
  exact if_pos rfl

theorem Entry.readOn_of_ne {ch : Fin numChannels} {e : Entry} (h : ∀ msg, e.event ≠ .read ch msg) :
    e.readOn ch = [] := by
  unfold Entry.readOn
  split
  · rename_i ch' msg hevent
    refine if_neg fun hch => ?_
    exact h msg (hch ▸ hevent)
  · rfl

theorem readsOn_append (ch : Fin numChannels) (new log : List Entry) :
    readsOn ch (new ++ log) = readsOn ch log ++ readsOn ch new := by
  induction new with
  | nil => exact (List.append_nil _).symm
  | cons e new ih =>
      rw [List.cons_append, readsOn, ih, List.append_assoc]
      rfl

/-- Nothing in transit is from the future, and since each write the frames have flowed. -/
structure Traced (fifo : Prop) (s : Net) : Prop where
  sent : ∀ ch, ∀ f ∈ s.transit ch, f.sentAt ≤ s.log.length
  pending : Each (fun e before => ∀ ch, ∀ f ∈ e.transit ch, f.sentAt ≤ before.length) s.log
  flow : ∀ new e before, s.log = new ++ e :: before → (∀ ch msg, e.event ≠ .read ch msg) →
    ∀ ch, Flow fifo before.length (e.transit ch) (readsOn ch new) (s.transit ch)

section traced
variable {fifo : Prop} {s s' : Net}

theorem traced_start : Traced fifo {} where
  sent := fun _ _ hf => absurd hf List.not_mem_nil
  pending := each_nil
  flow := fun new e before hlog => absurd hlog (by simp)

theorem Traced.arrive (h : Traced fifo s) (hs : s.Arrivals s') : Traced fifo s' where
  sent := fun ch f hf => by
    obtain ⟨hlog, hnew⟩ := hs
    obtain ⟨new, htransit, hsent⟩ := hnew ch
    rw [htransit] at hf
    rw [hlog]
    rcases List.mem_append.mp hf with hf | hf
    · exact h.sent ch f hf
    · exact (hsent f hf).le
  pending := hs.1 ▸ h.pending
  flow := fun later e before hlog he ch => by
    obtain ⟨hsame, hnew⟩ := hs
    obtain ⟨new, htransit, hsent⟩ := hnew ch
    rw [hsame] at hlog
    rw [htransit]
    refine (h.flow later e before hlog he ch).send fun f hf => ?_
    rw [hsent f hf, hlog]
    simp
    omega

theorem Net.Takes.flow {event : GuiEvent} {sentAt t : ℕ}
    {transit : Fin numChannels → List (Sent TPCANMsg)} {ch : Fin numChannels}
    {pending reads : List (Sent TPCANMsg)} (htakes : s.Takes fifo event sentAt transit)
    (h : Flow fifo t pending reads (s.transit ch)) :
    Flow fifo t pending (reads ++ Entry.readOn ch ⟨event, sentAt, s.transit⟩) (transit ch) := by
  cases event with
  | read ch' msg =>
      obtain ⟨before, after, htransit, hfirst, rfl⟩ := htakes
      by_cases hch : ch' = ch
      · subst hch
        rw [htransit] at h
        rw [Entry.readOn_read rfl, Function.update_self]
        exact h.read hfirst
      · rw [Entry.readOn_of_ne fun msg' heq => hch (GuiEvent.read.inj heq).1,
          Function.update_of_ne (Ne.symm hch), List.append_nil]
        exact h
  | _ =>
      obtain rfl := htakes
      rw [Entry.readOn_of_ne (by simp), List.append_nil]
      exact h

/-- A call only takes frames away. -/
theorem Net.Takes.subset {event : GuiEvent} {sentAt : ℕ}
    {transit : Fin numChannels → List (Sent TPCANMsg)} (htakes : s.Takes fifo event sentAt transit)
    (ch : Fin numChannels) : ∀ f ∈ transit ch, f ∈ s.transit ch := by
  intro f hf
  have hflow : Flow fifo f.sentAt (s.transit ch) ([] ++ Entry.readOn ch ⟨event, sentAt, s.transit⟩)
      (transit ch) := htakes.flow .start
  exact (hflow.newer f (List.mem_append_right _ hf)).resolve_right (lt_irrefl _)

theorem Traced.add {event : GuiEvent} {sentAt : ℕ}
    {transit : Fin numChannels → List (Sent TPCANMsg)} (h : Traced fifo s)
    (htakes : s.Takes fifo event sentAt transit) : Traced fifo (s.add event sentAt transit) where
  sent := fun ch f hf => Nat.le_succ_of_le (h.sent ch f (htakes.subset ch f hf))
  pending := each_cons.mpr ⟨fun ch f hf => h.sent ch f hf, h.pending⟩
  flow := fun new e before hlog he ch => by
    cases new with
    | nil =>
        obtain ⟨rfl, rfl⟩ := List.cons.inj hlog
        have hflow : Flow fifo s.log.length (s.transit ch)
            ([] ++ Entry.readOn ch ⟨event, sentAt, s.transit⟩) (transit ch) := htakes.flow .start
        cases event with
        | read ch' msg => exact absurd rfl (he ch' msg)
        | _ => exact hflow
    | cons e' new =>
        obtain ⟨rfl, hrest⟩ := List.cons.inj hlog
        exact htakes.flow (h.flow new e before hrest he ch)

theorem note_eq (log : List GuiEvent) (c : SysCall) (r : c.Resp) :
    (note [] c r = [] ∧ note log c r = log) ∨
      ∃ e, note [] c r = [e] ∧ note log c r = e :: log := by
  cases c with
  | canWrite ch msg => exact .inr ⟨_, rfl, rfl⟩
  | canRead ch =>
      unfold note
      dsimp only
      split
      · exact .inr ⟨_, rfl, rfl⟩
      · exact .inl ⟨rfl, rfl⟩
  | readStdin => exact .inr ⟨_, rfl, rfl⟩
  | _ => exact .inl ⟨rfl, rfl⟩

theorem Traced.call {c : SysCall} {r : c.Resp} (h : Traced fifo s) (hw : net fifo s c r s') :
    Traced fifo s' := by
  obtain ⟨s₁, hafter, harrive⟩ := hw
  refine Traced.arrive ?_ harrive
  unfold Net.After at hafter
  split at hafter
  · rwa [hafter]
  · obtain ⟨sentAt, transit, htakes, rfl⟩ := hafter
    exact h.add htakes

/-- The trace is the one without transit. -/
theorem net_noted {c : SysCall} {r : c.Resp} (hw : net fifo s c r s') :
    noted s.trace c r s'.trace := by
  obtain ⟨s₁, hafter, hlog, -⟩ := hw
  have htrace : s'.trace = s₁.trace := congrArg (List.map Entry.event) hlog
  show s'.trace = note s.trace c r
  rw [htrace]
  unfold Net.After at hafter
  rcases note_eq s.trace c r with ⟨hnil, hnote⟩ | ⟨e, hcons, hnote⟩
  · rw [hnil] at hafter
    rw [hnote, hafter]
  · rw [hcons] at hafter
    obtain ⟨sentAt, transit, -, rfl⟩ := hafter
    rw [hnote]
    rfl

end traced

/-! ### The target -/

section target
variable (config : Config) (k : Place)

/-- The trace `past` ends with the first command of an ON request for `k`: `request` has asked for
the position after `before`, and its target is the first position that was read since, in
`frame`. -/
def TargetFrom (frame request : Entry) (before past : List Entry) : Prop :=
  ∃ p msg command moded stopped reads,
    past = command :: moded :: stopped :: frame :: reads ++ request :: before ∧
      command.event = .wrote k.1 (holdFrame config k p) true ∧
      Writes .paramRead k true request.event ∧
      frame.event = .read k.1 msg ∧ Reports config.hostId k msg p ∧
      ∀ e ∈ reads, ∃ msg, e.event = .read k.1 msg ∧ ∀ q, ¬ Reports config.hostId k msg q

/-- No position of `k` is in transit before `e`. -/
def Clear (e : Entry) : Prop := ∀ f ∈ e.transit k.1, ¬ ∃ p, Reports config.hostId k f.msg p

end target

section fresh
variable {config : Config} {k : Place} {fifo : Prop} {s : Net} {frame request on : Entry}
  {before later past : List Entry}

/-- The events before an ENABLE, with their times. -/
theorem targetFrom_of_commanded (h : Commanded config on.event (past.map Entry.event))
    (hon : Writes .enable k true on.event) :
    ∃ frame request before, TargetFrom config k frame request before past := by
  obtain ⟨msg, hevent, htype, hdest⟩ := hon
  obtain ⟨p, rest, hpast, -, moded, stopped, refreshed, hrest, -, -, hrefreshed⟩ :=
    (h k.1 msg true hevent).2 htype
  obtain ⟨report, awaiting, rfl, hreports, reads, request, bytes, started, rfl, -, hrequest,
    hreads⟩ := hrefreshed
  rw [hdest] at hpast hrequest hreports hreads
  rw [hrest] at hpast
  obtain ⟨command, l₁, rfl, hcommand, hl₁⟩ := List.map_eq_cons_iff.mp hpast
  obtain ⟨modedAt, l₂, rfl, -, hl₂⟩ := List.map_eq_cons_iff.mp hl₁
  obtain ⟨stoppedAt, l₃, rfl, -, hl₃⟩ := List.map_eq_cons_iff.mp hl₂
  obtain ⟨frame, l₄, rfl, hframe, hl₄⟩ := List.map_eq_cons_iff.mp hl₃
  obtain ⟨readsAt, l₅, rfl, rfl, hl₅⟩ := List.map_eq_append_iff.mp hl₄
  obtain ⟨requestAt, before, rfl, rfl, -⟩ := List.map_eq_cons_iff.mp hl₅
  refine ⟨frame, requestAt, before, p, report, command, modedAt, stoppedAt, readsAt, rfl,
    hcommand, hrequest, hframe, hreports, fun e he => ?_⟩
  exact hreads _ (List.mem_map_of_mem he)

/-- Only reads of the channel stand between the request and the frame. -/
theorem readsOn_reads {reads : List Entry}
    (hreads : ∀ e ∈ reads, ∃ msg, e.event = .read k.1 msg ∧ ∀ q, ¬ Reports config.hostId k msg q) :
    ∀ f ∈ readsOn k.1 reads, ¬ ∃ p, Reports config.hostId k f.msg p := by
  induction reads with
  | nil => simp [readsOn]
  | cons e reads ih =>
      obtain ⟨⟨msg, hevent, hnot⟩, hreads⟩ := List.forall_mem_cons.mp hreads
      intro f hf
      rcases List.mem_append.mp hf with hf | hf
      · exact ih hreads f hf
      · rw [Entry.readOn_read hevent, List.mem_singleton] at hf
        rw [hf]
        exact not_exists.mpr hnot

/-- The target was sent after the request, if and only if none was in transit before it. -/
theorem TargetFrom.fresh_iff (h : TargetFrom config k frame request before past)
    (htraced : Traced fifo s) (hlog : s.log = later ++ past) :
    (Clear config k request → before.length < frame.sentAt) ∧
      (fifo → before.length < frame.sentAt → Clear config k request) := by
  obtain ⟨p, msg, command, moded, stopped, reads, rfl, -, ⟨request', hrequest, -⟩, hframe, hreports,
    hreads⟩ := h
  have hsplit : s.log = (later ++ [command, moded, stopped] ++ frame :: reads) ++
      request :: before := by
    rw [hlog]
    simp
  have hflow := htraced.flow _ _ _ hsplit (fun ch msg => by rw [hrequest]; simp) k.1
  have hread : readsOn k.1 (later ++ [command, moded, stopped] ++ frame :: reads) =
      (readsOn k.1 reads ++ [⟨msg, frame.sentAt⟩]) ++
        readsOn k.1 (later ++ [command, moded, stopped]) := by
    rw [readsOn_append, readsOn, Entry.readOn_read hframe]
  rw [hread] at hflow
  have hold := htraced.pending _ _ _ hsplit k.1
  refine ⟨fun hclear => ?_, fun hfifo hfresh => ?_⟩
  · exact hflow.unread.fresh (P := fun m => ∃ p, Reports config.hostId k m p) ⟨p, hreports⟩ hclear
  · exact hflow.unread.clear (P := fun m => ∃ p, Reports config.hostId k m p) hfifo hfresh hold
      (readsOn_reads hreads)

end fresh

/-! ### The guarantee -/

/-- **The target of an ON request was sent after its position request** if no position of the
motor was in transit when the request was written, whatever the delays are and in whatever order
frames arrive; where reads keep the order of the frames, only if.  This holds of each ENABLE in
each run of the program. -/
theorem fresh_target_iff {config : Config} {fuel : ℕ} {fifo : Prop} {s : Net} {o : Option ℤ}
    (hrun : Runs (net fifo) (main config fuel) {} s o) {later past : List Entry} {on : Entry}
    {k : Place} (hlog : s.log = later ++ on :: past) (hon : Writes .enable k true on.event) :
    ∃ frame request before, TargetFrom config k frame request before past ∧
      (Clear config k request → before.length < frame.sentAt) ∧
      (fifo → before.length < frame.sentAt → Clear config k request) := by
  have htraced : Traced fifo s := hrun.keeps (fun _ _ _ _ hw h => h.call hw) traced_start
  have hnoted : Runs noted (main config fuel) [] s.trace o :=
    hrun.project Net.trace fun _ _ _ _ hw => net_noted hw
  have heach := (hnoted.sat (main_noted config fuel) each_nil).1
  have hcommanded : Commanded config on.event (past.map Entry.event) := by
    apply heach (later.map Entry.event)
    rw [Net.trace, hlog, List.map_append, List.map_cons]
  obtain ⟨frame, request, before, htarget⟩ := targetFrom_of_commanded hcommanded hon
  have hpast : s.log = (later ++ [on]) ++ past := by
    rw [hlog]
    simp
  exact ⟨frame, request, before, htarget, htarget.fresh_iff htraced hpast⟩

/-- What motor 4 sends: replies, and a feedback before each key. -/
def sends : SysCall → List TPCANMsg
  | .canWrite _ msg =>
      if msg.commType = CommType.getId.code ∧ msg.destinationId = 4 then [replyOfFour .getId]
      else if msg.commType = CommType.paramRead.code then [replyOfFour .feedback]
      else []
  | .readStdin => [replyOfFour .feedback]
  | _ => []

def answerQueued (s : Net) : (c : SysCall) → c.Resp
  | .canRead ch =>
      match s.transit ch with
      | f :: _ => if f.msg.len = 8 then (pcanErrorOk, f.msg) else (pcanErrorOk + 1, {})
      | [] => (pcanErrorOk + 1, {})
  | c => answerFour s.trace c

/-- The net after a call, with the oldest frame taken. -/
def Net.next (s : Net) (c : SysCall) (r : c.Resp) : Net :=
  match note [] c r with
  | [] => s
  | .read ch msg :: _ => s.add (.read ch msg) ((s.transit ch).head?.elim 0 Sent.sentAt)
      (Function.update s.transit ch (s.transit ch).tail)
  | event :: _ => s.add event 0 s.transit

/-- `msgs` are sent on channel 0. -/
def Net.arrive (s : Net) : List TPCANMsg → Net
  | [] => s
  | msgs => { s with
      transit := Function.update s.transit 0 (s.transit 0 ++ msgs.map fun m => ⟨m, s.log.length⟩) }

def queuedHandler : Handler Sys Net := fun s c =>
  (answerQueued s c, (s.next c (answerQueued s c)).arrive (sends c))

theorem arrivals_arrive (s : Net) (msgs : List TPCANMsg) : s.Arrivals (s.arrive msgs) := by
  unfold Net.arrive
  split
  · exact ⟨rfl, fun ch => ⟨[], by simp, by simp⟩⟩
  · refine ⟨rfl, fun ch => ?_⟩
    by_cases hch : ch = 0
    · subst hch
      refine ⟨msgs.map fun m => ⟨m, s.log.length⟩, by simp, fun f hf => ?_⟩
      obtain ⟨m, -, rfl⟩ := List.mem_map.mp hf
      rfl
    · exact ⟨[], by simp [Function.update_of_ne hch], by simp⟩

theorem after_next (s : Net) (c : SysCall) : s.After True c (answerQueued s c)
    (s.next c (answerQueued s c)) := by
  cases c with
  | canRead ch =>
      cases htransit : s.transit ch with
      | nil => simp [answerQueued, Net.After, Net.next, note, htransit]
      | cons f rest =>
          by_cases hlen : f.msg.len = 8
          · simp only [answerQueued, Net.After, Net.next, note, htransit, hlen, if_true,
              beq_self_eq_true, TPCANMsg.fill_of_len hlen]
            exact ⟨f.sentAt, _, ⟨[], rest, htransit, fun _ => rfl, rfl⟩, by simp⟩
          · simp [answerQueued, Net.After, Net.next, note, htransit, hlen]
  | canWrite ch msg => exact ⟨0, _, rfl, rfl⟩
  | readStdin => exact ⟨0, _, rfl, rfl⟩
  | _ => rfl

theorem net_queued (s : Net) (c : SysCall) :
    net True s c (queuedHandler s c).1 (queuedHandler s c).2 :=
  ⟨s.next c (answerQueued s c), after_next s c, arrivals_arrive _ _⟩

/-- The run of `queuedHandler`. -/
theorem runs_queued : Runs (net True) (main {} 3) {} (exec queuedHandler (main {} 3) {}).1
    (exec queuedHandler (main {} 3) {}).2 :=
  runs_exec (P := fun _ => True) (fun s c _ => ⟨net_queued s c, trivial⟩) _ trivial

/-- Was the target that was read at once after the request in transit already? -/
def queuedTarget : List Entry → Bool
  | _ :: _ :: _ :: frame :: ⟨.wrote _ _ _, _, _⟩ :: before => decide (frame.sentAt ≤ before.length)
  | _ => false

theorem TargetFrom.not_fresh {config : Config} {k : Place} {frame request : Entry}
    {before past : List Entry} (h : TargetFrom config k frame request before past)
    (hqueued : queuedTarget past = true) : ¬ before.length < frame.sentAt := by
  obtain ⟨p, msg, command, moded, stopped, reads, rfl, -, ⟨msg', hrequest, -⟩, -, -, hreads⟩ := h
  cases reads with
  | nil =>
      obtain ⟨event, sentAt, transit⟩ := request
      obtain rfl : event = .wrote k.1 msg' true := hrequest
      exact not_lt.mpr (of_decide_eq_true hqueued)
  | cons e reads =>
      obtain ⟨event, sentAt, transit⟩ := e
      obtain ⟨msg'', hread, -⟩ := hreads _ List.mem_cons_self
      obtain rfl : event = .read k.1 msg'' := hread
      cases hqueued

/-- The ENABLE of the run. -/
theorem queued_enable : ∃ later on past, (exec queuedHandler (main {} 3) {}).1.log =
    later ++ on :: past ∧ Writes .enable (0, 4) true on.event ∧ queuedTarget past = true := by
  have hfound : (match (exec queuedHandler (main {} 3) {}).1.log.drop 6 with
      | on :: past => decide (Writes .enable (0, 4) true on.event) && queuedTarget past
      | [] => false) = true := by decide +kernel
  have hsplit := List.take_append_drop 6 (exec queuedHandler (main {} 3) {}).1.log
  cases hdrop : (exec queuedHandler (main {} 3) {}).1.log.drop 6 with
  | nil =>
      rw [hdrop] at hfound
      cases hfound
  | cons on past =>
      rw [hdrop] at hfound hsplit
      obtain ⟨hon, hqueued⟩ := Bool.and_eq_true_iff.mp hfound
      exact ⟨_, on, past, hsplit.symm, of_decide_eq_true hon, hqueued⟩

theorem fresh_target_iff_four : ∃ s o later past, ∃ on frame request : Entry, ∃ before,
    Runs (net True) (main {} 3) {} s o ∧ s.log = later ++ on :: past ∧
      TargetFrom {} (0, 4) frame request before past ∧
      (Clear {} (0, 4) request ↔ before.length < frame.sentAt) := by
  obtain ⟨later, on, past, hlog, hon, -⟩ := queued_enable
  obtain ⟨frame, request, before, htarget, hfresh, hclear⟩ := fresh_target_iff runs_queued hlog hon
  exact ⟨_, _, later, past, on, frame, request, before, runs_queued, hlog, htarget, hfresh,
    hclear trivial⟩

/-- A feedback of the motor is queued when Space is pressed, and becomes the target. -/
theorem queued_target_taken :
    ¬ ∀ (config : Config) (fuel : ℕ) (s : Net) (o : Option ℤ),
      Runs (net True) (main config fuel) {} s o → ∀ later on past k, s.log = later ++ on :: past →
        Writes .enable k true on.event → ∃ frame request before,
          TargetFrom config k frame request before past ∧ before.length < frame.sentAt := by
  intro hclaim
  obtain ⟨later, on, past, hlog, hon, hqueued⟩ := queued_enable
  obtain ⟨frame, request, before, htarget, hfresh⟩ :=
    hclaim _ _ _ _ runs_queued later on past _ hlog hon
  exact htarget.not_fresh hqueued hfresh

end PositionRead

end Qub
