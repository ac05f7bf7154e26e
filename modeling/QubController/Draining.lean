import QubController.MotorConfig

/-! # What a drain leaves in the queue

The receive queue of the channel, without read errors.  A frame is `stale` if it was queued at
the start; more frames may come at any time if the channel is `busy`.  `drain` reuses `receive`
with no time to wait, which gives up on a frame that is not extended: `drained_iff` says that
the queue is emptied, and stale replies are never taken for new ones, exactly if no such frame
stands before another one. -/

namespace Qub

open Interaction

namespace MotorConfig

/-! ### The queue -/

structure Queued where
  stale : Bool
  msg : TPCANMsg

structure Inbox where
  time : ℤ
  queue : List Queued
  /-- The frame read last. -/
  last : Option Queued := none

def staleFrames (frames : List TPCANMsg) : List Queued := frames.map (⟨true, ·⟩)
def newFrames (frames : List TPCANMsg) : List Queued := frames.map (⟨false, ·⟩)

/-- The frames `frames` are queued at time `time`. -/
def Inbox.start (time : ℤ) (frames : List TPCANMsg) : Inbox := ⟨time, staleFrames frames, none⟩

inductive Inbox.Reads : Inbox → TPCANStatus × TPCANMsg → Inbox → Prop
  | empty (time last msg) : Reads ⟨time, [], last⟩ (pcanErrorQrcvEmpty, msg) ⟨time, [], last⟩
  | frame (time q rest last) :
      Reads ⟨time, q :: rest, last⟩ (pcanErrorOk, q.msg) ⟨time, rest, some q⟩

/-- What a call does to the queue; the clock does not go back. -/
def Inbox.Calls (ch : Fin numChannels) (s : Inbox) (c : SysCall) (r : c.Resp) (s' : Inbox) : Prop :=
  match c, r with
  | .canRead c', r => if c' = ch then s.Reads r s' else s' = s
  | .steadyNow, now => s.time ≤ now ∧ s' = { s with time := now }
  | _, _ => s' = s

/-- The world of one channel: after a call, new frames may have come if it is `busy`. -/
def inbox (ch : Fin numChannels) (busy : Bool) : World Sys Inbox := fun s c r s' =>
  ∃ s₁ frames, s.Calls ch c r s₁ ∧ s' = { s₁ with queue := s₁.queue ++ newFrames frames } ∧
    (busy = false → frames = [])

/-- The stale frames that are left are `old`, and the new ones stand behind them. -/
def Holding (busy : Bool) (old : List TPCANMsg) (s : Inbox) : Prop :=
  ∃ frames, s.queue = staleFrames old ++ newFrames frames ∧ (busy = false → frames = [])

/-- The last frame read was a new one and filled the message `msg`. -/
def ReadNew (msg : TPCANMsg) (s : Inbox) : Prop :=
  ∃ frame, s.last = some ⟨false, frame⟩ ∧ msg = ({} : TPCANMsg).fill frame

theorem holding_start (busy : Bool) (time : ℤ) (frames : List TPCANMsg) :
    Holding busy frames (Inbox.start time frames) :=
  ⟨[], by simp [Inbox.start, newFrames], fun _ => rfl⟩

theorem empty_ne_ok : pcanErrorQrcvEmpty ≠ pcanErrorOk := by decide

section inbox
variable {bus : CanBus} {ch : Fin numChannels} {busy : Bool} {old : List TPCANMsg} {s s' : Inbox}

/-- Arrivals stand behind. -/
theorem Holding.arrive (h : Holding busy old s) {frames : List TPCANMsg}
    (hframes : busy = false → frames = []) :
    Holding busy old { s with queue := s.queue ++ newFrames frames } := by
  obtain ⟨frames', hqueue, hframes'⟩ := h
  refine ⟨frames' ++ frames, ?_, fun hb => ?_⟩
  · simp [hqueue, newFrames]
  · rw [hframes' hb, hframes hb, List.nil_append]

/-- Only a read takes a frame. -/
theorem Holding.call (h : Holding busy old s) {c : SysCall} {r : c.Resp}
    (hc : ∀ c', c ≠ .canRead c') (hw : inbox ch busy s c r s') : Holding busy old s' := by
  obtain ⟨s₁, frames, hcall, rfl, hframes⟩ := hw
  apply Holding.arrive _ hframes
  cases c with
  | canRead c' => exact absurd rfl (hc c')
  | steadyNow =>
      obtain ⟨-, rfl⟩ := hcall
      exact h
  | _ =>
      obtain rfl : s₁ = s := hcall
      exact h

/-- A read takes the oldest stale frame. -/
theorem Holding.read {f : TPCANMsg} {r : TPCANStatus × TPCANMsg} (h : Holding busy (f :: old) s)
    (hw : inbox ch busy s (.canRead ch) r s') : r = (pcanErrorOk, f) ∧ Holding busy old s' := by
  obtain ⟨s₁, frames, hcall, rfl, hframes⟩ := hw
  obtain ⟨frames', hqueue, hframes'⟩ := h
  simp only [Inbox.Calls, if_pos] at hcall
  cases hcall with
  | empty => simp [staleFrames] at hqueue
  | frame time q rest last =>
      obtain ⟨rfl, rfl⟩ := List.cons.inj hqueue
      exact ⟨rfl, Holding.arrive ⟨frames', rfl, hframes'⟩ hframes⟩

/-- Without stale frames a read finds a new frame or none. -/
theorem Holding.read_new {r : TPCANStatus × TPCANMsg} (h : Holding busy [] s)
    (hw : inbox ch busy s (.canRead ch) r s') :
    Holding busy [] s' ∧ (r.1 = pcanErrorOk → s'.last = some ⟨false, r.2⟩) := by
  obtain ⟨s₁, frames, hcall, rfl, hframes⟩ := hw
  obtain ⟨frames', hqueue, hframes'⟩ := h
  simp only [Inbox.Calls, if_pos] at hcall
  cases hcall with
  | empty time last msg =>
      exact ⟨Holding.arrive ⟨frames', hqueue, hframes'⟩ hframes, fun hok => absurd hok empty_ne_ok⟩
  | frame time q rest last =>
      cases frames' with
      | nil => simp [staleFrames, newFrames] at hqueue
      | cons f frames' =>
          obtain ⟨rfl, rfl⟩ := List.cons.inj hqueue
          refine ⟨Holding.arrive ⟨frames', rfl, fun hb => ?_⟩ hframes, fun _ => rfl⟩
          exact absurd (hframes' hb) (by simp)

/-- Without stale frames everything that is received is new. -/
theorem receives_new : Receives (inbox bus.channelIdx busy) (fun _ => True) bus.channelIdx
    (Holding busy []) (fun msg s => Holding busy [] s ∧ ReadNew msg s) where
  frame := fun _ frame _ h hw _ => by
    obtain ⟨hnew, hlast⟩ := h.read_new hw
    exact ⟨trivial, hnew, frame, hlast rfl, rfl⟩
  other := fun _ _ _ _ h hw _ => ⟨trivial, (h.read_new hw).1⟩
  clock := fun _ _ _ h hw => ⟨trivial, h.call (by simp) hw⟩
  sleep := fun _ _ h hw => ⟨trivial, h.call (by simp) hw⟩

/-! ### Draining -/

theorem receive_extended (hreal : bus.config.dryRun = false) (n : ℕ) {f : TPCANMsg}
    (hext : f.extended = true) (h : Holding busy (f :: old) s) :
    Sat (inbox bus.channelIdx busy) (fun _ => True) (bus.receive n 0)
      (fun r s' => r.elim False fun _ => Holding busy old s') s := by
  have hF : Reads (inbox bus.channelIdx busy) (fun _ => True) bus.channelIdx
      (Holding busy (f :: old)) (fun _ => False) (fun _ => Holding busy old) := by
    constructor
    · exact fun _ _ _ h hw _ => ⟨trivial, (h.read hw).2⟩
    · intro s status frame s' h hw hother
      obtain ⟨hr, -⟩ := h.read hw
      obtain ⟨rfl, rfl⟩ := Prod.mk.inj hr
      rw [hother rfl] at hext
      exact absurd hext (by simp)
  have hR : Receives (inbox bus.channelIdx busy) (fun _ => True) bus.channelIdx
      (fun _ => False) (fun _ => Holding busy old) :=
    ⟨⟨fun _ _ _ h => h.elim, fun _ _ _ _ h => h.elim⟩, fun _ _ _ h => h.elim, fun _ _ h => h.elim⟩
  exact CanBus.receive_real_sat hreal (fun _ _ _ h hw => ⟨trivial, h.call (by simp) hw⟩) hF hR n 0 h

/-- The last stale frame may be of any kind. -/
theorem receive_last (hreal : bus.config.dryRun = false) (n : ℕ) {f : TPCANMsg}
    (h : Holding busy [f] s) :
    Sat (inbox bus.channelIdx busy) (fun _ => True) (bus.receive n 0)
      (fun _ => Holding busy []) s := by
  have hF : Reads (inbox bus.channelIdx busy) (fun _ => True) bus.channelIdx
      (Holding busy [f]) (Holding busy []) (fun _ => Holding busy []) :=
    ⟨fun _ _ _ h hw _ => ⟨trivial, (h.read hw).2⟩, fun _ _ _ _ h hw _ => ⟨trivial, (h.read hw).2⟩⟩
  have hR : Receives (inbox bus.channelIdx busy) (fun _ => True) bus.channelIdx
      (Holding busy []) (fun _ => Holding busy []) :=
    { receives_new with frame := fun _ _ _ h hw _ => ⟨trivial, (h.read_new hw).1⟩ }
  refine (CanBus.receive_real_sat hreal (fun _ _ _ h hw => ⟨trivial, h.call (by simp) hw⟩)
    hF hR n 0 h).mono fun r s' hr => ?_
  cases r with
  | none => exact hr
  | some msg => exact hr

/-- Whatever comes, no stale frame appears. -/
theorem drainLoop_new (n left : ℕ) (h : Holding busy [] s) :
    Sat (inbox bus.channelIdx busy) (fun _ => True) (bus.drainLoop n left)
      (fun _ => Holding busy []) s :=
  CanBus.drainLoop_sat
    { receives_new with frame := fun _ _ _ h hw _ => ⟨trivial, (h.read_new hw).1⟩ } n left h

/-- A frame that is not extended does not stand before another one. -/
def ExtendedButLast (frames : List TPCANMsg) : Prop := ∀ f ∈ frames.dropLast, f.extended = true

/-- The stale frames are all taken. -/
theorem drainLoop_stale (hreal : bus.config.dryRun = false) (n left : ℕ)
    (hlen : old.length ≤ left) (hext : ExtendedButLast old) (h : Holding busy old s) :
    Sat (inbox bus.channelIdx busy) (fun _ => True) (bus.drainLoop n left)
      (fun _ => Holding busy []) s := by
  induction old generalizing left s with
  | nil => exact drainLoop_new n left h
  | cons f rest ih =>
      obtain ⟨left, rfl⟩ : ∃ k, left = k + 1 := ⟨left - 1, by simp at hlen; omega⟩
      rw [CanBus.drainLoop]
      cases rest with
      | nil =>
          refine (receive_last hreal n h).bind fun r s' hr => ?_
          cases r with
          | none => exact hr
          | some msg => exact drainLoop_new n left hr
      | cons g rest =>
          have hf : f.extended = true := hext f (by simp)
          refine (receive_extended hreal n hf h).bind fun r s' hr => ?_
          cases r with
          | none => exact hr.elim
          | some msg =>
              refine ih left (by simpa using hlen) (fun x hx => hext x ?_) hr
              exact List.mem_cons_of_mem f hx

theorem drain_stale (hreal : bus.config.dryRun = false) (n : ℕ) (hlen : old.length ≤ 256)
    (hext : ExtendedButLast old) (h : Holding busy old s) :
    Sat (inbox bus.channelIdx busy) (fun _ => True) (bus.drain n) (fun _ => Holding busy []) s :=
  drainLoop_stale hreal n 256 hlen hext h

/-! ### Queries -/

theorem send_new (rawId : UInt32) (data : Fin 8 → UInt8) (h : Holding busy [] s) :
    Sat (inbox bus.channelIdx busy) (fun _ => True) (bus.send rawId data)
      (fun _ => Holding busy []) s := by
  have hkeep : ∀ (s : Inbox) (c : SysCall) (r : c.Resp) (s' : Inbox), (∀ ch, c ≠ .canRead ch) →
      Holding busy [] s → inbox bus.channelIdx busy s c r s' → True ∧ Holding busy [] s' :=
    fun _ _ _ _ hc h hw => ⟨trivial, h.call hc hw⟩
  exact (CanBus.send_only ⟨by simp, by simp⟩).sat hkeep h

/-- `wait_for` returns new frames only. -/
theorem waitFor_new (n : ℕ) (timeoutMs : ℤ) (predicate : TPCANMsg → Bool) (h : Holding busy [] s) :
    Sat (inbox bus.channelIdx busy) (fun _ => True) (bus.waitFor n timeoutMs predicate)
      (fun r s' => Holding busy [] s' ∧ ∀ msg, r = some msg → ReadNew msg s') s := by
  refine (CanBus.waitFor_sat receives_new n timeoutMs (fun _ _ _ h => h.1) h).mono fun r s' hr => ?_
  cases r with
  | none => exact ⟨hr, fun _ h => absurd h (by simp)⟩
  | some msg =>
      refine ⟨hr.2.1, fun msg' hmsg => ?_⟩
      obtain rfl := Option.some.inj hmsg
      exact hr.2.2

/-- The device is read off a new frame. -/
theorem getDevice_new (hreal : bus.config.dryRun = false) (n : ℕ) (motorId : UInt8)
    (attempts : ℕ) (hlen : old.length ≤ 256) (hext : ExtendedButLast old)
    (h : Holding busy old s) :
    Sat (inbox bus.channelIdx busy) (fun _ => True) (bus.getDeviceLoop n motorId attempts)
      (fun r s' => ∀ device, r = some device →
        ∃ msg, ReadNew msg s' ∧ device = ⟨msg.sourceMotorId, msg.data⟩) s := by
  induction attempts generalizing old s with
  | zero => exact fun _ h => absurd h (by simp)
  | succ attempts ih =>
      unfold CanBus.getDeviceLoop
      refine (drain_stale hreal n hlen hext h).bind fun _ s₁ h₁ => ?_
      refine (send_new _ _ h₁).bind fun sent s₂ h₂ => ?_
      cases sent with
      | false => exact fun _ h => absurd h (by simp)
      | true =>
          simp only [Bool.not_true, Bool.false_eq_true, if_false, hreal]
          refine (waitFor_new n _ _ h₂).bind fun r s₃ h₃ => ?_
          cases r with
          | some reply =>
              intro device hdevice
              obtain rfl := Option.some.inj hdevice
              exact ⟨reply, h₃.2 reply rfl, rfl⟩
          | none => exact ih (by simp) (by simp [ExtendedButLast]) h₃.1

theorem readMechanicalPosition_new (hreal : bus.config.dryRun = false) (n : ℕ) (motorId : UInt8)
    (hlen : old.length ≤ 256) (hext : ExtendedButLast old) (h : Holding busy old s) :
    Sat (inbox bus.channelIdx busy) (fun _ => True) (bus.readMechanicalPosition n motorId)
      (fun r s' => ∀ position, r = some position →
        ∃ msg, ReadNew msg s' ∧ position = paramValue msg.data) s := by
  unfold CanBus.readMechanicalPosition
  refine (drain_stale hreal n hlen hext h).bind fun _ s₁ h₁ => ?_
  refine (send_new _ _ h₁).bind fun sent s₂ h₂ => ?_
  cases sent with
  | false => exact fun _ h => absurd h (by simp)
  | true =>
      simp only [Bool.not_true, Bool.false_eq_true, if_false, hreal]
      refine (waitFor_new n _ _ h₂).bind fun r s₃ h₃ => ?_
      cases r with
      | none => exact fun _ h => absurd h (by simp)
      | some reply =>
          intro position hposition
          obtain rfl := Option.some.inj hposition
          exact ⟨reply, h₃.2 reply rfl, rfl⟩

end inbox

/-! ### What is left -/

/-- The frames that a drain of at most `left` frames leaves. -/
def leftover : ℕ → List TPCANMsg → List TPCANMsg
  | 0, frames => frames
  | _, [] => []
  | left + 1, f :: rest => if f.extended then leftover left rest else rest

theorem leftover_eq_nil_iff {left : ℕ} {frames : List TPCANMsg} (hlen : frames.length ≤ left) :
    leftover left frames = [] ↔ ExtendedButLast frames := by
  induction frames generalizing left with
  | nil => cases left <;> simp [leftover, ExtendedButLast]
  | cons f rest ih =>
      obtain ⟨left, rfl⟩ : ∃ k, left = k + 1 := ⟨left - 1, by simp at hlen; omega⟩
      have hrest : leftover left rest = [] ↔ ExtendedButLast rest := ih (by simpa using hlen)
      unfold leftover
      cases rest with
      | nil =>
          by_cases hf : f.extended = true <;> cases left <;>
            simp [hf, leftover, ExtendedButLast]
      | cons g rest =>
          by_cases hf : f.extended = true
          · simp only [hf, if_true, hrest]
            simp [ExtendedButLast, hf]
          · simp [hf, ExtendedButLast]

section runs
variable {bus : CanBus} {time : ℤ} {q : Queued} {rest : List Queued} {last : Option Queued}

theorem inbox_of_calls {s s' : Inbox} {c : SysCall} {r : c.Resp} {ch : Fin numChannels}
    (h : s.Calls ch c r s') : inbox ch false s c r s' :=
  ⟨s', [], h, by simp [newFrames], fun _ => rfl⟩

theorem still_clock (ch : Fin numChannels) (s : Inbox) : inbox ch false s .steadyNow s.time s :=
  inbox_of_calls ⟨le_refl _, rfl⟩

theorem still_read {ch : Fin numChannels} {r : TPCANStatus × TPCANMsg} {s s' : Inbox}
    (h : s.Reads r s') : inbox ch false s (.canRead ch) r s' := by
  apply inbox_of_calls
  simp only [Inbox.Calls, if_pos]
  exact h

/-- An extended frame is received. -/
theorem receive_extended_runs (hreal : bus.config.dryRun = false) (hext : q.msg.extended = true) :
    Runs (inbox bus.channelIdx false) (bus.receive 1 0) ⟨time, q :: rest, last⟩
      ⟨time, rest, some q⟩ (some (some (({} : TPCANMsg).fill q.msg))) := by
  unfold CanBus.receive
  rw [hreal]
  refine .call (still_clock _ _) (.call (still_read (.frame time q rest last)) ?_)
  have hext' : (({} : TPCANMsg).fill q.msg).extended = true := hext
  simp only [Prog.bind, beq_self_eq_true, if_true, hext']
  exact .ret _ _

/-- Any other frame is taken, and the time is over. -/
theorem receive_other_runs (hreal : bus.config.dryRun = false) (hext : ¬ q.msg.extended = true) :
    Runs (inbox bus.channelIdx false) (bus.receive 1 0) ⟨time, q :: rest, last⟩
      ⟨time, rest, some q⟩ (some none) := by
  unfold CanBus.receive
  rw [hreal]
  refine .call (still_clock _ _) (.call (still_read (.frame time q rest last)) ?_)
  have hext' : ¬ (({} : TPCANMsg).fill q.msg).extended = true := hext
  have hlate : ¬ time < time + max 0 0 * nsPerMs := by simp
  simp only [Prog.bind, beq_self_eq_true, if_true, hext']
  refine .call (still_clock _ _) ?_
  simp only [Prog.bind, hlate, if_false]
  exact .ret _ _

theorem receive_empty_runs (hreal : bus.config.dryRun = false) :
    Runs (inbox bus.channelIdx false) (bus.receive 1 0) ⟨time, [], last⟩ ⟨time, [], last⟩
      (some none) := by
  unfold CanBus.receive
  rw [hreal]
  exact .call (still_clock _ _) (.call (still_read (.empty time last {})) (.ret _ _))

/-- A drain that leaves exactly `leftover`. -/
theorem drainLoop_runs (hreal : bus.config.dryRun = false) (time : ℤ) (left : ℕ)
    (frames : List TPCANMsg) (last : Option Queued) : ∃ last',
    Runs (inbox bus.channelIdx false) (bus.drainLoop 1 left) ⟨time, staleFrames frames, last⟩
      ⟨time, staleFrames (leftover left frames), last'⟩ (some ()) := by
  induction left generalizing frames last with
  | zero => exact ⟨last, .ret _ _⟩
  | succ left ih =>
      rw [CanBus.drainLoop]
      cases frames with
      | nil => exact ⟨last, (receive_empty_runs hreal).bind (.ret _ _)⟩
      | cons f rest =>
          by_cases hf : f.extended = true
          · obtain ⟨last', hrest⟩ := ih rest (some ⟨true, f⟩)
            simp only [leftover, hf, if_true]
            exact ⟨last', (receive_extended_runs hreal hf).bind hrest⟩
          · simp only [leftover, hf]
            exact ⟨some ⟨true, f⟩, (receive_other_runs hreal hf).bind (.ret _ _)⟩

end runs

/-! ### The exact condition -/

/-- **Draining removes the stale frames if and only if they are extended, but for the last.**
On a still channel the queue is then empty, and on any channel the queries answer with new
frames only. -/
theorem drained_iff {bus : CanBus} (hreal : bus.config.dryRun = false) {frames : List TPCANMsg}
    (hlen : frames.length ≤ 256) (time : ℤ) :
    ((∀ n s', Runs (inbox bus.channelIdx false) (bus.drain n) (Inbox.start time frames) s'
        (some ()) → s'.queue = []) ∧
      (∀ n motorId attempts device s', Runs (inbox bus.channelIdx true)
        (bus.getDeviceLoop n motorId attempts) (Inbox.start time frames) s' (some (some device)) →
        ∃ msg, ReadNew msg s' ∧ device = ⟨msg.sourceMotorId, msg.data⟩) ∧
      (∀ n motorId position s', Runs (inbox bus.channelIdx true)
        (bus.readMechanicalPosition n motorId) (Inbox.start time frames) s'
          (some (some position)) →
        ∃ msg, ReadNew msg s' ∧ position = paramValue msg.data)) ↔
      ExtendedButLast frames := by
  constructor
  · rintro ⟨hempty, -, -⟩
    obtain ⟨last, hrun⟩ := drainLoop_runs hreal time 256 frames none
    have hqueue := hempty 1 _ hrun
    rw [← leftover_eq_nil_iff hlen]
    exact List.map_eq_nil_iff.mp hqueue
  · intro hext
    refine ⟨?_, ?_, ?_⟩
    · intro n s' hrun
      obtain ⟨frames', hqueue, hnone⟩ :=
        hrun.post (drain_stale hreal n hlen hext (holding_start false time frames))
      rw [hqueue, hnone rfl]
      rfl
    · intro n motorId attempts device s' hrun
      exact hrun.post
        (getDevice_new hreal n motorId attempts hlen hext (holding_start true time frames)) _ rfl
    · intro n motorId position s' hrun
      exact hrun.post
        (readMechanicalPosition_new hreal n motorId hlen hext
          (holding_start true time frames)) _ rfl

/-! ### A standard frame before a stale reply -/

/-- A standard frame, and behind it an old reply of motor 3. -/
def mixedQueue : List TPCANMsg := [{}, idReply 3 zeroData]

/-- The old reply stays in the queue and is taken for the answer to the next query. -/
theorem stale_reply_taken :
    (¬ ∀ n s', Runs (inbox 1 false) (benchBus.drain n) (Inbox.start 0 mixedQueue) s' (some ()) →
      s'.queue = []) ∧
    ¬ ∀ n motorId attempts device s', Runs (inbox 1 true)
      (benchBus.getDeviceLoop n motorId attempts) (Inbox.start 0 mixedQueue) s'
        (some (some device)) →
      ∃ msg, ReadNew msg s' ∧ device = ⟨msg.sourceMotorId, msg.data⟩ := by
  have hreal : benchBus.config.dryRun = false := rfl
  obtain ⟨last, hdrain⟩ : ∃ last, Runs (inbox 1 false) (benchBus.drain 1)
      (Inbox.start 0 mixedQueue) ⟨0, staleFrames [idReply 3 zeroData], last⟩ (some ()) :=
    drainLoop_runs hreal 0 256 mixedQueue none
  constructor
  · intro h
    have hqueue := h 1 _ hdrain
    simp [staleFrames] at hqueue
  · intro h
    have hanswer : Runs (inbox 1 false) (benchBus.getDevice 1 3) (Inbox.start 0 mixedQueue)
        ⟨0, [], some ⟨true, idReply 3 zeroData⟩⟩ (some (some ⟨3, zeroData⟩)) := by
      refine CanBus.getDevice_answer rfl rfl (by decide) hdrain (inbox_of_calls ?_)
        (still_clock _ _) (still_read (.frame 0 ⟨true, idReply 3 zeroData⟩ [] last))
      exact rfl
    obtain ⟨msg, ⟨frame, hlast, -⟩, -⟩ := h 1 3 1 _ _
      (hanswer.mono fun _ _ _ _ ⟨s₁, frames, hcall, heq, _⟩ => ⟨s₁, frames, hcall, heq, by simp⟩)
    simp at hlast

/-- Two extended frames and a standard one behind them. -/
def staleQueue : List TPCANMsg :=
  [idReply 3 zeroData,
    extendedFrame (buildExtId CommType.feedback.code 4 hostIdDefault) zeroData, {}]

/-- This queue is emptied, and a query that answers has read a new frame. -/
theorem drained_iff_standard : ExtendedButLast staleQueue ∧ (∃ s',
    Runs (inbox 1 false) (benchBus.drain 1) (Inbox.start 0 staleQueue) s' (some ()) ∧
      s'.queue = []) ∧
    ∀ n motorId attempts device s', Runs (inbox 1 true)
      (benchBus.getDeviceLoop n motorId attempts) (Inbox.start 0 staleQueue) s'
        (some (some device)) →
      ∃ msg, ReadNew msg s' ∧ device = ⟨msg.sourceMotorId, msg.data⟩ := by
  have hreal : benchBus.config.dryRun = false := rfl
  have hlen : staleQueue.length ≤ 256 := by decide
  have hext : ExtendedButLast staleQueue := by
    simp [ExtendedButLast, staleQueue, idReply, extendedFrame_extended]
  obtain ⟨last, hrun⟩ := drainLoop_runs hreal 0 256 staleQueue none
  obtain ⟨hempty, hnew, -⟩ := (drained_iff hreal hlen 0).mpr hext
  exact ⟨hext, ⟨_, hrun, hempty 1 _ hrun⟩, hnew⟩

end MotorConfig

end Qub
