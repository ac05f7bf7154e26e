import QubController.FourChannels
import QubController.Trace

/-! # The life of a channel and its thread

`Proper` says of every event of `test_4ch.cpp` that its actor was entitled to it, and `Lawful` which
frames may be written.  A channel with its thread is in one of a few phases (`Phase`).  `Knows` says
that the trace is proper and the four channels are in given phases; a thread keeps to its calls
(`IsRobotCall`), so that nothing that happens beside `main` changes this (`Knows.background`), and
`sat_robot` and `sat_method` are the rules for the calls of `main`. -/

namespace Qub

open Interaction

namespace FourChannels

/-! ### The trace -/

def isOpen (ch : Fin numChannels) : List RobotEvent → Bool
  | [] => false
  | .opened ch' :: past => ch' == ch || isOpen ch past
  | .closed ch' :: past => !(ch' == ch) && isOpen ch past
  | _ :: past => isOpen ch past

/-- There is a thread of the channel: created, and not joined yet. -/
def isAlive (ch : Fin numChannels) : List RobotEvent → Bool
  | [] => false
  | .created ch' ok :: past => (ch' == ch && ok) || isAlive ch past
  | .joined ch' :: past => !(ch' == ch) && isAlive ch past
  | _ :: past => isAlive ch past

/-- The STOP frames that were written to motor `k` since the last other frame to it. -/
def stopsSince (k : Fin numChannels × UInt8) : List RobotEvent → ℕ
  | [] => 0
  | .wrote _ ch msg :: past =>
      if ch = k.1 ∧ msg.destinationId = k.2 then
        if msg.commType = CommType.stop.code then stopsSince k past + 1 else 0
      else stopsSince k past
  | _ :: past => stopsSince k past

/-- The channel belongs to its thread while there is one, and else to `main`. -/
def Owns (ch : Fin numChannels) (past : List RobotEvent) : Actor → Prop
  | none => isAlive ch past = false
  | some ch' => ch' = ch ∧ isAlive ch past = true

/-- Was the actor entitled to this? -/
def Proper : RobotEvent → List RobotEvent → Prop
  | .opened ch, past => isOpen ch past = false
  | .closed ch, past => isOpen ch past = true ∧ isAlive ch past = false
  | .created ch _, past => isOpen ch past = true ∧ isAlive ch past = false
  | .joined ch, past => isAlive ch past = true ∧ .raised ∈ past
  | .raised, _ => True
  | .read a ch, past => isOpen ch past = true ∧ Owns ch past a
  | .wrote a ch _, past => isOpen ch past = true ∧ Owns ch past a
  | .published a ch, past => a = some ch ∧ isAlive ch past = true
  | .acted, past => ∀ ch, isAlive ch past = false

/-- The frames: `main` enables and stops the motors of the table, and the threads only ever
command them to hold. -/
def Lawful (table : List MotorMapEntry) : RobotEvent → Prop
  | .wrote none ch msg => ∃ b ∈ bindingsPerCh table ch,
      msg = b.motor.hostFrame .enable zeroData ∨ msg = b.motor.hostFrame .stop zeroData
  | .wrote (some _) ch msg => ∃ b ∈ bindingsPerCh table ch,
      msg = MotorThread.commandFrame (holdAction 0) b
  | _ => True

/-- At least two STOP frames were the last frames to each motor of the channel. -/
def Stopped (table : List MotorMapEntry) (ch : Fin numChannels) (log : List RobotEvent) : Prop :=
  ∀ b ∈ bindingsPerCh table ch, 2 ≤ stopsSince b.key log

section trace
variable {table : List MotorMapEntry} {ch : Fin numChannels} {log : List RobotEvent}

theorem can_of_mem {b : MotorBinding} (h : b ∈ bindingsPerCh table ch) : b.motor.can = ch := by
  rw [bindingsPerCh_eq] at h
  obtain ⟨e, he, rfl⟩ := List.mem_map.mp h
  simpa [MotorMapEntry.binding] using (List.mem_filter.mp he).2

theorem stopsSince_stop {k : Fin numChannels × UInt8} {a : Actor} {msg : TPCANMsg}
    (h : msg.commType = CommType.stop.code) :
    stopsSince k log ≤ stopsSince k (.wrote a ch msg :: log) := by
  rw [stopsSince, if_pos h]
  split
  · exact Nat.le_succ _
  · exact Nat.le_refl _

theorem stopsSince_own {k : Fin numChannels × UInt8} {a : Actor} {msg : TPCANMsg}
    (htype : msg.commType = CommType.stop.code) (hdest : msg.destinationId = k.2) :
    stopsSince k (.wrote a k.1 msg :: log) = stopsSince k log + 1 := by
  rw [stopsSince, if_pos ⟨rfl, hdest⟩, if_pos htype]

theorem Stopped.other {ch' : Fin numChannels} (h : Stopped table ch log) (hne : ch' ≠ ch)
    (a : Actor) (msg : TPCANMsg) : Stopped table ch (.wrote a ch' msg :: log) := by
  intro b hb
  have hkey : ¬ (ch' = b.key.1 ∧ msg.destinationId = b.key.2) := fun h' =>
    hne (h'.1.trans (can_of_mem hb))
  rw [stopsSince, if_neg hkey]
  exact h b hb

end trace

/-! ### The discipline of a thread -/

/-- A call that thread `ch` may make. -/
def IsRobotCall (table : List MotorMapEntry) (ch : Fin numChannels) : SysCall → Prop
  | .canWrite ch' msg => ch' = ch ∧
      ∃ b ∈ bindingsPerCh table ch, msg = MotorThread.commandFrame (holdAction 0) b
  | .canRead ch' => ch' = ch
  | .storeChannel ch' _ => ch' = ch
  | .loadShutdown | .loadAction | .clockGettime | .clockNanosleep _ => True
  | _ => False

/-- The action that is loaded is one that `main` has stored. -/
def AnsweredHold (_ : Fin numChannels) (c : SysCall) (r : c.Resp) : Prop :=
  match c, r with
  | .loadAction, r => ∃ now, r = holdAction now
  | _, _ => True

section discipline
variable {table : List MotorMapEntry} {ch : Fin numChannels}

/-- The motors of the object, whatever they have heard. -/
def AtMotors (table : List MotorMapEntry) (ch : Fin numChannels) (motors : List MotorBinding) :
    Prop :=
  motors.map MotorThread.settings = (bindingsPerCh table ch).map MotorThread.settings

theorem AtMotors.command {motors : List MotorBinding} (h : AtMotors table ch motors)
    {b : MotorBinding} (hb : b ∈ motors) (now : UInt64) :
    b.motor.can = ch ∧ ∃ b' ∈ bindingsPerCh table ch,
      MotorThread.commandFrame (holdAction now) b = MotorThread.commandFrame (holdAction 0) b' := by
  have hmem : MotorThread.settings b ∈ (bindingsPerCh table ch).map MotorThread.settings :=
    h ▸ List.mem_map_of_mem hb
  obtain ⟨b', hb', heq⟩ := List.mem_map.mp hmem
  refine ⟨?_, b', hb', ?_⟩
  · exact (congrArg (·.motor.can) heq).symm.trans (can_of_mem hb')
  · show MotorThread.commandFrame (holdAction 0) (MotorThread.settings b) = _
    rw [← heq]
    rfl

theorem sendAll_assuming (now : UInt64) (motors : List MotorBinding)
    (h : ∀ b ∈ motors, b.motor.can = ch ∧ ∃ b' ∈ bindingsPerCh table ch,
      MotorThread.commandFrame (holdAction now) b = MotorThread.commandFrame (holdAction 0) b') :
    (MotorThread.sendAll (holdAction now) motors).Assuming (AnsweredHold ch)
      (IsRobotCall table ch) (fun _ => True) := by
  induction motors with
  | nil => trivial
  | cons b rest ih =>
      rw [MotorThread.sendAll, MotorThread.sendCommand_eq]
      exact ⟨h b List.mem_cons_self, fun _ _ => ih fun b' hb' => h b' (List.mem_cons_of_mem _ hb')⟩

theorem drainLoop_assuming (left : ℕ) (d : MotorThread.Drained) (h : AtMotors table ch d.motors) :
    (MotorThread.drainLoop ch left d).Assuming (AnsweredHold ch) (IsRobotCall table ch)
      (fun d' => AtMotors table ch d'.motors) := by
  induction left generalizing d with
  | zero =>
      rw [MotorThread.drainLoop, canRead_bind]
      refine ⟨rfl, ?_⟩
      rintro ⟨sts, frame⟩ -
      by_cases hok : sts = pcanErrorOk <;> simpa [hok, Prog.Assuming] using h
  | succ left ih =>
      rw [MotorThread.drainLoop, canRead_bind]
      refine ⟨rfl, ?_⟩
      rintro ⟨sts, frame⟩ -
      by_cases hok : sts = pcanErrorOk
      · simp only [hok, beq_self_eq_true, if_true]
        rw [MotorThread.dispatch_eq]
        split
        · refine ⟨trivial, fun now _ => ih _ ?_⟩
          exact (MotorThread.deliver_settings _ _ _).trans h
        · exact ih _ h
      · simpa [hok, Prog.Assuming] using h

theorem runLoop_assuming (buf : ℕ → TPCANMsg) (n : ℕ) (t : MotorThread) (next prevWake : Timespec)
    (hch : t.channelIdx = ch) (h : AtMotors table ch t.motors) :
    (MotorThread.runLoop buf n t next prevWake).Assuming (AnsweredHold ch) (IsRobotCall table ch)
      (fun _ => True) := by
  induction n generalizing t next prevWake with
  | zero => trivial
  | succ n ih =>
      rw [MotorThread.runLoop, loadShutdown_bind]
      refine ⟨trivial, fun shutdown _ => ?_⟩
      cases shutdown with
      | true => trivial
      | false =>
          refine Prog.Assuming.bind (R := fun t' => t'.channelIdx = ch ∧
            AtMotors table ch t'.motors) ?_ ?_
          · refine ⟨trivial, ?_⟩
            rintro act ⟨now, rfl⟩
            refine (sendAll_assuming now _ fun b hb => h.command hb now).bind fun _ _ => ?_
            rw [hch]
            refine (drainLoop_assuming _ _ h).bind fun d hd => ?_
            exact ⟨trivial, fun _ _ => ⟨rfl, fun _ _ => ⟨rfl, hd⟩⟩⟩
          · rintro t' ⟨hch', h'⟩
            exact ⟨trivial, fun _ _ => ⟨trivial, fun _ _ => ih _ _ _ hch' h'⟩⟩

theorem run_assuming (table : List MotorMapEntry) (ch : Fin numChannels) (buf : ℕ → TPCANMsg)
    (n : ℕ) :
    (MotorThread.run buf n (threadOf table ch)).Assuming (AnsweredHold ch) (IsRobotCall table ch)
      (fun _ => True) :=
  ⟨trivial, fun next _ => runLoop_assuming buf n _ next next rfl rfl⟩

end discipline

/-! ### The life of a channel -/

/-- A channel and its thread. -/
inductive Phase
  | unopened
  | idle
  | running
  | joined
  | stopped
  /-- Closed, after there was a thread or without one. -/
  | closed (made : Bool)
deriving DecidableEq

namespace Phase

def isOpen : Phase → Bool
  | idle | running | joined | stopped => true
  | _ => false

def isAlive : Phase → Bool
  | running => true
  | _ => false

def made : Phase → Bool
  | running | joined | stopped => true
  | closed made => made
  | _ => false

/-- There was a thread, and the motors were stopped after it. -/
def settled : Phase → Bool
  | stopped => true
  | closed made => made
  | _ => false

def close (p : Phase) : Phase := .closed p.made

end Phase

/-- The phases of the four channels. -/
abbrev Phases := Fin numChannels → Phase

/-- The trace is proper, and its channels are in the phases `phase`. -/
structure Logged (table : List MotorMapEntry) (phase : Phases) (log : List RobotEvent) : Prop where
  proper : Each Proper log
  lawful : ∀ e ∈ log, Lawful table e
  open_eq : ∀ ch, isOpen ch log = (phase ch).isOpen
  alive_eq : ∀ ch, isAlive ch log = (phase ch).isAlive
  made_iff : ∀ ch, .created ch true ∈ log ↔ (phase ch).made = true
  settled : ∀ ch, (phase ch).settled = true → Stopped table ch log

section logged
variable {table : List MotorMapEntry} {phase : Phases} {log : List RobotEvent}
  {ch : Fin numChannels}

/-- An event that leaves all channels in their phases. -/
theorem Logged.keep (h : Logged table phase log) {e : RobotEvent} (hp : Proper e log)
    (hl : Lawful table e) (hopen : ∀ ch, isOpen ch (e :: log) = isOpen ch log)
    (halive : ∀ ch, isAlive ch (e :: log) = isAlive ch log) (hmade : ∀ ch, e ≠ .created ch true)
    (hstop : ∀ ch, (phase ch).settled = true → Stopped table ch log → Stopped table ch (e :: log)) :
    Logged table phase (e :: log) where
  proper := each_cons.mpr ⟨hp, h.proper⟩
  lawful := List.forall_mem_cons.mpr ⟨hl, h.lawful⟩
  open_eq := fun c => (hopen c).trans (h.open_eq c)
  alive_eq := fun c => (halive c).trans (h.alive_eq c)
  made_iff := fun c => by
    rw [List.mem_cons, or_iff_right (hmade c).symm]
    exact h.made_iff c
  settled := fun c hc => hstop c hc (h.settled c hc)

/-- A frame on a channel whose motors need not be at rest yet. -/
theorem Logged.wrote (h : Logged table phase log) {a : Actor} {msg : TPCANMsg}
    (hopen : (phase ch).isOpen = true) (hown : Owns ch log a) (hset : (phase ch).settled = false)
    (hl : Lawful table (.wrote a ch msg)) : Logged table phase (.wrote a ch msg :: log) := by
  refine h.keep ⟨(h.open_eq ch).trans hopen, hown⟩ hl (fun _ => rfl) (fun _ => rfl) (by simp) ?_
  intro c hc hstop
  refine hstop.other ?_ a msg
  rintro rfl
  rw [hset] at hc
  cases hc

theorem Logged.raised (h : Logged table phase log) : Logged table phase (.raised :: log) :=
  h.keep trivial trivial (fun _ => rfl) (fun _ => rfl) (by simp) fun _ _ hs => hs

/-- A channel enters the phase `p`; for the others nothing has changed. -/
theorem Logged.move (h : Logged table phase log) {log' : List RobotEvent} {p : Phase}
    (hproper : Each Proper log') (hlawful : ∀ e ∈ log', Lawful table e)
    (hother : ∀ c, c ≠ ch → isOpen c log' = isOpen c log ∧ isAlive c log' = isAlive c log ∧
      (.created c true ∈ log' ↔ .created c true ∈ log) ∧
      (Stopped table c log → Stopped table c log'))
    (hopen : isOpen ch log' = p.isOpen) (halive : isAlive ch log' = p.isAlive)
    (hmade : .created ch true ∈ log' ↔ p.made = true)
    (hsettled : p.settled = true → Stopped table ch log') :
    Logged table (Function.update phase ch p) log' where
  proper := hproper
  lawful := hlawful
  open_eq := fun c => by
    rcases eq_or_ne c ch with rfl | hne
    · rw [Function.update_self, hopen]
    · rw [Function.update_of_ne hne, (hother c hne).1, h.open_eq]
  alive_eq := fun c => by
    rcases eq_or_ne c ch with rfl | hne
    · rw [Function.update_self, halive]
    · rw [Function.update_of_ne hne, (hother c hne).2.1, h.alive_eq]
  made_iff := fun c => by
    rcases eq_or_ne c ch with rfl | hne
    · rw [Function.update_self, hmade]
    · rw [Function.update_of_ne hne, (hother c hne).2.2.1, h.made_iff]
  settled := fun c hc => by
    rcases eq_or_ne c ch with rfl | hne
    · exact hsettled (by rwa [Function.update_self] at hc)
    · rw [Function.update_of_ne hne] at hc
      exact (hother c hne).2.2.2 (h.settled c hc)

theorem Logged.opened (h : Logged table phase log) (hch : phase ch = .unopened) :
    Logged table (Function.update phase ch .idle) (.opened ch :: log) := by
  have hproper : Proper (.opened ch) log := (h.open_eq ch).trans (by rw [hch]; rfl)
  refine h.move (each_cons.mpr ⟨hproper, h.proper⟩) (List.forall_mem_cons.mpr ⟨trivial, h.lawful⟩)
    (fun c hne => ?_) ?_ ?_ ?_ ?_
  · exact ⟨by simp [isOpen, hne.symm], rfl, by simp, id⟩
  · simp [isOpen, Phase.isOpen]
  · exact (h.alive_eq ch).trans (by rw [hch]; rfl)
  · rw [List.mem_cons, or_iff_right (by simp), h.made_iff, hch]
    rfl
  · simp [Phase.settled]

theorem Logged.closed (h : Logged table phase log) (hch : phase ch = .idle ∨ phase ch = .stopped) :
    Logged table (Function.update phase ch (phase ch).close) (.closed ch :: log) := by
  have hopen : (phase ch).isOpen = true := by rcases hch with hch | hch <;> rw [hch] <;> rfl
  have halive : (phase ch).isAlive = false := by rcases hch with hch | hch <;> rw [hch] <;> rfl
  have hproper : Proper (.closed ch) log :=
    ⟨(h.open_eq ch).trans hopen, (h.alive_eq ch).trans halive⟩
  refine h.move (each_cons.mpr ⟨hproper, h.proper⟩) (List.forall_mem_cons.mpr ⟨trivial, h.lawful⟩)
    (fun c hne => ?_) ?_ ?_ ?_ ?_
  · exact ⟨by simp [isOpen, hne.symm], rfl, by simp, id⟩
  · simp [isOpen, Phase.isOpen, Phase.close]
  · exact (h.alive_eq ch).trans halive
  · rw [List.mem_cons, or_iff_right (by simp), h.made_iff]
    rfl
  · intro hset
    refine h.settled ch ?_
    rcases hch with hch | hch
    · rw [hch] at hset
      cases hset
    · rw [hch]
      rfl

theorem Logged.created (h : Logged table phase log) (hch : phase ch = .idle) :
    Logged table (Function.update phase ch .running) (.created ch true :: log) := by
  have hproper : Proper (.created ch true) log :=
    ⟨(h.open_eq ch).trans (by rw [hch]; rfl), (h.alive_eq ch).trans (by rw [hch]; rfl)⟩
  refine h.move (each_cons.mpr ⟨hproper, h.proper⟩) (List.forall_mem_cons.mpr ⟨trivial, h.lawful⟩)
    (fun c hne => ?_) ?_ ?_ ?_ ?_
  · exact ⟨rfl, by simp [isAlive, hne.symm], by simp [hne], id⟩
  · exact (h.open_eq ch).trans (by rw [hch]; rfl)
  · simp [isAlive, Phase.isAlive]
  · simp [Phase.made]
  · simp [Phase.settled]

theorem Logged.joined (h : Logged table phase log) (hch : phase ch = .running)
    (hraised : .raised ∈ log) :
    Logged table (Function.update phase ch .joined) (.joined ch :: log) := by
  have hproper : Proper (.joined ch) log := ⟨(h.alive_eq ch).trans (by rw [hch]; rfl), hraised⟩
  refine h.move (each_cons.mpr ⟨hproper, h.proper⟩) (List.forall_mem_cons.mpr ⟨trivial, h.lawful⟩)
    (fun c hne => ?_) ?_ ?_ ?_ ?_
  · exact ⟨rfl, by simp [isAlive, hne.symm], by simp, id⟩
  · exact (h.open_eq ch).trans (by rw [hch]; rfl)
  · simp [isAlive, Phase.isAlive]
  · rw [List.mem_cons, or_iff_right (by simp), h.made_iff, hch]
    rfl
  · simp [Phase.settled]

theorem Logged.rest (h : Logged table phase log) (hch : phase ch = .joined)
    (hstop : Stopped table ch log) :
    Logged table (Function.update phase ch .stopped) log := by
  refine h.move h.proper h.lawful (fun _ _ => ⟨rfl, rfl, Iff.rfl, id⟩) ?_ ?_ ?_ fun _ => hstop
  · exact (h.open_eq ch).trans (by rw [hch]; rfl)
  · exact (h.alive_eq ch).trans (by rw [hch]; rfl)
  · rw [h.made_iff, hch]
    rfl

end logged

/-! ### Beside main -/

def IsHold (act : ActionState) : Prop := ∃ now, act = holdAction now

/-- What `main` knows when the channels are in the phases `phase`. -/
structure Knows (table : List MotorMapEntry) (phase : Phases) (s : Robot) : Prop where
  logged : Logged table phase s.shared.log
  thread_eq : ∀ ch, (s.threads ch).isSome = (phase ch).isAlive
  disciplined : Pool.Disciplined AnsweredHold (IsRobotCall table) s
  acted : ∀ ch, (phase ch).isAlive = true → .acted ∈ s.shared.log
  hold : .acted ∈ s.shared.log → IsHold s.shared.action

/-- What others leave as it is: the trace grows, and no motor without a thread gets a frame. -/
structure Later (phase : Phases) (s s' : Robot) : Prop where
  grows : ∀ e ∈ s.shared.log, e ∈ s'.shared.log
  stops : ∀ k : Fin numChannels × UInt8, (phase k.1).isAlive = false →
    stopsSince k s'.shared.log = stopsSince k s.shared.log

theorem Later.refl (phase : Phases) (s : Robot) : Later phase s s := ⟨fun _ h => h, fun _ _ => rfl⟩

theorem Later.trans {phase : Phases} {s s₁ s₂ : Robot} (h : Later phase s s₁)
    (h' : Later phase s₁ s₂) : Later phase s s₂ :=
  ⟨fun e he => h'.grows e (h.grows e he), fun k hk => (h'.stops k hk).trans (h.stops k hk)⟩

theorem Phase.eq_running {p : Phase} (h : p.isAlive = true) : p = .running := by
  cases p <;> first | rfl | cases h

section beside
variable {table : List MotorMapEntry} {phase : Phases} {s s' : Robot}

/-- A right call of a thread keeps the channels in their phases. -/
theorem Logged.thread {ch : Fin numChannels} {c : SysCall} {r : c.Resp} {shared shared' : Shared}
    (h : Logged table phase shared.log) (halive : (phase ch).isAlive = true)
    (hc : IsRobotCall table ch c) (hw : threadWorld ch shared c r shared') :
    Logged table phase shared'.log ∧ shared'.action = shared.action ∧
      (∀ e ∈ shared.log, e ∈ shared'.log) ∧
      ∀ k : Fin numChannels × UInt8, (phase k.1).isAlive = false →
        stopsSince k shared'.log = stopsSince k shared.log := by
  have hopen : (phase ch).isOpen = true := by rw [Phase.eq_running halive]; rfl
  have hset : (phase ch).settled = false := by rw [Phase.eq_running halive]; rfl
  have hlog : isAlive ch shared.log = true := (h.alive_eq ch).trans halive
  cases c with
  | canWrite ch' msg =>
      obtain ⟨rfl, hmsg⟩ := hc
      obtain rfl := hw
      refine ⟨h.wrote hopen ⟨rfl, hlog⟩ hset hmsg, rfl, fun _ he => List.mem_cons_of_mem _ he, ?_⟩
      intro k hk
      have hne : ch' ≠ k.1 := by
        rintro rfl
        rw [halive] at hk
        cases hk
      exact if_neg fun h' => hne h'.1
  | canRead ch' =>
      obtain rfl : ch' = ch := hc
      obtain rfl := hw
      refine ⟨h.keep ⟨(h.open_eq ch').trans hopen, rfl, hlog⟩ trivial (fun _ => rfl) (fun _ => rfl)
        (by simp) fun _ _ hs => hs, rfl, fun _ he => List.mem_cons_of_mem _ he, fun _ _ => rfl⟩
  | storeChannel ch' state =>
      obtain rfl : ch' = ch := hc
      obtain rfl := hw
      refine ⟨h.keep ⟨rfl, hlog⟩ trivial (fun _ => rfl) (fun _ => rfl)
        (by simp) fun _ _ hs => hs, rfl, fun _ he => List.mem_cons_of_mem _ he, fun _ _ => rfl⟩
  | loadShutdown =>
      obtain ⟨-, rfl⟩ := hw
      exact ⟨h, rfl, fun _ he => he, fun _ _ => rfl⟩
  | loadAction =>
      obtain ⟨-, rfl⟩ := hw
      exact ⟨h, rfl, fun _ he => he, fun _ _ => rfl⟩
  | clockGettime =>
      obtain rfl := hw
      exact ⟨h, rfl, fun _ he => he, fun _ _ => rfl⟩
  | clockNanosleep wake =>
      obtain rfl := hw
      exact ⟨h, rfl, fun _ he => he, fun _ _ => rfl⟩
  | _ => exact hc.elim

theorem Knows.step (h : Knows table phase s) (hs : Pool.Step threadWorld s s') :
    Knows table phase s' ∧ Later phase s s' := by
  obtain ⟨ch, c, r, hsome, hc, hw⟩ := hs.exists_call h.disciplined
  have halive : (phase ch).isAlive = true := (h.thread_eq ch).symm.trans hsome
  obtain ⟨hlogged, haction, hgrows, hstops⟩ := h.logged.thread halive hc hw
  have hacted : .acted ∈ s'.shared.log := hgrows _ (h.acted ch halive)
  refine ⟨⟨hlogged, fun t => (hs.isSome_eq t).trans (h.thread_eq t), ?_, fun t ht => ?_, ?_⟩,
    hgrows, hstops⟩
  · refine hs.disciplined h.disciplined fun t c r shared' ht hw => ?_
    cases c with
    | loadAction =>
        obtain ⟨now, hnow⟩ := h.hold (h.acted t ((h.thread_eq t).symm.trans ht))
        exact ⟨now, hw.1.trans hnow⟩
    | _ => trivial
  · exact hgrows _ (h.acted t ht)
  · intro _
    rw [haction]
    exact h.hold (h.acted ch halive)

theorem Knows.raise (h : Knows table phase s) :
    Knows table phase ⟨s.threads, { s.shared.note .raised with flag := true }⟩ where
  logged := h.logged.raised
  thread_eq := h.thread_eq
  disciplined := h.disciplined
  acted := fun t ht => List.mem_cons_of_mem _ (h.acted t ht)
  hold := fun hmem => h.hold (by simpa [Shared.note] using hmem)

/-- What happens beside `main` keeps the channels in their phases. -/
theorem Knows.background (h : Knows table phase s) (hs : Background s s') :
    Knows table phase s' ∧ Later phase s s' := by
  induction hs with
  | refl => exact ⟨h, .refl phase s⟩
  | tail _ hstep ih =>
      obtain ⟨h₁, hlater⟩ := ih
      cases hstep with
      | thread hstep =>
          obtain ⟨h₂, hlater'⟩ := h₁.step hstep
          exact ⟨h₂, hlater.trans hlater'⟩
      | signal =>
          exact ⟨h₁.raise, hlater.trans ⟨fun _ he => List.mem_cons_of_mem _ he, fun _ _ => rfl⟩⟩

/-- The invariant after every call of `main`. -/
def Safe (table : List MotorMapEntry) (s : Robot) : Prop := ∃ phase, Knows table phase s

/-- One call of `main`. -/
theorem sat_robot {α : Type} {c : RobotCall} {k : c.Resp → RobotM α} {Q : α → Robot → Prop}
    (h : Knows table phase s)
    (hk : ∀ s₁, Knows table phase s₁ → Later phase s s₁ → ∀ r s', mainEffect table s₁ c r s' →
      Safe table s' ∧ Sat (robotWorld table) (Safe table) (k r) Q s') :
    Sat (robotWorld table) (Safe table) (.call c k) Q s := by
  rintro r s' ⟨s₁, hback, heff⟩
  obtain ⟨h₁, hlater⟩ := h.background hback
  exact hk s₁ h₁ hlater r s' heff

/-- One call of a method of `threads[ch]`. -/
theorem sat_method {α : Type} {ch : Fin numChannels} {c : SysCall} {k : c.Resp → SysM α}
    {Q : α → Robot → Prop} (h : Knows table phase s)
    (hk : ∀ s₁, Knows table phase s₁ → Later phase s s₁ →
      ∀ r s', mainEffect table s₁ (.onThread ch c) r s' → Safe table s' ∧
        Sat ((robotWorld table).seen (onThread ch)) (Safe table) (k r) Q s') :
    Sat ((robotWorld table).seen (onThread ch)) (Safe table) (.call (I := Sys) c k) Q s := by
  rintro r s' ⟨_, rfl, s₁, hback, heff⟩
  obtain ⟨h₁, hlater⟩ := h.background hback
  exact hk s₁ h₁ hlater _ s' heff

end beside

end FourChannels

end Qub
