import QubController.MotorConfig

/-! # The verdict on the read-back

`command_set_zero` reads the position back and compares its magnitude with 0.1 rad.  The
surroundings answer every call in any way and only keep the record of the calls, so that a
run's replies are read off its log: the reply that ends the read-back is the last frame read.
`read_back_checked_iff` says for which replies the verdict is right; `position_read` rejects
the others with `std::isfinite`. -/

namespace Qub

open Interaction

namespace MotorConfig

/-! ### The verdict -/

/-- A finite position within 0.1 rad of zero. -/
def IsZero (position : CFloat) : Prop := ∃ q : ℚ, position = .rat q ∧ |q| ≤ 1 / 10

/-- The position that was read back. -/
def SetZeroExit.obtained : SetZeroExit → Option CFloat
  | badReadBack position => some position
  | verified position => some position
  | _ => none

/-- The zero is reported as verified only for a position that is zero, and any other position
gives a nonzero exit code. -/
def SetZeroExit.Checked (x : SetZeroExit) : Prop := ∀ position, x.obtained = some position →
  (x = .verified position ∧ x.exitCode = 0 → IsZero position) ∧
    (¬ IsZero position → x.exitCode ≠ 0)

/-- What `command_set_zero` makes of a position. -/
def verdict (position : CFloat) : SetZeroExit :=
  if position.abs.gt (.rat (1 / 10)) then .badReadBack position else .verified position

theorem obtained_verdict (position : CFloat) : (verdict position).obtained = some position := by
  unfold verdict
  split <;> rfl

theorem abs_rat (q : ℚ) : (CFloat.rat q).abs = .rat |q| := by
  by_cases h : q < 0
  · rw [abs_of_neg h]
    simp only [CFloat.abs, CFloat.lt, h, decide_true, if_true]
    rfl
  · rw [abs_of_nonneg (not_lt.mp h)]
    simp [CFloat.abs, CFloat.lt, h]

/-- The comparison is right for every position except the one that is not a number. -/
theorem gt_abs_iff {position : CFloat} (h : position ≠ .nan) :
    position.abs.gt (.rat (1 / 10)) = true ↔ ¬ IsZero position := by
  cases position with
  | nan => exact absurd rfl h
  | posInf => simp [IsZero, CFloat.abs, CFloat.gt, CFloat.lt]
  | negInf => simp [IsZero, CFloat.abs, CFloat.gt, CFloat.lt, Neg.neg, CFloat.neg]
  | rat q => simp [IsZero, abs_rat, CFloat.gt, CFloat.lt]

theorem verdict_nan : verdict .nan = .verified .nan := rfl

theorem not_isZero_nan : ¬ IsZero .nan := by
  rintro ⟨q, hq, -⟩
  cases hq

theorem checked_verdict_iff (position : CFloat) : (verdict position).Checked ↔ position ≠ .nan := by
  constructor
  · rintro h rfl
    exact (h .nan (obtained_verdict _)).2 not_isZero_nan rfl
  · intro hne p hp
    rw [obtained_verdict] at hp
    obtain rfl := Option.some.inj hp
    by_cases hzero : IsZero position
    · exact ⟨fun _ => hzero, fun hnot => absurd hzero hnot⟩
    · have hbad : verdict position = .badReadBack position :=
        if_pos ((gt_abs_iff hne).mpr hzero)
      rw [hbad]
      exact ⟨fun h => absurd h.1 (by simp), fun _ => by simp [SetZeroExit.exitCode]⟩

theorem checked_of_none {x : SetZeroExit} (h : x.obtained = none) : x.Checked := by
  intro p hp
  rw [h] at hp
  cases hp

/-! ### The last call of a run -/

/-- The calls of a run with their answers, the last one at the end. -/
abbrev Log := List (Event Sys)

/-- The last call was a read on channel `ch` that filled the message `msg`. -/
def LastRead (ch : Fin numChannels) (msg : TPCANMsg) (log : Log) : Prop :=
  ∃ earlier frame,
    log = earlier ++ [⟨.canRead ch, ((pcanErrorOk, frame) : TPCANStatus × TPCANMsg)⟩] ∧
    msg = ({} : TPCANMsg).fill frame

/-- The last call was none. -/
def NotRead (log : Log) : Prop := ∀ ch msg, ¬ LastRead ch msg log

theorem notRead_nil : NotRead [] := by
  rintro ch msg ⟨earlier, frame, h, -⟩
  simp at h

theorem notRead_call {log : Log} {c : SysCall} (hc : ∀ ch, c ≠ .canRead ch) (r : c.Resp) :
    NotRead (log ++ [⟨c, r⟩]) := by
  rintro ch msg ⟨earlier, frame, h, -⟩
  obtain ⟨-, hlast⟩ := List.append_inj' h rfl
  have hcall := congrArg Event.call (List.cons.inj hlast).1
  exact hc ch hcall

theorem LastRead.unique {ch ch' : Fin numChannels} {msg msg' : TPCANMsg} {log : Log}
    (h : LastRead ch msg log) (h' : LastRead ch' msg' log) : msg = msg' := by
  obtain ⟨earlier, frame, rfl, rfl⟩ := h
  obtain ⟨earlier', frame', heq, rfl⟩ := h'
  obtain ⟨-, hlast⟩ := List.append_inj' heq rfl
  have hevent := (List.cons.inj hlast).1
  cases hevent
  rfl

/-! ### The parts of the command -/

section record
variable {bus : CanBus} {n : ℕ} {motorId : UInt8} {log : Log}

/-- Nothing but the record is kept. -/
abbrev Recorded {α : Type} (p : SysM α) (Q : α → Log → Prop) (log : Log) : Prop :=
  Sat World.record (fun _ => True) p Q log

theorem receives_record : Receives World.record (fun _ => True) bus.channelIdx (fun _ => True)
    (LastRead bus.channelIdx) where
  frame := fun s frame _ _ hw _ => ⟨trivial, s, frame, hw, rfl⟩
  other := fun _ _ _ _ _ _ _ => ⟨trivial, trivial⟩
  clock := fun _ _ _ _ _ => ⟨trivial, trivial⟩
  sleep := fun _ _ _ _ => ⟨trivial, trivial⟩

theorem send_record (rawId : UInt32) (data : Fin 8 → UInt8) (log : Log) :
    Recorded (bus.send rawId data) (fun _ => NotRead) log := by
  unfold CanBus.send
  split
  · rintro r _ rfl
    exact ⟨trivial, notRead_call (by simp) _⟩
  · rintro r _ rfl
    exact ⟨trivial, notRead_call (by simp) _⟩

/-- `wait_for` ends with the frame that it returns, or with the clock. -/
theorem waitFor_record (timeoutMs : ℤ) (predicate : TPCANMsg → Bool) (log : Log) :
    Recorded (bus.waitFor n timeoutMs predicate) (fun r log' => r.elim (NotRead log') fun msg =>
      predicate msg = true ∧ LastRead bus.channelIdx msg log') log := by
  unfold CanBus.waitFor
  intro now log₁ _
  refine ⟨trivial, CanBus.waitLoop_sat receives_record n (fun _ _ _ _ => trivial) ?_ n log₁ trivial⟩
  rintro s now' _ _ _ rfl
  exact notRead_call (by simp) _

theorem drain_record (log : Log) : Recorded (bus.drain n) (fun _ _ => True) log := sat_true _ _

theorem getDevice_record (hlog : NotRead log) :
    Recorded (bus.getDevice n motorId) (fun r log' => r = none → NotRead log') log := by
  have hloop : ∀ attempts log, NotRead log → Recorded (bus.getDeviceLoop n motorId attempts)
      (fun r log' => r = none → NotRead log') log := by
    intro attempts
    induction attempts with
    | zero => exact fun log hlog _ => hlog
    | succ attempts ih =>
        intro log hlog
        unfold CanBus.getDeviceLoop
        refine (drain_record log).bind fun _ log₁ _ => ?_
        refine (send_record _ _ log₁).bind fun sent log₂ hsent => ?_
        cases sent with
        | false => exact fun _ => hsent
        | true =>
            simp only [Bool.not_true, Bool.false_eq_true, if_false]
            split
            · exact fun h => absurd h (by simp)
            · refine (waitFor_record _ _ log₂).bind fun r log₃ hr => ?_
              cases r with
              | some reply => exact fun h => absurd h (by simp)
              | none => exact ih log₃ hr
  exact hloop _ log hlog

/-- `read_mechanical_position` on an open channel ends with the reply whose value it returns. -/
theorem readMechanicalPosition_record (hreal : bus.config.dryRun = false) (log : Log) :
    Recorded (bus.readMechanicalPosition n motorId) (fun r log' => r.elim (NotRead log')
      fun position => ∃ msg, bus.isMechPosReply motorId msg = true ∧
        LastRead bus.channelIdx msg log' ∧ position = paramValue msg.data) log := by
  unfold CanBus.readMechanicalPosition
  refine (drain_record log).bind fun _ log₁ _ => ?_
  refine (send_record _ _ log₁).bind fun sent log₂ hsent => ?_
  cases sent with
  | false => exact hsent
  | true =>
      simp only [Bool.not_true, Bool.false_eq_true, if_false, hreal]
      refine (waitFor_record _ _ log₂).bind fun r log₃ hr => ?_
      cases r with
      | none => exact hr
      | some msg => exact ⟨msg, hr.1, hr.2, rfl⟩

theorem readBack_record (hreal : bus.config.dryRun = false) (attempts : ℕ)
    (hlog : attempts = 0 → NotRead log) :
    Recorded (bus.readBack n motorId attempts) (fun r log' => r.elim (NotRead log')
      fun position => ∃ msg, bus.isMechPosReply motorId msg = true ∧
        LastRead bus.channelIdx msg log' ∧ position = paramValue msg.data) log := by
  induction attempts generalizing log with
  | zero => exact hlog rfl
  | succ attempts ih =>
      unfold CanBus.readBack
      intro r log₁ _
      refine ⟨trivial, ?_⟩
      refine (readMechanicalPosition_record hreal log₁).bind fun r log₂ hr => ?_
      cases r with
      | some position => exact hr
      | none => exact ih fun _ => hr

/-- What a run of the command ends with: no position and a last call that is no read, or the
verdict on the reply that was read last. -/
def Judged (bus : CanBus) (motorId : UInt8) (x : SetZeroExit) (log : Log) : Prop :=
  (x.obtained = none ∧ NotRead log) ∨
    ∃ msg, bus.isMechPosReply motorId msg = true ∧ LastRead bus.channelIdx msg log ∧
      x = verdict (paramValue msg.data)

theorem setZero_record (log : Log) : Recorded (bus.setZero n motorId) (Judged bus motorId) log := by
  unfold CanBus.setZero CanBus.sendSetZero
  refine Sat.bind ((drain_record log).bind fun _ log₁ _ => send_record _ _ log₁)
    fun sent log₂ hsent => ?_
  cases sent with
  | false => exact .inl ⟨rfl, hsent⟩
  | true =>
      cases hreal : bus.config.dryRun with
      | true =>
          simp only [Bool.not_true, Bool.false_eq_true, if_false, if_true]
          exact .inl ⟨rfl, hsent⟩
      | false =>
          simp only [Bool.not_true, Bool.false_eq_true, if_false]
          refine (waitFor_record _ _ log₂).bind fun ack log₃ hack => ?_
          cases ack with
          | none => exact .inl ⟨rfl, hack⟩
          | some msg =>
              refine (readBack_record hreal 3 (by simp)).bind fun r log₄ hr => ?_
              cases r with
              | none => exact .inl ⟨rfl, hr⟩
              | some position =>
                  obtain ⟨reply, hreply, hlast, rfl⟩ := hr
                  simp only
                  split
                  · rename_i hgt
                    exact .inr ⟨reply, hreply, hlast, (if_pos hgt).symm⟩
                  · rename_i hle
                    exact .inr ⟨reply, hreply, hlast, (if_neg hle).symm⟩

theorem confirmDestructive_record (log : Log) :
    Recorded bus.confirmDestructive
      (fun confirmed log' => confirmed = false → NotRead log') log := by
  unfold CanBus.confirmDestructive
  split
  · exact fun h => absurd h (by simp)
  · rintro tty _ rfl
    refine ⟨trivial, ?_⟩
    cases tty with
    | false => exact fun _ => notRead_call (by simp) _
    | true =>
        rintro answer _ rfl
        exact ⟨trivial, fun _ => notRead_call (by simp) _⟩

theorem stopAndSetZero_record (log : Log) :
    Recorded (bus.stopAndSetZero n motorId) (Judged bus motorId) log := by
  unfold CanBus.stopAndSetZero CanBus.sendStop
  refine (confirmDestructive_record log).bind fun confirmed log₁ hlog₁ => ?_
  cases confirmed with
  | false => exact .inl ⟨rfl, hlog₁ rfl⟩
  | true =>
      refine Sat.bind ((drain_record log₁).bind fun _ log₂ _ => send_record _ _ log₂)
        fun stopped log₃ hlog₃ => ?_
      cases stopped with
      | false => exact .inl ⟨rfl, hlog₃⟩
      | true => exact fun _ log₄ _ => ⟨trivial, setZero_record log₄⟩

/-- **What a run of `set-zero` ends with.** -/
theorem commandSetZero_record :
    Recorded (bus.commandSetZero n motorId) (Judged bus motorId) [] := by
  unfold CanBus.commandSetZero
  split
  · exact stopAndSetZero_record []
  · refine (getDevice_record notRead_nil).bind fun r log₁ hr => ?_
    cases r with
    | none => exact .inl ⟨rfl, hr rfl⟩
    | some device =>
        exact (sat_true _ log₁).bind fun _ log₂ _ => stopAndSetZero_record log₂

end record

/-! ### The verdict and the replies -/

/-- The last frame read answers a `mechPos` request with a value that is not a number. -/
def NanReply (bus : CanBus) (motorId : UInt8) (log : Log) : Prop := ∃ msg,
  bus.isMechPosReply motorId msg = true ∧ LastRead bus.channelIdx msg log ∧
    paramValue msg.data = .nan

/-- **The read-back is checked unless the reply carries no number.** -/
theorem read_back_checked_iff {bus : CanBus} {n : ℕ} {motorId : UInt8} {x : SetZeroExit}
    {log : Log} (hrun : Runs World.record (bus.commandSetZero n motorId) [] log (some x)) :
    x.Checked ↔ ¬ NanReply bus motorId log := by
  rcases hrun.post commandSetZero_record with ⟨hnone, hnot⟩ | ⟨msg, hreply, hlast, rfl⟩
  · refine ⟨?_, fun _ => checked_of_none hnone⟩
    rintro _ ⟨msg, -, hread, -⟩
    exact hnot _ _ hread
  · rw [checked_verdict_iff]
    constructor
    · rintro hne ⟨msg', -, hlast', hnan⟩
      rw [hlast'.unique hlast] at hnan
      exact hne hnan
    · intro h hnan
      exact h ⟨msg, hreply, hlast, hnan⟩

/-! ### A reply without a number -/

/-- The data of a `mechPos` reply whose value is not a number. -/
def nanPosition : Fin 8 → UInt8 := ![0x19, 0x70, 0, 0, 0, 0, 0xC0, 0x7F]

/-- What motor 4 answers to a frame when `position` is the data of its `mechPos` replies. -/
def answerTo (position : Fin 8 → UInt8) (msg : TPCANMsg) : TPCANStatus × TPCANMsg :=
  if msg.commType = CommType.getId.code then (pcanErrorOk, idReply 4 zeroData)
  else if msg.commType = CommType.setZero.code then
    (pcanErrorOk, extendedFrame (buildExtId CommType.feedback.code 4 hostIdDefault) zeroData)
  else if msg.commType = CommType.paramRead.code then
    (pcanErrorOk, extendedFrame (buildExtId CommType.paramRead.code 4 hostIdDefault) position)
  else (pcanErrorQrcvEmpty, {})

def onBus : SysCall → Bool
  | .canWrite _ _ => true
  | .canRead _ => true
  | _ => false

/-- The answer to the last frame written, if no read came after it. -/
def pending (position : Fin 8 → UInt8) (log : Log) : TPCANStatus × TPCANMsg :=
  match log.reverse.find? fun e => onBus e.call with
  | some ⟨.canWrite _ msg, _⟩ => answerTo position msg
  | _ => (pcanErrorQrcvEmpty, {})

/-- A bus on which motor 4 answers every frame at once. -/
def promptBus (position : Fin 8 → UInt8) : Handler Sys Log := fun log c =>
  let r : c.Resp := match c with
    | .canRead _ => pending position log
    | c => c.quiet
  (r, log ++ [⟨c, r⟩])

theorem promptBus_runs {α : Type} {p : SysM α} {position : Fin 8 → UInt8} {a : α}
    (h : (exec (promptBus position) p []).2 = some a) :
    ∃ log, Runs World.record p [] log (some a) := by
  rw [← h]
  exact ⟨_, runs_exec (P := fun _ => True) (fun _ _ _ => ⟨rfl, trivial⟩) _ trivial⟩

/-- Motor 4 reports no number, and the zero counts as verified. -/
theorem set_zero_nan : ∃ log,
    Runs World.record (benchBus.commandSetZero 1 4) [] log (some (.verified .nan)) := by
  have hexec : (exec (promptBus nanPosition) (benchBus.commandSetZero 1 4) []).2 =
      some (.verified .nan) := rfl
  exact promptBus_runs hexec

theorem not_checked_nan : ¬ (SetZeroExit.verified .nan).Checked := by
  rw [← verdict_nan, checked_verdict_iff]
  exact fun h => h rfl

theorem nan_verified : ¬ ∀ (bus : CanBus) (n : ℕ) (motorId : UInt8) (x : SetZeroExit) (log : Log),
    Runs World.record (bus.commandSetZero n motorId) [] log (some x) → x.Checked := by
  intro h
  obtain ⟨log, hrun⟩ := set_zero_nan
  exact not_checked_nan (h _ _ _ _ _ hrun)

theorem read_back_checked_nan : ∃ log,
    Runs World.record (benchBus.commandSetZero 1 4) [] log (some (.verified .nan)) ∧
      NanReply benchBus 4 log := by
  obtain ⟨log, hrun⟩ := set_zero_nan
  refine ⟨log, hrun, ?_⟩
  by_contra hreply
  exact not_checked_nan ((read_back_checked_iff hrun).mpr hreply)

end MotorConfig

end Qub
