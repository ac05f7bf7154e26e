import QubController.Robstride
import QubController.ThreadPool
import QubController.Trace

/-! # The first test

`test_can_init.cpp`: `main` opens one channel, enables one motor on it, sends it the same command at
most two hundred times, printing its feedback, and stops it.  `session_frames` says which frames
are written and when, on any path through the program: whatever the driver answers, whatever is
received, and whenever a signal arrives. -/

namespace Qub

open Interaction

namespace TestCanInit

/-! ### The program -/

inductive BenchCall
  | sys (c : SysCall)
  /-- `CAN_Uninitialize` in the destructor of `PcanChannel`. -/
  | canUnInitialize

@[reducible] def BenchCall.Resp : BenchCall → Type
  | sys c => c.Resp
  | canUnInitialize => Unit

abbrev BenchI : Interface := ⟨BenchCall, BenchCall.Resp⟩

abbrev BenchM := Prog BenchI

abbrev bench (c : BenchCall) : BenchM c.Resp := Prog.perform (I := BenchI) c

/-- The calls of the driver. -/
def viaSys : Embedding Sys BenchI := ⟨.sys, fun _ r => r⟩

/-- `TEST_CHANNEL`, the first of `CAN_CHANNELS`. -/
def testChannel : Fin numChannels := 0
/-- `TEST_MOTOR_ID`. -/
def testMotorId : UInt8 := 1
def loopCount : ℕ := 200
def loopPeriodMs : ℤ := 20

def motor : Robstride := { can := testChannel, motorId := testMotorId }

/-- What has been received is read, at most `n` frames; `msg` is the buffer. -/
def readLoop : ℕ → TPCANMsg → Robstride → SysM Robstride
  | 0, _, _ => .cut
  | n + 1, msg, m => do
      let (sts, frame) ← canRead testChannel
      if sts == pcanErrorOk then
        let msg := msg.fill frame
        let (_, m) ← m.tryParseFeedback msg
        readLoop n msg m
      else
        return m

/-- The loop of the commands, with the number of those that are left. -/
def commandLoop (n : ℕ) : ℕ → Robstride → SysM Robstride
  | 0, m => do
      let _ ← loadRunning
      return m
  | left + 1, m => do
      let running ← loadRunning
      if !running then
        return m
      else
        let _ ← m.sendMitCommand (.rat 0) (.rat 0) (.rat 10) (.rat (1 / 2)) (.rat 0)
        let m ← readLoop n {} m
        sleepFor (loopPeriodMs * 1000000)
        commandLoop n left m

/-- What `main` does with the open channel. -/
def session (n : ℕ) : SysM Unit := do
  let _ ← motor.enable
  sleepFor (100 * 1000000)
  let m ← commandLoop n loopCount motor
  let _ ← m.stop true
  sleepFor (50 * 1000000)

/-- `main`, with at most `n` frames at a time; the exit code. -/
def main (n : ℕ) : BenchM ℤ := do
  let sts ← bench (.sys (.canInitialize testChannel))
  if sts != pcanErrorOk then
    return 1
  else
    (session n).through viaSys
    bench .canUnInitialize
    return 0

/-! ### What is written -/

def enableFrame : TPCANMsg := motor.hostFrame .enable zeroData
def mitFrame : TPCANMsg := motor.mitFrame (.rat 0) (.rat 0) (.rat 10) (.rat (1 / 2)) (.rat 0)
def stopFrame : TPCANMsg := motor.hostFrame .stop (Function.update zeroData 0 1)

/-- The frame that an event writes. -/
def frameOf : Event BenchI → Option TPCANMsg
  | ⟨.sys (.canWrite _ msg), _⟩ => some msg
  | _ => none

/-- The frames written so far, the newest first. -/
def written (log : List (Event BenchI)) : List TPCANMsg := log.filterMap frameOf

/-- The channel is initialized. -/
def IsOpen : List (Event BenchI) → Prop
  | [] => False
  | ⟨.sys (.canInitialize _), sts⟩ :: _ => sts = pcanErrorOk
  | ⟨.canUnInitialize, _⟩ :: _ => False
  | _ :: past => IsOpen past

/-- No signal has been noticed. -/
def Running (log : List (Event BenchI)) : Prop :=
  ∀ running, ⟨.sys .loadRunning, running⟩ ∈ log → running = true

/-- The frames of a session after `k` commands. -/
def commands (k : ℕ) : List TPCANMsg := List.replicate k mitFrame ++ [enableFrame]

/-- What may be done when. -/
def Proper : Event BenchI → List (Event BenchI) → Prop
  | ⟨.sys (.canInitialize ch), _⟩, past => ch = testChannel ∧ past = []
  | ⟨.sys (.canWrite ch msg), _⟩, past => ch = testChannel ∧ IsOpen past ∧
      (msg = enableFrame ∧ written past = [] ∨
        msg = mitFrame ∧ Running past ∧ (∃ k < loopCount, written past = commands k) ∨
        msg = stopFrame ∧ ∃ k ≤ loopCount, written past = commands k)
  | ⟨.sys (.canRead ch), _⟩, past => ch = testChannel ∧ IsOpen past
  | ⟨.canUnInitialize, _⟩, past =>
      IsOpen past ∧ ∃ k ≤ loopCount, written past = stopFrame :: commands k
  | _, _ => True

/-! ### The proof -/

section session
variable {past log : List (Event BenchI)} {k : ℕ}

theorem sat_sys_call {α : Type} {Inv : List (Event BenchI) → Prop} {c : SysCall}
    {f : c.Resp → SysM α} {Q : α → List (Event BenchI) → Prop} :
    Sat (World.trace.seen viaSys) Inv (.call (I := Sys) c f) Q past ↔
      ∀ r : c.Resp, Inv (⟨.sys c, r⟩ :: past) ∧
        Sat (World.trace.seen viaSys) Inv (f r) Q (⟨.sys c, r⟩ :: past) :=
  ⟨fun h r => h r _ ⟨r, rfl, rfl⟩, fun h _ _ ⟨r', hr, hs⟩ => by
    obtain rfl : r' = _ := hr
    exact hs ▸ h r'⟩

/-- All has been proper, and `frames` have been written to the open channel. -/
structure At (frames : List TPCANMsg) (log : List (Event BenchI)) : Prop where
  each : Each Proper log
  is_open : IsOpen log
  written_eq : written log = frames

/-- The calls that neither write nor open nor close. -/
def IsReading : SysCall → Prop
  | .canRead ch => ch = testChannel
  | .clockGettime => True
  | .sleepFor _ => True
  | _ => False

theorem At.reading {frames : List TPCANMsg} {c : SysCall} (h : At frames log) (hc : IsReading c)
    (r : c.Resp) : At frames (⟨.sys c, r⟩ :: log) ∧
      (Running (⟨.sys c, r⟩ :: log) ↔ Running log) := by
  cases c with
  | canRead ch =>
      refine ⟨⟨each_cons.mpr ⟨⟨hc, h.is_open⟩, h.each⟩, h.is_open, h.written_eq⟩, ?_⟩
      simp [Running]
  | clockGettime =>
      refine ⟨⟨each_cons.mpr ⟨trivial, h.each⟩, h.is_open, h.written_eq⟩, ?_⟩
      simp [Running]
  | sleepFor ns =>
      refine ⟨⟨each_cons.mpr ⟨trivial, h.each⟩, h.is_open, h.written_eq⟩, ?_⟩
      simp [Running]
  | _ => exact hc.elim

/-- A write that is proper. -/
theorem At.write {frames : List TPCANMsg} {msg : TPCANMsg} (h : At frames log)
    (hmsg : msg = enableFrame ∧ frames = [] ∨
      msg = mitFrame ∧ Running log ∧ (∃ k < loopCount, frames = commands k) ∨
      msg = stopFrame ∧ ∃ k ≤ loopCount, frames = commands k) (sts : TPCANStatus) :
    At (msg :: frames) (⟨.sys (.canWrite testChannel msg), sts⟩ :: log) ∧
      (Running (⟨.sys (.canWrite testChannel msg), sts⟩ :: log) ↔ Running log) := by
  have hproper : Proper ⟨.sys (.canWrite testChannel msg), sts⟩ log :=
    ⟨rfl, h.is_open, by rw [h.written_eq]; exact hmsg⟩
  refine ⟨⟨each_cons.mpr ⟨hproper, h.each⟩, h.is_open, ?_⟩, by simp [Running]⟩
  rw [← h.written_eq]
  rfl

/-- The driver of the test with some feedback. -/
def IsMotor (m : Robstride) : Prop := ∃ fb, m = { motor with lastFeedback := fb }

theorem readLoop_obeys (n : ℕ) (msg : TPCANMsg) {m : Robstride} (hm : IsMotor m) :
    (readLoop n msg m).Obeys IsReading IsMotor := by
  induction n generalizing msg m with
  | zero => trivial
  | succ n ih =>
      rw [readLoop, canRead_bind]
      refine ⟨rfl, ?_⟩
      rintro ⟨sts, frame⟩
      by_cases hok : (sts == pcanErrorOk) = true
      · simp only [hok, if_true, Robstride.tryParseFeedback]
        by_cases haccepts : m.accepts (msg.fill frame) = true
        · simp only [haccepts, if_true]
          obtain ⟨fb, rfl⟩ := hm
          exact ⟨trivial, fun ts => ih _ ⟨_, rfl⟩⟩
        · simp only [haccepts]
          exact ih _ hm
      · simp only [hok]
        exact hm

theorem readLoop_sat (n : ℕ) (msg : TPCANMsg) {m : Robstride} (hm : IsMotor m)
    {frames : List TPCANMsg} (h : At frames past) :
    Sat (World.trace.seen viaSys) (Each Proper) (readLoop n msg m)
      (fun m' log => IsMotor m' ∧ At frames log ∧ (Running log ↔ Running past)) past := by
  refine (readLoop_obeys n msg hm).sat (J := fun log => At frames log ∧
    (Running log ↔ Running past)) ?_ ⟨h, Iff.rfl⟩
  rintro log c r _ hc ⟨hlog, hrunning⟩ ⟨r', hr, rfl⟩
  obtain rfl : r' = r := hr
  obtain ⟨hnext, hsame⟩ := hlog.reading hc r'
  exact ⟨hnext.each, hnext, hsame.trans hrunning⟩

/-- The answer to a look at `g_running`. -/
theorem At.look {frames : List TPCANMsg} (h : At frames log) (running : Bool) :
    At frames (⟨.sys .loadRunning, running⟩ :: log) ∧
      (Running (⟨.sys .loadRunning, running⟩ :: log) ↔ running = true ∧ Running log) := by
  refine ⟨⟨each_cons.mpr ⟨trivial, h.each⟩, h.is_open, h.written_eq⟩, ?_⟩
  simp [Running]

/-- The commands stop at the count or at a signal. -/
def Done (k : ℕ) (log : List (Event BenchI)) : Prop :=
  k ≤ loopCount ∧ At (commands k) log ∧ (k = loopCount ∨ ¬ Running log)

theorem commandLoop_sat (n left : ℕ) {m : Robstride} (hm : IsMotor m) (hk : k + left = loopCount)
    (h : At (commands k) past) (hrunning : Running past) :
    Sat (World.trace.seen viaSys) (Each Proper) (commandLoop n left m)
      (fun m' log => IsMotor m' ∧ ∃ k, Done k log) past := by
  induction left generalizing k m past with
  | zero =>
      rw [commandLoop, loadRunning_bind]
      refine sat_sys_call.mpr fun running => ?_
      obtain ⟨hnext, -⟩ := h.look running
      exact ⟨hnext.each, hm, k, by omega, hnext, .inl hk⟩
  | succ left ih =>
      rw [commandLoop, loadRunning_bind]
      refine sat_sys_call.mpr fun running => ?_
      obtain ⟨hnext, hlook⟩ := h.look running
      refine ⟨hnext.each, ?_⟩
      cases running with
      | false => exact ⟨hm, k, by omega, hnext, .inr fun hr => nomatch (hlook.mp hr).1⟩
      | true =>
          have hgoing := hlook.mpr ⟨rfl, hrunning⟩
          obtain ⟨fb, rfl⟩ := hm
          refine sat_sys_call.mpr fun sts => ?_
          obtain ⟨hwritten, hsame⟩ := hnext.write
            (.inr (.inl ⟨rfl, hgoing, k, by omega, rfl⟩)) sts
          refine ⟨hwritten.each, (readLoop_sat n {} ⟨fb, rfl⟩ hwritten).bind ?_⟩
          rintro m' log ⟨hm', hlog, hstill⟩
          refine sat_sys_call.mpr fun _ => ?_
          obtain ⟨hslept, hsame'⟩ :=
            hlog.reading (c := .sleepFor (loopPeriodMs * 1000000)) trivial ()
          exact ⟨hslept.each, ih (k := k + 1) hm' (by omega) hslept
            (hsame'.mpr (hstill.mpr (hsame.mpr hgoing)))⟩

/-- The session, once the channel is open. -/
theorem session_sat (n : ℕ) (h : At [] past) (hrunning : Running past) :
    Sat (World.trace.seen viaSys) (Each Proper) (session n)
      (fun _ log => ∃ k ≤ loopCount, At (stopFrame :: commands k) log ∧
        (k = loopCount ∨ ¬ Running log)) past := by
  refine sat_sys_call.mpr fun sts => ?_
  obtain ⟨henabled, hsame⟩ := h.write (.inl ⟨rfl, rfl⟩) sts
  refine ⟨henabled.each, sat_sys_call.mpr fun _ => ?_⟩
  obtain ⟨hslept, hsame'⟩ := henabled.reading (c := .sleepFor (100 * 1000000)) trivial ()
  refine ⟨hslept.each, (commandLoop_sat n loopCount (k := 0) ⟨{}, rfl⟩ (Nat.zero_add _) hslept
    (hsame'.mpr (hsame.mpr hrunning))).bind ?_⟩
  rintro _ log ⟨⟨fb, rfl⟩, k, hk, hlog, hend⟩
  refine sat_sys_call.mpr fun sts' => ?_
  obtain ⟨hstopped, hsame₁⟩ := hlog.write (.inr (.inr ⟨rfl, k, hk, rfl⟩)) sts'
  refine ⟨hstopped.each, sat_sys_call.mpr fun _ => ?_⟩
  obtain ⟨hlast, hsame₂⟩ := hstopped.reading (c := .sleepFor (50 * 1000000)) trivial ()
  exact ⟨hlast.each, k, hk, hlast, hend.imp_right fun hnot hr => hnot (hsame₁.mp (hsame₂.mp hr))⟩

theorem main_sat (n : ℕ) : Sat World.trace (Each Proper) (main n)
    (fun code log => Each Proper log ∧ ¬ IsOpen log ∧ (code = 1 ∧ written log = [] ∨
      code = 0 ∧ ∃ k ≤ loopCount, written log = stopFrame :: commands k ∧
        (k = loopCount ∨ ¬ Running log))) [] := by
  rw [main, Prog.perform_bind]
  refine sat_trace_call.mpr fun (sts : TPCANStatus) => ?_
  have heach : Each Proper [⟨.sys (.canInitialize testChannel), sts⟩] :=
    each_cons.mpr ⟨⟨rfl, rfl⟩, each_nil⟩
  refine ⟨heach, ?_⟩
  by_cases hok : sts = pcanErrorOk
  · have hopen : At [] [⟨.sys (.canInitialize testChannel), sts⟩] := ⟨heach, hok, rfl⟩
    have hfresh : Running [⟨.sys (.canInitialize testChannel), sts⟩] := fun running hmem =>
      nomatch List.mem_singleton.mp hmem
    have hbne : (sts != pcanErrorOk) = false := bne_eq_false_iff_eq.mpr hok
    simp only [hbne, Bool.false_eq_true, if_false]
    refine (sat_through.mpr (session_sat n hopen hfresh)).bind ?_
    rintro _ log ⟨k, hk, hlog, hend⟩
    refine sat_trace_call.mpr fun _ => ?_
    have hclosed : Each Proper (⟨.canUnInitialize, ()⟩ :: log) :=
      each_cons.mpr ⟨⟨hlog.is_open, k, hk, hlog.written_eq⟩, hlog.each⟩
    refine ⟨hclosed, hclosed, id, .inr ⟨rfl, k, hk, hlog.written_eq, ?_⟩⟩
    exact hend.imp_right fun hnot hr => hnot fun running hmem => hr running (.tail _ hmem)
  · have hbne : (sts != pcanErrorOk) = true := bne_iff_ne.mpr hok
    simp only [hbne, if_true]
    exact ⟨heach, hok, .inl ⟨rfl, rfl⟩⟩

end session

/-- **A session of the test.**  On any path, and at every moment: the channel is opened first and
used only while it is open; what is written to it is an ENABLE, the one command at most two hundred
times, as long as no signal has been noticed, and a STOP that clears faults, in this order and
nothing else, all to the one motor; the channel is closed only after the STOP.  When `main` returns
`0` all this has been done, and only a signal has cut the commands short; it returns `1` when the
channel could not be opened, and then nothing was written. -/
theorem session_frames {n : ℕ} {log : List (Event BenchI)} {o : Option ℤ}
    (h : Runs World.trace (main n) [] log o) :
    Each Proper log ∧ ∀ code, o = some code → ¬ IsOpen log ∧ (code = 1 ∧ written log = [] ∨
      code = 0 ∧ ∃ k ≤ loopCount, written log = stopFrame :: commands k ∧
        (k = loopCount ∨ ¬ Running log)) := by
  obtain ⟨heach, hpost⟩ := h.sat (main_sat n) each_nil
  exact ⟨heach, fun code ho => (hpost code ho).2⟩

/-- A signal after the second command. -/
def signalled (log : List (Event BenchI)) : (c : BenchCall) → c.Resp
  | .sys .loadRunning => decide ((written log).length < 3)
  | .sys c => c.quiet
  | .canUnInitialize => ()

theorem session_frames_signalled : ∃ log, Runs World.trace (main 1) [] log (some 0) ∧
    ∃ k, written log = stopFrame :: commands k ∧ ¬ Running log := by
  have hrun := runs_exec (P := fun _ => True) (W := World.trace)
    (h := fun log c => (signalled log c, ⟨c, signalled log c⟩ :: log))
    (fun s c _ => ⟨rfl, trivial⟩) (main 1) (s := []) trivial
  have hcode : (exec (fun log c => (signalled log c, ⟨c, signalled log c⟩ :: log))
      (main 1) []).2 = some 0 := by decide +kernel
  rw [hcode] at hrun
  refine ⟨_, hrun, ?_⟩
  obtain ⟨-, hend⟩ := session_frames hrun
  obtain ⟨-, ⟨hone, -⟩ | ⟨-, k, -, hwritten, hfull⟩⟩ := hend 0 rfl
  · cases hone
  · refine ⟨k, hwritten, hfull.resolve_left ?_⟩
    rintro rfl
    have hlength := congrArg List.length hwritten
    revert hlength
    decide +kernel

end TestCanInit

end Qub
