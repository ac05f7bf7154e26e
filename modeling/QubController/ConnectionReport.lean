import QubController.SharedState
import QubController.TestConnection
import QubController.Trace

/-! # The report of the connection test

`main` of `test_connection.cpp`: the four channels, the probe of the thirteen motors, and the scan
of each channel.  What is printed is returned: the line of each motor and the hits of each channel.

A motor is reported as OK only if a reply of it was read after a query to it was accepted, and the
exit code is 0 if and only if all lines are OK (`report_sound`). -/

namespace Qub

open Interaction

namespace TestConnection

/-! ### The program -/

/-- The lines of `print_result`. -/
inductive Line
  | channelInitFailed
  | txFail (stage : String) (status : TPCANStatus)
  | noReply (attempt : ℤ) (stage : String)
  | ok (result : ProbeResult)
deriving DecidableEq

def printResult (result : ProbeResult) : Line :=
  if !result.channelReady then .channelInitFailed
  else if !result.txOk then .txFail result.stage result.lastStatus
  else if !result.responded then .noReply result.attempt result.stage
  else .ok result

/-- What counts as an answer. -/
def ProbeResult.counts (result : ProbeResult) : Bool :=
  result.channelReady && result.txOk && result.responded

/-- The loop over the channels; an exception of the constructor leaves the channel out. -/
def openChannels : List (Fin numChannels) → (Fin numChannels → Bool) →
    SysM (Fin numChannels → Bool)
  | [], channelOk => return channelOk
  | ch :: rest, channelOk => do
      let status ← canInitialize ch
      openChannels rest (Function.update channelOk ch (status == pcanErrorOk))

/-- The probe of one motor. -/
def checkMotor (n : ℕ) (channelOk : Fin numChannels → Bool) (entry : MotorMapEntry) :
    SysM ProbeResult := do
  if channelOk entry.channelIdx then
    let result ← probeMotor entry.channelIdx n entry.motorId
    return { result with channelReady := channelOk entry.channelIdx }
  else
    return { channelReady := channelOk entry.channelIdx }

/-- The loop over `MOTOR_MAP`, with the two counters. -/
def checkMotors (n : ℕ) (channelOk : Fin numChannels → Bool) :
    List MotorMapEntry → ℕ → ℕ → List (MotorMapEntry × Line) →
      SysM (ℕ × ℕ × List (MotorMapEntry × Line))
  | [], okCount, failCount, lines => return (okCount, failCount, lines)
  | entry :: rest, okCount, failCount, lines => do
      let result ← checkMotor n channelOk entry
      let lines := lines ++ [(entry, printResult result)]
      sleepFor (2 * 1000000)
      if result.counts then
        checkMotors n channelOk rest (okCount + 1) failCount lines
      else
        checkMotors n channelOk rest okCount (failCount + 1) lines

/-- The loop over the scans. -/
def scanChannels (n : ℕ) (channelOk : Fin numChannels → Bool) :
    List (Fin numChannels) → SysM (List (Fin numChannels × List GetIdHit))
  | [] => return []
  | ch :: rest => do
      if channelOk ch then
        let hits ← scanChannelIds ch n
        let scans ← scanChannels n channelOk rest
        return (ch, hits) :: scans
      else
        scanChannels n channelOk rest

/-- What the program leaves: its exit code and what it has printed. -/
structure Report where
  code : ℤ
  okCount : ℕ
  failCount : ℕ
  lines : List (MotorMapEntry × Line)
  scans : List (Fin numChannels × List GetIdHit)

def main (n : ℕ) : SysM Report := do
  let channelOk ← openChannels (List.finRange numChannels) fun _ => false
  let (okCount, failCount, lines) ← checkMotors n channelOk motorMap 0 0 []
  let scans ← scanChannels n channelOk (List.finRange numChannels)
  return ⟨if failCount = 0 then 0 else 2, okCount, failCount, lines, scans⟩

/-! ### What the trace shows -/

/-- The channel was initialized. -/
def Opened (ch : Fin numChannels) (log : List (Event Sys)) : Prop :=
  ⟨.canInitialize ch, pcanErrorOk⟩ ∈ log

/-- A query of the motor. -/
def IsQuery (motorId : UInt8) (msg : TPCANMsg) : Prop :=
  (msg.commType = CommType.getId.code ∨ msg.commType = CommType.paramRead.code) ∧
    msg.destinationId = motorId

/-- A query to the motor was accepted by the driver. -/
def Queried (ch : Fin numChannels) (motorId : UInt8) (log : List (Event Sys)) : Prop :=
  ∃ msg, ⟨.canWrite ch msg, pcanErrorOk⟩ ∈ log ∧ IsQuery motorId msg

/-- The frame was read on the channel after a query to the motor. -/
def ReadAfter (ch : Fin numChannels) (motorId : UInt8) (msg : TPCANMsg) (log : List (Event Sys)) :
    Prop :=
  ∃ (buf frame : TPCANMsg) (earlier : List (Event Sys)),
    (⟨.canRead ch, ((pcanErrorOk, frame) : TPCANStatus × TPCANMsg)⟩ :: earlier) <:+ log ∧
      msg = buf.fill frame ∧ Queried ch motorId earlier

/-- The channel was tried, with success or not. -/
def Tried (ch : Fin numChannels) (log : List (Event Sys)) : Prop :=
  ∃ status, ⟨.canInitialize ch, status⟩ ∈ log

/-- Nothing is actuated: only queries are written, only channels that were initialized are used,
and each is tried once. -/
def NonActuating (e : Event Sys) (past : List (Event Sys)) : Prop :=
  match e.call with
  | .canInitialize ch => ¬ Tried ch past
  | .canWrite ch msg => (∃ motorId, IsQuery motorId msg) ∧ Opened ch past
  | .canRead ch => Opened ch past
  | _ => True

section trace
variable {ch : Fin numChannels} {motorId : UInt8} {msg : TPCANMsg} {past log : List (Event Sys)}

theorem Opened.later (h : Opened ch past) (hgrows : past <:+ log) : Opened ch log :=
  hgrows.subset h

theorem Queried.later (h : Queried ch motorId past) (hgrows : past <:+ log) :
    Queried ch motorId log := h.imp fun _ h => ⟨hgrows.subset h.1, h.2⟩

theorem ReadAfter.later (h : ReadAfter ch motorId msg past) (hgrows : past <:+ log) :
    ReadAfter ch motorId msg log := by
  obtain ⟨buf, frame, earlier, hread, hmsg, hqueried⟩ := h
  exact ⟨buf, frame, earlier, hread.trans hgrows, hmsg, hqueried⟩

end trace

/-! ### The waits -/

section waits
variable {ch : Fin numChannels} {motorId : UInt8} {past log : List (Event Sys)}

/-- A routine that only reads the channel and waits. -/
def IsWait (ch : Fin numChannels) : SysCall → Prop
  | .canInitialize _ | .canWrite _ _ => False
  | .canRead ch' => ch' = ch
  | _ => True

theorem wait_call {c : SysCall} (r : c.Resp) (hc : IsWait ch c) (hopen : Opened ch log)
    (h : Audited NonActuating past log) : Audited NonActuating past (⟨c, r⟩ :: log) := by
  refine h.cons ?_
  cases c with
  | canInitialize | canWrite => exact hc.elim
  | canRead ch' =>
      have hch : ch' = ch := hc
      exact hch ▸ hopen
  | _ => trivial

theorem wait_audit {α : Type} {p : SysM α} (hp : p.Only (IsWait ch)) (hopen : Opened ch past)
    (h : Each NonActuating past) :
    Sat World.trace (Each NonActuating) p (fun _ log => Audited NonActuating past log) past := by
  refine hp.sat (J := Audited NonActuating past) ?_ (.refl h)
  rintro log c r _ hc hlog rfl
  have hlater := wait_call r hc (hopen.later hlog.grows) hlog
  exact ⟨hlater.each, hlater⟩

theorem drainRxQueue_only (ch : Fin numChannels) (n : ℕ) :
    (drainRxQueue ch n).Only (IsWait ch) := by
  induction n with
  | zero => trivial
  | succ n ih =>
      rw [drainRxQueue, canRead_bind]
      refine ⟨rfl, fun r => ?_⟩
      by_cases hok : (r.1 == pcanErrorOk) = true
      · simpa only [hok, if_true] using ih
      · simp [hok]

/-- A reply that a wait brings was read on the channel. -/
theorem readReply_audit (isReply : TPCANMsg → Bool) (n : ℕ) (buf : TPCANMsg)
    (hopen : Opened ch past) (hqueried : Queried ch motorId past)
    (h : Audited NonActuating past log) :
    Sat World.trace (Each NonActuating) (readReply ch isReply n buf)
      (fun r log' => Audited NonActuating past log' ∧ ∀ msg, r = .ok msg →
        isReply msg = true ∧ ReadAfter ch motorId msg log') log := by
  induction n generalizing buf log with
  | zero => trivial
  | succ n ih =>
      rw [readReply, canRead_bind]
      refine sat_trace_call.mpr fun r => ?_
      have h₁ := wait_call (c := .canRead ch) r rfl (hopen.later h.grows) h
      refine ⟨h₁.each, ?_⟩
      by_cases hok : (r.1 == pcanErrorOk) = true
      · simp only [hok, if_true]
        by_cases hreply : isReply (buf.fill r.2) = true
        · simp only [hreply, if_true]
          refine ⟨h₁, fun msg hmsg => ?_⟩
          obtain rfl := Except.ok.inj hmsg
          obtain ⟨status, frame⟩ := r
          obtain rfl : status = pcanErrorOk := beq_iff_eq.mp hok
          exact ⟨hreply, buf, frame, log, List.suffix_rfl, rfl, hqueried.later h.grows⟩
        · simp only [hreply]
          exact ih _ h₁
      · simp only [hok]
        exact ⟨h₁, fun msg hmsg => by cases hmsg⟩

/-- A wait for a result of which `P` holds until the reply. -/
theorem waitLoop_audit {α : Type} {P : α → Prop} {isReply : TPCANMsg → Bool}
    {onReply : TPCANMsg → α → α} {onStatus : TPCANStatus → α → α}
    (hP : ∀ sts a, P a → P (onStatus sts a)) (n : ℕ) (deadline : ℤ) (left : ℕ) {result : α}
    (hresult : P result) (hopen : Opened ch past) (hqueried : Queried ch motorId past)
    (h : Audited NonActuating past log) :
    Sat World.trace (Each NonActuating)
      (waitLoop ch isReply onReply onStatus n deadline left result)
      (fun r log' => Audited NonActuating past log' ∧
        (r.1 = true → ∃ msg a, P a ∧ r.2 = onReply msg a ∧ isReply msg = true ∧
          ReadAfter ch motorId msg log') ∧ (r.1 = false → P r.2)) log := by
  induction left generalizing result log with
  | zero => trivial
  | succ left ih =>
      rw [waitLoop, steadyNow_bind]
      refine sat_trace_call.mpr fun now => ?_
      have h₁ := wait_call (c := .steadyNow) now trivial (hopen.later h.grows) h
      refine ⟨h₁.each, ?_⟩
      by_cases hnow : now < deadline
      · simp only [hnow, if_true]
        refine (readReply_audit isReply n {} hopen hqueried h₁).bind ?_
        rintro r log₂ ⟨h₂, hreply⟩
        cases r with
        | ok msg =>
            obtain ⟨hmsg, hread⟩ := hreply msg rfl
            exact ⟨h₂, fun _ => ⟨msg, result, hresult, rfl, hmsg, hread⟩,
              fun hf => absurd hf.symm Bool.false_ne_true⟩
        | error sts =>
            refine sat_trace_call.mpr fun _ => ?_
            have h₃ := wait_call (c := .sleepFor pollPauseNs) () trivial
              (hopen.later h₂.grows) h₂
            exact ⟨h₃.each, ih (hP sts result hresult) h₃⟩
      · simp only [hnow, if_false]
        exact ⟨h₁, fun hf => absurd hf Bool.false_ne_true, fun _ => hresult⟩

end waits

/-! ### The probe -/

section probe
variable {ch : Fin numChannels} {motorId : UInt8} {past log : List (Event Sys)}
  {result : ProbeResult} {n : ℕ}

/-- A result that says that the motor responded has its reply. -/
def Founded (ch : Fin numChannels) (motorId : UInt8) (log : List (Event Sys))
    (result : ProbeResult) : Prop :=
  result.responded = true → IsReplyFrom motorId result.responseMsg ∧
    ReadAfter ch motorId result.responseMsg log

theorem captureCurrentId_keeps (msg : TPCANMsg) (result : ProbeResult) :
    (captureCurrentId msg result).responded = result.responded ∧
      (captureCurrentId msg result).responseMsg = result.responseMsg := by
  unfold captureCurrentId
  split <;> exact ⟨rfl, rfl⟩

/-- A query to the motor. -/
theorem query_call {msg : TPCANMsg} (status : TPCANStatus) (hmsg : IsQuery motorId msg)
    (hopen : Opened ch log) (h : Audited NonActuating past log) :
    Audited NonActuating past (⟨.canWrite ch msg, status⟩ :: log) :=
  h.cons ⟨⟨motorId, hmsg⟩, hopen⟩

theorem isQuery_getId (motorId : UInt8) : IsQuery motorId
    (extendedFrame (buildExtId CommType.getId.code probeHostId.toUInt16 motorId) zeroData) := by
  refine ⟨.inl ?_, destinationId_buildExtId _ _ _ _⟩
  rw [commType_buildExtId, CommType.code_and]

theorem isQuery_paramRead (motorId : UInt8) (data : Fin 8 → UInt8) : IsQuery motorId
    (extendedFrame (buildExtId CommType.paramRead.code probeHostId.toUInt16 motorId) data) := by
  refine ⟨.inr ?_, destinationId_buildExtId _ _ _ _⟩
  rw [commType_buildExtId, CommType.code_and]

theorem waitForReply_audit (timeoutNs : ℤ) (result : ProbeResult)
    (hresult : result.responded = false) (hopen : Opened ch past)
    (hqueried : Queried ch motorId past) (h : Each NonActuating past) :
    Sat World.trace (Each NonActuating) (waitForReply ch n motorId timeoutNs result)
      (fun r log => Audited NonActuating past log ∧ Founded ch motorId log r.2 ∧
        (r.1 = false → r.2.responded = false)) past := by
  unfold waitForReply
  refine sat_trace_call.mpr fun now => ?_
  have h₁ := wait_call (c := .steadyNow) now trivial hopen (.refl h)
  refine ⟨h₁.each, ?_⟩
  have hstatus : ∀ (sts : TPCANStatus) (a : ProbeResult), a.responded = false →
      (onProbeStatus sts a).responded = false := by
    intro sts a ha
    unfold onProbeStatus
    split
    · exact ha
    · exact ha
  refine (waitLoop_audit hstatus n _ n hresult hopen hqueried h₁).mono ?_
  rintro ⟨replied, result'⟩ log ⟨hlog, hreply, hnone⟩
  refine ⟨hlog, fun hresponded => ?_, hnone⟩
  cases replied with
  | false => exact absurd ((hnone rfl).symm.trans hresponded) Bool.false_ne_true
  | true =>
      obtain ⟨msg, a, -, rfl, hmsg, hread⟩ := hreply rfl
      have hresponse : (onReplyForMotor msg a).responseMsg = msg :=
        (captureCurrentId_keeps _ _).2
      show IsReplyFrom motorId (onReplyForMotor msg a).responseMsg ∧
        ReadAfter ch motorId (onReplyForMotor msg a).responseMsg log
      rw [hresponse]
      exact ⟨isReplyForMotor_iff.mp hmsg, hread⟩

/-- A query and the wait for its reply. -/
theorem request_audit {α : Type} {msg : TPCANMsg} {f : TPCANStatus → SysM α}
    {Q : α → List (Event Sys) → Prop} (hmsg : IsQuery motorId msg)
    (hopen : Opened ch past) (h : Each NonActuating past)
    (hf : ∀ status log, Audited NonActuating past log →
      (status = pcanErrorOk → Queried ch motorId log) →
        Sat World.trace (Each NonActuating) (f status) Q log) :
    Sat World.trace (Each NonActuating) (canWrite ch msg >>= f) Q past := by
  rw [canWrite_bind]
  refine sat_trace_call.mpr fun status => ?_
  have h₁ := query_call status hmsg hopen (.refl h)
  refine ⟨h₁.each, hf status _ h₁ fun hok => ?_⟩
  subst hok
  exact ⟨msg, List.mem_cons_self, hmsg⟩

theorem not_founded (hresult : result.responded = false) : Founded ch motorId log result :=
  fun hresponded => absurd (hresult.symm.trans hresponded) Bool.false_ne_true

theorem probeParamLoop_audit (params : List UInt16) (hresult : result.responded = false)
    (hopen : Opened ch past) (h : Audited NonActuating past log) :
    Sat World.trace (Each NonActuating) (probeParamLoop ch n motorId params result)
      (fun r log' => Audited NonActuating past log' ∧ Founded ch motorId log' r.2 ∧
        (r.1 = false → r.2.responded = false)) log := by
  induction params generalizing result log with
  | nil => exact ⟨h, not_founded hresult, fun _ => hresult⟩
  | cons index rest ih =>
      rw [probeParamLoop]
      refine request_audit (isQuery_paramRead motorId _) (hopen.later h.grows) h.each ?_
      intro status log₁ h₁ hqueried
      have hlog₁ := h.trans h₁
      by_cases hok : (status == pcanErrorOk) = true
      · simp only [hok, Bool.not_true, Bool.false_eq_true, if_false]
        refine (waitForReply_audit probeTimeoutNs _ (by exact hresult) (hopen.later hlog₁.grows)
          (hqueried (beq_iff_eq.mp hok)) hlog₁.each).bind ?_
        rintro ⟨replied, result₂⟩ log₂ ⟨h₂, hfounded, hnone⟩
        have hlog₂ := hlog₁.trans h₂
        cases replied with
        | false => exact ih (hnone rfl) hlog₂
        | true =>
            refine ⟨hlog₂, ?_, fun hf => absurd hf.symm Bool.false_ne_true⟩
            simp only
            split
            · exact hfounded
            · exact hfounded
      · simp only [hok]
        exact ⟨hlog₁, not_founded hresult, fun _ => hresult⟩

theorem probeLoop_audit (attempts : List ℤ) (hresult : result.responded = false)
    (hopen : Opened ch past) (h : Audited NonActuating past log) :
    Sat World.trace (Each NonActuating) (probeLoop ch n motorId attempts result)
      (fun r log' => Audited NonActuating past log' ∧ Founded ch motorId log' r) log := by
  induction attempts generalizing result log with
  | nil => exact ⟨h, not_founded hresult⟩
  | cons attempt rest ih =>
      rw [probeLoop]
      refine (wait_audit (drainRxQueue_only ch n) (hopen.later h.grows) h.each).bind ?_
      intro _ log₁ h₁
      have hlog₁ := h.trans h₁
      refine request_audit (isQuery_getId motorId) (hopen.later hlog₁.grows) hlog₁.each ?_
      intro status log₂ h₂ hqueried
      have hlog₂ := hlog₁.trans h₂
      by_cases hok : (status == pcanErrorOk) = true
      · simp only [hok, Bool.not_true, Bool.false_eq_true, if_false]
        refine (waitForReply_audit probeTimeoutNs _ (by exact hresult) (hopen.later hlog₂.grows)
          (hqueried (beq_iff_eq.mp hok)) hlog₂.each).bind ?_
        rintro ⟨replied, result₃⟩ log₃ ⟨h₃, hfounded, hnone⟩
        have hlog₃ := hlog₂.trans h₃
        cases replied with
        | true => exact ⟨hlog₃, hfounded⟩
        | false =>
            refine (probeParamLoop_audit probeParams (hnone rfl) hopen hlog₃).bind ?_
            rintro ⟨replied, result₄⟩ log₄ ⟨hlog₄, hfounded₄, hnone₄⟩
            cases replied with
            | true => exact ⟨hlog₄, hfounded₄⟩
            | false => exact ih (hnone₄ rfl) hlog₄
      · simp only [hok]
        exact ih hresult hlog₂

end probe

/-! ### The scan -/

section scan
variable {ch : Fin numChannels} {past log : List (Event Sys)} {n : ℕ}

/-- A hit is a `GET_ID` reply that was read after the query of its ID, with the fields of its
frame. -/
structure FoundedHit (ch : Fin numChannels) (log : List (Event Sys)) (hit : GetIdHit) : Prop where
  extended : hit.responseMsg.extended = true
  getId : hit.responseMsg.commType = CommType.getId.code
  reported : hit.reportedId = hit.responseMsg.sourceMotorId
  check : hit.checkByte = hit.responseMsg.destinationId
  read : ReadAfter ch hit.requestedId hit.responseMsg log

theorem FoundedHit.later {hit : GetIdHit} (h : FoundedHit ch past hit) (hgrows : past <:+ log) :
    FoundedHit ch log hit :=
  ⟨h.extended, h.getId, h.reported, h.check, h.read.later hgrows⟩

theorem waitForGetIdReply_audit (requestedId : UInt8) (hopen : Opened ch past)
    (hqueried : Queried ch requestedId past) (h : Each NonActuating past) :
    Sat World.trace (Each NonActuating)
      (waitForGetIdReply ch n getIdScanTimeoutNs { requestedId })
      (fun r log => Audited NonActuating past log ∧ (r.1 = true → FoundedHit ch log r.2)) past := by
  unfold waitForGetIdReply
  refine sat_trace_call.mpr fun now => ?_
  have h₁ := wait_call (c := .steadyNow) now trivial hopen (.refl h)
  refine ⟨h₁.each, ?_⟩
  refine (waitLoop_audit (P := fun hit => hit.requestedId = requestedId) (fun _ _ ha => ha) n _ n
    rfl hopen hqueried h₁).mono ?_
  rintro ⟨replied, hit⟩ log ⟨hlog, hreply, -⟩
  refine ⟨hlog, fun hreplied => ?_⟩
  obtain ⟨msg, a, rfl, rfl, hmsg, hread⟩ := hreply hreplied
  obtain ⟨hext, hget⟩ := isGetIdReply_iff.mp hmsg
  exact ⟨hext, hget, rfl, rfl, hread⟩

theorem scanLoop_audit (ids : List UInt8) {hits : List GetIdHit}
    (hhits : ∀ hit ∈ hits, FoundedHit ch log hit) (hopen : Opened ch past)
    (h : Audited NonActuating past log) :
    Sat World.trace (Each NonActuating) (scanLoop ch n ids hits)
      (fun r log' => Audited NonActuating past log' ∧ ∀ hit ∈ r, FoundedHit ch log' hit) log := by
  induction ids generalizing hits log with
  | nil => exact ⟨h, hhits⟩
  | cons requestedId rest ih =>
      rw [scanLoop]
      refine (wait_audit (drainRxQueue_only ch n) (hopen.later h.grows) h.each).bind ?_
      intro _ log₁ h₁
      have hlog₁ := h.trans h₁
      refine request_audit (isQuery_getId requestedId) (hopen.later hlog₁.grows) hlog₁.each ?_
      intro status log₂ h₂ hqueried
      have hlog₂ := hlog₁.trans h₂
      have hhits₂ : ∀ hit ∈ hits, FoundedHit ch log₂ hit :=
        fun hit hmem => (hhits hit hmem).later (h₁.trans h₂).grows
      by_cases hok : (status != pcanErrorOk) = true
      · simp only [hok, if_true]
        exact ih hhits₂ hlog₂
      · simp only [hok]
        have hsent : status = pcanErrorOk := by simpa using hok
        refine (waitForGetIdReply_audit requestedId (hopen.later hlog₂.grows) (hqueried hsent)
          hlog₂.each).bind ?_
        rintro ⟨replied, hit⟩ log₃ ⟨h₃, hhit⟩
        refine ih (fun hit' hmem => ?_) (hlog₂.trans h₃)
        cases replied with
        | false => exact (hhits₂ hit' hmem).later h₃.grows
        | true =>
            rcases List.mem_append.mp hmem with hold | hnew
            · exact (hhits₂ hit' hold).later h₃.grows
            · exact List.mem_singleton.mp hnew ▸ hhit rfl

end scan

/-! ### The report -/

section report
variable {past log : List (Event Sys)} {n : ℕ} {channelOk : Fin numChannels → Bool}

def Line.isOk : Line → Bool
  | .ok _ => true
  | _ => false

theorem printResult_isOk (result : ProbeResult) :
    (printResult result).isOk = result.counts := by
  unfold printResult ProbeResult.counts
  cases result.channelReady <;> cases result.txOk <;> cases result.responded <;> rfl

theorem printResult_eq_ok {result result' : ProbeResult} (h : printResult result = .ok result') :
    result' = result ∧ result.responded = true := by
  unfold printResult at h
  split_ifs at h with hready htx hresponded
  exact ⟨(Line.ok.inj h).symm, by simpa using hresponded⟩

theorem printResult_eq_failed {result : ProbeResult} :
    printResult result = .channelInitFailed ↔ result.channelReady = false := by
  unfold printResult
  cases result.channelReady <;> cases result.txOk <;> cases result.responded <;> simp

/-- What a line says is true. -/
structure TrueLine (log : List (Event Sys)) (entry : MotorMapEntry) (line : Line) : Prop where
  answered : ∀ result, line = .ok result →
    IsReplyFrom entry.motorId result.responseMsg ∧
      ReadAfter entry.channelIdx entry.motorId result.responseMsg log
  unopened : line = .channelInitFailed ↔ ¬ Opened entry.channelIdx log

/-- All channels were tried, and the flags say which are open. -/
structure Flags (channelOk : Fin numChannels → Bool) (log : List (Event Sys)) : Prop where
  tried : ∀ ch, Tried ch log
  opened_iff : ∀ ch, channelOk ch = true ↔ Opened ch log

/-- A channel that was tried is not initialized later. -/
theorem opened_iff_of_tried {ch : Fin numChannels} (htried : Tried ch past)
    (h : Audited NonActuating past log) : Opened ch log ↔ Opened ch past := by
  refine ⟨fun hopen => ?_, fun hopen => hopen.later h.grows⟩
  obtain ⟨new, rfl⟩ := h.grows
  rcases List.mem_append.mp hopen with hnew | hpast
  · obtain ⟨later, earlier, rfl⟩ := List.append_of_mem hnew
    have hfirst : ¬ Tried ch (earlier ++ past) :=
      h.each later ⟨.canInitialize ch, pcanErrorOk⟩ (earlier ++ past) (by simp)
    obtain ⟨status, hmem⟩ := htried
    exact absurd ⟨status, List.mem_append_right _ hmem⟩ hfirst
  · exact hpast

theorem Flags.later (h : Flags channelOk past) (hlog : Audited NonActuating past log) :
    Flags channelOk log where
  tried ch := (h.tried ch).imp fun _ hmem => hlog.grows.subset hmem
  opened_iff ch := (h.opened_iff ch).trans (opened_iff_of_tried (h.tried ch) hlog).symm

theorem TrueLine.later {entry : MotorMapEntry} {line : Line} (h : TrueLine past entry line)
    (hflags : Flags channelOk past) (hlog : Audited NonActuating past log) :
    TrueLine log entry line where
  answered result hline :=
    ⟨(h.answered result hline).1, (h.answered result hline).2.later hlog.grows⟩
  unopened := by rw [opened_iff_of_tried (hflags.tried _) hlog, h.unopened]

section cons
variable {ch ch' : Fin numChannels} {status : TPCANStatus}

theorem tried_cons : Tried ch' (⟨.canInitialize ch, status⟩ :: log) ↔ ch = ch' ∨ Tried ch' log := by
  constructor
  · rintro ⟨status', hmem⟩
    rcases List.mem_cons.mp hmem with heq | hlog
    · cases heq
      exact .inl rfl
    · exact .inr ⟨status', hlog⟩
  · rintro (rfl | ⟨status', hlog⟩)
    · exact ⟨status, List.mem_cons_self⟩
    · exact ⟨status', List.mem_cons_of_mem _ hlog⟩

theorem opened_cons_self : Opened ch (⟨.canInitialize ch, status⟩ :: log) ↔
    status = pcanErrorOk ∨ Opened ch log := by
  constructor
  · intro hmem
    rcases List.mem_cons.mp hmem with heq | hlog
    · cases heq
      exact .inl rfl
    · exact .inr hlog
  · rintro (rfl | hlog)
    · exact List.mem_cons_self
    · exact List.mem_cons_of_mem _ hlog

theorem opened_cons_of_ne (h : ch ≠ ch') :
    Opened ch' (⟨.canInitialize ch, status⟩ :: log) ↔ Opened ch' log := by
  refine ⟨fun hmem => (List.mem_cons.mp hmem).resolve_left fun heq => ?_,
    List.mem_cons_of_mem _⟩
  cases heq
  exact h rfl

end cons

/-- The flags of the channels that were tried so far. -/
theorem openChannels_audit (l : List (Fin numChannels)) (hl : l.Nodup)
    (htried : ∀ ch, Tried ch log ↔ ch ∉ l) (hopened : ∀ ch, channelOk ch = true ↔ Opened ch log)
    (h : Audited NonActuating past log) :
    Sat World.trace (Each NonActuating) (openChannels l channelOk)
      (fun channelOk log' => Audited NonActuating past log' ∧ Flags channelOk log') log := by
  induction l generalizing channelOk log with
  | nil => exact ⟨h, fun ch => (htried ch).mpr (by simp), hopened⟩
  | cons ch rest ih =>
      obtain ⟨hch, hrest⟩ := List.nodup_cons.mp hl
      rw [openChannels, canInitialize_bind]
      refine sat_trace_call.mpr fun status => ?_
      have hfirst : ¬ Tried ch log := fun ht => (htried ch).mp ht List.mem_cons_self
      have h₁ : Audited NonActuating past (⟨.canInitialize ch, status⟩ :: log) := h.cons hfirst
      refine ⟨h₁.each, ih hrest (fun ch' => ?_) (fun ch' => ?_) h₁⟩
      · rw [tried_cons, htried, List.mem_cons]
        by_cases heq : ch' = ch
        · simp [heq, hch]
        · simp [heq, Ne.symm heq]
      · by_cases heq : ch' = ch
        · subst heq
          rw [Function.update_self, opened_cons_self]
          exact ⟨fun hok => .inl (beq_iff_eq.mp hok), fun hopen => hopen.elim
            (fun hok => beq_iff_eq.mpr hok) fun hlog => absurd ⟨_, hlog⟩ hfirst⟩
        · rw [Function.update_of_ne heq, hopened]
          exact (opened_cons_of_ne (Ne.symm heq)).symm

theorem checkMotor_audit (entry : MotorMapEntry) (hflags : Flags channelOk past)
    (h : Each NonActuating past) :
    Sat World.trace (Each NonActuating) (checkMotor n channelOk entry)
      (fun result log => Audited NonActuating past log ∧
        TrueLine log entry (printResult result)) past := by
  unfold checkMotor
  by_cases hready : channelOk entry.channelIdx = true
  · simp only [hready, if_true]
    have hopen := (hflags.opened_iff _).mp hready
    refine (probeLoop_audit probeAttempts rfl hopen (.refl h)).bind ?_
    rintro result log ⟨hlog, hfounded⟩
    refine ⟨hlog, fun result' hline => ?_, ?_⟩
    · obtain ⟨rfl, hresponded⟩ := printResult_eq_ok hline
      exact hfounded hresponded
    · rw [printResult_eq_failed]
      exact ⟨fun hfalse => absurd hfalse (by simp),
        fun hnot => absurd (hopen.later hlog.grows) hnot⟩
  · simp only [hready]
    refine ⟨.refl h, fun result' hline => ?_, ?_⟩
    · obtain ⟨rfl, hresponded⟩ := printResult_eq_ok hline
      exact absurd hresponded (by simp)
    · rw [printResult_eq_failed, ← hflags.opened_iff]
      simp [hready]

/-- The counters and the lines of the motors so far. -/
structure Tally (okCount failCount : ℕ) (lines : List (MotorMapEntry × Line))
    (done : List MotorMapEntry) (log : List (Event Sys)) : Prop where
  entries : lines.map Prod.fst = done
  ok_eq : okCount = lines.countP fun l => l.2.isOk
  fail_eq : failCount = lines.countP fun l => !l.2.isOk
  lines_true : ∀ l ∈ lines, TrueLine log l.1 l.2

theorem Tally.add {okCount failCount : ℕ} {lines : List (MotorMapEntry × Line)}
    {done : List MotorMapEntry} {entry : MotorMapEntry} {result : ProbeResult}
    (h : Tally okCount failCount lines done past) (hflags : Flags channelOk past)
    (hlog : Audited NonActuating past log) (hline : TrueLine log entry (printResult result)) :
    Tally (if result.counts then okCount + 1 else okCount)
      (if result.counts then failCount else failCount + 1)
      (lines ++ [(entry, printResult result)]) (done ++ [entry]) log := by
  refine ⟨by simp [h.entries], ?_, ?_, fun l hl => ?_⟩
  · rw [List.countP_append, List.countP_singleton, printResult_isOk, h.ok_eq]
    split <;> rfl
  · rw [List.countP_append, List.countP_singleton, printResult_isOk, h.fail_eq]
    cases result.counts <;> rfl
  · rcases List.mem_append.mp hl with hold | hnew
    · exact (h.lines_true l hold).later hflags hlog
    · exact List.mem_singleton.mp hnew ▸ hline

theorem checkMotors_audit (entries : List MotorMapEntry) {okCount failCount : ℕ}
    {lines : List (MotorMapEntry × Line)} {done : List MotorMapEntry}
    (htally : Tally okCount failCount lines done log) (hflags : Flags channelOk log)
    (h : Audited NonActuating past log) :
    Sat World.trace (Each NonActuating)
      (checkMotors n channelOk entries okCount failCount lines)
      (fun r log' => Audited NonActuating past log' ∧ Flags channelOk log' ∧
        Tally r.1 r.2.1 r.2.2 (done ++ entries) log') log := by
  induction entries generalizing okCount failCount lines done log with
  | nil => exact ⟨h, hflags, by simpa using htally⟩
  | cons entry rest ih =>
      rw [checkMotors]
      refine (checkMotor_audit entry hflags h.each).bind ?_
      rintro result log₁ ⟨h₁, hline⟩
      refine sat_trace_call.mpr fun _ => ?_
      have h₂ : Audited NonActuating log (⟨.sleepFor (2 * 1000000), ()⟩ :: log₁) :=
        h₁.cons trivial
      have hsleep : Audited NonActuating log₁ (⟨.sleepFor (2 * 1000000), ()⟩ :: log₁) :=
        (Audited.refl h₁.each).cons trivial
      have hnext := htally.add hflags h₂ (hline.later (hflags.later h₁) hsleep)
      have hdone : done ++ entry :: rest = (done ++ [entry]) ++ rest := by simp
      refine ⟨h₂.each, ?_⟩
      rw [hdone]
      cases hcounts : result.counts with
      | true =>
          rw [hcounts] at hnext
          simp only [if_true]
          exact ih hnext (hflags.later h₂) (h.trans h₂)
      | false =>
          rw [hcounts] at hnext
          simp only [Bool.false_eq_true, if_false]
          exact ih hnext (hflags.later h₂) (h.trans h₂)

theorem scanChannels_audit (l : List (Fin numChannels)) (hflags : Flags channelOk past)
    (h : Each NonActuating past) :
    Sat World.trace (Each NonActuating) (scanChannels n channelOk l)
      (fun scans log => Audited NonActuating past log ∧ scans.map Prod.fst = l.filter channelOk ∧
        ∀ scan ∈ scans, ∀ hit ∈ scan.2, FoundedHit scan.1 log hit) past := by
  induction l generalizing past with
  | nil => exact ⟨.refl h, rfl, by simp⟩
  | cons ch rest ih =>
      rw [scanChannels]
      by_cases hready : channelOk ch = true
      · simp only [hready, if_true, List.filter_cons_of_pos]
        have hopen := (hflags.opened_iff ch).mp hready
        refine (scanLoop_audit scanIds (by simp) hopen (.refl h)).bind ?_
        rintro hits log₁ ⟨h₁, hhits⟩
        refine (ih (hflags.later h₁) h₁.each).bind ?_
        rintro scans log₂ ⟨h₂, hchannels, hscans⟩
        refine ⟨h₁.trans h₂, by simp [hchannels], List.forall_mem_cons.mpr ⟨?_, hscans⟩⟩
        exact fun hit hmem => (hhits hit hmem).later h₂.grows
      · simp only [hready]
        rw [List.filter_cons_of_neg hready]
        exact ih hflags h

theorem main_audit (n : ℕ) :
    Sat World.trace (Each NonActuating) (main n)
      (fun report log => Each NonActuating log ∧
        Tally report.okCount report.failCount report.lines motorMap log ∧
        report.code = (if report.failCount = 0 then 0 else 2) ∧
        (∀ ch, ch ∈ report.scans.map Prod.fst ↔ Opened ch log) ∧
        ∀ scan ∈ report.scans, ∀ hit ∈ scan.2, FoundedHit scan.1 log hit) [] := by
  unfold main
  have hstart : ∀ ch : Fin numChannels, Tried ch [] ↔ ch ∉ List.finRange numChannels :=
    fun ch => ⟨fun ⟨_, hmem⟩ => absurd hmem List.not_mem_nil,
      fun hnot => absurd (List.mem_finRange ch) hnot⟩
  have hclosed : ∀ ch : Fin numChannels, false = true ↔ Opened ch [] :=
    fun ch => ⟨fun hf => absurd hf Bool.false_ne_true, fun hmem => absurd hmem List.not_mem_nil⟩
  refine (openChannels_audit _ (List.nodup_finRange _) hstart hclosed (.refl each_nil)).bind ?_
  rintro channelOk log₁ ⟨h₁, hflags₁⟩
  have hempty : Tally 0 0 [] [] log₁ := ⟨rfl, rfl, rfl, by simp⟩
  refine (checkMotors_audit motorMap hempty hflags₁ h₁).bind ?_
  rintro ⟨okCount, failCount, lines⟩ log₂ ⟨h₂, hflags₂, htally⟩
  refine (scanChannels_audit (List.finRange numChannels) hflags₂ h₂.each).bind ?_
  rintro scans log₃ ⟨h₃, hchannels, hhits⟩
  refine ⟨h₃.each, ⟨htally.entries, htally.ok_eq, htally.fail_eq, fun l hl =>
    (htally.lines_true l hl).later hflags₂ h₃⟩, rfl, fun ch => ?_, hhits⟩
  rw [hchannels, List.mem_filter, ← (hflags₂.later h₃).opened_iff]
  exact and_iff_right (List.mem_finRange ch)

end report

/-- **The report is sound, and the test does not actuate.**  At every moment of every run only
queries were written, only to channels that were initialized, each of which is tried once.  When
the test ends there is one line for each of the motors; a line says OK only if a reply of that
motor was read after a query to it was accepted, and CHANNEL_INIT_FAILED if and only if its channel
could not be initialized; a hit of a scan is a reply that was read after its query; and the exit
code is 0 if all lines say OK, and else 2. -/
theorem report_sound {n : ℕ} {log : List (Event Sys)} {o : Option Report}
    (h : Runs World.trace (main n) [] log o) :
    Each NonActuating log ∧ ∀ report, o = some report →
      report.lines.map Prod.fst = motorMap ∧ (∀ l ∈ report.lines, TrueLine log l.1 l.2) ∧
      report.okCount + report.failCount = numJoints ∧
      report.code = (if ∀ l ∈ report.lines, l.2.isOk = true then 0 else 2) ∧
      (∀ ch, ch ∈ report.scans.map Prod.fst ↔ Opened ch log) ∧
      ∀ scan ∈ report.scans, ∀ hit ∈ scan.2, FoundedHit scan.1 log hit := by
  obtain ⟨heach, hpost⟩ := h.sat (main_audit n) each_nil
  refine ⟨heach, fun report ho => ?_⟩
  obtain ⟨-, htally, hcode, hchannels, hhits⟩ := hpost report ho
  refine ⟨htally.entries, htally.lines_true, ?_, ?_, hchannels, hhits⟩
  · have hsplit := List.length_eq_countP_add_countP (l := report.lines) fun l => l.2.isOk
    have hlength : report.lines.length = numJoints := by
      rw [← List.length_map Prod.fst, htally.entries]
      rfl
    rw [htally.ok_eq, htally.fail_eq, ← hlength, hsplit]
    simp
  · have hnone : report.failCount = 0 ↔ ∀ l ∈ report.lines, l.2.isOk = true := by
      rw [htally.fail_eq, List.countP_eq_zero]
      simp
    rw [hcode]
    simp only [hnone]

/-- All motors answer `GET_ID` at once. -/
def answerAll (log : List (Event Sys)) : (c : SysCall) → c.Resp
  | .canRead _ =>
      match log with
      | ⟨.steadyNow, _⟩ :: ⟨.steadyNow, _⟩ :: ⟨.canWrite _ msg, _⟩ :: _ =>
          (pcanErrorOk, extendedFrame
            (buildExtId CommType.getId.code msg.destinationId.toUInt16 probeHostId) zeroData)
      | _ => (pcanErrorQrcvEmpty, {})
  | c => c.quiet

/-- All thirteen are reported, each with a reply of its own. -/
theorem report_sound_all : ∃ log report, Runs World.trace (main 2) [] log (some report) ∧
    report.code = 0 ∧ report.lines.map Prod.fst = motorMap ∧
      ∀ l ∈ report.lines, ∃ msg, IsReplyFrom l.1.motorId msg ∧
        ReadAfter l.1.channelIdx l.1.motorId msg log := by
  have hrun := runs_exec (P := fun _ => True) (W := World.trace)
    (h := fun log c => (answerAll log c, ⟨c, answerAll log c⟩ :: log))
    (fun s c _ => ⟨rfl, trivial⟩) (main 2) (s := []) trivial
  obtain ⟨report, hreport, hcode⟩ := Option.map_eq_some_iff.mp
    (by decide +kernel : (exec (fun log c => (answerAll log c, ⟨c, answerAll log c⟩ :: log))
      (main 2) []).2.map Report.code = some 0)
  rw [hreport] at hrun
  obtain ⟨hentries, htrue, -, hverdict, -⟩ := (report_sound hrun).2 report rfl
  have hall : ∀ l ∈ report.lines, l.2.isOk = true := by
    by_contra hnot
    rw [if_neg hnot, hcode] at hverdict
    exact absurd hverdict (by decide)
  refine ⟨_, report, hrun, hcode, hentries, fun l hl => ?_⟩
  have hok := hall l hl
  cases hline : l.2 with
  | ok result => exact ⟨_, (htrue l hl).answered result hline⟩
  | _ =>
      rw [hline] at hok
      cases hok

end TestConnection

end Qub
