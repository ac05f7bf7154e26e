import QubController.SetId

/-! # Queries for an ID

Every motor answers a `GET_ID` for its ID that was successfully written, and the reply is read
within `replyNs` unless the channel reports a read error first (`probeBus`).  Writes may fail and
reads may report errors at any time.  The trace records as `lost` a query of a motor whose answer
the program does not get.

`G ids log` is any property of the motors' IDs and the trace that losing an answer does not break
(`Tolerant`).  `get_device` keeps it, and when it returns nothing, no motor has the ID or a query
for it was lost (`getDevice_sat`). -/

namespace Qub

open Interaction

namespace MotorConfig

/-! ### The bus -/

/-- A reply that the program has not read yet. -/
structure Awaited where
  deadline : ℤ
  motorId : UInt8
  hostId : UInt8

def Awaited.answeredBy (a : Awaited) (msg : TPCANMsg) : Bool :=
  msg.extended && msg.commType == CommType.getId.code && msg.sourceMotorId == a.motorId &&
    (msg.destinationId == 0xFE || msg.destinationId == a.hostId)

inductive ProbeEvent (M : Type)
  /-- A motor with this ID was asked, or would have been, and its reply does not come. -/
  | lost (motorId : UInt8)
  /-- A `SET_CAN_ID` is written, with or without success, while the motors have the IDs `ids`. -/
  | setId (ids : M → UInt8) (msg : TPCANMsg)

/-- The motors' IDs, the time, the reply to come, and the trace. -/
structure ProbeBus (M : Type) where
  cur : M → UInt8
  time : ℤ := 0
  awaited : Option Awaited := none
  log : List (ProbeEvent M) := []

variable {M : Type}

def Held (ids : M → UInt8) (motorId : UInt8) : Prop := ∃ m, ids m = motorId

/-- What a written frame does, written with success (`ok`) or not. -/
inductive Wrote (replyNs : ℤ) (msg : TPCANMsg) (ok : Bool) (s s' : ProbeBus M) : Prop
  /-- A motor with the old ID takes the new one at once, or misses the frame. -/
  | setId : IsSetId msg → s'.log = .setId s.cur msg :: s.log → s'.awaited = s.awaited →
      Relabels msg.destinationId (newIdOf msg) s.cur s'.cur → Wrote replyNs msg ok s s'
  | asked : msg.commType = CommType.getId.code → Held s.cur msg.destinationId → ok = true →
      s'.cur = s.cur → s'.log = s.log →
      s'.awaited = some ⟨s'.time + replyNs, msg.destinationId, msg.dataField.toUInt8⟩ →
      Wrote replyNs msg ok s s'
  | notAsked : msg.commType = CommType.getId.code → Held s.cur msg.destinationId → ok = false →
      s'.cur = s.cur → s'.log = .lost msg.destinationId :: s.log → s'.awaited = s.awaited →
      Wrote replyNs msg ok s s'
  | nobody : ¬ IsSetId msg → (msg.commType = CommType.getId.code → ¬ Held s.cur msg.destinationId) →
      s'.cur = s.cur → s'.log = s.log → s'.awaited = s.awaited → Wrote replyNs msg ok s s'

/-- What a read does: a frame that looks like the reply is the reply, and after an error the
reply may never be read. -/
inductive DidRead (status : TPCANStatus) (frame : TPCANMsg) (s s' : ProbeBus M) : Prop
  | reply {a : Awaited} : status = pcanErrorOk → s.awaited = some a → a.answeredBy frame = true →
      s'.awaited = none → s'.log = s.log → DidRead status frame s s'
  | frame : status = pcanErrorOk → (∀ a, s.awaited = some a → a.answeredBy frame = false) →
      s'.awaited = s.awaited → s'.log = s.log → DidRead status frame s s'
  | empty : status = pcanErrorQrcvEmpty → s'.awaited = s.awaited → s'.log = s.log →
      DidRead status frame s s'
  | error {a : Awaited} : status ≠ pcanErrorOk → status ≠ pcanErrorQrcvEmpty →
      s.awaited = some a → s'.awaited = none → s'.log = .lost a.motorId :: s.log →
      DidRead status frame s s'
  | noLoss : status ≠ pcanErrorOk → status ≠ pcanErrorQrcvEmpty → s.awaited = none →
      s'.awaited = none → s'.log = s.log → DidRead status frame s s'

/-- The world of the queries on one channel.  Time passes, but no reply is overdue. -/
def probeBus (replyNs : ℤ) : World Sys (ProbeBus M) := fun s c r s' =>
  s.time ≤ s'.time ∧ (∀ a, s'.awaited = some a → s'.time < a.deadline) ∧
    match c, r with
    | .canWrite _ msg, r => Wrote replyNs msg (r == pcanErrorOk) s s'
    | .canRead _, (status, frame) => s'.cur = s.cur ∧ DidRead status frame s s'
    | .steadyNow, now =>
        s'.time = now ∧ s'.cur = s.cur ∧ s'.awaited = s.awaited ∧ s'.log = s.log
    | _, _ => s'.cur = s.cur ∧ s'.awaited = s.awaited ∧ s'.log = s.log

/-! ### The trace -/

/-- A probe of `motorId` was lost since the last `SET_CAN_ID`. -/
def LostSince (motorId : UInt8) : List (ProbeEvent M) → Prop
  | [] => False
  | .lost lostId :: past => lostId = motorId ∨ LostSince motorId past
  | .setId _ _ :: _ => False

/-! ### What is known of the bus -/

/-- No reply is to come. -/
def Idle (ids : M → UInt8) (log : List (ProbeEvent M)) (s : ProbeBus M) : Prop :=
  s.cur = ids ∧ s.log = log ∧ s.awaited = none

/-- Losing the answer of a motor does not break `G`. -/
def Tolerant (G : (M → UInt8) → List (ProbeEvent M) → Prop) : Prop :=
  ∀ ids log motorId, Held ids motorId → G ids log → G ids (.lost motorId :: log)

section record
variable (G : (M → UInt8) → List (ProbeEvent M) → Prop)

def Kept (s : ProbeBus M) : Prop := G s.cur s.log

/-- No reply is to come, and the record holds. -/
def Ready (ids : M → UInt8) (s : ProbeBus M) : Prop := ∃ log, Idle ids log s ∧ G ids log

/-- Nobody has answered a probe of `motorId`: if a motor has this ID, the probe was lost. -/
def Unanswered (ids : M → UInt8) (motorId : UInt8) (s : ProbeBus M) : Prop :=
  ∃ log, Idle ids log s ∧ G ids log ∧ (Held ids motorId → LostSince motorId log)

/-- The reply of a motor to `bus` is to come before the deadline. -/
def Pending (bus : CanBus) (ids : M → UInt8) (motorId : UInt8) (deadline : ℤ) (s : ProbeBus M) :
    Prop :=
  s.cur = ids ∧ G ids s.log ∧ Held ids motorId ∧
    ∃ d ≤ deadline, s.awaited = some ⟨d, motorId, bus.config.hostId⟩

/-- Nobody has answered yet: the reply is to come, or no motor is left to answer. -/
def Waiting (bus : CanBus) (ids : M → UInt8) (motorId : UInt8) (deadline : ℤ) (s : ProbeBus M) :
    Prop :=
  Pending G bus ids motorId deadline s ∨ Unanswered G ids motorId s

end record

theorem Unanswered.ready {G : (M → UInt8) → List (ProbeEvent M) → Prop} {ids : M → UInt8}
    {motorId : UInt8} {s : ProbeBus M} (h : Unanswered G ids motorId s) : Ready G ids s := by
  obtain ⟨log, hidle, hlog, -⟩ := h
  exact ⟨log, hidle, hlog⟩

/-! ### The parts of a query -/

section parts
variable {bus : CanBus} {replyNs : ℤ} {ids : M → UInt8} {log : List (ProbeEvent M)}
  {motorId : UInt8} {deadline : ℤ} {s s' : ProbeBus M}
  {G : (M → UInt8) → List (ProbeEvent M) → Prop}

theorem Idle.quiet {c : SysCall} {r : c.Resp} (hc : ∀ ch msg, c ≠ .canWrite ch msg)
    (h : Idle ids log s) (hw : probeBus replyNs s c r s') : Idle ids log s' := by
  obtain ⟨hcur, hlog, hawaited⟩ := h
  obtain ⟨-, -, heff⟩ := hw
  cases c with
  | canWrite ch msg => exact absurd rfl (hc ch msg)
  | canRead ch =>
      obtain ⟨hcur', hread⟩ := heff
      cases hread with
      | reply _ ha => exact absurd (ha.symm.trans hawaited) (by simp)
      | frame _ _ ha hl => exact ⟨hcur'.trans hcur, hl.trans hlog, ha.trans hawaited⟩
      | empty _ ha hl => exact ⟨hcur'.trans hcur, hl.trans hlog, ha.trans hawaited⟩
      | error _ _ ha => exact absurd (ha.symm.trans hawaited) (by simp)
      | noLoss _ _ _ ha hl => exact ⟨hcur'.trans hcur, hl.trans hlog, ha⟩
  | steadyNow => exact ⟨heff.2.1.trans hcur, heff.2.2.2.trans hlog, heff.2.2.1.trans hawaited⟩
  | _ => exact ⟨heff.1.trans hcur, heff.2.2.trans hlog, heff.2.1.trans hawaited⟩

theorem Idle.kept (h : Idle ids log s) (hrec : G ids log) : Kept G s := by
  unfold Kept
  rw [h.1, h.2.1]
  exact hrec

theorem receives_idle (hrec : G ids log) :
    Receives (probeBus replyNs) (Kept G) bus.channelIdx (Idle ids log) (fun _ => Idle ids log) where
  clock := fun s now s' h hw =>
    have h' := h.quiet (by simp) hw
    ⟨h'.kept hrec, h'⟩
  sleep := fun s s' h hw =>
    have h' := h.quiet (by simp) hw
    ⟨h'.kept hrec, h'⟩
  frame := fun s frame s' h hw _ =>
    have h' := h.quiet (by simp) hw
    ⟨h'.kept hrec, h'⟩
  other := fun s status frame s' h hw _ =>
    have h' := h.quiet (by simp) hw
    ⟨h'.kept hrec, h'⟩

theorem answeredBy_iff {d : ℤ} {frame : TPCANMsg} (hext : frame.extended = true) :
    (Awaited.answeredBy ⟨d, motorId, bus.config.hostId⟩ frame) =
      bus.isIdReply motorId (({} : TPCANMsg).fill frame) := by
  unfold Awaited.answeredBy CanBus.isIdReply
  rw [hext, Bool.true_and]
  rfl

theorem Pending.kept (h : Pending G bus ids motorId deadline s) : Kept G s := by
  unfold Kept
  rw [h.1]
  exact h.2.1

/-- Waiting for the reply: it comes, or a read error loses it. -/
theorem Pending.read (hG : Tolerant G) {status : TPCANStatus} {frame : TPCANMsg}
    {ch : Fin numChannels} (h : Pending G bus ids motorId deadline s)
    (hw : probeBus replyNs s (.canRead ch) (status, frame) s') :
    Pending G bus ids motorId deadline s' ∧
        (status = pcanErrorOk → frame.extended = true →
          bus.isIdReply motorId (({} : TPCANMsg).fill frame) = false) ∨
      Ready G ids s' ∧ status = pcanErrorOk ∧ frame.extended = true ∧
        bus.isIdReply motorId (({} : TPCANMsg).fill frame) = true ∨
      Unanswered G ids motorId s' ∧ status ≠ pcanErrorOk := by
  obtain ⟨hcur, hrec, hheld, d, hd, hawaited⟩ := h
  obtain ⟨-, -, hcur', hread⟩ := hw
  cases hread with
  | reply hok ha hanswer ha' hl =>
      cases hawaited.symm.trans ha
      have hext : frame.extended = true := by
        unfold Awaited.answeredBy at hanswer
        simp only [Bool.and_eq_true] at hanswer
        exact hanswer.1.1.1
      rw [answeredBy_iff hext] at hanswer
      exact .inr (.inl ⟨⟨s.log, ⟨hcur'.trans hcur, hl, ha'⟩, hrec⟩, hok, hext, hanswer⟩)
  | frame hok hnot ha hl =>
      refine .inl ⟨⟨hcur'.trans hcur, hl ▸ hrec, hheld, d, hd, ha.trans hawaited⟩, ?_⟩
      intro _ hext
      rw [← answeredBy_iff hext]
      exact hnot _ hawaited
  | empty he ha hl =>
      refine .inl ⟨⟨hcur'.trans hcur, hl ▸ hrec, hheld, d, hd, ha.trans hawaited⟩, ?_⟩
      intro hok
      rw [he] at hok
      exact absurd hok (by decide)
  | error hok _ ha ha' hl =>
      cases hawaited.symm.trans ha
      refine .inr (.inr ⟨⟨_, ⟨hcur'.trans hcur, hl, ha'⟩, ?_, fun _ => .inl rfl⟩, hok⟩)
      exact hG _ _ _ hheld hrec
  | noLoss _ _ ha => exact absurd (ha.symm.trans hawaited) (by simp)

theorem Pending.quiet {c : SysCall} {r : c.Resp} (hc : ∀ ch msg, c ≠ .canWrite ch msg)
    (hread : ∀ ch, c ≠ .canRead ch) (h : Pending G bus ids motorId deadline s)
    (hw : probeBus replyNs s c r s') : Pending G bus ids motorId deadline s' := by
  obtain ⟨hcur, hrec, hheld, d, hd, hawaited⟩ := h
  obtain ⟨-, -, heff⟩ := hw
  have heq : s'.cur = s.cur ∧ s'.awaited = s.awaited ∧ s'.log = s.log := by
    cases c with
    | canWrite ch msg => exact absurd rfl (hc ch msg)
    | canRead ch => exact absurd rfl (hread ch)
    | steadyNow => exact heff.2
    | _ => exact heff
  obtain ⟨hc', ha', hl'⟩ := heq
  exact ⟨hc'.trans hcur, hl'.symm ▸ hrec, hheld, d, hd, ha'.trans hawaited⟩

theorem Waiting.quiet {c : SysCall} {r : c.Resp} (hc : ∀ ch msg, c ≠ .canWrite ch msg)
    (hread : ∀ ch, c ≠ .canRead ch) (h : Waiting G bus ids motorId deadline s)
    (hw : probeBus replyNs s c r s') : Kept G s' ∧ Waiting G bus ids motorId deadline s' := by
  cases h with
  | inl hpending =>
      have h' := hpending.quiet hc hread hw
      exact ⟨h'.kept, .inl h'⟩
  | inr hnone =>
      obtain ⟨log, hidle, hrec, hlost⟩ := hnone
      have h' := hidle.quiet hc hw
      exact ⟨h'.kept hrec, .inr ⟨log, h', hrec, hlost⟩⟩

theorem Waiting.frame (hG : Tolerant G) {frame : TPCANMsg} {ch : Fin numChannels}
    (hext : frame.extended = true) (h : Waiting G bus ids motorId deadline s)
    (hw : probeBus replyNs s (.canRead ch) (pcanErrorOk, frame) s') :
    Kept G s' ∧
      if bus.isIdReply motorId (({} : TPCANMsg).fill frame) then Ready G ids s'
      else Waiting G bus ids motorId deadline s' := by
  cases h with
  | inr hnone =>
      obtain ⟨log, hidle, hrec, hlost⟩ := hnone
      have h' := hidle.quiet (by simp) hw
      refine ⟨h'.kept hrec, ?_⟩
      split
      · exact ⟨log, h', hrec⟩
      · exact .inr ⟨log, h', hrec, hlost⟩
  | inl hpending =>
      rcases hpending.read hG hw with ⟨hstill, hnot⟩ | ⟨⟨log, h', hrec⟩, -, -, hreply⟩ | ⟨-, herr⟩
      · rw [if_neg (Bool.eq_false_iff.mp (hnot rfl hext))]
        exact ⟨hstill.kept, .inl hstill⟩
      · rw [if_pos hreply]
        exact ⟨h'.kept hrec, log, h', hrec⟩
      · exact absurd rfl herr

theorem Waiting.other (hG : Tolerant G) {status : TPCANStatus} {frame : TPCANMsg}
    {ch : Fin numChannels} (hnot : status = pcanErrorOk → frame.extended = false)
    (h : Waiting G bus ids motorId deadline s)
    (hw : probeBus replyNs s (.canRead ch) (status, frame) s') :
    Kept G s' ∧ Waiting G bus ids motorId deadline s' := by
  cases h with
  | inr hnone =>
      obtain ⟨log, hidle, hrec, hlost⟩ := hnone
      have h' := hidle.quiet (by simp) hw
      exact ⟨h'.kept hrec, .inr ⟨log, h', hrec, hlost⟩⟩
  | inl hpending =>
      rcases hpending.read hG hw with ⟨hstill, -⟩ | ⟨-, hok, hext, -⟩ | ⟨hnone, -⟩
      · exact ⟨hstill.kept, .inl hstill⟩
      · exact absurd hext (Bool.eq_false_iff.mp (hnot hok))
      · obtain ⟨log, hidle, hrec, hlost⟩ := hnone
        exact ⟨hidle.kept hrec, .inr ⟨log, hidle, hrec, hlost⟩⟩

theorem receives_waiting (hG : Tolerant G) :
    Receives (probeBus replyNs) (Kept G) bus.channelIdx (Waiting G bus ids motorId deadline)
      (fun msg s => if bus.isIdReply motorId msg then Ready G ids s
        else Waiting G bus ids motorId deadline s) where
  clock := fun s now s' h hw => h.quiet (by simp) (by simp) hw
  sleep := fun s s' h hw => h.quiet (by simp) (by simp) hw
  frame := fun s frame s' h hw hext => h.frame hG hext hw
  other := fun s status frame s' h hw hnot => h.other hG hnot hw

/-- No reply is overdue, so at the deadline none is to come. -/
theorem Waiting.expire {now : ℤ} (h : Waiting G bus ids motorId deadline s) (hlate : deadline ≤ now)
    (hw : probeBus replyNs s .steadyNow now s') : Unanswered G ids motorId s' := by
  cases h with
  | inl hpending =>
      have h' := hpending.quiet (c := .steadyNow) (by simp) (by simp) hw
      obtain ⟨-, hintime, htime, -⟩ := hw
      obtain ⟨-, -, -, d, hd, hawaited⟩ := h'
      have hlt : s'.time < d := hintime _ hawaited
      omega
  | inr hnone =>
      obtain ⟨log, hidle, hrec, hlost⟩ := hnone
      exact ⟨log, hidle.quiet (by simp) hw, hrec, hlost⟩

/-! ### Queries -/

theorem drain_idle (n : ℕ) (hrec : G ids log) (h : Idle ids log s) :
    Sat (probeBus replyNs) (Kept G) (bus.drain n) (fun _ => Idle ids log) s :=
  CanBus.drain_sat (receives_idle hrec) n h

theorem send_idle (hreal : bus.config.dryRun = false) {rawId : UInt32} {data : Fin 8 → UInt8}
    (hset : ¬ IsSetId (extendedFrame rawId data))
    (hget : (extendedFrame rawId data).commType ≠ CommType.getId.code) (hrec : G ids log)
    (h : Idle ids log s) :
    Sat (probeBus replyNs) (Kept G) (bus.send rawId data) (fun _ => Idle ids log) s := by
  unfold CanBus.send
  rw [hreal]
  intro status s' hw
  have h' : Idle ids log s' := by
    obtain ⟨hcur, hlog, hawaited⟩ := h
    obtain ⟨-, -, hwrote⟩ := hw
    cases hwrote with
    | setId hs => exact absurd hs hset
    | asked hg => exact absurd hg hget
    | notAsked hg => exact absurd hg hget
    | nobody _ _ hc hl ha => exact ⟨hc.trans hcur, hl.trans hlog, ha.trans hawaited⟩
  exact ⟨h'.kept hrec, h'⟩

/-- A probe that cannot be written is lost if a motor has the ID. -/
theorem sendProbe_sat (hG : Tolerant G) (hreal : bus.config.dryRun = false) (hrec : G ids log)
    (h : Idle ids log s) :
    Sat (probeBus replyNs) (Kept G) (bus.send (bus.hostExtId .getId motorId) zeroData)
      (fun ok s' => if ok then Waiting G bus ids motorId (s'.time + replyNs) s'
        else Unanswered G ids motorId s') s := by
  have hdest := destinationId_getIdFrame bus motorId
  unfold CanBus.send
  rw [hreal]
  intro status s' hw
  obtain ⟨hcur, hlog, hawaited⟩ := h
  obtain ⟨-, -, hwrote⟩ := hw
  change Wrote replyNs (bus.getIdFrame motorId) (status == pcanErrorOk) s s' at hwrote
  change Kept G s' ∧ if (status == pcanErrorOk) = true then
    Waiting G bus ids motorId (s'.time + replyNs) s' else Unanswered G ids motorId s'
  cases hwrote with
  | setId hs => exact absurd hs (not_isSetId_getIdFrame bus motorId)
  | asked _ hheld hok hc hl ha =>
      rw [hdest, dataField_getIdFrame] at ha
      rw [hdest, hcur] at hheld
      have hrec' : G ids s'.log := by rwa [hl, hlog]
      have hpending : Pending G bus ids motorId (s'.time + replyNs) s' :=
        ⟨hc.trans hcur, hrec', hheld, _, le_rfl, ha⟩
      rw [if_pos hok]
      exact ⟨hpending.kept, .inl hpending⟩
  | notAsked _ hheld hok hc hl ha =>
      rw [hdest, hlog] at hl
      rw [hdest, hcur] at hheld
      have hidle : Idle ids (.lost motorId :: log) s' := ⟨hc.trans hcur, hl, ha.trans hawaited⟩
      rw [if_neg (Bool.eq_false_iff.mp hok)]
      exact ⟨hidle.kept (hG _ _ _ hheld hrec), _, hidle, hG _ _ _ hheld hrec, fun _ => .inl rfl⟩
  | nobody _ hno hc hl ha =>
      have hidle : Idle ids log s' := ⟨hc.trans hcur, hl.trans hlog, ha.trans hawaited⟩
      have hfree : ¬ Held ids motorId := by
        have := hno (commType_getIdFrame bus motorId)
        rwa [hdest, hcur] at this
      have hnone : Unanswered G ids motorId s' :=
        ⟨log, hidle, hrec, fun hheld => absurd hheld hfree⟩
      refine ⟨hidle.kept hrec, ?_⟩
      split
      · exact .inr hnone
      · exact hnone

/-- Waiting at least `replyNs` for the reply. -/
theorem waitFor_sat (hG : Tolerant G) {timeoutMs : ℤ}
    (htimeout : replyNs ≤ timeoutMs * nsPerMs) (n : ℕ)
    (h : Waiting G bus ids motorId (s.time + replyNs) s) :
    Sat (probeBus replyNs) (Kept G) (bus.waitFor n timeoutMs (bus.isIdReply motorId))
      (fun r s' => Ready G ids s' ∧ (r = none → Unanswered G ids motorId s')) s := by
  unfold CanBus.waitFor
  intro now s₁ hw
  obtain ⟨hrec, hwait⟩ := h.quiet (c := .steadyNow) (by simp) (by simp) hw
  refine ⟨hrec, ?_⟩
  have htime : s.time ≤ now := by
    obtain ⟨hle, -, heq, -⟩ := hw
    omega
  have hwait' : Waiting G bus ids motorId (now + timeoutMs * nsPerMs) s₁ := by
    cases hwait with
    | inr hnone => exact .inr hnone
    | inl hpending =>
        obtain ⟨hcur, hlog, hheld, d, hd, hawaited⟩ := hpending
        exact .inl ⟨hcur, hlog, hheld, d, by omega, hawaited⟩
  have hskip : ∀ msg s, bus.isIdReply motorId msg = false →
      (if bus.isIdReply motorId msg then Ready G ids s
        else Waiting G bus ids motorId (now + timeoutMs * nsPerMs) s) →
      Waiting G bus ids motorId (now + timeoutMs * nsPerMs) s := by
    intro msg s hnot hK
    rwa [if_neg (Bool.eq_false_iff.mp hnot)] at hK
  have hexpire : ∀ (s : ProbeBus M) now' s',
      Waiting G bus ids motorId (now + timeoutMs * nsPerMs) s →
      now + timeoutMs * nsPerMs ≤ now' → probeBus replyNs s .steadyNow now' s' →
      Unanswered G ids motorId s' := fun _ _ _ hJ hlate hw => hJ.expire hlate hw
  refine (CanBus.waitLoop_sat (receives_waiting hG) n hskip hexpire n s₁ hwait').mono
    fun r s' hr => ?_
  cases r with
  | none => exact ⟨hr.ready, fun _ => hr⟩
  | some msg =>
      obtain ⟨hpred, hK⟩ := hr
      rw [if_pos hpred] at hK
      exact ⟨hK, fun hnone => by cases hnone⟩

/-- **`get_device`**: when it returns nothing, no motor has the ID or a probe of it was lost. -/
theorem getDevice_sat (hG : Tolerant G) (hreal : bus.config.dryRun = false)
    (htimeout : replyNs ≤ bus.config.timeoutMs * nsPerMs) (n : ℕ) (h : Ready G ids s) :
    Sat (probeBus replyNs) (Kept G) (bus.getDevice n motorId)
      (fun r s' => Ready G ids s' ∧
        (r = none → 0 < bus.config.retries → Unanswered G ids motorId s')) s := by
  suffices hloop : ∀ (attempts : ℕ) (s : ProbeBus M), Ready G ids s →
      Sat (probeBus replyNs) (Kept G) (bus.getDeviceLoop n motorId attempts)
        (fun r s' =>
          Ready G ids s' ∧ (r = none → 0 < attempts → Unanswered G ids motorId s')) s from
    hloop _ s h
  intro attempts
  induction attempts with
  | zero => exact fun s h => ⟨h, fun _ hlt => absurd hlt (lt_irrefl 0)⟩
  | succ attempts ih =>
      rintro s ⟨log, hidle, hrec⟩
      unfold CanBus.getDeviceLoop
      refine (drain_idle n hrec hidle).bind fun _ s₁ h₁ => ?_
      refine (sendProbe_sat hG hreal hrec h₁).bind fun sent s₂ h₂ => ?_
      cases sent with
      | false =>
          have hnone : Unanswered G ids motorId s₂ := h₂
          exact ⟨hnone.ready, fun _ _ => hnone⟩
      | true =>
          have hwait : Waiting G bus ids motorId (s₂.time + replyNs) s₂ := h₂
          simp only [Bool.not_true, Bool.false_eq_true, if_false, hreal]
          refine (waitFor_sat hG htimeout n hwait).bind fun r s₃ ⟨hready, hnone⟩ => ?_
          cases r with
          | some reply => exact ⟨hready, fun hr => by cases hr⟩
          | none =>
              cases attempts with
              | zero => exact ⟨hready, fun _ _ => hnone rfl⟩
              | succ k =>
                  refine (ih s₃ hready).mono fun r s' hr => ⟨hr.1, fun hr' _ => ?_⟩
                  exact hr.2 hr' (Nat.succ_pos k)

end parts

/-! ### Possible runs -/

/-- `PCAN_ERROR_XMTFULL`, for one, a status with which a write fails. -/
def pcanErrorXmtFull : TPCANStatus := 0x00001

section runs
variable {bus : CanBus} {replyNs : ℤ} {s : ProbeBus M} {n : ℕ}

theorem not_overdue {s : ProbeBus M} (hs : s.awaited = none) :
    ∀ a, s.awaited = some a → s.time < a.deadline := fun a ha =>
  absurd (hs.symm.trans ha) (by simp)

theorem probeBus_clock (hs : ∀ a, s.awaited = some a → s.time < a.deadline) :
    probeBus replyNs s .steadyNow s.time s := ⟨le_rfl, hs, rfl, rfl, rfl, rfl⟩

theorem probeBus_empty (hs : s.awaited = none) (ch : Fin numChannels) :
    probeBus replyNs s (.canRead ch) (pcanErrorQrcvEmpty, {}) s :=
  ⟨le_rfl, not_overdue hs, rfl, .empty rfl rfl rfl⟩

/-- The query of `bus` for `motorId` was written, and its reply is to come. -/
def ProbeBus.asked (s : ProbeBus M) (replyNs : ℤ) (bus : CanBus) (motorId : UInt8) : ProbeBus M :=
  { s with awaited := some ⟨s.time + replyNs, motorId, bus.config.hostId⟩ }

theorem asked_intime {motorId : UInt8} (hreply : 0 < replyNs) :
    ∀ a, (s.asked replyNs bus motorId).awaited = some a →
      (s.asked replyNs bus motorId).time < a.deadline := by
  intro a ha
  cases ha
  show s.time < s.time + replyNs
  omega

theorem probeBus_asked (hreply : 0 < replyNs) {motorId : UInt8} (hheld : Held s.cur motorId)
    (ch : Fin numChannels) :
    probeBus replyNs s (.canWrite ch (bus.getIdFrame motorId)) pcanErrorOk
      (s.asked replyNs bus motorId) := by
  refine ⟨le_rfl, asked_intime hreply, .asked (commType_getIdFrame _ _) ?_ rfl rfl rfl ?_⟩
  · rwa [destinationId_getIdFrame]
  · rw [destinationId_getIdFrame, dataField_getIdFrame]
    rfl

theorem probeBus_reply (bus : CanBus) (hs : s.awaited = none) (motorId : UInt8)
    (uid : Fin 8 → UInt8) (ch : Fin numChannels) :
    probeBus replyNs (s.asked replyNs bus motorId) (.canRead ch)
      (pcanErrorOk, idReply motorId uid) s := by
  refine ⟨le_rfl, not_overdue hs, rfl, .reply rfl rfl ?_ hs rfl⟩
  have hext : (idReply motorId uid).extended = true := extendedFrame_extended _ _
  rw [answeredBy_iff hext, fill_idReply]
  exact isIdReply_idReply bus motorId uid

theorem drain_probe_runs (hreal : bus.config.dryRun = false) (hs : s.awaited = none) :
    Runs (probeBus replyNs) (bus.drain (n + 1)) s s (some ()) :=
  CanBus.drain_empty hreal (probeBus_clock (not_overdue hs)) (probeBus_empty hs _)

theorem getDevice_answered (hreal : bus.config.dryRun = false)
    (hretries : bus.config.retries = 1) (ht : 0 < bus.config.timeoutMs) (hreply : 0 < replyNs)
    (hs : s.awaited = none) {motorId : UInt8} (hheld : Held s.cur motorId)
    (uid : Fin 8 → UInt8) :
    Runs (probeBus replyNs) (bus.getDevice (n + 1) motorId) s s (some (some ⟨motorId, uid⟩)) :=
  CanBus.getDevice_answer hreal hretries ht (drain_probe_runs hreal hs)
    (probeBus_asked hreply hheld _) (probeBus_clock (asked_intime hreply))
    (probeBus_reply bus hs motorId uid _)

theorem getDevice_unwritten (hreal : bus.config.dryRun = false)
    (hretries : bus.config.retries = 1) (hs : s.awaited = none) {motorId : UInt8}
    (hheld : Held s.cur motorId) :
    Runs (probeBus replyNs) (bus.getDevice (n + 1) motorId) s
      { s with log := .lost motorId :: s.log } (some none) := by
  have hwrite : probeBus replyNs s (.canWrite bus.channelIdx (bus.getIdFrame motorId))
      pcanErrorXmtFull { s with log := .lost motorId :: s.log } := by
    refine ⟨le_rfl, not_overdue hs, .notAsked (commType_getIdFrame _ _) ?_ rfl rfl ?_ rfl⟩
    · rwa [destinationId_getIdFrame]
    · rw [destinationId_getIdFrame]
  unfold CanBus.getDevice
  rw [hretries]
  unfold CanBus.getDeviceLoop CanBus.send
  refine (drain_probe_runs hreal hs).bind ?_
  simp only [hreal, Bool.false_eq_true, if_false, canWrite_bind, Prog.call_bind]
  exact .call hwrite (.ret _ _)

theorem getDevice_nobody (hreal : bus.config.dryRun = false) (hretries : bus.config.retries = 1)
    (ht : 0 < bus.config.timeoutMs) (hs : s.awaited = none) {motorId : UInt8}
    (hfree : ¬ Held s.cur motorId) :
    Runs (probeBus replyNs) (bus.getDevice (n + 1) motorId) s
      { s with time := s.time + bus.config.timeoutMs * nsPerMs } (some none) := by
  have hwrite : probeBus replyNs s (.canWrite bus.channelIdx (bus.getIdFrame motorId))
      pcanErrorOk s := by
    refine ⟨le_rfl, not_overdue hs,
      .nobody (not_isSetId_getIdFrame bus motorId) (fun _ => ?_) rfl rfl rfl⟩
    rwa [destinationId_getIdFrame]
  have hpos : 0 < bus.config.timeoutMs * nsPerMs := Int.mul_pos ht (by decide)
  have hlate : probeBus replyNs s .steadyNow (s.time + bus.config.timeoutMs * nsPerMs)
      { s with time := s.time + bus.config.timeoutMs * nsPerMs } := by
    refine ⟨?_, fun a ha => absurd (hs.symm.trans ha) (by simp), rfl, rfl, rfl, rfl⟩
    show s.time ≤ s.time + bus.config.timeoutMs * nsPerMs
    omega
  exact CanBus.getDevice_expired hreal hretries (drain_probe_runs hreal hs) hwrite
    (probeBus_clock (not_overdue hs)) le_rfl hlate

end runs

end MotorConfig

end Qub
