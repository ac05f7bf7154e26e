import QubController.ImuThread
import QubController.Trace

/-! # What the IMU thread reports

The `mip` SDK parses the bytes that have arrived and copies each field it knows into the structure
that was registered for it; in the world `sensor` an update does this for any fields, and may fail
after them.  The log has the fields, the results of the updates, the readings of the clock and the
published states.

`published_received`: each published state is the last one received, or neutral where the filter
has not reached AHRS mode or the device has not marked the value as valid.  Its time stamp is the
time of the publication: a device that has stopped sending is not noticed
(`silent_device_published`). -/

namespace Qub

open Interaction

/-! ### Fields -/

/-- The fields for which `configure` registers an extractor. -/
inductive ImuField
  | attitude (q : Fin 4 → CFloat) (validFlags : UInt16)
  | angularRate (gyro : Fin 3 → CFloat) (validFlags : UInt16)
  | acceleration (accel : Fin 3 → CFloat) (validFlags : UInt16)
  | status (filterState : UInt16)

/-- The extractor of a field. -/
def MipData.extract (data : MipData) : ImuField → MipData
  | .attitude q validFlags => { data with quat := q, quatValidFlags := validFlags }
  | .angularRate gyro validFlags => { data with gyro := gyro, gyroValidFlags := validFlags }
  | .acceleration accel validFlags => { data with accel := accel, accelValidFlags := validFlags }
  | .status filterState => { data with filterState := filterState }

inductive ImuEvent
  | field (f : ImuField)
  /-- An update has ended. -/
  | updated (ok : Bool)
  | read (ts : Timespec)
  | published (state : ImuState)

/-- What the extractors hold, and the log, the newest event first. -/
structure Sensor where
  data : MipData := {}
  log : List ImuEvent := []

def Sensor.note (s : Sensor) (e : ImuEvent) : Sensor := { s with log := e :: s.log }

def Sensor.extract (s : Sensor) (f : ImuField) : Sensor := ⟨s.data.extract f, .field f :: s.log⟩

def sensor : World Sys Sensor := fun s c r s' =>
  match c, r with
  | .imuUpdate, (ok, data) => ∃ fields : List ImuField,
      s' = (fields.foldl Sensor.extract s).note (.updated ok) ∧ data = s'.data
  | .clockGettime, ts => s' = s.note (.read ts)
  | .storeImu state, _ => s' = s.note (.published state)
  | _, _ => s' = s

namespace ImuReports

/-! ### The last fields -/

/-- The newest field of a kind. -/
def latest {β : Type} (kind : ImuField → Option β) : List ImuEvent → Option β
  | [] => none
  | .field f :: past => (kind f).or (latest kind past)
  | _ :: past => latest kind past

def attitude? : ImuField → Option ((Fin 4 → CFloat) × UInt16)
  | .attitude q validFlags => some (q, validFlags)
  | _ => none

def angularRate? : ImuField → Option ((Fin 3 → CFloat) × UInt16)
  | .angularRate gyro validFlags => some (gyro, validFlags)
  | _ => none

def acceleration? : ImuField → Option ((Fin 3 → CFloat) × UInt16)
  | .acceleration accel validFlags => some (accel, validFlags)
  | _ => none

def status? : ImuField → Option UInt16
  | .status filterState => some filterState
  | _ => none

/-- The last status field says AHRS mode, or what lies beyond it. -/
def InAhrs (log : List ImuEvent) : Prop := ∃ state, latest status? log = some state ∧ 3 ≤ state

/-- A value is reported: the last one that was received, if it is marked as valid in AHRS mode. -/
def Shows {β : Type} (kind : ImuField → Option (β × UInt16)) (neutral value : β)
    (log : List ImuEvent) : Prop :=
  (∀ v flags, latest kind log = some (v, flags) → InAhrs log → flags ≠ 0 → value = v) ∧
  ((latest kind log = none ∨ ¬InAhrs log ∨ ∃ v, latest kind log = some (v, 0)) → value = neutral)

/-- What may be published when: directly after an update that succeeded and a reading of the
clock. -/
def Reported (e : ImuEvent) (past : List ImuEvent) : Prop :=
  ∀ state, e = .published state → ∃ ts log, past = .read ts :: .updated true :: log ∧
    state.timestampNs = ts.toNs ∧ Shows attitude? ![.rat 1, .rat 0, .rat 0, .rat 0] state.quat log ∧
    Shows angularRate? (fun _ => .rat 0) state.gyro log ∧
    Shows acceleration? (fun _ => .rat 0) state.accel log ∧ state.baseLinV = fun _ => .rat 0

/-- The updates that succeeded. -/
def updates : List ImuEvent → ℕ
  | [] => 0
  | .updated true :: past => updates past + 1
  | _ :: past => updates past

def publications : List ImuEvent → ℕ
  | [] => 0
  | .published _ :: past => publications past + 1
  | _ :: past => publications past

end ImuReports

open ImuReports

/-! ### The extractors -/

/-- The structures hold the last fields, and zeros where there was none. -/
structure Sensor.Holds (s : Sensor) : Prop where
  quat : (s.data.quat, s.data.quatValidFlags) = (latest attitude? s.log).getD (fun _ => .rat 0, 0)
  gyro : (s.data.gyro, s.data.gyroValidFlags) =
    (latest angularRate? s.log).getD (fun _ => .rat 0, 0)
  accel : (s.data.accel, s.data.accelValidFlags) =
    (latest acceleration? s.log).getD (fun _ => .rat 0, 0)
  state : s.data.filterState = (latest status? s.log).getD 0

namespace ImuReports

variable {s s' : Sensor}

theorem holds_extract (h : s.Holds) (f : ImuField) : (s.extract f).Holds := by
  cases f with
  | attitude q validFlags => exact ⟨rfl, h.gyro, h.accel, h.state⟩
  | angularRate gyro validFlags => exact ⟨h.quat, rfl, h.accel, h.state⟩
  | acceleration accel validFlags => exact ⟨h.quat, h.gyro, rfl, h.state⟩
  | status filterState => exact ⟨h.quat, h.gyro, h.accel, rfl⟩

theorem holds_note (h : s.Holds) {e : ImuEvent} (he : ∀ f, e ≠ .field f) : (s.note e).Holds := by
  cases e with
  | field f => exact absurd rfl (he f)
  | _ => exact ⟨h.quat, h.gyro, h.accel, h.state⟩

theorem inAhrs_iff (h : s.Holds) :
    InAhrs s.log ↔ filterModeAhrs ≤ s.data.filterState.toUInt32 := by
  have hle : ∀ x : UInt16, filterModeAhrs ≤ x.toUInt32 ↔ 3 ≤ x := by
    intro x
    rw [UInt32.le_iff_toNat_le, UInt16.le_iff_toNat_le, UInt16.toNat_toUInt32]
    rfl
  rw [h.state, hle]
  unfold InAhrs
  cases latest status? s.log with
  | none => simp
  | some x => simp

theorem shows_value {β : Type} {kind : ImuField → Option (β × UInt16)} {neutral zero v : β}
    {flags : UInt16} (h : s.Holds) (hv : (v, flags) = (latest kind s.log).getD (zero, 0)) :
    Shows kind neutral
      (if filterModeAhrs ≤ s.data.filterState.toUInt32 ∧ flags ≠ 0 then v else neutral) s.log := by
  have hiff := inAhrs_iff h
  constructor
  · intro w flags' hlatest hmode hflags
    rw [hlatest, Option.getD_some, Prod.mk.injEq] at hv
    obtain ⟨rfl, rfl⟩ := hv
    exact if_pos ⟨hiff.mp hmode, hflags⟩
  · rintro (hnone | hmode | ⟨w, hlatest⟩)
    · rw [hnone, Option.getD_none, Prod.mk.injEq] at hv
      exact if_neg fun hif => hif.2 hv.2
    · exact if_neg fun hif => hmode (hiff.mpr hif.1)
    · rw [hlatest, Option.getD_some, Prod.mk.injEq] at hv
      exact if_neg fun hif => hif.2 hv.2

/-- What `poll_and_publish` makes of the structures. -/
theorem imuState_reported (h : s.Holds) (ts : Timespec) :
    Reported (.published (ImuDriver.imuState s.data ts.toNs))
      (.read ts :: .updated true :: s.log) := by
  rintro _ ⟨⟩
  exact ⟨ts, s.log, rfl, rfl, shows_value h h.quat, shows_value h h.gyro, shows_value h h.accel,
    rfl⟩

/-! ### The loops -/

/-- At most one update is ahead of its publication. -/
structure Sound (s : Sensor) : Prop where
  each : Each Reported s.log
  published_le : publications s.log ≤ updates s.log
  updated_le : updates s.log ≤ publications s.log + 1

/-- Between two calls of `poll_and_publish`, when `u` updates had been counted at the start. -/
structure Synced (u : UInt64) (d : ImuDriver) (s : Sensor) : Prop where
  connected : d.connected = true
  data : d.data = s.data
  holds : s.Holds
  each : Each Reported s.log
  count : publications s.log = updates s.log
  updateCount : d.updateCount = u + UInt64.ofNat (updates s.log)

section loops
variable {u : UInt64} {d : ImuDriver}

theorem Synced.sound (h : Synced u d s) : Sound s :=
  ⟨h.each, h.count.le, by rw [h.count]; exact Nat.le_succ _⟩

/-- The extraction of a field. -/
theorem Synced.extract (h : Synced u d s) (f : ImuField) :
    Synced u { d with data := (s.extract f).data } (s.extract f) where
  connected := h.connected
  data := rfl
  holds := holds_extract h.holds f
  each := each_cons.mpr ⟨nofun, h.each⟩
  count := h.count
  updateCount := h.updateCount

theorem Synced.extracts (h : Synced u d s) (fields : List ImuField) :
    Synced u { d with data := (fields.foldl Sensor.extract s).data }
      (fields.foldl Sensor.extract s) := by
  induction fields generalizing d s with
  | nil => exact ⟨h.connected, rfl, h.holds, h.each, h.count, h.updateCount⟩
  | cons f rest ih => exact ih (d := { d with data := (s.extract f).data }) (h.extract f)

/-- An event that is neither a field nor an update or its publication. -/
theorem Synced.note (h : Synced u d s) {e : ImuEvent} (hfield : ∀ f, e ≠ .field f)
    (hreported : Reported e s.log) (hcount : publications (e :: s.log) = publications s.log)
    (hupdates : updates (e :: s.log) = updates s.log) : Synced u d (s.note e) where
  connected := h.connected
  data := h.data
  holds := holds_note h.holds hfield
  each := each_cons.mpr ⟨hreported, h.each⟩
  count := hcount.trans (h.count.trans hupdates.symm)
  updateCount := by rw [h.updateCount, Sensor.note, hupdates]

/-- Run lemma: `poll_and_publish` publishes after an update that succeeds; another is the last
event. -/
theorem pollAndPublish_sat (h : Synced u d s) :
    Sat sensor Sound d.pollAndPublish
      (fun r s' => Synced u r.2 s' ∧
        (r.1 = false → ∃ past, s'.log = .updated false :: past)) s := by
  unfold ImuDriver.pollAndPublish
  rw [if_neg (by simp [h.connected])]
  simp only [imuUpdate_bind]
  rintro ⟨ok, data⟩ _ ⟨fields, rfl, rfl⟩
  have hfields := h.extracts fields
  generalize fields.foldl Sensor.extract s = s₁ at hfields
  cases ok with
  | false =>
      have hfailed := hfields.note (e := .updated false) nofun nofun rfl rfl
      exact ⟨hfailed.sound, hfailed, fun _ => ⟨s₁.log, rfl⟩⟩
  | true =>
      have hreported := imuState_reported hfields.holds
      refine ⟨⟨each_cons.mpr ⟨nofun, hfields.each⟩, ?_, ?_⟩, ?_⟩
      · exact hfields.count.le.trans (Nat.le_succ _)
      · exact Nat.succ_le_succ hfields.count.ge
      simp only [Bool.not_true, Bool.false_eq_true, if_false, clockGettime_bind]
      rintro ts _ rfl
      refine ⟨⟨each_cons.mpr ⟨nofun, each_cons.mpr ⟨nofun, hfields.each⟩⟩, ?_, ?_⟩, ?_⟩
      · exact hfields.count.le.trans (Nat.le_succ _)
      · exact Nat.succ_le_succ hfields.count.ge
      simp only [storeImu_bind]
      rintro _ _ rfl
      have hdone : Synced u { d with
          data := s₁.data, updateCount := d.updateCount + 1,
          filterMode := s₁.data.filterState.toUInt32 }
          (((s₁.note (.updated true)).note (.read ts)).note
            (.published (ImuDriver.imuState s₁.data ts.toNs))) := by
        have hupdated : (s₁.note (.updated true)).Holds := holds_note hfields.holds nofun
        have hread : ((s₁.note (.updated true)).note (.read ts)).Holds := holds_note hupdated nofun
        refine ⟨h.connected, rfl, holds_note hread nofun, ?_, ?_, ?_⟩
        · exact each_cons.mpr ⟨hreported ts, each_cons.mpr ⟨nofun, each_cons.mpr
            ⟨nofun, hfields.each⟩⟩⟩
        · exact congrArg (· + 1) hfields.count
        · have hcount : d.updateCount = u + UInt64.ofNat (updates s₁.log) := hfields.updateCount
          show d.updateCount + 1 = u + UInt64.ofNat (updates s₁.log + 1)
          rw [hcount, UInt64.ofNat_add, UInt64.add_assoc]
          rfl
      exact ⟨hdone.sound, hdone, fun hok => Bool.noConfusion hok⟩

theorem waitLoop_sat (waitStart : ℤ) (n : ℕ) (h : Synced u d s) :
    Sat sensor Sound (ImuThread.waitLoop waitStart n d) (fun d' s' => Synced u d' s') s := by
  induction n generalizing d s with
  | zero => trivial
  | succ n ih =>
      rw [ImuThread.waitLoop]
      split
      · refine (pollAndPublish_sat h).bind ?_
        rintro ⟨ok, d'⟩ s₁ ⟨h₁, -⟩
        simp only [steadyNow_bind]
        rintro now s₂ rfl
        refine ⟨h₁.sound, ?_⟩
        dsimp only
        split
        · exact h₁
        · simp only [sleepFor_bind]
          rintro _ s₃ rfl
          exact ⟨h₁.sound, ih h₁⟩
      · exact h

theorem mainLoop_sat (n : ℕ) (t : ImuThread) (next prevWake : Timespec)
    (h : Synced u t.driver s) :
    Sat sensor Sound (ImuThread.mainLoop n t next prevWake)
      (fun t' s' => Synced u t'.driver s' ∧ ∃ past, s'.log = .updated false :: past) s := by
  induction n generalizing t next prevWake s with
  | zero => trivial
  | succ n ih =>
      rw [ImuThread.mainLoop]
      refine (pollAndPublish_sat h).bind ?_
      rintro ⟨ok, driver⟩ s₁ ⟨h₁, hlast⟩
      cases ok with
      | false => exact ⟨h₁, hlast rfl⟩
      | true =>
          simp only [Bool.not_true, Bool.false_eq_true, if_false, clockGettime_bind]
          rintro now s₂ rfl
          have h₂ : Synced u driver (s₁.note (.read now)) := h₁.note nofun nofun rfl rfl
          refine ⟨h₂.sound, ?_⟩
          unfold sleepUntilNextPeriod
          simp only [clockNanosleep_bind, Prog.call_bind, Prog.pure_eq, Prog.ret_bind]
          rintro _ s₃ rfl
          exact ⟨h₂.sound, ih _ _ _ h₂⟩

end loops

/-- **What is published was received.**  In every run of the thread with a fresh driver that is
connected, whatever arrives and whenever the updates fail: the attitude, the rate and the
acceleration of each published state are those of the last field of their kind, if the last status
field says AHRS mode and the device has marked them as valid, and neutral else.  Each update that
succeeds is followed by one publication, with the time at which it was made, and is counted; and
the thread ends with an update that has failed. -/
theorem published_received {n : ℕ} {t : ImuThread} {s : Sensor} {o : Option ImuThread}
    (hconnected : t.driver.connected = true) (hfresh : t.driver.data = {})
    (h : Runs sensor (ImuThread.run n t) {} s o) :
    Each Reported s.log ∧
    (publications s.log ≤ updates s.log ∧ updates s.log ≤ publications s.log + 1) ∧
    ∀ t', o = some t' → (∃ past, s.log = .updated false :: past) ∧
      publications s.log = updates s.log ∧
      t'.driver.updateCount = t.driver.updateCount + UInt64.ofNat (updates s.log) := by
  have hstart : Synced t.driver.updateCount t.driver {} :=
    ⟨hconnected, hfresh, ⟨rfl, rfl, rfl, rfl⟩, each_nil, rfl, by simp [updates]⟩
  have hsat : Sat sensor Sound (ImuThread.run n t) (fun t' s' =>
      Synced t.driver.updateCount t'.driver s' ∧ ∃ past, s'.log = .updated false :: past) {} := by
    unfold ImuThread.run
    simp only [clockGettime_bind]
    rintro next _ rfl
    have hread := hstart.note (e := .read next) nofun nofun rfl rfl
    refine ⟨hread.sound, ?_⟩
    simp only [steadyNow_bind]
    rintro waitStart _ rfl
    refine ⟨hread.sound, (waitLoop_sat waitStart n hread).bind fun driver s₁ h₁ => ?_⟩
    exact mainLoop_sat n { t with driver := driver } next next h₁
  obtain ⟨hsound, hpost⟩ := h.sat hsat hstart.sound
  refine ⟨hsound.each, ⟨hsound.published_le, hsound.updated_le⟩, fun t' ho => ?_⟩
  obtain ⟨hsynced, hlast⟩ := hpost t' ho
  exact ⟨hlast, hsynced.count, hsynced.updateCount⟩

def published? : ImuEvent → Option ImuState
  | .published state => some state
  | _ => none

/-- The filter needs two updates to reach AHRS mode, and the third fails. -/
def startingFields : ℕ → List ImuField
  | 0 => [.attitude ![.rat 0, .rat 0, .rat 0, .rat 1] 1, .status 2]
  | 1 => [.status 3]
  | _ => []

def startingDevice : Handler Sys Sensor := fun s c =>
  match c with
  | .imuUpdate =>
      let after := (startingFields (updates s.log)).foldl Sensor.extract s
      ((decide (updates s.log < 2), after.data), after.note (.updated (updates s.log < 2)))
  | .clockGettime => (⟨s.log.length, 0⟩, s.note (.read ⟨s.log.length, 0⟩))
  | .storeImu state => ((), s.note (.published state))
  | c => (c.quiet, s)

def connectedThread : ImuThread := { driver := { connected := true } }

/-- The attitude is published with the second update. -/
theorem published_received_starting : ∃ s t',
    Runs sensor (ImuThread.run 3 connectedThread) {} s (some t') ∧
      (s.log.filterMap published?).map (·.quat 3) = [.rat 1, .rat 0] ∧
      (∃ past, s.log = .updated false :: past) ∧ Each Reported s.log := by
  have hrun := runs_exec (P := fun _ => True) (W := sensor) (h := startingDevice)
    (fun s c _ => by
      refine ⟨?_, trivial⟩
      cases c with
      | imuUpdate => exact ⟨_, rfl, rfl⟩
      | _ => rfl) (ImuThread.run 3 connectedThread) (s := {}) trivial
  have hend : (exec startingDevice (ImuThread.run 3 connectedThread) {}).2.isSome = true ∧
      ((exec startingDevice (ImuThread.run 3 connectedThread) {}).1.log.filterMap
        published?).map (·.quat 3) = [.rat 1, .rat 0] := by
    decide +kernel
  generalize exec startingDevice (ImuThread.run 3 connectedThread) {} = last at hrun hend
  obtain ⟨s, o⟩ := last
  obtain ⟨t', rfl⟩ := Option.isSome_iff_exists.mp hend.1
  obtain ⟨heach, -, hlast⟩ := published_received rfl rfl hrun
  exact ⟨s, t', hrun, hend.2, (hlast t' rfl).1, heach⟩

/-! ### A device that stops sending -/

def field? : ImuEvent → Option ImuField
  | .field f => some f
  | _ => none

/-- An update in which `fields` arrive, with its publication at `ts`. -/
def reportedAt (fields : List ImuField) (ts : Timespec) (s : Sensor) : Sensor :=
  let s := fields.foldl Sensor.extract s
  ((s.note (.updated true)).note (.read ts)).note
    (.published (ImuDriver.imuState s.data ts.toNs))

theorem pollAndPublish_runs {d : ImuDriver} (hd : d.connected = true) (fields : List ImuField)
    (ts : Timespec) (s : Sensor) :
    Runs sensor d.pollAndPublish s (reportedAt fields ts s) (some (true,
      { d with
        data := (fields.foldl Sensor.extract s).data, updateCount := d.updateCount + 1,
        filterMode := (fields.foldl Sensor.extract s).data.filterState.toUInt32 })) := by
  unfold ImuDriver.pollAndPublish
  rw [if_neg (by simp [hd])]
  have hupdate : sensor s .imuUpdate (true, (fields.foldl Sensor.extract s).data)
      ((fields.foldl Sensor.extract s).note (.updated true)) := ⟨fields, rfl, rfl⟩
  simp only [imuUpdate_bind]
  refine .call hupdate ?_
  unfold reportedAt
  generalize fields.foldl Sensor.extract s = s₁
  simp only [Bool.not_true, Bool.false_eq_true, if_false, clockGettime_bind, storeImu_bind]
  have hread : sensor (s₁.note (.updated true)) .clockGettime ts
      ((s₁.note (.updated true)).note (.read ts)) := rfl
  exact .call hread (.call (r := ()) rfl (.ret _ _))

/-- The report for an attitude alone. -/
def attitudeReport (q : Fin 4 → CFloat) (ts : Timespec) : ImuState :=
  { quat := q, timestampNs := ts.toNs }

/-- In AHRS mode there is nothing to wait for. -/
theorem waitLoop_ahrs {d : ImuDriver} (hd : ¬d.filterMode < filterModeAhrs) (waitStart : ℤ)
    (n : ℕ) (s : Sensor) : Runs sensor (ImuThread.waitLoop waitStart (n + 1) d) s s (some d) := by
  rw [ImuThread.waitLoop, if_neg hd]
  exact .ret _ _

theorem mainLoop_runs (q : Fin 4 → CFloat) (clock : ℕ → Timespec) (n k : ℕ) (t : ImuThread)
    (next prevWake : Timespec) (s : Sensor) (ht : t.driver.connected = true)
    (hs : s.data = { quat := q, quatValidFlags := 1, filterState := 3 }) :
    ∃ s', Runs sensor (ImuThread.mainLoop n t next prevWake) s s' none ∧
      s'.log.filterMap field? = s.log.filterMap field? ∧
      s'.log.filterMap published? = ((List.range' k n).map fun i =>
        attitudeReport q (clock i)).reverse ++ s.log.filterMap published? := by
  induction n generalizing k t next prevWake s with
  | zero => exact ⟨s, .stop _ _, rfl, rfl⟩
  | succ n ih =>
      obtain ⟨s', hrun, hfields, hpublished⟩ := ih (k + 1)
        { driver := { t.driver with
            data := s.data, updateCount := t.driver.updateCount + 1,
            filterMode := s.data.filterState.toUInt32 }
          lastPeriodNs := timespecDiffNs (clock k) prevWake
          missedDeadlines :=
            if imuPeriodNs * 3 / 2 < timespecDiffNs (clock k) prevWake then t.missedDeadlines + 1
            else t.missedDeadlines
          loopCount := t.loopCount + 1 }
        (timespecAddNs next imuPeriodNs) (clock k)
        ((reportedAt [] (clock k) s).note (.read (clock k))) ht hs
      refine ⟨s', ?_, hfields, ?_⟩
      · rw [ImuThread.mainLoop]
        refine (pollAndPublish_runs ht [] (clock k) s).bind ?_
        simp only [Bool.not_true, Bool.false_eq_true, if_false, clockGettime_bind]
        refine .call (r := clock k) rfl ?_
        unfold sleepUntilNextPeriod
        simp only [clockNanosleep_bind, Prog.call_bind, Prog.pure_eq, Prog.ret_bind]
        exact .call (r := ()) rfl hrun
      · rw [hpublished, List.range'_succ, List.map_cons, List.reverse_cons, List.append_assoc]
        have hstate : ImuDriver.imuState s.data (clock k).toNs = attitudeReport q (clock k) := by
          rw [hs]
          rfl
        rw [← hstate]
        rfl

/-- **A device that has stopped sending is not noticed.**  However long nothing arrives, its last
attitude is published again and again, each time with the time of the publication. -/
theorem silent_device_published (q : Fin 4 → CFloat) (clock : ℕ → Timespec) (n : ℕ) :
    ∃ s, Runs sensor (ImuThread.run (n + 2) connectedThread) {} s none ∧
      s.log.filterMap field? = [.status 3, .attitude q 1] ∧
      s.log.filterMap published? =
        ((List.range (n + 3)).map fun i => attitudeReport q (clock i)).reverse := by
  let first := reportedAt [.attitude q 1, .status 3] (clock 0) (Sensor.note {} (.read (clock 0)))
  let driver : ImuDriver :=
    { data := first.data, connected := true, updateCount := 1, filterMode := 3 }
  obtain ⟨s, hrun, hfields, hpublished⟩ :=
    mainLoop_runs q clock (n + 2) 1 { driver } (clock 0) (clock 0) first rfl rfl
  refine ⟨s, ?_, hfields, ?_⟩
  · unfold ImuThread.run
    simp only [clockGettime_bind, steadyNow_bind]
    refine .call (r := clock 0) rfl (.call (r := (0 : ℤ)) rfl ?_)
    have hwait : Runs sensor (ImuThread.waitLoop 0 (n + 2) { connected := true })
        (Sensor.note {} (.read (clock 0))) first (some driver) := by
      rw [ImuThread.waitLoop, if_pos (by decide)]
      refine (pollAndPublish_runs rfl [.attitude q 1, .status 3] (clock 0) _).bind ?_
      simp only [steadyNow_bind]
      refine .call (r := (0 : ℤ)) rfl ?_
      rw [if_neg (by decide)]
      simp only [sleepFor_bind]
      refine .call (r := ()) rfl ?_
      have hahrs : ¬driver.filterMode < filterModeAhrs := (by decide : ¬(3 : UInt32) < 3)
      exact waitLoop_ahrs hahrs 0 n first
    exact hwait.bind hrun
  · have hfirst : first.log.filterMap published? = [attitudeReport q (clock 0)] := rfl
    rw [hpublished, hfirst, List.range_eq_range', List.range'_succ (s := 0), List.map_cons,
      List.reverse_cons]

end ImuReports

end Qub
