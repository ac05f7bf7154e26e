import QubController.GuiRules
import QubController.Trace

/-! # The trace of the terminal program

A run leaves a trace of its writes, the frames that it reads and the keys.  A motor has a place,
a channel and an ID there; the scan finds at most one motor at each.  ENABLE is written in one
place of the program only: `OnRules` lists what has to be shown of that write, and gives what
holds when an ON request has ended. -/

namespace Qub

open Interaction

namespace PositionRead

/-! ### The trace -/

inductive GuiEvent
  | wrote (ch : Fin numChannels) (msg : TPCANMsg) (ok : Bool)
  | read (ch : Fin numChannels) (msg : TPCANMsg)
  | key (bytes : List Char)

/-- The trace after a call. -/
def note (log : List GuiEvent) (c : SysCall) (r : c.Resp) : List GuiEvent :=
  match c, r with
  | .canWrite ch msg, r => .wrote ch msg (r == pcanErrorOk) :: log
  | .canRead ch, r =>
      if r.1 == pcanErrorOk then .read ch (({} : TPCANMsg).fill r.2) :: log else log
  | .readStdin, bytes => .key bytes :: log
  | _, _ => log

/-- The world that answers in any way and keeps the trace. -/
def noted : World Sys (List GuiEvent) := fun log c r log' => log' = note log c r

/-- A channel and a motor's ID there. -/
abbrev Place := Fin numChannels × UInt8

/-- A frame of type `t` is written to `k`, with success or not. -/
def Writes (t : CommType) (k : Place) (ok : Bool) (e : GuiEvent) : Prop :=
  ∃ msg, e = .wrote k.1 msg ok ∧ msg.commType = t.code ∧ msg.destinationId = k.2

instance (t : CommType) (k : Place) (ok : Bool) : DecidablePred (Writes t k ok)
  | .wrote ch msg ok' =>
      decidable_of_iff (ch = k.1 ∧ ok' = ok ∧ msg.commType = t.code ∧ msg.destinationId = k.2) (by
        simp [Writes, and_assoc])
  | .read _ _ => isFalse (by rintro ⟨_, heq, -⟩; cases heq)
  | .key _ => isFalse (by rintro ⟨_, heq, -⟩; cases heq)

section events
variable {k : Place} {log : List GuiEvent}

theorem not_writes_of_type {t : CommType} {ok ok' : Bool} {ch : Fin numChannels}
    {msg : TPCANMsg} (h : msg.commType ≠ t.code) : ¬ Writes t k ok (.wrote ch msg ok') := by
  rintro ⟨msg', heq, htype, -⟩
  obtain ⟨-, rfl, -⟩ := GuiEvent.wrote.inj heq
  exact h htype

/-- A write has one type, one place and one result. -/
theorem Writes.inj {t t' : CommType} {k' : Place} {ok ok' : Bool} {e : GuiEvent}
    (h : Writes t k ok e) (h' : Writes t' k' ok' e) : t = t' ∧ k = k' ∧ ok = ok' := by
  obtain ⟨msg, rfl, htype, hdest⟩ := h
  obtain ⟨msg', heq, htype', hdest'⟩ := h'
  obtain ⟨hch, rfl, hok⟩ := GuiEvent.wrote.inj heq
  refine ⟨CommType.code_inj.mp (htype.symm.trans htype'), ?_, hok⟩
  exact Prod.ext hch (hdest.symm.trans hdest')

/-- A call that does not write adds no write to the trace. -/
theorem note_quiet {c : SysCall} (r : c.Resp) (log : List GuiEvent) (hc : IsQuiet c) :
    note log c r = log ∨
      ∃ e, note log c r = e :: log ∧ ∀ ch msg ok, e ≠ .wrote ch msg ok := by
  cases c with
  | canWrite ch msg => exact hc.elim
  | canRead ch =>
      unfold note
      dsimp only
      split
      · exact .inr ⟨_, rfl, by simp⟩
      · exact .inl rfl
  | readStdin => exact .inr ⟨_, rfl, by simp⟩
  | _ => exact .inl rfl

theorem note_read {ch : Fin numChannels} {r : TPCANStatus × TPCANMsg} (log : List GuiEvent)
    (hok : (r.1 == pcanErrorOk) = true) :
    note log (.canRead ch) r = .read ch (({} : TPCANMsg).fill r.2) :: log := if_pos hok

theorem note_read_failed {ch : Fin numChannels} {r : TPCANStatus × TPCANMsg} (log : List GuiEvent)
    (hfailed : ¬ (r.1 == pcanErrorOk) = true) : note log (.canRead ch) r = log := if_neg hfailed

end events

/-! ### Places -/

/-- The motor is the one at `k`, and so is its driver. -/
structure AtPlace (k : Place) (motor : MotorState) : Prop where
  channelIdx : motor.channelIdx = k.1
  motorId : motor.motorId = k.2
  can : motor.driver.can = k.1
  driverId : motor.driver.motorId = k.2

theorem AtPlace.of_settings {k : Place} {motor motor' : MotorState} (h : AtPlace k motor)
    (hsame : motor'.settings = motor.settings) : AtPlace k motor' where
  channelIdx := (congrArg Settings.channelIdx hsame).trans h.channelIdx
  motorId := (congrArg Settings.motorId hsame).trans h.motorId
  can := (congrArg Settings.can hsame).trans h.can
  driverId := (congrArg Settings.driverId hsame).trans h.driverId

theorem AtPlace.aim {k : Place} {motor : MotorState} (h : AtPlace k motor) (p : CFloat) :
    AtPlace k { motor with holdPositionRad := p } :=
  ⟨h.channelIdx, h.motorId, h.can, h.driverId⟩

theorem AtPlace.flag {k : Place} {motor : MotorState} (h : AtPlace k motor) (b : Bool) :
    AtPlace k { motor with enabled := b } := ⟨h.channelIdx, h.motorId, h.can, h.driverId⟩

/-- One motor is changed. -/
theorem place_update {n : ℕ} {K : Fin n → Place} {motors : Motors n} {i : Fin n}
    {motor : MotorState} (hplace : ∀ j, AtPlace (K j) (motors j)) (hmotor : AtPlace (K i) motor)
    (j : Fin n) : AtPlace (K j) (Function.update motors i motor j) := by
  by_cases hij : j = i
  · subst hij
    rw [Function.update_self]
    exact hmotor
  · rw [Function.update_of_ne hij]
    exact hplace j

def DeviceInfo.place (device : DeviceInfo) : Place := (device.channelIdx, device.motorId)

/-- The places of scanned motors. -/
def places (devices : List DeviceInfo) : Fin devices.length → Place :=
  fun i => (devices.get i).place

theorem places_injective {devices : List DeviceInfo}
    (h : (devices.map DeviceInfo.place).Nodup) : Function.Injective (places devices) := by
  intro i j hij
  have hget := List.nodup_iff_injective_get.mp h
  have hi : (devices.map DeviceInfo.place).get (i.cast (by simp)) = places devices i := by
    simp [places]
  have hj : (devices.map DeviceInfo.place).get (j.cast (by simp)) = places devices j := by
    simp [places]
  have hcast := hget (hi.trans (hij.trans hj.symm))
  exact Fin.ext (by simpa using congrArg Fin.val hcast)

theorem makeMotorStates_place (config : Config) (devices : List DeviceInfo)
    (i : Fin devices.length) : AtPlace (places devices i) (makeMotorStates config devices i) :=
  ⟨rfl, rfl, rfl, rfl⟩

/-- A write in the trace. -/
theorem writeFrame_wrote {Inv : List GuiEvent → Prop} {Q : Bool → List GuiEvent → Prop} {k : Place}
    {motor : MotorState} {msg : TPCANMsg} {log : List GuiEvent} (hcan : motor.driver.can = k.1)
    (h : ∀ ok, Inv (.wrote k.1 msg ok :: log) ∧ Q ok (.wrote k.1 msg ok :: log)) :
    Sat noted Inv (motor.driver.writeFrame msg) Q log := by
  intro status log' hw
  have hnote : log' = note log (.canWrite motor.driver.can msg) status := hw
  rw [hcan] at hnote
  rw [hnote]
  exact h _

/-- A command of the driver in the trace. -/
theorem hostFrame_wrote {Inv : List GuiEvent → Prop} {Q : Bool → List GuiEvent → Prop} {k : Place}
    {motor : MotorState} {t : CommType} {data : Fin 8 → UInt8} {log : List GuiEvent}
    (hplace : AtPlace k motor)
    (h : ∀ ok e, Writes t k ok e → Inv (e :: log) ∧ Q ok (e :: log)) :
    Sat noted Inv (motor.driver.writeFrame (motor.driver.hostFrame t data)) Q log := by
  refine writeFrame_wrote hplace.can fun ok => h ok _ ⟨_, rfl, ?_, ?_⟩
  · exact Robstride.hostFrame_commType _ _ _
  · exact (Robstride.hostFrame_destinationId _ _ _).trans hplace.driverId

/-! ### Calls without ENABLE -/

/-- A call that is not a write of ENABLE. -/
def IsNotEnable : SysCall → Prop
  | .canWrite _ msg => msg.commType ≠ CommType.enable.code
  | _ => True

section notEnable
variable {n : ℕ}

/-- Such a call adds no ENABLE to the trace. -/
theorem note_notEnable {c : SysCall} (r : c.Resp) (log : List GuiEvent) (hc : IsNotEnable c) :
    note log c r = log ∨ ∃ e, note log c r = e :: log ∧ ∀ k, ¬ Writes .enable k true e := by
  cases c with
  | canWrite ch msg => exact .inr ⟨_, rfl, fun _ => not_writes_of_type hc⟩
  | _ =>
      refine (note_quiet r log trivial).imp_right ?_
      rintro ⟨e, hcons, he⟩
      refine ⟨e, hcons, ?_⟩
      rintro k ⟨msg, rfl, -⟩
      exact he _ _ _ rfl

theorem writeFrame_notEnable {driver : Robstride} {msg : TPCANMsg}
    (h : msg.commType ≠ CommType.enable.code) :
    (driver.writeFrame msg).Obeys IsNotEnable (fun _ => True) := ⟨h, fun _ => trivial⟩

theorem stop_notEnable (driver : Robstride) :
    (driver.stop false).Obeys IsNotEnable (fun _ => True) := by
  apply writeFrame_notEnable
  rw [Robstride.hostFrame_commType]
  decide

theorem holdCommand_notEnable (config : Config) (motor : MotorState) :
    (holdCommand config motor).Obeys IsNotEnable (fun _ => True) := by
  apply writeFrame_notEnable
  rw [Robstride.mitFrame_commType]
  decide

theorem setRunMode_notEnable (driver : Robstride) (mode : RunMode) :
    (driver.setRunMode mode).Obeys IsNotEnable (fun _ => True) := by
  apply writeFrame_notEnable
  rw [Robstride.hostFrame_commType]
  decide

theorem refreshPositionSync_notEnable (channels : Channels) (hostId : UInt8) (timeoutMs : ℤ)
    (fuel : ℕ) (i : Fin n) (motors : Motors n) :
    (refreshPositionSync channels hostId timeoutMs fuel i motors).Obeys IsNotEnable
      (fun r => SameSettings motors r.2) := by
  unfold refreshPositionSync
  by_cases hclosed : (!channels (motors i).channelIdx) = true
  · simp only [hclosed, if_true]
    exact .refl motors
  · simp only [hclosed, requestMechanicalPosition, canWrite_bind]
    refine ⟨?_, fun status => ?_⟩
    · simp only [IsNotEnable, commType_buildExtId, CommType.code_and]
      decide
    · by_cases hfailed : (status != pcanErrorOk) = true
      · simp only [hfailed, if_true]
        exact .refl motors
      · simp only [hfailed, steadyNow_bind]
        refine ⟨trivial, fun now => ?_⟩
        refine (refreshLoop_listens hostId i _ _ fuel motors).mono (fun c hc => ?_) fun _ h => h
        cases c with
        | canWrite => exact hc.elim
        | _ => trivial

end notEnable

/-! ### ON requests -/

/-- What is asked of `J`, which holds while an ON request for motor `i` goes on, and of `R`, which
holds once ENABLE is written. -/
structure OnRules {n : ℕ} (i : Fin n) (J R : Motors n → List GuiEvent → Prop) : Prop where
  settings : ∀ {motors motors' log}, SameSettings motors motors' → J motors log → J motors' log
  aim : ∀ {motors log} (p : CFloat), J motors log →
    J (Function.update motors i { motors i with holdPositionRad := p }) log
  call : ∀ {motors log} (c : SysCall) {r log'}, IsNotEnable c → J motors log → noted log c r log' →
    J motors log'
  enable : ∀ {motors log}, J motors log → Sat noted (fun _ => True) (motors i).driver.enable
    (fun on log' => if on then R (setEnabled motors i true) log' else J motors log') log

/-- How a request ends, also when the status line throws. -/
def Outcome {n : ℕ} (J R : Motors n → List GuiEvent → Prop) :
    Except (Motors n) (Bool × Motors n × String) → List GuiEvent → Prop
  | .ok (true, motors, _), log => R motors log
  | .ok (false, motors, _), log => J motors log
  | .error motors, log => J motors log ∨ R motors log

theorem finish_outcome {n : ℕ} {J R : Motors n → List GuiEvent → Prop} {motors : Motors n}
    {log : List GuiEvent} (result : Bool) (statusMessage : String)
    (h : if result then R motors log else J motors log) :
    Sat noted (fun _ => True) (finish result statusMessage motors) (Outcome J R) log := by
  rintro throws log' hw
  have hlog : log' = log := hw
  subst hlog
  refine ⟨trivial, ?_⟩
  cases result with
  | true =>
      cases throws with
      | true => exact .inr h
      | false => exact h
  | false =>
      cases throws with
      | true => exact .inl h
      | false => exact h

namespace OnRules

variable {n : ℕ} {i : Fin n} {J R : Motors n → List GuiEvent → Prop} {motors : Motors n}
  {log : List GuiEvent}

section rules
variable (h : OnRules i J R)
include h

/-- A routine without ENABLE. -/
theorem obeys_sat {α : Type} {p : SysM α} {Q : α → Prop} (hp : p.Obeys IsNotEnable Q)
    (hJ : J motors log) : Sat noted (fun _ => True) p (fun a log' => Q a ∧ J motors log') log :=
  hp.sat (fun _ c _ _ hc hJ hw => ⟨trivial, h.call c hc hJ hw⟩) hJ

theorem primeAndEnable_sat (config : Config) (hJ : J motors log) :
    Sat noted (fun _ => True) (primeAndEnable config (motors i))
      (fun on log' => if on then R (setEnabled motors i true) log' else J motors log') log := by
  unfold primeAndEnable
  refine (h.obeys_sat (holdCommand_notEnable config _) hJ).bind ?_
  rintro primed log₁ ⟨-, h₁⟩
  cases primed with
  | false => exact h₁
  | true => exact h.enable h₁

theorem enableAt_sat (config : Config) (hJ : J motors log) :
    Sat noted (fun _ => True) (enableAt config i motors) (Outcome J R) log := by
  unfold enableAt
  refine (h.obeys_sat (stop_notEnable _) hJ).bind ?_
  rintro stopped log₁ ⟨-, h₁⟩
  cases stopped with
  | false => exact finish_outcome _ _ h₁
  | true =>
      simp only [Bool.not_true, Bool.false_eq_true, if_false, sleepFor_bind]
      intro _ log₂ hw₂
      refine ⟨trivial, ?_⟩
      have h₂ := h.call (.sleepFor (ms 10)) trivial h₁ hw₂
      refine (h.obeys_sat (setRunMode_notEnable _ _) h₂).bind ?_
      rintro moded log₃ ⟨-, h₃⟩
      cases moded with
      | false => exact finish_outcome _ _ h₃
      | true =>
          simp only [Bool.not_true, Bool.false_eq_true, if_false]
          intro _ log₄ hw₄
          refine ⟨trivial, ?_⟩
          have h₄ := h.call (.sleepFor (ms 10)) trivial h₃ hw₄
          refine (h.primeAndEnable_sat config h₄).bind ?_
          intro on log₅ h₅
          cases on with
          | false =>
              simp only [Bool.not_false, if_true]
              refine (h.obeys_sat (stop_notEnable _) h₅).bind ?_
              rintro _ log₆ ⟨-, h₆⟩
              exact finish_outcome _ _ h₆
          | true => exact finish_outcome _ _ h₅

/-- A request from a state in which `J` holds. -/
theorem enableSelectedMotor_sat (channels : Channels) (config : Config) (fuel : ℕ)
    (hJ : J motors log) :
    Sat noted (fun _ => True) (enableSelectedMotor channels config fuel i motors) (Outcome J R)
      log := by
  unfold enableSelectedMotor
  refine (h.obeys_sat (refreshPositionSync_notEnable _ _ _ _ _ _) hJ).bind ?_
  rintro ⟨refreshed, motors₁⟩ log₁ ⟨hsame, h₁⟩
  have h₁ := h.settings hsame h₁
  cases refreshed with
  | false => exact finish_outcome _ _ h₁
  | true =>
      simp only [Bool.not_true, Bool.false_eq_true, if_false]
      by_cases hout : ((motors₁ i).positionRad.lt pMin || (motors₁ i).positionRad.gt pMax) = true
      · simp only [hout, if_true]
        exact finish_outcome _ _ h₁
      · simp only [hout]
        exact h.enableAt_sat config (h.aim _ h₁)

end rules

end OnRules

/-! ### The scan -/

/-- A call of the scan: queries for IDs may be written, and no key is read. -/
def IsScan : SysCall → Prop
  | .canWrite _ msg => msg.commType = CommType.getId.code
  | .readStdin => False
  | _ => True

/-- A call that writes no command and no ENABLE. -/
def IsHarmless : SysCall → Prop
  | .canWrite _ msg => msg.commType ≠ CommType.mitControl.code ∧ msg.commType ≠ CommType.enable.code
  | _ => True

theorem IsScan.harmless {c : SysCall} (h : IsScan c) : IsHarmless c := by
  cases c with
  | canWrite ch msg =>
      have htype : msg.commType = CommType.getId.code := h
      refine ⟨?_, ?_⟩
      · rw [htype]
        decide
      · rw [htype]
        decide
  | _ => trivial

section scan
variable {config : Config} {ch : Fin numChannels} {motorId : UInt8}

theorem drainChannel_scan (ch : Fin numChannels) (left : ℕ) :
    (drainChannel ch left).Only IsScan := by
  induction left with
  | zero => trivial
  | succ left ih =>
      rw [drainChannel, canRead_bind]
      refine ⟨trivial, fun r => ?_⟩
      by_cases hstatus : (r.1 != pcanErrorOk) = true
      · simp [hstatus]
      · simpa [hstatus] using ih

theorem queryLoop_obeys (deadline : ℤ) (fuel : ℕ) :
    (queryLoop config ch motorId deadline fuel).Obeys IsScan
      (fun r => ∀ device, r = some device → device.place = (ch, motorId)) := by
  induction fuel with
  | zero => trivial
  | succ fuel ih =>
      rw [queryLoop, steadyNow_bind]
      refine ⟨trivial, fun now => ?_⟩
      by_cases hnow : now < deadline
      · simp only [hnow, if_true, canRead_bind]
        refine ⟨trivial, fun r => ?_⟩
        by_cases hok : (r.1 == pcanErrorOk) = true
        · by_cases hreply :
              isDeviceReply config.hostId motorId (({} : TPCANMsg).fill r.2) = true
          · simp only [hok, hreply, if_true]
            intro device hdevice
            obtain rfl := Option.some.inj hdevice
            unfold isDeviceReply at hreply
            simp only [Bool.and_eq_true, beq_iff_eq] at hreply
            exact Prod.ext rfl hreply.1.2
          · simp only [hok, hreply, if_true]
            exact ih
        · by_cases hempty : (r.1 != pcanErrorQrcvEmpty) = true
          · simp only [hok, hempty, if_true]
            exact fun _ h => absurd h (by simp)
          · simp only [hok, hempty, sleepFor_bind]
            exact ⟨trivial, fun _ => ih⟩
      · simp only [hnow, if_false]
        exact fun _ h => absurd h (by simp)

theorem queryDevice_obeys (config : Config) (fuel : ℕ) (ch : Fin numChannels) (motorId : UInt8) :
    (queryDevice config fuel ch motorId).Obeys IsScan
      (fun r => ∀ device, r = some device → device.place = (ch, motorId)) := by
  unfold queryDevice
  refine (drainChannel_scan ch 256).obeys.bind fun _ _ => ?_
  rw [canWrite_bind]
  refine ⟨?_, fun status => ?_⟩
  · rw [IsScan, commType_buildExtId, CommType.code_and]
  · by_cases hfailed : (status != pcanErrorOk) = true
    · simp only [hfailed, if_true]
      exact fun _ h => absurd h (by simp)
    · simp only [hfailed]
      exact ⟨trivial, fun now => queryLoop_obeys _ fuel⟩

/-- The devices of a channel answer for IDs that were queried, each for one. -/
theorem scanIds_obeys (config : Config) (fuel : ℕ) (ch : Fin numChannels) (ids : List UInt8) :
    (scanIds config fuel ch ids).Obeys IsScan
      (fun devices => (∀ device ∈ devices, device.channelIdx = ch) ∧
        (devices.map DeviceInfo.motorId).Sublist ids) := by
  induction ids with
  | nil => exact ⟨by simp, .slnil⟩
  | cons id rest ih =>
      rw [scanIds, loadRunning_bind]
      refine ⟨trivial, fun running => ?_⟩
      cases running with
      | false => exact ⟨by simp, List.nil_sublist _⟩
      | true =>
          simp only [if_true]
          refine (queryDevice_obeys config fuel ch id).bind fun r hr => ?_
          refine ih.bind fun devices hdevices => ?_
          cases r with
          | none => exact ⟨hdevices.1, hdevices.2.cons id⟩
          | some device =>
              obtain ⟨hch, hid⟩ := Prod.mk.inj (hr device rfl)
              refine ⟨List.forall_mem_cons.mpr ⟨hch, hdevices.1⟩, ?_⟩
              show (device.motorId :: devices.map DeviceInfo.motorId).Sublist (id :: rest)
              rw [hid]
              exact hdevices.2.cons_cons id

theorem nodup_scannedIds : scannedIds.Nodup := by
  refine List.Nodup.map_on ?_ List.nodup_range'
  intro a ha b hb hab
  have hlt : ∀ m ∈ List.range' minMotorId (maxMotorId + 1 - minMotorId), m < 256 := by
    intro m hm
    have hbound := (List.mem_range'_1.mp hm).2
    unfold minMotorId maxMotorId at hbound
    omega
  have hnat := congrArg UInt8.toNat hab
  rwa [UInt8.toNat_ofNat_of_lt' (hlt a ha), UInt8.toNat_ofNat_of_lt' (hlt b hb)] at hnat

/-- The devices of one channel are at different places. -/
theorem nodup_places {devices : List DeviceInfo} (hch : ∀ device ∈ devices, device.channelIdx = ch)
    (hids : (devices.map DeviceInfo.motorId).Sublist scannedIds) :
    (devices.map DeviceInfo.place).Nodup := by
  have hplaces : devices.map DeviceInfo.place =
      (devices.map DeviceInfo.motorId).map fun id => (ch, id) := by
    rw [List.map_map]
    apply List.map_congr_left
    intro device hdevice
    exact Prod.ext (hch device hdevice) rfl
  rw [hplaces]
  refine List.Nodup.map (fun a b hab => ?_) (nodup_scannedIds.sublist hids)
  exact congrArg Prod.snd hab

theorem scanLoop_obeys (config : Config) (fuel : ℕ) (l : List (Fin numChannels)) (hl : l.Nodup)
    (channels : Channels) (devices : List DeviceInfo)
    (hnodup : (devices.map DeviceInfo.place).Nodup)
    (hdevices : ∀ device ∈ devices, device.channelIdx ∉ l) :
    (scanLoop config fuel l channels devices).Obeys IsScan
      (fun r => (r.2.map DeviceInfo.place).Nodup) := by
  induction l generalizing channels devices with
  | nil => exact hnodup
  | cons ch rest ih =>
      obtain ⟨hch, hrest⟩ := List.nodup_cons.mp hl
      have hdevices' : ∀ device ∈ devices, device.channelIdx ∉ rest :=
        fun device hdevice h => hdevices device hdevice (List.mem_cons_of_mem ch h)
      rw [scanLoop, canInitialize_bind]
      refine ⟨trivial, fun status => ?_⟩
      by_cases hok : (status == pcanErrorOk) = true
      · simp only [hok, if_true]
        refine (scanIds_obeys config fuel ch scannedIds).bind ?_
        rintro found ⟨hfound, hids⟩
        apply ih hrest
        · rw [List.map_append]
          refine hnodup.append (nodup_places hfound hids) fun k hk hk' => ?_
          obtain ⟨device, hdevice, rfl⟩ := List.mem_map.mp hk
          obtain ⟨device', hdevice', hplace⟩ := List.mem_map.mp hk'
          have hsame : device.channelIdx = ch :=
            (congrArg Prod.fst hplace).symm.trans (hfound device' hdevice')
          exact hdevices device hdevice (by rw [hsame]; exact List.mem_cons_self)
        · intro device hdevice
          rcases List.mem_append.mp hdevice with h | h
          · exact hdevices' device h
          · rw [hfound device h]
            exact hch
      · simp only [hok]
        exact ih hrest channels devices hnodup hdevices'

/-- **No two scanned motors are at one place.** -/
theorem scanChannels_obeys (config : Config) (fuel : ℕ) :
    (scanChannels config fuel).Obeys IsScan
      (fun r => (r.2.map DeviceInfo.place).Nodup) := by
  unfold scanChannels
  refine (scanLoop_obeys config fuel _ (List.nodup_finRange _) _ [] (by simp) (by simp)).bind ?_
  rintro ⟨channels, devices⟩ hnodup
  exact ((List.mergeSort_perm devices _).map DeviceInfo.place).nodup_iff.mpr hnodup

end scan

end PositionRead

end Qub
