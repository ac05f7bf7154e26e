import QubController.Queries

/-! # The scan

What `motor_config scan` reports, with the motors that are there.  `reportScan` is the command
with the lines that it prints for the motors it found; without them it is `commandScan`.

The motors of a `Site` have their places and UIDs.  Each channel is a `probeBus`, and whatever looks
like an answer is the answer of a motor that is there.  A query that cannot be written and a reply
that a read error takes are lost, and a channel that cannot be initialized is `unopened`.
`scan_census` says that the report names no motor that is not there, and misses none that was not
lost. -/

namespace Qub

open Interaction

namespace MotorConfig

/-! ### The report -/

/-- `mapped_joint_name`. -/
def mappedJointName (channelIdx : Fin numChannels) (motorId : UInt8) : Option String :=
  (motorMap.find? fun e => e.channelIdx == channelIdx && e.motorId == motorId).map (·.name)

/-- The line for a motor. -/
structure Found where
  channelIdx : Fin numChannels
  device : DeviceInfo
  name : Option String

def Found.key (f : Found) : Fin numChannels × UInt8 := (f.channelIdx, f.device.motorId)

/-- `CanBus.scanIds` with the lines. -/
def CanBus.reportIds (bus : CanBus) (n : ℕ) : List UInt8 → SysM (List Found)
  | [] => return []
  | motorId :: rest => do
      match ← bus.getDevice n motorId with
      | none => bus.reportIds n rest
      | some device =>
          let found ← bus.reportIds n rest
          return ⟨bus.channelIdx, device, mappedJointName bus.channelIdx device.motorId⟩ :: found

/-- `scanChannels` with the lines. -/
def reportChannels (config : Config) (n minimum maximum : ℕ) :
    List (Fin numChannels) → SysM (List Found)
  | [] => return []
  | channelIdx :: rest => do
      match ← CanBus.init config channelIdx with
      | none => reportChannels config n minimum maximum rest
      | some bus =>
          if config.dryRun then
            let _ ← bus.getDevice n (UInt8.ofNat minimum)
            reportChannels config n minimum maximum rest
          else
            let found ← bus.reportIds n (idsBetween minimum maximum)
            let others ← reportChannels config n minimum maximum rest
            return found ++ others

/-- `commandScan` with the lines. -/
def reportScan (config : Config) (channelIdx : Option (Fin numChannels)) (n minimum maximum : ℕ) :
    SysM (ℤ × List Found) := do
  if maximum < minimum then
    return (2, [])
  else
    let channels := channelIdx.elim (List.finRange numChannels) fun c => [c]
    let found ← reportChannels config n minimum maximum channels
    if config.dryRun then return (0, found) else return (if found = [] then 1 else 0, found)

theorem scanIds_eq (bus : CanBus) (n : ℕ) (ids : List UInt8) :
    bus.scanIds n ids = bus.reportIds n ids >>= fun found => .ret found.length := by
  induction ids with
  | nil => rfl
  | cons motorId rest ih =>
      rw [CanBus.scanIds, CanBus.reportIds, ih, bind_assoc]
      refine congrArg _ (funext fun device => ?_)
      cases device with
      | none => simp
      | some device => simp [bind_assoc]

theorem scanChannels_eq (config : Config) (n minimum maximum : ℕ)
    (channels : List (Fin numChannels)) (hreal : config.dryRun = false) :
    scanChannels config n minimum maximum channels =
      reportChannels config n minimum maximum channels >>= fun found => .ret found.length := by
  induction channels with
  | nil => rfl
  | cons channelIdx rest ih =>
      rw [scanChannels, reportChannels, bind_assoc]
      refine congrArg _ (funext fun bus => ?_)
      cases bus with
      | none => exact ih
      | some bus => simp [hreal, scanIds_eq, ih, bind_assoc]

/-- The command is the report without its lines. -/
theorem commandScan_eq (config : Config) (channelIdx : Option (Fin numChannels))
    (n minimum maximum : ℕ) (hreal : config.dryRun = false) :
    commandScan config channelIdx n minimum maximum =
      reportScan config channelIdx n minimum maximum >>= fun r => .ret r.1 := by
  unfold commandScan reportScan
  split
  · rfl
  · simp only [hreal, scanChannels_eq _ _ _ _ _ hreal, bind_assoc, Bool.false_eq_true, if_false]
    refine congrArg _ (funext fun found => ?_)
    cases found <;> rfl

/-! ### The site -/

/-- The motors, with their channels and IDs, and their UIDs. -/
structure Site (M : Type) where
  place : M → Fin numChannels × UInt8
  uid : M → Fin 8 → UInt8

variable {M : Type}

namespace Site

variable (site : Site M)

def Holds (k : Fin numChannels × UInt8) : Prop := ∃ m, site.place m = k

def Has (ch : Fin numChannels) (device : DeviceInfo) : Prop :=
  ∃ m, site.place m = (ch, device.motorId) ∧ site.uid m = device.uid

abbrev On (ch : Fin numChannels) : Type := {m : M // (site.place m).1 = ch}

def ids (ch : Fin numChannels) : site.On ch → UInt8 := fun m => (site.place m.1).2

theorem held_iff {ch : Fin numChannels} {motorId : UInt8} :
    Held (site.ids ch) motorId ↔ site.Holds (ch, motorId) := by
  constructor
  · rintro ⟨⟨m, hm⟩, hid⟩
    exact ⟨m, Prod.ext hm hid⟩
  · rintro ⟨m, hm⟩
    exact ⟨⟨m, congrArg Prod.fst hm⟩, congrArg Prod.snd hm⟩

/-- The channels, and those of them that could not be initialized. -/
structure Census where
  bus : (ch : Fin numChannels) → ProbeBus (site.On ch)
  unopened : List (Fin numChannels) := []

/-- What looks like an answer is the answer of a motor on the channel. -/
def Truthful (hostId : UInt8) (ch : Fin numChannels) (frame : TPCANMsg) : Prop :=
  frame.extended = true → frame.commType = CommType.getId.code →
    frame.destinationId = 0xFE ∨ frame.destinationId = hostId →
      site.Has ch ⟨frame.sourceMotorId, (({} : TPCANMsg).fill frame).data⟩

/-- Is this a call on channel `ch`, or on none? -/
def Concerns (ch : Fin numChannels) : SysCall → Prop
  | .canWrite ch' _ => ch' = ch
  | .canRead ch' => ch' = ch
  | .canInitialize _ => False
  | _ => True

/-- The world of the scan.  A call on one channel is a pause for the others. -/
def world (hostId : UInt8) (replyNs : ℤ) : World Sys site.Census := fun s c r s' =>
  (∀ ch, (Concerns ch c → probeBus replyNs (s.bus ch) c r (s'.bus ch)) ∧
    (¬ Concerns ch c → probeBus replyNs (s.bus ch) (.sleepFor 0) () (s'.bus ch))) ∧
  match c, r with
  | .canInitialize ch, r =>
      s'.unopened = if r = pcanErrorOk then s.unopened else ch :: s.unopened
  | .canRead ch, (status, frame) =>
      s'.unopened = s.unopened ∧ (status = pcanErrorOk → site.Truthful hostId ch frame)
  | _, _ => s'.unopened = s.unopened

variable {site}

def Census.Unasked (s : site.Census) : Prop :=
  ∀ ch, (s.bus ch).cur = site.ids ch ∧ (s.bus ch).awaited = none

/-- The motors are where they were, no reply is to come, and what was lost stays so. -/
structure Later (s s' : site.Census) : Prop where
  unasked : s'.Unasked
  lost : ∀ ch motorId, LostSince motorId (s.bus ch).log → LostSince motorId (s'.bus ch).log
  unopened : s.unopened ⊆ s'.unopened

theorem Later.refl {s : site.Census} (h : s.Unasked) : Later s s :=
  ⟨h, fun _ _ h => h, List.Subset.refl _⟩

theorem Later.trans {s s₁ s₂ : site.Census} (h : Later s s₁) (h' : Later s₁ s₂) : Later s s₂ :=
  ⟨h'.unasked, fun ch motorId hlost => h'.lost ch motorId (h.lost ch motorId hlost),
    List.Subset.trans h.unopened h'.unopened⟩

end Site

open Site

/-! ### One query -/

section query
variable {site : Site M} {replyNs : ℤ} {hostId : UInt8} {ch : Fin numChannels}
  {s₀ s s' : site.Census}

/-- The other channels, while the program uses channel `ch`. -/
def Aside (ch : Fin numChannels) (s₀ s : site.Census) : Prop :=
  (∀ ch' ≠ ch, Idle (site.ids ch') (s₀.bus ch').log (s.bus ch')) ∧ s.unopened = s₀.unopened

theorem Aside.call {c : SysCall} {r : c.Resp} (hc : Concerns ch c) (h : Aside ch s₀ s)
    (hw : site.world hostId replyNs s c r s') : Aside ch s₀ s' := by
  obtain ⟨hidle, hunopened⟩ := h
  obtain ⟨hbus, heff⟩ := hw
  refine ⟨fun ch' hne => ?_, ?_⟩
  · by_cases hother : Concerns ch' c
    · refine (hidle ch' hne).quiet ?_ ((hbus ch').1 hother)
      rintro x msg rfl
      exact hne (hother.symm.trans hc)
    · exact (hidle ch' hne).quiet (by simp) ((hbus ch').2 hother)
  · cases c with
    | canInitialize ch' => exact hc.elim
    | canRead ch' => exact heff.1.trans hunopened
    | _ => exact heff.trans hunopened

/-- Frame rule: a program that uses one channel is verified on the bus of this channel. -/
theorem sat_onChannel {α : Type} {p : SysM α} {Inv : ProbeBus (site.On ch) → Prop}
    {Q : α → ProbeBus (site.On ch) → Prop} (hp : p.Only (Concerns ch))
    (h : Sat (probeBus replyNs) Inv p Q (s.bus ch)) (haside : Aside ch s₀ s) :
    Sat (site.world hostId replyNs) (fun _ => True) p
      (fun a s' => Q a (s'.bus ch) ∧ Aside ch s₀ s') s := by
  induction p generalizing s with
  | ret a => exact ⟨h, haside⟩
  | cut => trivial
  | call c k ih =>
      intro r s' hw
      obtain ⟨-, hk⟩ := h r _ ((hw.1 ch).1 hp.1)
      exact ⟨trivial, ih r (hp.2 r) hk (haside.call hp.1 hw)⟩

variable {bus : CanBus}

/-- A frame that is taken for an answer is one of a motor that is there. -/
theorem receives_truthful (motorId : UInt8) :
    Receives (site.world bus.config.hostId replyNs) (fun _ => True) bus.channelIdx (fun _ => True)
      (fun msg _ => bus.isIdReply motorId msg = true →
        site.Has bus.channelIdx ⟨motorId, msg.data⟩) where
  clock := fun _ _ _ _ _ => ⟨trivial, trivial⟩
  sleep := fun _ _ _ _ => ⟨trivial, trivial⟩
  other := fun _ _ _ _ _ _ _ => ⟨trivial, trivial⟩
  frame := fun s frame s' _ hw hext => by
    refine ⟨trivial, fun hreply => ?_⟩
    obtain ⟨-, -, htrue⟩ := hw
    simp only [CanBus.isIdReply, Bool.and_eq_true, Bool.or_eq_true, beq_iff_eq] at hreply
    obtain ⟨⟨hget, hsource⟩, hdest⟩ := hreply
    have hhas := htrue rfl hext hget hdest
    rwa [show frame.sourceMotorId = motorId from hsource] at hhas

theorem getDevice_truthful (hreal : bus.config.dryRun = false) (n : ℕ) (motorId : UInt8) :
    Sat (site.world bus.config.hostId replyNs) (fun _ => True) (bus.getDevice n motorId)
      (fun r _ => ∀ device, r = some device →
        device.motorId = motorId ∧ site.Has bus.channelIdx device) s := by
  have hloop : ∀ attempts s, Sat (site.world bus.config.hostId replyNs) (fun _ => True)
      (bus.getDeviceLoop n motorId attempts) (fun r _ => ∀ device, r = some device →
        device.motorId = motorId ∧ site.Has bus.channelIdx device) s := by
    intro attempts
    induction attempts with
    | zero => exact fun s device hnone => by cases hnone
    | succ attempts ih =>
        intro s
        unfold CanBus.getDeviceLoop
        refine (sat_true (bus.drain n) s).bind fun _ s₁ _ => ?_
        refine (sat_true _ s₁).bind fun sent s₂ _ => ?_
        cases sent with
        | false => exact fun device hnone => by cases hnone
        | true =>
            simp only [Bool.not_true, Bool.false_eq_true, if_false, hreal]
            refine (CanBus.waitFor_sat (receives_truthful motorId) n _ (fun _ _ _ _ => trivial)
              trivial).bind fun r s₃ h₃ => ?_
            cases r with
            | none => exact ih s₃
            | some reply =>
                obtain ⟨hreply, hhas⟩ := h₃
                rintro device hdevice
                cases hdevice
                have hsource : reply.sourceMotorId = motorId := by
                  simp only [CanBus.isIdReply, Bool.and_eq_true, beq_iff_eq] at hreply
                  exact hreply.1.2
                exact ⟨hsource, hsource.symm ▸ hhas hreply⟩
  exact hloop _ s

/-- **`get_device`** returns a motor that is there; when it returns nothing, no motor has the ID
or a query was lost. -/
theorem getDevice_found (hreal : bus.config.dryRun = false)
    (htimeout : replyNs ≤ bus.config.timeoutMs * nsPerMs) (hretries : 0 < bus.config.retries)
    (n : ℕ) (motorId : UInt8) (h : s.Unasked) :
    Sat (site.world bus.config.hostId replyNs) (fun _ => True) (bus.getDevice n motorId)
      (fun r s' => Later s s' ∧ match r with
        | some device => device.motorId = motorId ∧ site.Has bus.channelIdx device
        | none => site.Holds (bus.channelIdx, motorId) →
            LostSince motorId (s'.bus bus.channelIdx).log) s := by
  set ch := bus.channelIdx
  -- what was lost before is lost still
  let G : (site.On ch → UInt8) → List (ProbeEvent (site.On ch)) → Prop :=
    fun _ log => ∀ motorId, LostSince motorId (s.bus ch).log → LostSince motorId log
  have hG : Tolerant G := fun _ _ _ _ hlog motorId hlost => .inr (hlog motorId hlost)
  have hready : Ready G (site.ids ch) (s.bus ch) :=
    ⟨_, ⟨(h ch).1, rfl, (h ch).2⟩, fun _ hlost => hlost⟩
  have haside : Aside ch s s := ⟨fun ch' _ => ⟨(h ch').1, rfl, (h ch').2⟩, rfl⟩
  have honly : (bus.getDevice n motorId).Only (Concerns ch) :=
    CanBus.getDevice_only (fun _ => ⟨rfl, trivial, trivial⟩)
      ⟨fun hdry => absurd (hreal.symm.trans hdry) Bool.false_ne_true, fun _ => rfl⟩
  refine ((sat_onChannel honly (getDevice_sat hG hreal htimeout n hready) haside).and
    (getDevice_truthful hreal n motorId)).mono ?_
  rintro r s' ⟨⟨⟨⟨log, ⟨hcur, hlog, hawaited⟩, hkept⟩, hnone⟩, hothers, hunopened⟩, hfound⟩
  refine ⟨⟨fun ch' => ?_, fun ch' id hlost => ?_, hunopened ▸ List.Subset.refl _⟩, ?_⟩
  · by_cases heq : ch' = ch
    · subst heq
      exact ⟨hcur, hawaited⟩
    · exact ⟨(hothers ch' heq).1, (hothers ch' heq).2.2⟩
  · by_cases heq : ch' = ch
    · subst heq
      rw [hlog]
      exact hkept id hlost
    · rwa [(hothers ch' heq).2.1]
  · cases r with
    | some device => exact hfound device rfl
    | none =>
        intro hheld
        obtain ⟨log', ⟨-, hlog', -⟩, -, hlost⟩ := hnone rfl hretries
        rw [hlog']
        exact hlost (site.held_iff.mpr hheld)

end query

/-! ### The report is right -/

/-- What a report of these places must be, when it ends in `s`. -/
structure Reports (site : Site M) (places : List (Fin numChannels × UInt8)) (found : List Found)
    (s : site.Census) : Prop where
  /-- The lines stand in the order of the places, with no place twice. -/
  order : (found.map Found.key).Sublist places
  sound : ∀ f ∈ found, site.Has f.channelIdx f.device ∧
    f.name = mappedJointName f.channelIdx f.device.motorId
  complete : ∀ k ∈ places, site.Holds k →
    k ∈ found.map Found.key ∨ LostSince k.2 (s.bus k.1).log ∨ k.1 ∈ s.unopened

section report
variable {site : Site M} {replyNs : ℤ} {config : Config} {s : site.Census}

theorem Reports.later {places : List (Fin numChannels × UInt8)} {found : List Found}
    {s' : site.Census} (h : Reports site places found s) (hlater : Later s s') :
    Reports site places found s' where
  order := h.order
  sound := h.sound
  complete := fun k hk hheld => (h.complete k hk hheld).imp_right fun h =>
    h.imp (hlater.lost k.1 k.2) fun h => hlater.unopened h

theorem Reports.append {places places' : List (Fin numChannels × UInt8)}
    {found found' : List Found} (h : Reports site places found s)
    (h' : Reports site places' found' s) :
    Reports site (places ++ places') (found ++ found') s where
  order := by
    rw [List.map_append]
    exact h.order.append h'.order
  sound := fun f hf => (List.mem_append.mp hf).elim (h.sound f) (h'.sound f)
  complete := fun k hk hheld => by
    rw [List.map_append, List.mem_append]
    rcases List.mem_append.mp hk with hk | hk
    · exact (h.complete k hk hheld).imp_left .inl
    · exact (h'.complete k hk hheld).imp_left .inr

theorem reports_missing {k : Fin numChannels × UInt8}
    (h : site.Holds k → LostSince k.2 (s.bus k.1).log ∨ k.1 ∈ s.unopened) :
    Reports site [k] [] s where
  order := List.nil_sublist _
  sound := fun f hf => by cases hf
  complete := fun k' hk' hheld => by
    obtain rfl := List.mem_singleton.mp hk'
    exact .inr (h hheld)

theorem reports_found {ch : Fin numChannels} {device : DeviceInfo} (h : site.Has ch device) :
    Reports site [(ch, device.motorId)] [⟨ch, device, mappedJointName ch device.motorId⟩] s where
  order := List.Sublist.refl _
  sound := fun f hf => by
    obtain rfl := List.mem_singleton.mp hf
    exact ⟨h, rfl⟩
  complete := fun k hk _ => .inl hk

theorem reportIds_sat (bus : CanBus) (hreal : bus.config.dryRun = false)
    (htimeout : replyNs ≤ bus.config.timeoutMs * nsPerMs) (hretries : 0 < bus.config.retries)
    (n : ℕ) (ids : List UInt8) (h : s.Unasked) :
    Sat (site.world bus.config.hostId replyNs) (fun _ => True) (bus.reportIds n ids)
      (fun found s' =>
        Later s s' ∧ Reports site (ids.map (Prod.mk bus.channelIdx)) found s') s := by
  induction ids generalizing s with
  | nil => exact ⟨.refl h, ⟨List.nil_sublist _, by simp, by simp⟩⟩
  | cons motorId rest ih =>
      unfold CanBus.reportIds
      refine (getDevice_found hreal htimeout hretries n motorId h).bind fun r s₁ h₁ => ?_
      obtain ⟨hlater, hr⟩ := h₁
      have hrest := ih hlater.unasked
      cases r with
      | none =>
          refine hrest.mono fun found s' h' => ⟨hlater.trans h'.1, ?_⟩
          exact (reports_missing fun hheld => .inl (h'.1.lost _ _ (hr hheld))).append h'.2
      | some device =>
          obtain ⟨rfl, hhas⟩ := hr
          refine hrest.bind fun found s' h' => ⟨hlater.trans h'.1, ?_⟩
          exact (reports_found hhas).append h'.2

theorem init_unasked (hreal : config.dryRun = false) (ch : Fin numChannels) (h : s.Unasked) :
    Sat (site.world config.hostId replyNs) (fun _ => True) (CanBus.init config ch)
      (fun r s' => Later s s' ∧ match r with
        | some bus => bus = ⟨config, ch⟩
        | none => ch ∈ s'.unopened) s := by
  unfold CanBus.init
  rw [hreal]
  rintro status s' ⟨hbus, hunopened⟩
  replace hunopened : s'.unopened =
    if status = pcanErrorOk then s.unopened else ch :: s.unopened := hunopened
  have hidle : ∀ ch', Idle (site.ids ch') (s.bus ch').log (s'.bus ch') := fun ch' =>
    Idle.quiet (by simp) ⟨(h ch').1, rfl, (h ch').2⟩ ((hbus ch').2 fun hc => hc)
  have hlater : s.unopened ⊆ s'.unopened → Later s s' := fun hsub =>
    ⟨fun ch' => ⟨(hidle ch').1, (hidle ch').2.2⟩,
      fun ch' id hlost => by rwa [(hidle ch').2.1], hsub⟩
  refine ⟨trivial, ?_⟩
  by_cases hok : status = pcanErrorOk
  · rw [if_pos hok] at hunopened
    subst hok
    exact ⟨hlater (hunopened ▸ List.Subset.refl _), rfl⟩
  · rw [if_neg hok] at hunopened
    show Later s s' ∧ _
    rw [if_neg (by simpa using hok)]
    refine ⟨hlater ?_, ?_⟩
    · rw [hunopened]
      exact List.subset_cons_self _ _
    · show ch ∈ s'.unopened
      rw [hunopened]
      exact List.mem_cons_self

theorem reportChannels_sat (hreal : config.dryRun = false)
    (htimeout : replyNs ≤ config.timeoutMs * nsPerMs) (hretries : 0 < config.retries)
    (n minimum maximum : ℕ) (channels : List (Fin numChannels)) (h : s.Unasked) :
    Sat (site.world config.hostId replyNs) (fun _ => True)
      (reportChannels config n minimum maximum channels)
      (fun found s' => Later s s' ∧
        Reports site (channels.product (idsBetween minimum maximum)) found s') s := by
  induction channels generalizing s with
  | nil => exact ⟨.refl h, ⟨List.nil_sublist _, by simp, by simp [List.product]⟩⟩
  | cons ch rest ih =>
      unfold reportChannels
      refine (init_unasked hreal ch h).bind fun r s₁ h₁ => ?_
      obtain ⟨hlater, hr⟩ := h₁
      rw [show (ch :: rest).product (idsBetween minimum maximum) =
        (idsBetween minimum maximum).map (Prod.mk ch) ++
          rest.product (idsBetween minimum maximum) from rfl]
      cases r with
      | none =>
          refine (ih hlater.unasked).mono fun found s' h' => ⟨hlater.trans h'.1, ?_⟩
          have hclosed : Reports site ((idsBetween minimum maximum).map (Prod.mk ch)) [] s' := by
            refine ⟨List.nil_sublist _, by simp, fun k hk _ => .inr (.inr ?_)⟩
            obtain ⟨motorId, -, rfl⟩ := List.mem_map.mp hk
            exact h'.1.unopened hr
          exact hclosed.append h'.2
      | some bus =>
          obtain rfl := hr
          simp only [hreal, Bool.false_eq_true, if_false]
          refine (reportIds_sat ⟨config, ch⟩ hreal htimeout hretries n
            (idsBetween minimum maximum) hlater.unasked).bind fun found s₂ h₂ => ?_
          refine (ih h₂.1.unasked).bind fun others s₃ h₃ => ?_
          exact ⟨(hlater.trans h₂.1).trans h₃.1, (h₂.2.later h₃.1).append h₃.2⟩

theorem mem_idsBetween {minimum maximum : ℕ} (hmax : maximum ≤ 255) {motorId : UInt8} :
    motorId ∈ idsBetween minimum maximum ↔
      minimum ≤ motorId.toNat ∧ motorId.toNat ≤ maximum := by
  simp only [idsBetween, List.mem_map, List.mem_range'_1]
  constructor
  · rintro ⟨k, hk, rfl⟩
    rw [UInt8.toNat_ofNat_of_lt' (by show k < 256; omega)]
    omega
  · exact fun h => ⟨motorId.toNat, by omega, UInt8.ofNat_toNat⟩

theorem idsBetween_nodup {minimum maximum : ℕ} (hmax : maximum ≤ 255) :
    (idsBetween minimum maximum).Nodup := by
  refine List.Nodup.map_on (fun a ha b hb heq => ?_) List.nodup_range'
  rw [List.mem_range'_1] at ha hb
  have hval := congrArg UInt8.toNat heq
  rwa [UInt8.toNat_ofNat_of_lt' (by show a < 256; omega),
    UInt8.toNat_ofNat_of_lt' (by show b < 256; omega)] at hval

/-- The channels and IDs that a scan asks for. -/
def Covered (channelIdx : Option (Fin numChannels)) (minimum maximum : ℕ)
    (k : Fin numChannels × UInt8) : Prop :=
  (∀ c, channelIdx = some c → k.1 = c) ∧ minimum ≤ k.2.toNat ∧ k.2.toNat ≤ maximum

theorem mem_product_iff {channelIdx : Option (Fin numChannels)} {minimum maximum : ℕ}
    (hmax : maximum ≤ 255) {k : Fin numChannels × UInt8} :
    k ∈ (channelIdx.elim (List.finRange numChannels) fun c => [c]).product
      (idsBetween minimum maximum) ↔ Covered channelIdx minimum maximum k := by
  obtain ⟨ch, motorId⟩ := k
  rw [List.pair_mem_product, mem_idsBetween hmax, Covered]
  refine and_congr_left fun _ => ?_
  cases channelIdx with
  | none => simp
  | some c => simp

/-- **The scan counts the motors that are there.**  If what looks like an answer is one and no
answer is overdue, each line of the report is a motor that is there, in the range, with its true
UID and its joint; no place is reported twice; a motor in the range is missing only if a query to it
was lost or its channel could not be initialized; and the exit code is 0 if there is a line, else
1. -/
theorem scan_census (hreal : config.dryRun = false)
    (htimeout : replyNs ≤ config.timeoutMs * nsPerMs) (hretries : 0 < config.retries)
    {channelIdx : Option (Fin numChannels)} {n minimum maximum : ℕ} (hrange : minimum ≤ maximum)
    (hmax : maximum ≤ 127) {code : ℤ} {found : List Found} (hs : s.Unasked)
    {s' : site.Census} (h : Runs (site.world config.hostId replyNs)
      (reportScan config channelIdx n minimum maximum) s s' (some (code, found))) :
    (found.map Found.key).Nodup ∧
    (∀ f ∈ found, site.Has f.channelIdx f.device ∧ Covered channelIdx minimum maximum f.key ∧
      f.name = mappedJointName f.channelIdx f.device.motorId) ∧
    (∀ m, Covered channelIdx minimum maximum (site.place m) →
      site.place m ∈ found.map Found.key ∨
        LostSince (site.place m).2 (s'.bus (site.place m).1).log ∨
        (site.place m).1 ∈ s'.unopened) ∧
    code = if found = [] then 1 else 0 := by
  have hbound : maximum ≤ 255 := by omega
  have hsat : Sat (site.world config.hostId replyNs) (fun _ => True)
      (reportScan config channelIdx n minimum maximum) (fun r s' => Reports site
        ((channelIdx.elim (List.finRange numChannels) fun c => [c]).product
          (idsBetween minimum maximum)) r.2 s' ∧ r.1 = if r.2 = [] then 1 else 0) s := by
    unfold reportScan
    rw [if_neg (not_lt.mpr hrange)]
    refine (reportChannels_sat hreal htimeout hretries n minimum maximum _ hs).bind
      fun found s₁ h₁ => ?_
    simp only [hreal, Bool.false_eq_true, if_false]
    exact ⟨h₁.2, rfl⟩
  obtain ⟨⟨horder, hsound, hcomplete⟩, hcode⟩ := h.post hsat
  have hchannels : (channelIdx.elim (List.finRange numChannels) fun c => [c]).Nodup := by
    cases channelIdx with
    | none => exact List.nodup_finRange _
    | some c => exact List.nodup_singleton c
  refine ⟨horder.nodup (hchannels.product (idsBetween_nodup hbound)), fun f hf => ?_,
    fun m hm => hcomplete _ ((mem_product_iff hbound).mpr hm) ⟨m, rfl⟩, hcode⟩
  obtain ⟨hhas, hname⟩ := hsound f hf
  refine ⟨hhas, (mem_product_iff hbound).mp (horder.subset ?_), hname⟩
  exact List.mem_map_of_mem hf

end report

/-! ### A scan that finds a motor -/

def benchSite : Site Unit := ⟨fun _ => (1, 3), fun _ => zeroData⟩

/-- Channel 1 is `b`, and the others are idle at the same time. -/
def benchCensus (b : ProbeBus (benchSite.On 1)) : benchSite.Census where
  bus := Function.update (fun ch => { cur := benchSite.ids ch, time := b.time }) 1 b

theorem benchCensus_step {c : SysCall} {r : c.Resp} {b b' : ProbeBus (benchSite.On 1)}
    (hc : Concerns 1 c) (hw : probeBus 1 b c r b')
    (htrue : ∀ frame, (⟨c, r⟩ : Event Sys) = ⟨.canRead 1, (pcanErrorOk, frame)⟩ →
      benchSite.Truthful hostIdDefault 1 frame) :
    benchSite.world hostIdDefault 1 (benchCensus b) c r (benchCensus b') := by
  refine ⟨fun ch => ?_, ?_⟩
  · by_cases heq : ch = 1
    · subst heq
      simp only [benchCensus, Function.update_self]
      exact ⟨fun _ => hw, fun hnot => absurd hc hnot⟩
    · simp only [benchCensus, Function.update_of_ne heq]
      refine ⟨fun hother => ?_, fun _ => ⟨hw.1, by simp, rfl, rfl, rfl⟩⟩
      obtain ⟨hle, -, heff⟩ := hw
      cases c with
      | canWrite ch' msg => exact absurd (hother.symm.trans hc) heq
      | canRead ch' => exact absurd (hother.symm.trans hc) heq
      | steadyNow => exact ⟨hle, by simp, heff.1, rfl, rfl, rfl⟩
      | _ => exact ⟨hle, by simp, rfl, rfl, rfl⟩
  · cases c with
    | canInitialize ch => exact hc.elim
    | canRead ch =>
        obtain rfl : ch = 1 := hc
        obtain ⟨status, frame⟩ := r
        exact ⟨rfl, fun hok => htrue frame (by rw [hok])⟩
    | _ => rfl

theorem benchSite_answers {b : ProbeBus (benchSite.On 1)} (hcur : b.cur = benchSite.ids 1)
    (hb : b.awaited = none) : Runs (benchSite.world hostIdDefault 1) (benchBus.getDevice 1 3)
      (benchCensus b) (benchCensus b) (some (some ⟨3, zeroData⟩)) := by
  have hclock : ∀ {b : ProbeBus (benchSite.On 1)},
      (∀ a, b.awaited = some a → b.time < a.deadline) →
      benchSite.world hostIdDefault 1 (benchCensus b) .steadyNow b.time (benchCensus b) := fun hb =>
    benchCensus_step (c := .steadyNow) trivial (probeBus_clock hb) fun _ h => by cases h
  have hheld : Held b.cur 3 := hcur ▸ benchSite.held_iff.mpr ⟨(), rfl⟩
  have hdrain : Runs (benchSite.world hostIdDefault 1) (benchBus.drain 1) (benchCensus b)
      (benchCensus b) (some ()) :=
    CanBus.drain_empty rfl (hclock (not_overdue hb))
      (benchCensus_step (c := .canRead 1) rfl (probeBus_empty hb 1) fun frame h => by cases h)
  have hwrite := benchCensus_step (c := .canWrite 1 (benchBus.getIdFrame 3)) rfl
    (probeBus_asked (by decide) hheld 1) fun _ h => by cases h
  have htrue : benchSite.Truthful hostIdDefault 1 (idReply 3 zeroData) := by
    refine fun _ _ _ => ⟨(), ?_, ?_⟩
    · exact congrArg (Prod.mk 1) (idReply_source 3 zeroData).symm
    · rw [fill_idReply]
      rfl
  have hreply := benchCensus_step (c := .canRead 1) rfl
    (probeBus_reply benchBus hb 3 zeroData 1) fun frame h => by
      cases h
      exact htrue
  exact CanBus.getDevice_answer rfl rfl (by decide) hdrain hwrite
    (hclock (asked_intime (by decide))) hreply

theorem scan_census_bench : ∃ s s' found, s.Unasked ∧
    Runs (benchSite.world hostIdDefault 1) (reportScan benchBus.config (some 1) 1 3 3) s s'
      (some (0, found)) ∧
    found = [⟨1, ⟨3, zeroData⟩, some "R_hip_yaw"⟩] ∧ (found.map Found.key).Nodup := by
  set b : ProbeBus (benchSite.On 1) := { cur := benchSite.ids 1 }
  have hunasked : (benchCensus b).Unasked := by
    intro ch
    by_cases heq : ch = 1
    · subst heq
      simp [benchCensus, b]
    · simp [benchCensus, Function.update_of_ne heq]
  have hopen : benchSite.world hostIdDefault 1 (benchCensus b) (.canInitialize 1) pcanErrorOk
      (benchCensus b) :=
    ⟨fun ch => ⟨fun hc => hc.elim, fun _ =>
      ⟨le_rfl, not_overdue (hunasked ch).2, rfl, rfl, rfl⟩⟩, rfl⟩
  have hids : Runs (benchSite.world hostIdDefault 1) (benchBus.reportIds 1 [3]) (benchCensus b)
      (benchCensus b) (some [⟨1, ⟨3, zeroData⟩, mappedJointName 1 3⟩]) :=
    (benchSite_answers rfl rfl).bind (.ret _ _)
  have hchannels : Runs (benchSite.world hostIdDefault 1)
      (reportChannels benchBus.config 1 3 3 [1]) (benchCensus b) (benchCensus b)
      (some [⟨1, ⟨3, zeroData⟩, mappedJointName 1 3⟩]) :=
    .call hopen (hids.bind (.ret _ _))
  have hrun : Runs (benchSite.world hostIdDefault 1) (reportScan benchBus.config (some 1) 1 3 3)
      (benchCensus b) (benchCensus b) (some (0, [⟨1, ⟨3, zeroData⟩, mappedJointName 1 3⟩])) :=
    hchannels.bind (.ret _ _)
  have hname : mappedJointName 1 3 = some "R_hip_yaw" := by rfl
  have htimeout : 1 ≤ benchBus.config.timeoutMs * nsPerMs := by decide
  have hretries : 0 < benchBus.config.retries := by decide
  have hmax : 3 ≤ 127 := by decide
  exact ⟨_, _, _, hunasked, hrun, by rw [hname],
    (scan_census rfl htimeout hretries le_rfl hmax hunasked hrun).1⟩

end MotorConfig

end Qub
