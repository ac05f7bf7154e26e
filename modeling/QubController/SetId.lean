import Mathlib.Data.Set.Insert
import QubController.MotorConfig

/-! # Changing an ID over an unreliable bus

Motors with UIDs share the channel of `set-id`.  A motor may send its current ID and its UID
at any time, and what was once sent may be read never, later, or again; a written
`SET_CAN_ID` may reach the motors with its target ID at any time, or never, or again
(`IdBus.Step`).  Every other frame may be read at any time.

The invariant `Sound` is about the pairs of ID and sender that are under way.  No motor takes
the old ID, and none leaves the new one, so a reply with the new ID names its sender's ID even
when it is late.  `Relabels a b f g`, for any labels, says what a change of IDs can do: every
object keeps its label from `f` to `g`, or has the label `a` in `f` and `b` in `g`. -/

namespace Interaction

variable {M L : Type} {a b : L} {f g : M → L}

/-- Each object keeps its label or goes from `a` to `b`. -/
def Relabels (a b : L) (f g : M → L) : Prop := ∀ m, g m = f m ∨ f m = a ∧ g m = b

theorem Relabels.refl (a b : L) (f : M → L) : Relabels a b f f := fun _ => .inl rfl

/-- An object with the label `a` had it before. -/
theorem Relabels.source (h : Relabels a b f g) {m : M} (hm : g m = a) : f m = a := by
  rcases h m with heq | ⟨hf, -⟩
  · rw [← heq, hm]
  · exact hf

/-- An object with the label `a` now may go to `b` next. -/
theorem Relabels.update [DecidableEq M] (h : Relabels a b f g) {m : M} (hm : g m = a) :
    Relabels a b f (Function.update g m b) := by
  intro x
  by_cases hx : x = m
  · subst hx
    rw [Function.update_self]
    exact .inr ⟨h.source hm, rfl⟩
  · rw [Function.update_of_ne hx]
    exact h x

/-- An object with the label `b` at some time keeps it. -/
theorem Relabels.target (h : Relabels a b f g) {m : M} (hm : f m = b) : g m = b := by
  rcases h m with heq | ⟨-, hg⟩
  · rw [heq, hm]
  · exact hg

/-- Distinct labels stay distinct when the new label is not in use. -/
theorem Relabels.injective (h : Relabels a b f g) (hf : Function.Injective f)
    (hb : ∀ m, f m ≠ b) : Function.Injective g := by
  intro x y hxy
  rcases h x with hx | ⟨hx, hx'⟩ <;> rcases h y with hy | ⟨hy, hy'⟩
  · exact hf (hx ▸ hy ▸ hxy)
  · exact absurd (hx ▸ hxy.trans hy') (hb x)
  · exact absurd (hy ▸ hxy.symm.trans hx') (hb y)
  · exact hf (hx.trans hy.symm)

end Interaction

namespace Qub

open Interaction

namespace MotorConfig

/-! ### Frames -/

/-- A frame of type `SET_CAN_ID`. -/
def IsSetId (msg : TPCANMsg) : Prop := msg.commType = CommType.setCanId.code

/-- A frame of type `STOP`. -/
def IsStop (msg : TPCANMsg) : Prop := msg.commType = CommType.stop.code

/-- The new ID in a `SET_CAN_ID`. -/
def newIdOf (msg : TPCANMsg) : UInt8 := (msg.dataField >>> 8).toUInt8

section frames
variable (bus : CanBus) (motorId oldId newId : UInt8)

theorem isSetId_setIdFrame : IsSetId (bus.setIdFrame oldId newId) := by
  rw [IsSetId, CanBus.setIdFrame, CanBus.setIdExtId, commType_buildExtId, CommType.code_and]

@[simp] theorem destinationId_setIdFrame :
    (bus.setIdFrame oldId newId).destinationId = oldId := destinationId_buildExtId _ _ _ _

@[simp] theorem newIdOf_setIdFrame : newIdOf (bus.setIdFrame oldId newId) = newId := by
  rw [newIdOf, CanBus.setIdFrame, CanBus.setIdExtId, dataField_buildExtId]
  apply UInt8.toBitVec_inj.mp
  ext i hi
  simp
  interval_cases i <;> simp

theorem not_isSetId_hostExtId {t : CommType} (ht : t ≠ .setCanId) (data : Fin 8 → UInt8) :
    ¬ IsSetId (extendedFrame (bus.hostExtId t motorId) data) := by
  rw [IsSetId, commType_hostExtId]
  exact fun h => ht (CommType.code_inj.mp h)

theorem not_isStop_hostExtId {t : CommType} (ht : t ≠ .stop) (data : Fin 8 → UInt8) :
    ¬ IsStop (extendedFrame (bus.hostExtId t motorId) data) := by
  rw [IsStop, commType_hostExtId]
  exact fun h => ht (CommType.code_inj.mp h)

theorem destinationId_getIdFrame : (bus.getIdFrame motorId).destinationId = motorId :=
  destinationId_hostExtId _ _ _ _

theorem commType_getIdFrame : (bus.getIdFrame motorId).commType = CommType.getId.code :=
  commType_hostExtId _ _ _ _

theorem dataField_getIdFrame : (bus.getIdFrame motorId).dataField.toUInt8 = bus.config.hostId := by
  rw [CanBus.getIdFrame, CanBus.hostExtId, dataField_buildExtId]
  exact UInt8.toUInt8_toUInt16 _

theorem not_isSetId_getIdFrame : ¬ IsSetId (bus.getIdFrame motorId) :=
  not_isSetId_hostExtId bus motorId (by decide) _

end frames

theorem confirmDestructive_only (bus : CanBus) :
    bus.confirmDestructive.Only fun c => ∀ ch msg, c ≠ SysCall.canWrite ch msg :=
  CanBus.confirmDestructive_only (by simp) (by simp)

/-! ### The bus -/

/-- The motors' IDs, the replies that may arrive (ID and sender), and the frames that the
program has written, the last one first, with their success. -/
structure IdBus (M : Type) where
  cur : M → UInt8
  replies : Set (UInt8 × M)
  log : List (TPCANMsg × Bool) := []

variable {M : Type}

/-- What the motors do: `m` sends a reply, or takes the ID of a written `SET_CAN_ID`. -/
inductive IdBus.Step [DecidableEq M] : IdBus M → IdBus M → Prop
  | reply (s : IdBus M) (m : M) : Step s { s with replies := insert (s.cur m, m) s.replies }
  | adopt (s : IdBus M) (m : M) (msg : TPCANMsg) (ok : Bool) : (msg, ok) ∈ s.log →
      IsSetId msg → msg.destinationId = s.cur m →
      Step s { s with cur := Function.update s.cur m (newIdOf msg) }

/-- The frame is a reply to `GET_ID` that is under way. -/
def IsReplyOf (bus : CanBus) (uid : M → Fin 8 → UInt8) (replies : Set (UInt8 × M))
    (msg : TPCANMsg) : Prop :=
  bus.isIdReply msg.sourceMotorId msg = true →
    ∃ m, (msg.sourceMotorId, m) ∈ replies ∧ msg.data = uid m

/-- The world of `set-id`: between any two calls the motors take any number of steps. -/
def idBus [DecidableEq M] (bus : CanBus) (uid : M → Fin 8 → UInt8) :
    World Sys (IdBus M) := fun s c r s' =>
  ∃ s₁, Relation.ReflTransGen IdBus.Step s s₁ ∧
    match c, r with
    | .canWrite _ msg, r => s' = { s₁ with log := (msg, r == pcanErrorOk) :: s₁.log }
    | .canRead _, (status, frame) => s' = s₁ ∧ (status = pcanErrorOk → frame.extended = true →
        IsReplyOf bus uid s₁.replies (({} : TPCANMsg).fill frame))
    | _, _ => s' = s₁

/-! ### The invariant -/

section invariant
variable {oldId newId : UInt8} {s₀ s s' : IdBus M}

/-- What holds of the bus after any steps of the motors, when no `SET_CAN_ID` but the one from
`oldId` to `newId` was written: a reply under way names the ID that its sender had at the
start, or the one that it has now. -/
structure Sound (oldId newId : UInt8) (s₀ s : IdBus M) : Prop where
  ids : Relabels oldId newId s₀.cur s.cur
  replies : ∀ p ∈ s.replies, p.1 = s₀.cur p.2 ∨ p.1 = s.cur p.2
  requests : ∀ e ∈ s.log, IsSetId e.1 → e.1.destinationId = oldId ∧ newIdOf e.1 = newId

theorem sound_start (hreplies : ∀ p ∈ s.replies, p.1 = s.cur p.2) (hlog : s.log = []) :
    Sound oldId newId s s :=
  ⟨Relabels.refl _ _ _, fun p hp => .inl (hreplies p hp), by rw [hlog]; simp⟩

/-- A late reply with the old ID comes from a motor that had it at the start. -/
theorem Sound.reply_old (h : Sound oldId newId s₀ s) {m : M} (hm : (oldId, m) ∈ s.replies) :
    s₀.cur m = oldId := by
  rcases h.replies _ hm with heq | heq
  · exact heq.symm
  · exact h.ids.source heq.symm

/-- A late reply with the new ID comes from a motor that has it. -/
theorem Sound.reply_new (h : Sound oldId newId s₀ s) {m : M} (hm : (newId, m) ∈ s.replies) :
    s.cur m = newId := by
  rcases h.replies _ hm with heq | heq
  · exact h.ids.target heq.symm
  · exact heq.symm

theorem Sound.wrote (h : Sound oldId newId s₀ s) {e : TPCANMsg × Bool}
    (he : IsSetId e.1 → e.1.destinationId = oldId ∧ newIdOf e.1 = newId) :
    Sound oldId newId s₀ { s with log := e :: s.log } := by
  refine ⟨h.ids, h.replies, fun x hx hset => ?_⟩
  rcases List.mem_cons.mp hx with rfl | hx
  · exact he hset
  · exact h.requests x hx hset

variable [DecidableEq M]

theorem Sound.step (h : Sound oldId newId s₀ s) (hs : IdBus.Step s s') :
    Sound oldId newId s₀ s' ∧ s'.log = s.log := by
  cases hs with
  | reply m =>
      refine ⟨⟨h.ids, fun p hp => ?_, h.requests⟩, rfl⟩
      rcases hp with rfl | hp
      · exact .inr rfl
      · exact h.replies p hp
  | adopt m msg ok hmem hset hdest =>
      obtain ⟨hold, hnew⟩ := h.requests _ hmem hset
      have hm : s.cur m = oldId := hdest.symm.trans hold
      have hcur : Function.update s.cur m (newIdOf msg) = Function.update s.cur m newId := by
        rw [← hnew]
      refine ⟨⟨hcur ▸ h.ids.update hm, fun p hp => ?_, h.requests⟩, rfl⟩
      rcases h.replies p hp with heq | heq
      · exact .inl heq
      · by_cases hpm : p.2 = m
        · left
          rw [heq, hpm, hm, h.ids.source hm]
        · right
          show p.1 = Function.update s.cur m (newIdOf msg) p.2
          rw [Function.update_of_ne hpm, heq]

theorem Sound.steps (h : Sound oldId newId s₀ s) (hs : Relation.ReflTransGen IdBus.Step s s') :
    Sound oldId newId s₀ s' ∧ s'.log = s.log := by
  induction hs with
  | refl => exact ⟨h, rfl⟩
  | tail _ hstep ih =>
      obtain ⟨hsound, hlog⟩ := ih.1.step hstep
      exact ⟨hsound, hlog.trans ih.2⟩

end invariant

/-! ### The parts of the command -/

/-- The invariant, with `P` of the frames written so far. -/
def During (oldId newId : UInt8) (s₀ : IdBus M) (P : List (TPCANMsg × Bool) → Prop)
    (s : IdBus M) : Prop :=
  Sound oldId newId s₀ s ∧ P s.log

section parts
variable [DecidableEq M] {bus : CanBus} {uid : M → Fin 8 → UInt8} {oldId newId : UInt8}
  {s₀ s s' : IdBus M} {P Q : List (TPCANMsg × Bool) → Prop}

/-- Calls that write no frame keep the invariant. -/
theorem During.quiet {c : SysCall} {r : c.Resp} (hc : ∀ ch msg, c ≠ .canWrite ch msg)
    (h : During oldId newId s₀ P s) (hw : idBus bus uid s c r s') :
    During oldId newId s₀ P s' := by
  obtain ⟨s₁, hsteps, heff⟩ := hw
  obtain ⟨hsound, hlog⟩ := h.1.steps hsteps
  have hs' : s' = s₁ := by
    cases c with
    | canWrite ch msg => exact absurd rfl (hc ch msg)
    | canRead ch => exact heff.1
    | _ => exact heff
  rw [hs']
  exact ⟨hsound, hlog ▸ h.2⟩

theorem receives_during :
    Receives (idBus bus uid) (fun _ => True) bus.channelIdx (During oldId newId s₀ P)
      (fun msg s => During oldId newId s₀ P s ∧ IsReplyOf bus uid s.replies msg) where
  clock := fun s now s' h hw => ⟨trivial, h.quiet (by simp) hw⟩
  sleep := fun s s' h hw => ⟨trivial, h.quiet (by simp) hw⟩
  other := fun s status frame s' h hw _ => ⟨trivial, h.quiet (by simp) hw⟩
  frame := by
    intro s frame s' h hw hext
    refine ⟨trivial, h.quiet (by simp) hw, ?_⟩
    obtain ⟨s₁, -, rfl, hreply⟩ := hw
    exact hreply rfl hext

theorem drain_during (n : ℕ) (h : During oldId newId s₀ P s) :
    Sat (idBus bus uid) (fun _ => True) (bus.drain n) (fun _ => During oldId newId s₀ P) s :=
  CanBus.drain_sat
    { receives_during with
      frame := fun s frame s' h hw hext =>
        ⟨trivial, (receives_during.frame s frame s' h hw hext).2.1⟩ }
    n h

/-- Writing a frame: `Q ok` is what holds of the frames afterwards. -/
theorem send_during (hreal : bus.config.dryRun = false) {rawId : UInt32}
    {data : Fin 8 → UInt8} {Q : Bool → List (TPCANMsg × Bool) → Prop}
    (hset : IsSetId (extendedFrame rawId data) →
      (extendedFrame rawId data).destinationId = oldId ∧
        newIdOf (extendedFrame rawId data) = newId)
    (hQ : ∀ ok log, P log → Q ok ((extendedFrame rawId data, ok) :: log))
    (h : During oldId newId s₀ P s) :
    Sat (idBus bus uid) (fun _ => True) (bus.send rawId data)
      (fun ok => During oldId newId s₀ (Q ok)) s := by
  rw [CanBus.send, hreal]
  rintro status s' ⟨s₁, hsteps, rfl⟩
  obtain ⟨hsound, hlog⟩ := h.1.steps hsteps
  exact ⟨trivial, hsound.wrote hset, hQ _ _ (hlog ▸ h.2)⟩

theorem sourceMotorId_of_isIdReply {motorId : UInt8} {msg : TPCANMsg}
    (h : bus.isIdReply motorId msg = true) : msg.sourceMotorId = motorId := by
  unfold CanBus.isIdReply at h
  rw [Bool.and_eq_true, Bool.and_eq_true, beq_iff_eq, beq_iff_eq] at h
  exact h.1.2

/-- `get_device` returns the UID of a motor whose reply with this ID was under way. -/
theorem getDevice_during (hreal : bus.config.dryRun = false) (n : ℕ) (motorId : UInt8)
    (hP : ∀ ok log, P log → P ((bus.getIdFrame motorId, ok) :: log))
    (h : During oldId newId s₀ P s) :
    Sat (idBus bus uid) (fun _ => True) (bus.getDevice n motorId)
      (fun r s' => During oldId newId s₀ P s' ∧
        ∀ d, r = some d → ∃ m, (motorId, m) ∈ s'.replies ∧ d.uid = uid m) s := by
  suffices hloop : ∀ (attempts : ℕ) (s : IdBus M), During oldId newId s₀ P s →
      Sat (idBus bus uid) (fun _ => True) (bus.getDeviceLoop n motorId attempts)
        (fun r s' => During oldId newId s₀ P s' ∧
          ∀ d, r = some d → ∃ m, (motorId, m) ∈ s'.replies ∧ d.uid = uid m) s from
    hloop _ s h
  intro attempts
  induction attempts with
  | zero => exact fun s h => ⟨h, fun d hd => by cases hd⟩
  | succ attempts ih =>
      intro s h
      unfold CanBus.getDeviceLoop
      refine (drain_during n h).bind fun _ s₁ h₁ => ?_
      have hget := not_isSetId_getIdFrame bus motorId
      refine (send_during hreal (fun hset => absurd hset hget) hP h₁).bind fun sent s₂ h₂ => ?_
      cases sent with
      | false => exact ⟨h₂, fun d hd => by cases hd⟩
      | true =>
          simp only [Bool.not_true, Bool.false_eq_true, if_false, hreal]
          refine (CanBus.waitFor_sat receives_during n _ (fun _ _ _ hK => hK.1) h₂).bind
            fun r s₃ hr => ?_
          cases r with
          | none => exact ih s₃ hr
          | some reply =>
              obtain ⟨hpred, h₃, hreply⟩ := hr
              have hsource := sourceMotorId_of_isIdReply hpred
              refine ⟨h₃, fun d hd => ?_⟩
              cases hd
              unfold IsReplyOf at hreply
              rw [hsource] at hreply
              exact hreply hpred

/-! ### The command -/

/-- No `STOP` and no `SET_CAN_ID` among the frames. -/
def NoChange (log : List (TPCANMsg × Bool)) : Prop := ∀ e ∈ log, ¬ IsStop e.1 ∧ ¬ IsSetId e.1

/-- The `STOP` to `oldId` was written, and no `SET_CAN_ID`. -/
def Stopped (bus : CanBus) (oldId : UInt8) (log : List (TPCANMsg × Bool)) : Prop :=
  (bus.stopFrame oldId, true) ∈ log ∧ ∀ e ∈ log, ¬ IsSetId e.1

/-- Exactly one `SET_CAN_ID` was written, after the `STOP` to `oldId`. -/
def Changed (bus : CanBus) (oldId newId : UInt8) (log : List (TPCANMsg × Bool)) : Prop :=
  ∃ later earlier, log = later ++ (bus.setIdFrame oldId newId, true) :: earlier ∧
    (∀ e ∈ later, ¬ IsSetId e.1) ∧ Stopped bus oldId earlier

theorem NoChange.cons {log : List (TPCANMsg × Bool)} {e : TPCANMsg × Bool} (h : NoChange log)
    (hstop : ¬ IsStop e.1) (hset : ¬ IsSetId e.1) : NoChange (e :: log) :=
  List.forall_mem_cons.mpr ⟨⟨hstop, hset⟩, h⟩

theorem NoChange.stop {log : List (TPCANMsg × Bool)} (h : NoChange log) :
    Stopped bus oldId ((bus.stopFrame oldId, true) :: log) := by
  refine ⟨List.mem_cons_self, List.forall_mem_cons.mpr ⟨?_, fun e he => (h e he).2⟩⟩
  exact not_isSetId_hostExtId bus oldId (by decide) _

theorem Stopped.setId {log : List (TPCANMsg × Bool)} (h : Stopped bus oldId log) :
    Changed bus oldId newId ((bus.setIdFrame oldId newId, true) :: log) :=
  ⟨[], log, rfl, by simp, h⟩

theorem Changed.cons {log : List (TPCANMsg × Bool)} {e : TPCANMsg × Bool}
    (h : Changed bus oldId newId log) (hset : ¬ IsSetId e.1) :
    Changed bus oldId newId (e :: log) := by
  obtain ⟨later, earlier, hlog, hlater, hstop⟩ := h
  refine ⟨e :: later, earlier, ?_, List.forall_mem_cons.mpr ⟨hset, hlater⟩, hstop⟩
  rw [hlog]
  rfl

/-- The exits before the confirmation, and the refusal. -/
def SetIdExit.unconfirmed : SetIdExit → Bool
  | identicalIds | oldSilent | newInUse | cancelled => true
  | _ => false

/-- What `command_set_id` guarantees where it ends. -/
def SetIdPost (bus : CanBus) (uid : M → Fin 8 → UInt8) (oldId newId : UInt8) (s₀ : IdBus M)
    (x : SetIdExit) (s : IdBus M) : Prop :=
  (x.exitCode = 0 → ∃ target m, x = .changed target ∧ target.uid = uid m ∧
    s₀.cur m = oldId ∧ s.cur m = newId ∧ Changed bus oldId newId s.log) ∧
  (x.unconfirmed = true → NoChange s.log)

theorem confirmDestructive_during (h : During oldId newId s₀ P s) :
    Sat (idBus bus uid) (fun _ => True) bus.confirmDestructive
      (fun _ => During oldId newId s₀ P) s :=
  (confirmDestructive_only bus).sat (fun _ _ _ _ hc h hw => ⟨trivial, h.quiet hc hw⟩) h

theorem sendStop_during (hreal : bus.config.dryRun = false) (n : ℕ)
    (h : During oldId newId s₀ NoChange s) :
    Sat (idBus bus uid) (fun _ => True) (bus.sendStop n oldId)
      (fun ok => During oldId newId s₀ fun log => ok = true → Stopped bus oldId log) s := by
  unfold CanBus.sendStop
  refine (drain_during n h).bind fun _ s₁ h₁ => ?_
  have hset : ¬ IsSetId (bus.stopFrame oldId) := not_isSetId_hostExtId bus oldId (by decide) _
  apply send_during hreal (fun hs => absurd hs hset) ?_ h₁
  rintro ok log hlog rfl
  exact hlog.stop

theorem sendSetId_during (hreal : bus.config.dryRun = false) (n : ℕ)
    (h : During oldId newId s₀ (Stopped bus oldId) s) :
    Sat (idBus bus uid) (fun _ => True) (bus.sendSetId n oldId newId)
      (fun ok => During oldId newId s₀ fun log => ok = true → Changed bus oldId newId log) s := by
  unfold CanBus.sendSetId
  refine (drain_during n h).bind fun _ s₁ h₁ => ?_
  have hids : (bus.setIdFrame oldId newId).destinationId = oldId ∧
      newIdOf (bus.setIdFrame oldId newId) = newId :=
    ⟨destinationId_setIdFrame bus oldId newId, newIdOf_setIdFrame bus oldId newId⟩
  apply send_during hreal (fun _ => hids) ?_ h₁
  rintro ok log hlog rfl
  exact hlog.setId

/-- From the confirmation on, when the target answered with the old ID. -/
theorem changeId_sat (hreal : bus.config.dryRun = false) (n : ℕ) {target : DeviceInfo} {m : M}
    (huid : Function.Injective uid) (htarget : target.uid = uid m) (hold : s₀.cur m = oldId)
    (h : During oldId newId s₀ NoChange s) :
    Sat (idBus bus uid) (fun _ => True) (bus.changeId n oldId newId (some target))
      (SetIdPost bus uid oldId newId s₀) s := by
  unfold CanBus.changeId
  refine (confirmDestructive_during h).bind fun confirmed s₁ h₁ => ?_
  cases confirmed with
  | false => exact ⟨fun hx => absurd hx (by decide), fun _ => h₁.2⟩
  | true =>
      simp only [Bool.not_true, Bool.false_eq_true, if_false]
      refine (sendStop_during hreal n h₁).bind fun stopped s₂ h₂ => ?_
      cases stopped with
      | false => exact ⟨fun hx => absurd hx (by decide), fun hx => absurd hx (by decide)⟩
      | true =>
          simp only [Bool.not_true, Bool.false_eq_true, if_false]
          refine (sendSetId_during hreal n ⟨h₂.1, h₂.2 rfl⟩).bind fun sent s₃ h₃ => ?_
          cases sent with
          | false => exact ⟨fun hx => absurd hx (by decide), fun hx => absurd hx (by decide)⟩
          | true =>
              simp only [Bool.not_true, Bool.false_eq_true, if_false, hreal]
              rw [sleepFor_bind, sat_call]
              intro _ s₄ hw
              have h₄ : During oldId newId s₀ (Changed bus oldId newId) s₄ :=
                During.quiet (c := .sleepFor _) (by simp) ⟨h₃.1, h₃.2 rfl⟩ hw
              refine ⟨trivial, ?_⟩
              have hget := not_isSetId_getIdFrame bus newId
              refine (getDevice_during hreal n newId (fun _ _ hlog => hlog.cons hget) h₄).bind
                fun r s₅ ⟨h₅, hdev⟩ => ?_
              cases r with
              | none => exact ⟨fun hx => absurd hx (by decide), fun hx => absurd hx (by decide)⟩
              | some changed =>
                  obtain ⟨m', hm', huid'⟩ := hdev changed rfl
                  by_cases hne : changed.uid ≠ target.uid
                  · simp only [if_pos hne]
                    exact ⟨fun hx => absurd hx (by decide), fun hx => absurd hx (by decide)⟩
                  · simp only [if_neg hne]
                    have hmm : m' = m := by
                      apply huid
                      rw [← huid', ← htarget]
                      exact not_not.mp hne
                    subst hmm
                    exact ⟨fun _ => ⟨target, m', rfl, htarget, hold, h₅.1.reply_new hm', h₅.2⟩,
                      fun hx => absurd hx (by simp [SetIdExit.unconfirmed])⟩

/-- The whole command. -/
theorem commandSetId_sat (hreal : bus.config.dryRun = false) (n : ℕ)
    (huid : Function.Injective uid) (h : During oldId newId s₀ NoChange s) :
    Sat (idBus bus uid) (fun _ => True) (bus.commandSetId n oldId newId)
      (SetIdPost bus uid oldId newId s₀) s := by
  have hkeep : ∀ motorId ok log, NoChange log →
      NoChange ((bus.getIdFrame motorId, ok) :: log) := fun motorId _ _ hlog =>
    hlog.cons (not_isStop_hostExtId bus motorId (by decide) _) (not_isSetId_getIdFrame bus motorId)
  unfold CanBus.commandSetId
  by_cases hids : oldId = newId
  · rw [if_pos hids]
    exact ⟨fun hx => absurd hx (by decide), fun _ => h.2⟩
  · simp only [if_neg hids, hreal, Bool.false_eq_true, if_false]
    refine (getDevice_during hreal n oldId (hkeep oldId) h).bind fun r s₁ ⟨h₁, hdev⟩ => ?_
    cases r with
    | none => exact ⟨fun hx => absurd hx (by decide), fun _ => h₁.2⟩
    | some target =>
        obtain ⟨m, hm, htarget⟩ := hdev target rfl
        refine (getDevice_during hreal n newId (hkeep newId) h₁).bind fun r' s₂ ⟨h₂, _⟩ => ?_
        cases r' with
        | some d => exact ⟨fun hx => absurd hx (by decide), fun _ => h₂.2⟩
        | none => exact changeId_sat hreal n huid htarget (h₁.1.reply_old hm) h₂

end parts

/-! ### Possible runs -/

section runs
variable [DecidableEq M] {bus : CanBus} {uid : M → Fin 8 → UInt8} {s : IdBus M} {n : ℕ}

theorem idBus_quiet (s : IdBus M) (now : ℤ) : idBus bus uid s .steadyNow now s :=
  ⟨s, .refl, rfl⟩

theorem idBus_empty (s : IdBus M) (ch : Fin numChannels) :
    idBus bus uid s (.canRead ch) (pcanErrorQrcvEmpty, {}) s :=
  ⟨s, .refl, rfl, fun h => absurd h (by decide)⟩

/-- The state after a frame was written. -/
def IdBus.wrote (s : IdBus M) (msg : TPCANMsg) : IdBus M := { s with log := (msg, true) :: s.log }

theorem send_runs (hreal : bus.config.dryRun = false) (rawId : UInt32) (data : Fin 8 → UInt8) :
    Runs (idBus bus uid) (bus.send rawId data) s (s.wrote (extendedFrame rawId data))
      (some true) := by
  unfold CanBus.send
  rw [hreal]
  exact .call (r := pcanErrorOk) ⟨s, .refl, rfl⟩ (.ret _ _)

theorem drain_runs (hreal : bus.config.dryRun = false) (s : IdBus M) :
    Runs (idBus bus uid) (bus.drain (n + 1)) s s (some ()) :=
  CanBus.drain_empty hreal (idBus_quiet s 0) (idBus_empty s _)

/-- A motor may answer at once. -/
theorem getDevice_finds (hreal : bus.config.dryRun = false) (hretries : bus.config.retries = 1)
    (ht : 0 < bus.config.timeoutMs) {m : M} {motorId : UInt8} (hm : s.cur m = motorId) :
    Runs (idBus bus uid) (bus.getDevice (n + 1) motorId) s
      { s.wrote (bus.getIdFrame motorId) with replies := insert (motorId, m) s.replies }
      (some (some ⟨motorId, uid m⟩)) := by
  have hread : idBus bus uid (s.wrote (bus.getIdFrame motorId)) (.canRead bus.channelIdx)
      (pcanErrorOk, idReply motorId (uid m))
      { s.wrote (bus.getIdFrame motorId) with replies := insert (motorId, m) s.replies } := by
    refine ⟨_, .single (.reply _ m), ?_, fun _ _ _ => ⟨m, ?_, ?_⟩⟩
    · rw [← hm]
      rfl
    · left
      rw [fill_idReply, idReply_source, ← hm]
      rfl
    · rw [fill_idReply]
      rfl
  exact CanBus.getDevice_answer hreal hretries ht (drain_runs hreal s) ⟨_, .refl, rfl⟩
    (idBus_quiet _ 0) hread

/-- Nobody may answer. -/
theorem getDevice_silent (hreal : bus.config.dryRun = false) (hretries : bus.config.retries = 1)
    (motorId : UInt8) :
    Runs (idBus bus uid) (bus.getDevice (n + 1) motorId) s (s.wrote (bus.getIdFrame motorId))
      (some none) := by
  have hlate : 0 + bus.config.timeoutMs * nsPerMs ≤ bus.config.timeoutMs * nsPerMs := by omega
  exact CanBus.getDevice_expired hreal hretries (drain_runs hreal s) ⟨_, .refl, rfl⟩
    (idBus_quiet _ 0) hlate (idBus_quiet _ _)

theorem sendStop_runs (hreal : bus.config.dryRun = false) (motorId : UInt8) (s : IdBus M) :
    Runs (idBus bus uid) (bus.sendStop (n + 1) motorId) s (s.wrote (bus.stopFrame motorId))
      (some true) :=
  (drain_runs hreal s).bind (send_runs hreal _ _)

theorem sendSetId_runs (hreal : bus.config.dryRun = false) (oldId newId : UInt8) (s : IdBus M) :
    Runs (idBus bus uid) (bus.sendSetId (n + 1) oldId newId) s
      (s.wrote (bus.setIdFrame oldId newId)) (some true) :=
  (drain_runs hreal s).bind (send_runs hreal _ _)

/-- A motor that answers at once gets the new ID. -/
theorem commandSetId_runs (hreal : bus.config.dryRun = false) (hyes : bus.config.assumeYes = true)
    (hretries : bus.config.retries = 1) (ht : 0 < bus.config.timeoutMs) {m : M}
    {oldId newId : UInt8} (hm : s.cur m = oldId) (hids : oldId ≠ newId) :
    ∃ s', Runs (idBus bus uid) (bus.commandSetId (n + 1) oldId newId) s s'
      (some (.changed ⟨oldId, uid m⟩)) := by
  set s₁ : IdBus M :=
    { s.wrote (bus.getIdFrame oldId) with replies := insert (oldId, m) s.replies }
  have hfound : Runs (idBus bus uid) (bus.getDevice (n + 1) oldId) s s₁
      (some (some ⟨oldId, uid m⟩)) := getDevice_finds hreal hretries ht hm
  set s₂ := ((s₁.wrote (bus.getIdFrame newId)).wrote (bus.stopFrame oldId)).wrote
    (bus.setIdFrame oldId newId)
  set s₃ : IdBus M := { s₂ with cur := Function.update s₂.cur m newId }
  have hadopt : IdBus.Step s₂ s₃ := by
    have hstep := IdBus.Step.adopt s₂ m (bus.setIdFrame oldId newId) true List.mem_cons_self
      (isSetId_setIdFrame bus oldId newId)
      ((destinationId_setIdFrame bus oldId newId).trans hm.symm)
    rw [newIdOf_setIdFrame] at hstep
    exact hstep
  have hpause : idBus bus uid s₂ (.sleepFor 30000000) () s₃ := ⟨_, .single hadopt, rfl⟩
  have hcur : s₃.cur m = newId := Function.update_self _ _ _
  refine ⟨{ s₃.wrote (bus.getIdFrame newId) with replies := insert (newId, m) s₃.replies }, ?_⟩
  unfold CanBus.commandSetId
  simp only [if_neg hids, hreal, Bool.false_eq_true, if_false]
  refine hfound.bind ((getDevice_silent hreal hretries newId).bind ?_)
  unfold CanBus.changeId CanBus.confirmDestructive
  simp only [hyes, Bool.true_or, if_true, Prog.pure_eq, Prog.ret_bind, Bool.not_true,
    Bool.false_eq_true, if_false, hreal]
  refine (sendStop_runs hreal oldId _).bind ?_
  refine (sendSetId_runs hreal oldId newId _).bind ?_
  refine .call hpause ((getDevice_finds hreal hretries ht hcur).bind ?_)
  simp only [ne_eq, not_true_eq_false, if_false]
  exact .ret _ _

end runs

/-! ### The guarantee -/

/-- **A successful `set-id` changed the right motor.**  If every reply that is under way at the
start names its sender's ID, then however frames are lost, delayed and repeated: when the
command returns 0, exactly one `SET_CAN_ID` was written, after a `STOP` to the old ID, and the
motor whose UID was reported for the old ID went from the old to the new ID; and when the
command ends before it is confirmed, neither was written. -/
theorem set_id_sound [DecidableEq M] {bus : CanBus} (hreal : bus.config.dryRun = false)
    {uid : M → Fin 8 → UInt8} (huid : Function.Injective uid) {n : ℕ} {oldId newId : UInt8}
    {s s' : IdBus M} {x : SetIdExit} (hreplies : ∀ p ∈ s.replies, p.1 = s.cur p.2)
    (hlog : s.log = []) (hr : Runs (idBus bus uid) (bus.commandSetId n oldId newId) s s' (some x)) :
    (x.exitCode = 0 → ∃ target m, x = .changed target ∧ target.uid = uid m ∧
      s.cur m = oldId ∧ s'.cur m = newId ∧ Changed bus oldId newId s'.log) ∧
    (x.unconfirmed = true → NoChange s'.log) := by
  have hstart : During oldId newId s NoChange s := by
    refine ⟨sound_start hreplies hlog, ?_⟩
    rw [hlog]
    exact fun e he => by cases he
  exact hr.post (commandSetId_sat hreal n huid hstart)

/-- Two motors with the IDs 3 and 5, and nothing under way. -/
def twoMotors : IdBus (Fin 2) := { cur := ![3, 5], replies := ∅ }

def twoUids (m : Fin 2) : Fin 8 → UInt8 := fun _ => UInt8.ofNat m

theorem twoUids_injective : Function.Injective twoUids := by
  intro a b h
  have h0 : UInt8.ofNat a = UInt8.ofNat b := congrFun h 0
  revert a b
  decide

/-- A run of `set-id 3 7` in which the motors answer at once. -/
theorem set_id_sound_three_seven : ∃ s', Runs (idBus benchBus twoUids)
    (benchBus.commandSetId 1 3 7) twoMotors s' (some (.changed ⟨3, twoUids 0⟩)) ∧
    s'.cur 0 = 7 := by
  obtain ⟨s', hr⟩ : ∃ s', Runs (idBus benchBus twoUids) (benchBus.commandSetId 1 3 7) twoMotors s'
      (some (.changed ⟨3, twoUids 0⟩)) :=
    commandSetId_runs rfl rfl rfl (by decide) rfl (by decide)
  have hreplies : ∀ p ∈ twoMotors.replies, p.1 = twoMotors.cur p.2 := fun p hp => hp.elim
  obtain ⟨target, m, hx, huid, -, hcur, -⟩ :=
    (set_id_sound rfl twoUids_injective hreplies rfl hr).1 rfl
  cases hx
  have hm : 0 = m := twoUids_injective huid
  subst hm
  exact ⟨s', hr, hcur⟩

end MotorConfig

end Qub
