import QubController.Completion
import QubController.Lifecycle

/-! # Starting again

`start()` looks at the object's `started_`, and the loop at the shared `shutdown` flag; `stop()`
clears the one and raises the other, and nothing lowers the flag again.

`Serving` is what the owner of a `MotorThread` and its loop share: the flag, the loop that was
created last, and what the loop has done since.  Between any two calls of the owner the loop may
go on by its own steps, and others may raise the flag (`Background`).  `alive_iff` says that a
loop which nobody asked to end can end nevertheless exactly if it was created when the flag was
up; otherwise each motor gets one command in each cycle. -/

namespace Qub

open Interaction

namespace MotorThread

/-! ### What the loop does -/

/-- The cycles that the loop has started, and the motors to which it wrote a command. -/
structure Progress where
  cycles : ℕ := 0
  sent : List (Fin numChannels × UInt8) := []

def Progress.after (p : Progress) : SysCall → Progress
  | .loadAction => { p with cycles := p.cycles + 1 }
  | .canWrite ch msg =>
      if msg.commType = CommType.mitControl.code then
        { p with sent := p.sent ++ [(ch, msg.destinationId)] }
      else p
  | _ => p

/-- The loop's loads of the flag are answered by the flag. -/
def Answers (flag : Bool) (c : SysCall) (r : c.Resp) : Prop :=
  match c, r with
  | .loadShutdown, r => r = flag
  | _, _ => True

/-- The commands are those of whole cycles, up to the cycle that is going on: one for each motor,
in their order. -/
structure OnePerCycle (keys : Keys) (p : Progress) : Prop where
  finished : (List.replicate (p.cycles - 1) keys).flatten <+: p.sent
  started : p.sent <+: (List.replicate p.cycles keys).flatten

def AtCycle (keys : Keys) (p : Progress) : Prop := p.sent = (List.replicate p.cycles keys).flatten

/-- The surroundings of the loop while the flag is down. -/
def lowered : World Sys Progress := fun p c r p' => Answers false c r ∧ p' = p.after c

/-- The surroundings of the loop while it is up. -/
def raisedFlag : World Sys Unit := fun _ c r _ => Answers true c r

section loop
variable {keys : Keys} {p p' : Progress}

theorem replicate_succ_flatten (n : ℕ) (keys : Keys) :
    (List.replicate (n + 1) keys).flatten = (List.replicate n keys).flatten ++ keys := by
  rw [List.replicate_succ', List.flatten_append, List.flatten_singleton]

theorem AtCycle.onePerCycle (h : AtCycle keys p) : OnePerCycle keys p := by
  unfold AtCycle at h
  refine ⟨?_, h ▸ List.prefix_refl _⟩
  rw [h]
  cases hc : p.cycles with
  | zero => simp
  | succ n =>
      rw [replicate_succ_flatten, Nat.add_sub_cancel]
      exact List.prefix_append _ _

theorem onePerCycle_of_take {done rest : Keys} (hkeys : done ++ rest = keys) (n : ℕ) :
    OnePerCycle keys ⟨n + 1, (List.replicate n keys).flatten ++ done⟩ := by
  constructor
  · exact List.prefix_append _ _
  · rw [replicate_succ_flatten, ← hkeys, ← List.append_assoc]
    exact List.prefix_append _ _

/-- A call that is neither a load of the action nor a write. -/
def NoProgress (c : SysCall) : Prop := ∀ p : Progress, p.after c = p

theorem sat_noProgress {α : Type} {prog : SysM α} {P : SysCall → Prop} (hp : prog.Only P)
    (hP : ∀ c, P c → NoProgress c) (h : AtCycle keys p) :
    Sat lowered (OnePerCycle keys) prog (fun _ p' => AtCycle keys p') p := by
  refine hp.sat (fun p c r p' hc hat hstep => ?_) h
  obtain ⟨-, rfl⟩ := hstep
  rw [hP c hc p]
  exact ⟨hat.onePerCycle, hat⟩

/-- The commands of one cycle. -/
theorem sendAll_sat (act : ActionState) (n : ℕ) (motors : List MotorBinding) {done : Keys}
    (hkeys : done ++ motors.map MotorBinding.key = keys) :
    Sat lowered (OnePerCycle keys) (sendAll act motors) (fun _ p' => AtCycle keys p')
      ⟨n + 1, (List.replicate n keys).flatten ++ done⟩ := by
  induction motors generalizing done with
  | nil =>
      show (List.replicate n keys).flatten ++ done = (List.replicate (n + 1) keys).flatten
      rw [replicate_succ_flatten, ← hkeys, List.map_nil, List.append_nil]
  | cons b rest ih =>
      rw [sendAll, sendCommand_eq]
      obtain ⟨htype, hdest⟩ := commandFrame_sent act b
      rintro sts p' ⟨-, rfl⟩
      have hafter : Progress.after ⟨n + 1, (List.replicate n keys).flatten ++ done⟩
          (.canWrite b.motor.can (commandFrame act b)) =
          ⟨n + 1, (List.replicate n keys).flatten ++ (done ++ [b.key])⟩ := by
        simp only [Progress.after, htype, if_true, hdest, List.append_assoc]
        rfl
      rw [hafter]
      have hkeys' : (done ++ [b.key]) ++ rest.map MotorBinding.key = keys := by
        rw [List.append_assoc]
        exact hkeys
      exact ⟨onePerCycle_of_take hkeys' n, ih hkeys'⟩

theorem cycle_sat (t : MotorThread) (msg : TPCANMsg) (hkeys : t.motors.map MotorBinding.key = keys)
    (h : AtCycle keys p) :
    Sat lowered (OnePerCycle keys) (cycle t msg)
      (fun t' p' => t'.motors.map MotorBinding.key = keys ∧ AtCycle keys p') p := by
  unfold cycle
  have hsend : Sat lowered (OnePerCycle keys) (sendCommands t.motors)
      (fun _ p' => AtCycle keys p') p := by
    rintro act p' ⟨-, rfl⟩
    have hstart : p.after .loadAction =
        ⟨p.cycles + 1, (List.replicate p.cycles keys).flatten ++ []⟩ := by
      simp only [Progress.after, List.append_nil]
      rw [← h]
    rw [hstart]
    exact ⟨onePerCycle_of_take (List.nil_append keys) _, sendAll_sat act _ _ hkeys⟩
  refine hsend.bind fun _ p₁ h₁ => ?_
  have hread : ∀ c, IsReceive c → NoProgress c := by
    intro c hc p
    cases c <;> first | rfl | exact hc.elim
  have hdrain : Sat lowered (OnePerCycle keys) (drainFeedback t.channelIdx t.motors msg)
      (fun d p' => d.motors.map MotorBinding.key = keys ∧ AtCycle keys p') p₁ := by
    refine ((drainLoop_keys t.channelIdx maxFramesPerCycle ⟨pcanErrorOk, t.motors, msg⟩).sat
      (fun p c r p' hc hat hstep => ?_) h₁).mono fun d p' hd => ⟨hd.1.trans hkeys, hd.2⟩
    obtain ⟨-, rfl⟩ := hstep
    rw [hread c hc p]
    exact ⟨hat.onePerCycle, hat⟩
  refine hdrain.bind fun d p₂ h₂ => ?_
  refine (sat_noProgress (publishState_only t.channelIdx d.motors) ?_ h₂.2).bind fun _ p₃ h₃ => ?_
  · intro c hc p
    cases c <;> first | rfl | exact hc.elim
  · exact ⟨h₂.1, h₃⟩

/-- Run lemma: while the flag is down the loop does not return, and the motors get one command in
each cycle. -/
theorem runLoop_sat (buf : ℕ → TPCANMsg) (n : ℕ) (t : MotorThread) (next prevWake : Timespec)
    (hkeys : t.motors.map MotorBinding.key = keys) (h : AtCycle keys p) :
    Sat lowered (OnePerCycle keys) (runLoop buf n t next prevWake) (fun _ _ => False) p := by
  induction n generalizing t next prevWake p with
  | zero => trivial
  | succ n ih =>
      rw [runLoop]
      simp only [loadShutdown_bind, sat_call]
      rintro shutdown p₁ ⟨hflag, rfl⟩
      obtain rfl : shutdown = false := hflag
      refine ⟨h.onePerCycle, ?_⟩
      refine (cycle_sat t (buf n) hkeys h).bind ?_
      rintro t' p₂ ⟨hkeys', h₂⟩ now p₃ ⟨-, rfl⟩
      refine ⟨h₂.onePerCycle, ?_⟩
      rintro _ p₄ ⟨-, rfl⟩
      exact ⟨h₂.onePerCycle, ih _ _ _ hkeys' h₂⟩

theorem run_sat (buf : ℕ → TPCANMsg) (n : ℕ) (t : MotorThread)
    (hkeys : t.motors.map MotorBinding.key = keys) :
    Sat lowered (OnePerCycle keys) (run buf n t) (fun _ _ => False) {} := by
  have h : AtCycle keys {} := rfl
  rintro next p₁ ⟨-, rfl⟩
  exact ⟨h.onePerCycle, runLoop_sat buf n t next next hkeys h⟩

/-- While the flag is up the loop returns at its first look at it. -/
theorem run_returns (buf : ℕ → TPCANMsg) (n : ℕ) (t : MotorThread) :
    Completes raisedFlag (run buf (n + 1) t) (fun _ _ => True) () := by
  intro next _ _ shutdown _ hflag
  obtain rfl : shutdown = true := hflag
  trivial

end loop

/-! ### The owner, the loop and the others -/

/-- The flag, what is left of the loop while there is a thread, the flag's value when the thread
was created, whether the loop was asked to end since then, and what it has done since then. -/
structure Serving where
  flag : Bool := false
  worker : Option (SysM MotorThread) := none
  flagAtCreation : Bool := false
  asked : Bool := false
  progress : Progress := {}

def Exited (s : Serving) : Prop := ∃ t, s.worker = some (.ret t)

inductive OwnStep : Serving → Serving → Prop
  | call {s : Serving} {c : SysCall} {k : c.Resp → SysM MotorThread} (r : c.Resp) :
      s.worker = some (.call (I := Sys) c k) → Answers s.flag c r →
      OwnStep s { s with worker := some (k r), progress := s.progress.after c }

abbrev OwnSteps : Serving → Serving → Prop := Relation.ReflTransGen OwnStep

def Serving.request (s : Serving) : Serving := { s with flag := true, asked := true }

/-- What may happen between two calls of the owner. -/
abbrev Background : Serving → Serving → Prop :=
  Relation.ReflTransGen fun s s' => OwnStep s s' ∨ s' = s.request

/-- The world of the owner of an object with the motors `keys`. -/
def serving (keys : Keys) : World Sys Serving := fun s c r s' =>
  ∃ s₁, Background s s₁ ∧
    match c, r with
    | .storeShutdown value, _ => s' = { s₁ with flag := value, asked := true }
    | .pthreadCreate, r =>
        if r = 0 then
          ∃ buf n t, t.motors.map MotorBinding.key = keys ∧
            s' = { flag := s₁.flag, worker := some (run buf (n + 1) t), flagAtCreation := s₁.flag }
        else s' = s₁
    | .pthreadJoin, _ => Exited s₁ ∧ s' = { s₁ with worker := none }
    | _, _ => s' = s₁

/-- The invariant.  A loop that was created under a lowered flag and was not asked to end has kept
to its cycles and cannot return; one that was created under a raised flag returns. -/
structure Kept (keys : Keys) (s : Serving) : Prop where
  serves : ∀ p, s.worker = some p → s.asked = false → s.flagAtCreation = false →
    s.flag = false ∧ OnePerCycle keys s.progress ∧
      Sat lowered (OnePerCycle keys) p (fun _ _ => False) s.progress
  returns : ∀ p, s.worker = some p → s.flagAtCreation = true →
    s.flag = true ∧ Completes raisedFlag p (fun _ _ => True) ()

section invariant
variable {keys : Keys} {s s' : Serving}

theorem Kept.ownStep (h : Kept keys s) (hstep : OwnStep s s') : Kept keys s' := by
  cases hstep with
  | call r hw hr =>
      constructor
      · rintro p hp hasked hlow
        obtain ⟨hflag, -, hsat⟩ := h.serves _ hw hasked hlow
        rw [hflag] at hr
        obtain ⟨hinv, hrest⟩ := hsat r _ ⟨hr, rfl⟩
        cases hp
        exact ⟨hflag, hinv, hrest⟩
      · rintro p hp hup
        obtain ⟨hflag, hcompletes⟩ := h.returns _ hw hup
        rw [hflag] at hr
        cases hp
        exact ⟨hflag, hcompletes r () hr⟩

theorem Kept.request (h : Kept keys s) : Kept keys s.request := by
  constructor
  · intro p hp hasked
    cases hasked
  · exact fun p hp hup => ⟨rfl, (h.returns p hp hup).2⟩

theorem Kept.background (h : Kept keys s) (hsteps : Background s s') : Kept keys s' := by
  induction hsteps with
  | refl => exact h
  | tail _ hstep ih =>
      rcases hstep with hstep | rfl
      · exact ih.ownStep hstep
      · exact ih.request

theorem OwnSteps.frame (hsteps : OwnSteps s s') :
    (s.worker ≠ none → s'.worker ≠ none) ∧ s'.asked = s.asked ∧
      s'.flagAtCreation = s.flagAtCreation := by
  induction hsteps with
  | refl => exact ⟨id, rfl, rfl⟩
  | tail _ hstep ih =>
      cases hstep with
      | call r hw hr => exact ⟨fun _ => by simp, ih.2⟩

theorem OwnSteps.background (hsteps : OwnSteps s s') : Background s s' := by
  induction hsteps with
  | refl => exact .refl
  | tail _ hstep ih => exact ih.tail (.inl hstep)

theorem Kept.ownSteps (h : Kept keys s) (hsteps : OwnSteps s s') : Kept keys s' :=
  h.background hsteps.background

theorem Background.flag (hsteps : Background s s') (h : s.flag = true) : s'.flag = true := by
  induction hsteps with
  | refl => exact h
  | tail _ hstep ih =>
      rcases hstep with hstep | rfl
      · cases hstep with
        | call r hw hr => exact ih
      · rfl

/-- A call of the owner: it does not lower the flag. -/
def IsOwnerCall (c : SysCall) : Prop := c ≠ .storeShutdown false

theorem serving_cases {c : SysCall} {r : c.Resp} (hc : IsOwnerCall c)
    (hstep : serving keys s c r s') :
    ∃ s₁, Background s s₁ ∧
      (s' = s₁ ∨ s' = s₁.request ∨ s' = { s₁ with worker := none } ∨
        ∃ buf n t, t.motors.map MotorBinding.key = keys ∧
          s' = { flag := s₁.flag, worker := some (run buf (n + 1) t),
                 flagAtCreation := s₁.flag }) := by
  obtain ⟨s₁, hback, heff⟩ := hstep
  refine ⟨s₁, hback, ?_⟩
  cases c with
  | storeShutdown value =>
      cases value with
      | false => exact absurd rfl hc
      | true => exact .inr (.inl heff)
  | pthreadCreate =>
      by_cases hr : r = 0
      · simp only [hr, if_true] at heff
        exact .inr (.inr (.inr heff))
      · simp only [hr, if_false] at heff
        exact .inl heff
  | pthreadJoin => exact .inr (.inr (.inl heff.2))
  | _ => exact .inl heff

/-- Step lemma: one call of the owner. -/
theorem Kept.call (h : Kept keys s) {c : SysCall} {r : c.Resp} (hc : IsOwnerCall c)
    (hstep : serving keys s c r s') : Kept keys s' := by
  obtain ⟨s₁, hback, heff⟩ := serving_cases hc hstep
  have h₁ := h.background hback
  rcases heff with rfl | rfl | rfl | ⟨buf, n, t, hkeys, rfl⟩
  · exact h₁
  · exact h₁.request
  · constructor
    · intro p hp
      cases hp
    · intro p hp
      cases hp
  · constructor
    · rintro p hp - hlow
      cases hp
      exact ⟨hlow, AtCycle.onePerCycle (p := {}) rfl, run_sat buf (n + 1) t hkeys⟩
    · rintro p hp hup
      cases hp
      exact ⟨hup, run_returns buf n t⟩

end invariant

/-! ### The owner's calls -/

theorem enableAll_owner : ∀ motors : List MotorBinding, (enableAll motors).Only IsOwnerCall
  | [] => trivial
  | b :: rest => ⟨by simp [IsOwnerCall], fun _ => enableAll_owner rest⟩

theorem stopAll_owner : ∀ motors : List MotorBinding, (stopAll motors).Only IsOwnerCall
  | [] => trivial
  | b :: rest =>
      ⟨by simp [IsOwnerCall], fun _ => ⟨by simp [IsOwnerCall], fun _ => stopAll_owner rest⟩⟩

theorem start_owner (t : MotorThread) : (start t).Only IsOwnerCall := by
  unfold start
  split
  · trivial
  · refine (enableAll_owner t.motors).bind fun _ => ?_
    simp only [pthreadCreate_bind, only_call]
    refine ⟨by simp [IsOwnerCall], fun err => ?_⟩
    split <;> trivial

theorem stop_owner (t : MotorThread) : (stop t).Only IsOwnerCall := by
  unfold stop
  split
  · trivial
  · refine ⟨by simp [IsOwnerCall], fun _ => ⟨by simp [IsOwnerCall], fun _ => ?_⟩⟩
    exact (stopAll_owner t.motors).bind fun _ => trivial

theorem lifetime_owner (calls : List LifeCall) (t : MotorThread) :
    (lifetime calls t).Only IsOwnerCall := by
  induction calls generalizing t with
  | nil =>
      unfold lifetime destroy
      split
      · exact stop_owner t
      · trivial
  | cons c calls ih =>
      cases c with
      | start => exact (start_owner t).bind fun r => ih r.2
      | stop => exact (stop_owner t).bind fun t' => ih t'

/-- Run lemma: the invariant holds in every state of the owner's runs. -/
theorem lifetime_kept {keys : Keys} {calls : List LifeCall} {t : MotorThread} {s s' : Serving}
    {o : Option MotorThread} (h : Runs (serving keys) (lifetime calls t) s s' o)
    (hs : Kept keys s) : Kept keys s' :=
  h.only_keeps (lifetime_owner calls t) (fun _ _ _ _ hc hkept hstep => hkept.call hc hstep) hs

/-- Once raised, the flag stays up in all runs: every later thread is created under it. -/
theorem lifetime_flag {keys : Keys} {calls : List LifeCall} {t : MotorThread} {s s' : Serving}
    {o : Option MotorThread} (h : Runs (serving keys) (lifetime calls t) s s' o)
    (hs : s.flag = true) : s'.flag = true := by
  refine h.only_keeps (J := fun s => s.flag = true) (lifetime_owner calls t) ?_ hs
  intro s c r s' hc hflag hstep
  obtain ⟨s₁, hback, heff⟩ := serving_cases hc hstep
  have h₁ := hback.flag hflag
  rcases heff with rfl | rfl | rfl | ⟨buf, n, t, -, rfl⟩
  · exact h₁
  · rfl
  · exact h₁
  · exact h₁

/-! ### The loop's end -/

/-- A loop that returns while the flag is up can get there by its own steps. -/
theorem exits_of_returns (p : SysM MotorThread) {s : Serving} (hw : s.worker = some p)
    (hflag : s.flag = true) (hp : Completes raisedFlag p (fun _ _ => True) ()) :
    ∃ s', OwnSteps s s' ∧ Exited s' := by
  induction p generalizing s with
  | ret t => exact ⟨s, .refl, t, hw⟩
  | cut => exact hp.elim
  | call c k ih =>
      obtain ⟨r, hr⟩ : ∃ r : c.Resp, Answers true c r := by
        cases c with
        | loadShutdown => exact ⟨true, rfl⟩
        | _ => exact ⟨SysCall.quiet _, trivial⟩
      have hstep : OwnStep s { s with worker := some (k r), progress := s.progress.after c } :=
        .call r hw (by rw [hflag]; exact hr)
      obtain ⟨s', hsteps, hexit⟩ := ih r (s := { s with
        worker := some (k r), progress := s.progress.after c }) rfl hflag (hp r () hr)
      exact ⟨s', .head hstep hsteps, hexit⟩

theorem Kept.not_exited {keys : Keys} {s : Serving} (h : Kept keys s) (hasked : s.asked = false)
    (hlow : s.flagAtCreation = false) : ¬ Exited s := by
  rintro ⟨t, hw⟩
  exact (h.serves _ hw hasked hlow).2.2

/-- **When a started loop is alive.**  In every run of the owner's calls, with any steps of the
loop and any requests of others between them: where there is a thread and nobody has asked it to
end since it was created, it cannot have returned or return by itself if and only if the flag was
down when it was created; and then its commands are one for each motor and cycle. -/
theorem alive_iff {calls : List LifeCall} {t : MotorThread} {s : Serving} {o : Option MotorThread}
    (h : Runs (serving (t.motors.map MotorBinding.key)) (lifetime calls t) {} s o)
    (hthread : s.worker ≠ none) (hasked : s.asked = false) :
    ((∀ s', OwnSteps s s' → ¬ Exited s') ↔ s.flagAtCreation = false) ∧
    (s.flagAtCreation = false → ∀ s', OwnSteps s s' →
      OnePerCycle (t.motors.map MotorBinding.key) s'.progress) := by
  have hinit : Kept (t.motors.map MotorBinding.key) {} := by
    constructor
    · intro p hp
      cases hp
    · intro p hp
      cases hp
  have hkept := lifetime_kept h hinit
  obtain ⟨p, hw⟩ := Option.ne_none_iff_exists'.mp hthread
  refine ⟨⟨fun hlive => ?_, fun hlow s' hsteps => ?_⟩, fun hlow s' hsteps => ?_⟩
  · by_contra hup
    obtain ⟨hflag, hreturns⟩ := hkept.returns p hw (by simpa using hup)
    obtain ⟨s', hsteps, hexit⟩ := exits_of_returns p hw hflag hreturns
    exact hlive s' hsteps hexit
  · obtain ⟨-, hasked', hlow'⟩ := OwnSteps.frame hsteps
    exact (hkept.ownSteps hsteps).not_exited (hasked'.trans hasked) (hlow'.trans hlow)
  · obtain ⟨hthread', hasked', hlow'⟩ := OwnSteps.frame hsteps
    obtain ⟨p', hw'⟩ := Option.ne_none_iff_exists'.mp (hthread' hthread)
    exact ((hkept.ownSteps hsteps).serves p' hw' (hasked'.trans hasked) (hlow'.trans hlow)).2.1

/-! ### Start, stop, start -/

def threadCreated (flag : Bool) : Serving :=
  { flag, worker := some (run (fun _ => {}) 1 oneMotor), flagAtCreation := flag }

def startedMotor : MotorThread := { oneMotor with started := true }

theorem start_run (s : Serving) :
    Runs (serving [(0, 4)]) (start oneMotor) s (threadCreated s.flag) (some (0, startedMotor)) := by
  have henable : serving [(0, 4)] s (.canWrite 0 (driverOfFour.hostFrame .enable zeroData))
      pcanErrorOk s := ⟨s, .refl, rfl⟩
  have hcreate : serving [(0, 4)] s .pthreadCreate (0 : ℤ) (threadCreated s.flag) := by
    refine ⟨s, .refl, ?_⟩
    simp only [if_true]
    exact ⟨fun _ => {}, 0, oneMotor, rfl, rfl⟩
  exact .call henable (.call hcreate (.ret _ _))

theorem runLoop_load (buf : ℕ → TPCANMsg) (n : ℕ) (t : MotorThread) (next prevWake : Timespec) :
    ∃ k, runLoop buf (n + 1) t next prevWake = .call (I := Sys) .loadShutdown k ∧
      k true = .ret t := by
  rw [runLoop]
  exact ⟨_, rfl, rfl⟩

theorem OwnStep.quiet {s : Serving} {c : SysCall} {k : c.Resp → SysM MotorThread} (r : c.Resp)
    (hw : s.worker = some (.call (I := Sys) c k)) (hr : Answers s.flag c r) (hc : NoProgress c) :
    OwnStep s { s with worker := some (k r) } := by
  have hstep := OwnStep.call r hw hr
  rwa [hc s.progress] at hstep

/-- A loop created under a raised flag returns by itself, without a command. -/
theorem run_exits {buf : ℕ → TPCANMsg} {n : ℕ} {t : MotorThread} {s : Serving}
    (hw : s.worker = some (run buf (n + 1) t)) (hflag : s.flag = true) :
    OwnSteps s { s with worker := some (.ret t) } := by
  have hrun : run buf (n + 1) t =
      .call (I := Sys) .clockGettime fun next => runLoop buf (n + 1) t next next := rfl
  obtain ⟨k, hload, hk⟩ := runLoop_load buf n t ⟨0, 0⟩ ⟨0, 0⟩
  rw [hrun] at hw
  have hclock := OwnStep.quiet (⟨0, 0⟩ : Timespec) hw trivial fun _ => rfl
  rw [hload] at hclock
  have hexit := OwnStep.quiet (s := { s with worker := some (.call (I := Sys) .loadShutdown k) })
    (c := .loadShutdown) true rfl hflag.symm fun _ => rfl
  rw [hk] at hexit
  exact .head hclock (.single hexit)

/-- `stop()` raises the flag, and the loop returns. -/
theorem stop_run :
    Runs (serving [(0, 4)]) (stop startedMotor) (threadCreated false)
      { flag := true, asked := true } (some oneMotor) := by
  have hraise : serving [(0, 4)] (threadCreated false) (.storeShutdown true) ()
      (threadCreated false).request := ⟨_, .refl, rfl⟩
  have hexit : Background (threadCreated false).request
      { (threadCreated false).request with worker := some (.ret oneMotor) } :=
    OwnSteps.background (run_exits rfl rfl)
  have hjoin : serving [(0, 4)] (threadCreated false).request .pthreadJoin ()
      { flag := true, asked := true } := ⟨_, hexit, ⟨oneMotor, rfl⟩, rfl⟩
  have hstop : serving [(0, 4)] { flag := true, asked := true }
      (.canWrite 0 (driverOfFour.hostFrame .stop zeroData)) pcanErrorOk
      { flag := true, asked := true } := ⟨_, .refl, rfl⟩
  exact .call hraise (.call hjoin (.call hstop (.call hstop (.ret _ _))))

theorem alive_iff_first : ∃ s, Runs (serving [(0, 4)]) (lifetime [.start] oneMotor) {} s none ∧
    s.worker ≠ none ∧ ∀ s', OwnSteps s s' → ¬ Exited s' ∧ OnePerCycle [(0, 4)] s'.progress := by
  have hrun : Runs (serving [(0, 4)]) (lifetime [.start] oneMotor) {} (threadCreated false) none :=
    (start_run {}).bind (.stop _ _)
  obtain ⟨hiff, hcycles⟩ := alive_iff (t := oneMotor) hrun (by simp [threadCreated]) rfl
  exact ⟨_, hrun, by simp [threadCreated], fun s' hs' => ⟨hiff.mpr rfl s' hs', hcycles rfl s' hs'⟩⟩

/-- **The second thread is dead at once.**  After `start()` and `stop()`, a further `start()`
enables the motor, creates a thread and returns `0`, and nobody asks the loop to end; but it
returns before its first cycle, and the enabled motor gets no command. -/
theorem restarted_loop_exits : ∃ s s',
    Runs (serving [(0, 4)]) (start oneMotor >>= fun r => stop r.2 >>= start) {} s
      (some (0, startedMotor)) ∧
    Runs (serving [(0, 4)]) (lifetime [.start, .stop, .start] oneMotor) {} s none ∧
    s.worker ≠ none ∧ s.asked = false ∧ OwnSteps s s' ∧ Exited s' ∧ s'.progress.sent = [] := by
  have hrestart : Runs (serving [(0, 4)]) (start oneMotor)
      { flag := true, asked := true } (threadCreated true) (some (0, startedMotor)) :=
    start_run { flag := true, asked := true }
  refine ⟨threadCreated true, _, ?_, ?_, by simp [threadCreated], rfl,
    run_exits rfl rfl, ⟨oneMotor, rfl⟩, rfl⟩
  · exact (start_run {}).bind (stop_run.bind hrestart)
  · exact (start_run {}).bind (stop_run.bind (hrestart.bind (.stop _ _)))

end MotorThread

end Qub
