import QubController.ChannelPhases

/-! # Who uses what

`SeqLocked` needs a single writer for each slot, a `PcanChannel` is meant for one thread at a
time, and neither may be used before it is made or after it is destroyed.  `test_4ch.cpp` has five
actors that share four channels, five slots and the motors; nothing but the order in which `main`
makes, joins and destroys things keeps them apart.

Each part of `main` takes the channels from given phases to given phases.  `exclusive_use` and
`safe_exit` read off what this says of every run, whatever the threads, the signals, the bus and
`pthread_create` do. -/

namespace Qub

open Interaction

namespace FourChannels

/-! ### The methods of a thread object -/

section methods
variable {table : List MotorMapEntry} {phase : Phases} {s : Robot} {ch : Fin numChannels}

/-- `main` makes an event that leaves the threads alone. -/
theorem Knows.note (h : Knows table phase s) {phase' : Phases} {e : RobotEvent}
    (hl : Logged table phase' (e :: s.shared.log))
    (halive : ∀ ch, (phase' ch).isAlive = (phase ch).isAlive) (he : e ≠ .acted) :
    Knows table phase' (s.note e) where
  logged := hl
  thread_eq := fun c => (h.thread_eq c).trans (halive c).symm
  disciplined := h.disciplined
  acted := fun c hc => List.mem_cons_of_mem _ (h.acted c ((halive c).symm.trans hc))
  hold := fun hmem => h.hold ((List.mem_cons.mp hmem).resolve_left he.symm)

/-- The constructor of a `PcanChannel`. -/
theorem Knows.opened (h : Knows table phase s) (hch : phase ch = .unopened) :
    Knows table (Function.update phase ch .idle) (s.note (.opened ch)) := by
  refine h.note (h.logged.opened hch) (fun c => ?_) (by simp)
  rcases eq_or_ne c ch with rfl | hne
  · simp [hch, Phase.isAlive]
  · rw [Function.update_of_ne hne]

/-- `main` stores the action before there is a thread. -/
theorem Knows.act (h : Knows table phase s) (halive : ∀ ch, (phase ch).isAlive = false)
    (now : UInt64) : Knows table phase
      ⟨s.threads, { s.shared.note .acted with action := holdAction now }⟩ := by
  refine ⟨h.logged.keep (fun ch => (h.logged.alive_eq ch).trans (halive ch)) trivial (fun _ => rfl)
    (fun _ => rfl) (by simp) fun _ _ hs => hs, h.thread_eq, h.disciplined, fun ch hch => ?_,
    fun _ => ⟨_, rfl⟩⟩
  rw [halive ch] at hch
  cases hch

/-- `main` writes a frame to a motor of a channel without a thread. -/
theorem Knows.write (ch : Fin numChannels) (h : Knows table phase s)
    (hopen : (phase ch).isOpen = true) (halive : (phase ch).isAlive = false)
    (hset : (phase ch).settled = false) {b : MotorBinding} (hb : b ∈ bindingsPerCh table ch)
    {msg : TPCANMsg}
    (hmsg : msg = b.motor.hostFrame .enable zeroData ∨ msg = b.motor.hostFrame .stop zeroData) :
    Knows table phase (s.note (.wrote none b.motor.can msg)) := by
  rw [can_of_mem hb]
  exact h.note (h.logged.wrote hopen ((h.logged.alive_eq ch).trans halive) hset ⟨b, hb, hmsg⟩)
    (fun _ => rfl) (by simp)

theorem enableAll_sat (hidle : phase ch = .idle) (motors : List MotorBinding)
    (hmotors : ∀ b ∈ motors, b ∈ bindingsPerCh table ch) (h : Knows table phase s)
    (hacted : .acted ∈ s.shared.log) :
    Sat ((robotWorld table).seen (onThread ch)) (Safe table) (MotorThread.enableAll motors)
      (fun _ s' => Knows table phase s' ∧ .acted ∈ s'.shared.log) s := by
  induction motors generalizing s with
  | nil => exact ⟨h, hacted⟩
  | cons b rest ih =>
      refine sat_method h fun s₁ h₁ hlater sts s' heff => ?_
      obtain rfl : s' = _ := heff
      have h₂ := h₁.write ch (by rw [hidle]; rfl) (by rw [hidle]; rfl) (by rw [hidle]; rfl)
        (hmotors b List.mem_cons_self) (.inl rfl)
      exact ⟨⟨phase, h₂⟩, ih (fun b' hb' => hmotors b' (List.mem_cons_of_mem _ hb')) h₂
        (List.mem_cons_of_mem _ (hlater.grows _ hacted))⟩

/-- The thread is created, or it is not. -/
theorem create_sat (hidle : phase ch = .idle) (h : Knows table phase s)
    (hacted : .acted ∈ s.shared.log) :
    Sat ((robotWorld table).seen (onThread ch)) (Safe table) pthreadCreate
      (fun err s' => .acted ∈ s'.shared.log ∧
        Knows table (if err = 0 then Function.update phase ch .running else phase) s') s := by
  refine sat_method h fun s₁ h₁ hlater err s' heff => ?_
  have hacted₁ := hlater.grows _ hacted
  simp only [mainEffect] at heff
  by_cases herr : err = 0
  · simp only [herr, if_true] at heff
    obtain ⟨buf, n, rfl⟩ := heff
    have h₂ : Knows table (Function.update phase ch .running)
        ⟨Function.update s₁.threads ch (some (MotorThread.run buf n (threadOf table ch))),
          { s₁.shared.note (.created ch true) with
            startedSince := Function.update s₁.shared.startedSince ch 0 }⟩ := by
      refine ⟨h₁.logged.created hidle, fun c => ?_, fun c p hp => ?_, fun c _ => ?_, fun _ => ?_⟩
      · rcases eq_or_ne c ch with rfl | hne
        · simp [Phase.isAlive]
        · simpa [Function.update_of_ne hne] using h₁.thread_eq c
      · replace hp : Function.update s₁.threads ch _ c = some p := hp
        rcases eq_or_ne c ch with rfl | hne
        · rw [Function.update_self] at hp
          cases hp
          exact run_assuming table c buf n
        · rw [Function.update_of_ne hne] at hp
          exact h₁.disciplined c p hp
      · exact List.mem_cons_of_mem _ hacted₁
      · exact h₁.hold hacted₁
    refine ⟨⟨_, h₂⟩, List.mem_cons_of_mem _ hacted₁, ?_⟩
    rwa [if_pos herr]
  · rw [if_neg herr] at heff
    subst heff
    have h₂ : Knows table phase (s₁.note (.created ch false)) := by
      refine h₁.note (h₁.logged.keep ?_ trivial (fun _ => rfl) ?_ (by simp) fun _ _ hs => hs)
        (fun _ => rfl) (by simp)
      · exact ⟨(h₁.logged.open_eq ch).trans (by rw [hidle]; rfl),
          (h₁.logged.alive_eq ch).trans (by rw [hidle]; rfl)⟩
      · exact fun c => by simp [isAlive]
    refine ⟨⟨_, h₂⟩, List.mem_cons_of_mem _ hacted₁, ?_⟩
    rwa [if_neg herr]

theorem start_sat (hidle : phase ch = .idle) (h : Knows table phase s)
    (hacted : .acted ∈ s.shared.log) :
    Sat ((robotWorld table).seen (onThread ch)) (Safe table)
      (MotorThread.start (threadOf table ch))
      (fun r s' => r.2.motors = bindingsPerCh table ch ∧ r.2.started = decide (r.1 = 0) ∧
        .acted ∈ s'.shared.log ∧
        Knows table (if r.1 = 0 then Function.update phase ch .running else phase) s') s := by
  refine (enableAll_sat hidle _ (fun _ hb => hb) h hacted).bind fun _ s₁ h₁ => ?_
  refine (create_sat hidle h₁.1 h₁.2).bind fun err s₂ h₂ => ?_
  by_cases herr : err = 0
  · subst herr
    exact ⟨rfl, rfl, h₂⟩
  · simp only [ne_eq, herr, not_false_eq_true, if_true]
    exact ⟨rfl, by simp [herr, threadOf], h₂.1, by simpa [herr] using h₂.2⟩

theorem stopFrame_sat {α : Type} {Q : α → Robot → Prop} (hjoined : phase ch = .joined)
    {b : MotorBinding} (hb : b ∈ bindingsPerCh table ch) {k : TPCANStatus → SysM α}
    (h : Knows table phase s)
    (hk : ∀ sts s', Knows table phase s' →
      (∀ k : Fin numChannels × UInt8, k.1 = ch →
        stopsSince k s.shared.log ≤ stopsSince k s'.shared.log) →
      stopsSince b.key s.shared.log + 1 ≤ stopsSince b.key s'.shared.log →
      Sat ((robotWorld table).seen (onThread ch)) (Safe table) (k sts) Q s') :
    Sat ((robotWorld table).seen (onThread ch)) (Safe table)
      (.call (I := Sys) (.canWrite b.motor.can (b.motor.hostFrame .stop zeroData)) k) Q s := by
  refine sat_method h fun s₁ h₁ hlater sts s' heff => ?_
  obtain rfl : s' = _ := heff
  have h₂ := h₁.write ch (by rw [hjoined]; rfl) (by rw [hjoined]; rfl)
    (by rw [hjoined]; rfl) hb (.inr rfl)
  have hkeep : ∀ k : Fin numChannels × UInt8, k.1 = ch →
      stopsSince k s₁.shared.log = stopsSince k s.shared.log := fun k hk =>
    hlater.stops k (by rw [hk, hjoined]; rfl)
  refine ⟨⟨phase, h₂⟩, hk sts _ h₂ (fun k hk => ?_) ?_⟩
  · rw [← hkeep k hk]
    exact stopsSince_stop (b.motor.hostFrame_commType .stop zeroData)
  · have hkey := hkeep b.key (can_of_mem hb)
    have hown : stopsSince b.key (.wrote none b.key.1 (b.motor.hostFrame .stop zeroData) ::
        s₁.shared.log) = stopsSince b.key s₁.shared.log + 1 :=
      stopsSince_own (b.motor.hostFrame_commType .stop zeroData)
        (b.motor.hostFrame_destinationId .stop zeroData)
    exact Nat.le_of_eq (by rw [← hkey]; exact hown.symm)

/-- One STOP frame to each motor, twice. -/
theorem stopAll_sat (hjoined : phase ch = .joined) (motors : List MotorBinding)
    (hmotors : ∀ b ∈ motors, b ∈ bindingsPerCh table ch) (h : Knows table phase s) :
    Sat ((robotWorld table).seen (onThread ch)) (Safe table) (MotorThread.stopAll motors)
      (fun _ s' => Knows table phase s' ∧
        (∀ k : Fin numChannels × UInt8, k.1 = ch →
          stopsSince k s.shared.log ≤ stopsSince k s'.shared.log) ∧
        ∀ b ∈ motors, 2 ≤ stopsSince b.key s'.shared.log) s := by
  induction motors generalizing s with
  | nil => exact ⟨h, fun _ _ => Nat.le_refl _, by simp⟩
  | cons b rest ih =>
      have hb := hmotors b List.mem_cons_self
      refine stopFrame_sat hjoined hb h fun _ s₁ h₁ hmono₁ htwo₁ => ?_
      refine stopFrame_sat hjoined hb h₁ fun _ s₂ h₂ hmono₂ htwo₂ => ?_
      refine (ih (fun b' hb' => hmotors b' (List.mem_cons_of_mem _ hb')) h₂).mono ?_
      rintro _ s₃ ⟨h₃, hmono₃, hrest⟩
      refine ⟨h₃, fun k hk => (hmono₁ k hk).trans ((hmono₂ k hk).trans (hmono₃ k hk)), ?_⟩
      intro b' hb'
      rcases List.mem_cons.mp hb' with rfl | hb'
      · have := hmono₃ b'.key (can_of_mem hb)
        omega
      · exact hrest b' hb'

theorem stop_sat {t : MotorThread} (hmotors : t.motors = bindingsPerCh table ch)
    (hstarted : t.started = true → phase ch = .running) (h : Knows table phase s) :
    Sat ((robotWorld table).seen (onThread ch)) (Safe table) (MotorThread.stop t)
      (fun t' s' => t'.motors = bindingsPerCh table ch ∧ t'.started = false ∧
        Knows table (if t.started then Function.update phase ch .stopped else phase) s') s := by
  unfold MotorThread.stop
  cases hst : t.started with
  | false => exact ⟨hmotors, hst, h⟩
  | true =>
      have hrunning := hstarted hst
      refine sat_method h fun s₁ h₁ _ _ s' heff => ?_
      obtain rfl : s' = _ := heff
      refine ⟨⟨phase, h₁.raise⟩, ?_⟩
      refine sat_method h₁.raise fun s₂ h₂ hlater _ s' heff => ?_
      obtain ⟨_, -, rfl⟩ := heff
      have hraised : .raised ∈ s₂.shared.log := hlater.grows _ List.mem_cons_self
      have h₃ : Knows table (Function.update phase ch .joined)
          ⟨Function.update s₂.threads ch none, s₂.shared.note (.joined ch)⟩ := by
        refine ⟨h₂.logged.joined hrunning hraised, fun c => ?_, fun c p hp => ?_, fun c hc => ?_,
          fun hmem => ?_⟩
        · rcases eq_or_ne c ch with rfl | hne
          · simp [Phase.isAlive]
          · simpa [Function.update_of_ne hne] using h₂.thread_eq c
        · replace hp : Function.update s₂.threads ch none c = some p := hp
          rcases eq_or_ne c ch with rfl | hne
          · rw [Function.update_self] at hp
            cases hp
          · rw [Function.update_of_ne hne] at hp
            exact h₂.disciplined c p hp
        · rcases eq_or_ne c ch with rfl | hne
          · simp [Phase.isAlive] at hc
          · rw [Function.update_of_ne hne] at hc
            exact List.mem_cons_of_mem _ (h₂.acted c hc)
        · exact h₂.hold ((List.mem_cons.mp hmem).resolve_left (by simp))
      refine ⟨⟨_, h₃⟩, ?_⟩
      rw [hmotors]
      refine (stopAll_sat (Function.update_self ..) _ (fun _ hb => hb) h₃).bind ?_
      rintro _ s₄ ⟨h₄, -, htwo⟩
      have hrest := h₄.logged.rest (Function.update_self ..) htwo
      rw [Function.update_idem] at hrest
      refine ⟨rfl, rfl, hrest, fun c => ?_, h₄.disciplined, fun c hc => h₄.acted c ?_, h₄.hold⟩
      · rw [h₄.thread_eq c]
        rcases eq_or_ne c ch with rfl | hne
        · simp [Phase.isAlive]
        · simp [hne]
      · rcases eq_or_ne c ch with rfl | hne
        · simp [Phase.isAlive] at hc
        · simpa [hne] using hc

end methods

/-! ### The program -/

section program
variable {table : List MotorMapEntry} {phase : Phases} {s : Robot}

/-- The objects that were made, and the threads that run. -/
structure Covers (table : List MotorMapEntry) (threads : Objects) (phase : Phases) : Prop where
  nodup : (threads.map Prod.fst).Nodup
  motors : ∀ x ∈ threads, x.2.motors = bindingsPerCh table x.1
  running_iff : ∀ ch, phase ch = .running ↔ ∃ x ∈ threads, x.1 = ch ∧ x.2.started = true

/-- The phases after all threads were stopped. -/
def ended (phase : Phases) : Phases := fun ch => if phase ch = .running then .stopped else phase ch

theorem ended_eq_self (h : ∀ ch, phase ch ≠ .running) : ended phase = phase :=
  funext fun ch => if_neg (h ch)

theorem Covers.tail {ch : Fin numChannels} {t : MotorThread} {rest : Objects}
    (h : Covers table ((ch, t) :: rest) phase) :
    Covers table rest (if t.started then Function.update phase ch .stopped else phase) ∧
      ended (if t.started then Function.update phase ch .stopped else phase) = ended phase := by
  have hnodup := List.nodup_cons.mp h.nodup
  have hmem : ∀ x ∈ rest, x.1 ≠ ch := fun x hx heq => hnodup.1 (List.mem_map.mpr ⟨x, hx, heq⟩)
  cases hst : t.started with
  | true =>
      refine ⟨⟨hnodup.2, fun x hx => h.motors x (List.mem_cons_of_mem _ hx), fun c => ?_⟩, ?_⟩
      · rcases eq_or_ne c ch with rfl | hne
        · simpa using fun t ht => absurd rfl (hmem (c, t) ht)
        · simp only [if_true, Function.update_of_ne hne, h.running_iff c, List.mem_cons]
          constructor
          · rintro ⟨x, rfl | hx, hxc, hxs⟩
            · exact absurd hxc.symm hne
            · exact ⟨x, hx, hxc, hxs⟩
          · rintro ⟨x, hx, hxc, hxs⟩
            exact ⟨x, .inr hx, hxc, hxs⟩
      · have hrunning : phase ch = .running :=
          (h.running_iff ch).mpr ⟨_, List.mem_cons_self, rfl, hst⟩
        funext c
        rcases eq_or_ne c ch with rfl | hne
        · simp [ended, hrunning]
        · simp [ended, hne]
  | false =>
      refine ⟨⟨hnodup.2, fun x hx => h.motors x (List.mem_cons_of_mem _ hx), fun c => ?_⟩, rfl⟩
      simp only [Bool.false_eq_true, if_false, h.running_iff c, List.mem_cons]
      constructor
      · rintro ⟨x, rfl | hx, hxc, hxs⟩
        · rw [hst] at hxs
          cases hxs
        · exact ⟨x, hx, hxc, hxs⟩
      · rintro ⟨x, hx, hxc, hxs⟩
        exact ⟨x, .inr hx, hxc, hxs⟩

theorem Covers.started {ch : Fin numChannels} {t : MotorThread} {rest : Objects}
    (h : Covers table ((ch, t) :: rest) phase) : t.started = true → phase ch = .running :=
  fun hst => (h.running_iff ch).mpr ⟨_, List.mem_cons_self, rfl, hst⟩

theorem Covers.ended_nil (h : Covers table [] phase) : ended phase = phase := by
  refine ended_eq_self fun ch hch => ?_
  obtain ⟨x, hx, -⟩ := (h.running_iff ch).mp hch
  cases hx

theorem stopThreads_sat (threads : Objects) (hcovers : Covers table threads phase)
    (h : Knows table phase s) :
    Sat (robotWorld table) (Safe table) (stopThreads threads)
      (fun threads' s' => Knows table (ended phase) s' ∧
        threads'.map Prod.fst = threads.map Prod.fst ∧
        (∀ x ∈ threads', x.2.motors = bindingsPerCh table x.1) ∧
        ∀ x ∈ threads', x.2.started = false) s := by
  induction threads generalizing phase s with
  | nil =>
      rw [hcovers.ended_nil]
      exact ⟨h, rfl, by simp, by simp⟩
  | cons x rest ih =>
      obtain ⟨ch, t⟩ := x
      obtain ⟨hrest, hended⟩ := hcovers.tail
      refine (sat_through.mpr (stop_sat (hcovers.motors _ List.mem_cons_self) hcovers.started
        h)).bind ?_
      rintro t' s₁ ⟨hm, hst, h₁⟩
      refine (ih hrest h₁).bind ?_
      rintro rest' s₂ ⟨h₂, hmap, hms, hsts⟩
      rw [hended] at h₂
      refine ⟨h₂, by simp [hmap], ?_, ?_⟩
      · exact List.forall_mem_cons.mpr ⟨hm, hms⟩
      · exact List.forall_mem_cons.mpr ⟨hst, hsts⟩

/-- The destructors stop the threads that still run. -/
theorem destroyThreads_sat (threads : Objects) (hcovers : Covers table threads phase)
    (h : Knows table phase s) :
    Sat (robotWorld table) (Safe table) (destroyThreads threads)
      (fun _ s' => Knows table (ended phase) s') s := by
  induction threads generalizing phase s with
  | nil =>
      rw [hcovers.ended_nil]
      exact h
  | cons x rest ih =>
      obtain ⟨ch, t⟩ := x
      obtain ⟨hrest, hended⟩ := hcovers.tail
      have hdestroy : MotorThread.destroy t = MotorThread.stop t := by
        unfold MotorThread.destroy MotorThread.stop
        cases t.started <;> rfl
      refine (sat_through.mpr (hdestroy ▸ stop_sat (hcovers.motors _ List.mem_cons_self)
        hcovers.started h)).bind ?_
      rintro t' s₁ ⟨-, -, h₁⟩
      rw [← hended]
      exact ih hrest h₁

/-- All threads run, or those up to one that could not be started. -/
theorem startThreads_sat (rest : List (Fin numChannels)) {threads : Objects}
    (hnodup : (rest ++ threads.map Prod.fst).Nodup) (hcovers : Covers table threads phase)
    (hphase : ∀ ch, phase ch = .running ∨ phase ch = .idle ∧ ch ∈ rest)
    (h : Knows table phase s) (hacted : .acted ∈ s.shared.log) :
    Sat (robotWorld table) (Safe table) (startThreads table rest threads)
      (fun r s' => ∃ phase', Knows table phase' s' ∧ Covers table r.2 phase' ∧
        (∀ ch, phase' ch = .running ∨ phase' ch = .idle) ∧
        (r.1 = true ↔ ∀ ch, phase' ch = .running)) s := by
  induction rest generalizing threads phase s with
  | nil =>
      have hrunning : ∀ ch, phase ch = .running := fun ch =>
        (hphase ch).resolve_right fun h => by cases h.2
      exact ⟨phase, h, hcovers, fun ch => .inl (hrunning ch), by simpa using hrunning⟩
  | cons ch rest ih =>
      obtain ⟨hnew, hnodup'⟩ := List.nodup_cons.mp hnodup
      have hfresh : ∀ x ∈ threads, x.1 ≠ ch := fun x hx heq =>
        hnew (List.mem_append_right _ (List.mem_map.mpr ⟨x, hx, heq⟩))
      have hidle : phase ch = .idle := by
        refine ((hphase ch).resolve_left fun hrun => ?_).1
        obtain ⟨x, hx, hxc, -⟩ := (hcovers.running_iff ch).mp hrun
        exact hfresh x hx hxc
      refine (sat_through.mpr (start_sat hidle h hacted)).bind ?_
      rintro ⟨err, t⟩ s₁ ⟨hm, hst, hacted₁, h₁⟩
      have hnodupc : (((ch, t) :: threads).map Prod.fst).Nodup :=
        List.nodup_cons.mpr ⟨fun hmem => hnew (List.mem_append_right _ hmem), hcovers.nodup⟩
      have hmotors : ∀ x ∈ (ch, t) :: threads, x.2.motors = bindingsPerCh table x.1 :=
        List.forall_mem_cons.mpr ⟨hm, hcovers.motors⟩
      by_cases herr : err = 0
      · subst herr
        have hcovers' : Covers table ((ch, t) :: threads) (Function.update phase ch .running) := by
          refine ⟨hnodupc, hmotors, fun c => ?_⟩
          rcases eq_or_ne c ch with rfl | hne
          · simpa using Or.inl hst
          · simp [hne, hne.symm, hcovers.running_iff c]
        refine ih ?_ hcovers' (fun c => ?_) h₁ hacted₁
        · simpa [List.nodup_middle] using hnodup
        · rcases eq_or_ne c ch with rfl | hne
          · exact .inl (Function.update_self ..)
          · rw [Function.update_of_ne hne]
            exact (hphase c).imp_right fun hc =>
              ⟨hc.1, (List.mem_cons.mp hc.2).resolve_left hne⟩
      · simp only [herr, if_false] at h₁ hst
        have hcovers' : Covers table ((ch, t) :: threads) phase := by
          refine ⟨hnodupc, hmotors, fun c => ?_⟩
          simp [hcovers.running_iff c, hst]
        simp only [ne_eq, herr, not_false_eq_true, if_true]
        refine sat_robot h₁ fun s₂ h₂ _ _ s' heff => ?_
        obtain rfl : s' = _ := heff
        refine ⟨⟨phase, h₂.raise⟩, phase, h₂.raise, hcovers',
          fun c => (hphase c).imp_right And.left, ?_⟩
        simpa using ⟨ch, by rw [hidle]; simp⟩

def IsMonitor : RobotCall → Prop
  | .sys .loadShutdown | .sys .steadyNow | .sys (.sleepFor _) | .loadChannel _ | .report _ => True
  | _ => False

theorem loadChannels_only (chs : List (Fin numChannels)) (states : Fin numChannels → ChannelState) :
    (loadChannels chs states).Only IsMonitor := by
  induction chs generalizing states with
  | nil => trivial
  | cons ch rest ih => exact ⟨trivial, fun state => ih _⟩

theorem monitor_only (start : ℤ) (n : ℕ) : (monitor start n).Only IsMonitor := by
  induction n with
  | zero => trivial
  | succ n ih =>
      refine ⟨trivial, fun shutdown => ?_⟩
      cases shutdown with
      | true => trivial
      | false =>
          refine ⟨trivial, fun now => ?_⟩
          show Prog.Only _ (ite _ _ _)
          split
          · trivial
          · refine (loadChannels_only _ _).bind fun states => ?_
            exact ⟨trivial, fun _ => ⟨trivial, fun _ => ih⟩⟩

/-- What only monitors changes nothing that is known. -/
theorem monitors_sat {α : Type} {p : RobotM α} (hp : p.Only IsMonitor)
    (h : Knows table phase s) :
    Sat (robotWorld table) (Safe table) p (fun _ s' => Knows table phase s') s := by
  refine hp.sat (fun s c r s' hc h hw => ?_) h
  obtain ⟨s₁, hback, heff⟩ := hw
  obtain ⟨h₁, -⟩ := h.background hback
  have heq : s' = s₁ := by
    cases c with
    | loadChannel ch => exact heff.2
    | report state => exact heff
    | sys c =>
        cases c with
        | loadShutdown => exact heff.2
        | steadyNow => exact heff
        | sleepFor ns => exact heff
        | _ => exact hc.elim
    | _ => exact hc.elim
  rw [heq]
  exact ⟨⟨phase, h₁⟩, h₁⟩

/-- The part of `main` in which all channels are open. -/
theorem session_sat (n : ℕ) (h : Knows table (fun _ => .idle) s) :
    Sat (robotWorld table) (Safe table) (session table n)
      (fun r s' => ∃ phase', Knows table phase' s' ∧
        (∀ ch, phase' ch = .idle ∨ phase' ch = .stopped) ∧ (r = 0 ∨ r = 1) ∧
        (r = 0 ↔ ∀ ch, phase' ch = .stopped)) s := by
  refine sat_robot h fun s₁ h₁ _ now s' heff => ?_
  obtain rfl : s' = s₁ := heff
  refine ⟨⟨_, h₁⟩, ?_⟩
  refine sat_robot h₁ fun s₂ h₂ _ _ s' heff => ?_
  obtain rfl : s' = _ := heff
  have h₃ := h₂.act (fun _ => rfl) now.toNs
  refine ⟨⟨_, h₃⟩, ?_⟩
  have hcovers : Covers table [] fun _ => Phase.idle := ⟨by simp, by simp, by simp⟩
  refine (startThreads_sat (List.finRange numChannels) (by simp [List.nodup_finRange]) hcovers
    (fun ch => .inr ⟨rfl, List.mem_finRange ch⟩) h₃ List.mem_cons_self).bind ?_
  rintro ⟨ok, threads⟩ s₄ ⟨phase', h₄, hcovers', hphase, hok⟩
  have hended : ∀ ch, ended phase' ch = .idle ∨ ended phase' ch = .stopped := fun ch => by
    rcases hphase ch with hch | hch <;> simp [ended, hch]
  have hstopped : (∀ ch, ended phase' ch = .stopped) ↔ ∀ ch, phase' ch = .running := by
    refine forall_congr' fun ch => ?_
    rcases hphase ch with hch | hch <;> simp [ended, hch]
  cases ok with
  | false =>
      refine (destroyThreads_sat threads hcovers' h₄).bind fun _ s₅ h₅ => ?_
      refine ⟨_, h₅, hended, .inr rfl, ?_⟩
      rw [hstopped, ← hok]
      simp
  | true =>
      refine sat_robot h₄ fun s₅ h₅ _ start s' heff => ?_
      obtain rfl : s' = s₅ := heff
      refine ⟨⟨_, h₅⟩, ?_⟩
      refine (monitors_sat (monitor_only start n) h₅).bind fun _ s₆ h₆ => ?_
      refine sat_robot h₆ fun s₇ h₇ _ _ s' heff => ?_
      obtain rfl : s' = _ := heff
      refine ⟨⟨_, h₇.raise⟩, ?_⟩
      have hreverse : Covers table threads.reverse phase' := by
        refine ⟨?_, by simpa using hcovers'.motors, by simpa using hcovers'.running_iff⟩
        rw [List.map_reverse, List.nodup_reverse]
        exact hcovers'.nodup
      refine (stopThreads_sat _ hreverse h₇.raise).bind ?_
      rintro threads' s₈ ⟨h₈, hmap, hms, hsts⟩
      have hdone : Covers table threads'.reverse (ended phase') := by
        refine ⟨?_, by simpa using hms, fun ch => ?_⟩
        · rw [List.map_reverse, List.nodup_reverse, hmap]
          exact hreverse.nodup
        · refine iff_of_false ?_ ?_
          · rcases hended ch with hch | hch <;> simp [hch]
          · rintro ⟨x, hx, -, hxs⟩
            rw [hsts x (List.mem_reverse.mp hx)] at hxs
            cases hxs
      refine (destroyThreads_sat _ hdone h₈).bind fun _ s₉ h₉ => ?_
      have hsame : ended (ended phase') = ended phase' :=
        ended_eq_self fun ch => by rcases hended ch with hch | hch <;> simp [hch]
      rw [hsame] at h₉
      refine ⟨_, h₉, hended, .inl rfl, ?_⟩
      rw [hstopped, ← hok]
      simp

/-- The channels are opened, up to one that cannot be. -/
theorem openChannels_sat (rest : List (Fin numChannels)) {opened : List (Fin numChannels)}
    (hnodup : (rest ++ opened).Nodup)
    (hphase : ∀ ch, phase ch = if ch ∈ opened then .idle else .unopened)
    (hall : ∀ ch, ch ∈ rest ∨ ch ∈ opened) (h : Knows table phase s) :
    Sat (robotWorld table) (Safe table) (openChannels rest opened)
      (fun r s' => r.2.Nodup ∧ (r.1 = true ↔ ∀ ch, ch ∈ r.2) ∧
        Knows table (fun ch => if ch ∈ r.2 then .idle else .unopened) s') s := by
  induction rest generalizing opened phase s with
  | nil =>
      have hmem : ∀ ch, ch ∈ opened := fun ch => (hall ch).resolve_left (by simp)
      exact ⟨by simpa using hnodup, by simpa using hmem, funext hphase ▸ h⟩
  | cons ch rest ih =>
      obtain ⟨hnew, hnodup'⟩ := List.nodup_cons.mp hnodup
      have hch : phase ch = .unopened := by
        rw [hphase, if_neg fun hmem => hnew (List.mem_append_right _ hmem)]
      refine sat_robot h fun s₁ h₁ _ sts s' heff => ?_
      by_cases hok : sts = pcanErrorOk
      · obtain rfl : s' = s₁.note (.opened ch) := by simpa [mainEffect, hok] using heff
        have h₂ := h₁.opened hch
        refine ⟨⟨_, h₂⟩, ?_⟩
        show Sat _ _ (ite _ _ _) _ _
        rw [if_pos (by simp [hok])]
        refine ih ?_ (fun c => ?_) (fun c => ?_) h₂
        · simpa [List.nodup_middle] using hnodup
        · rcases eq_or_ne c ch with rfl | hne
          · simp
          · simp [hne, hphase c]
        · rcases hall c with hc | hc
          · rcases List.mem_cons.mp hc with rfl | hc
            · exact .inr List.mem_cons_self
            · exact .inl hc
          · exact .inr (List.mem_cons_of_mem _ hc)
      · obtain rfl : s' = s₁ := by simpa [mainEffect, hok] using heff
        refine ⟨⟨_, h₁⟩, ?_⟩
        show Sat _ _ (ite _ _ _) _ _
        rw [if_neg (by simpa using hok)]
        refine ⟨(List.nodup_append.mp hnodup').2.1, ?_, funext hphase ▸ h₁⟩
        simpa using ⟨ch, fun hmem => hnew (List.mem_append_right _ hmem)⟩

/-- The destructors of the channels. -/
theorem closeChannels_sat (opened : List (Fin numChannels)) (hnodup : opened.Nodup)
    (hphase : ∀ ch ∈ opened, phase ch = .idle ∨ phase ch = .stopped) (h : Knows table phase s) :
    Sat (robotWorld table) (Safe table) (closeChannels opened)
      (fun _ s' => Knows table (fun ch => if ch ∈ opened then (phase ch).close else phase ch) s')
      s := by
  induction opened generalizing phase s with
  | nil => simpa [closeChannels] using h
  | cons ch rest ih =>
      obtain ⟨hnew, hnodup'⟩ := List.nodup_cons.mp hnodup
      have hch := hphase ch List.mem_cons_self
      refine sat_robot h fun s₁ h₁ _ _ s' heff => ?_
      obtain rfl : s' = _ := heff
      have h₂ : Knows table (Function.update phase ch (phase ch).close)
          (s₁.note (.closed ch)) := by
        refine h₁.note (h₁.logged.closed hch) (fun c => ?_) (by simp)
        rcases eq_or_ne c ch with rfl | hne
        · rcases hch with hch | hch <;> simp [hch, Phase.close, Phase.isAlive]
        · rw [Function.update_of_ne hne]
      refine ⟨⟨_, h₂⟩, (ih hnodup' (fun c hc => ?_) h₂).mono fun _ s₃ h₃ => ?_⟩
      · have hne : c ≠ ch := fun heq => hnew (heq ▸ hc)
        rw [Function.update_of_ne hne]
        exact hphase c (List.mem_cons_of_mem _ hc)
      · convert h₃ using 1
        funext c
        rcases eq_or_ne c ch with rfl | hne
        · simp [hnew]
        · simp [hne]

theorem main_sat (n : ℕ) (h : Knows table (fun _ => .unopened) s) :
    Sat (robotWorld table) (Safe table) (main table n)
      (fun r s' => (r = 0 ∨ r = 1) ∧ ∃ phase', Knows table phase' s' ∧
        (∀ ch, (phase' ch).isOpen = false ∧ (phase' ch).isAlive = false ∧
          (phase' ch).made = (phase' ch).settled) ∧
        (r = 0 ↔ ∀ ch, (phase' ch).made = true)) s := by
  refine (openChannels_sat (List.finRange numChannels) (by simp [List.nodup_finRange]) (by simp)
    (fun ch => .inl (List.mem_finRange ch)) h).bind ?_
  rintro ⟨ok, opened⟩ s₁ ⟨hnodup, hok, h₁⟩
  cases ok with
  | false =>
      refine (closeChannels_sat opened hnodup (fun ch hch => .inl (if_pos hch)) h₁).bind ?_
      intro _ s₂ h₂
      refine ⟨.inr rfl, _, h₂, fun ch => ?_, ?_⟩
      · by_cases hch : ch ∈ opened <;>
          simp [hch, Phase.close, Phase.isOpen, Phase.isAlive, Phase.made, Phase.settled]
      · refine iff_of_false (by simp) fun hmade => ?_
        have hch := hmade 0
        by_cases hmem : (0 : Fin numChannels) ∈ opened <;>
          simp [hmem, Phase.close, Phase.made] at hch
  | true =>
      have hmem : ∀ ch, ch ∈ opened := hok.mp rfl
      have hphase : (fun ch => if ch ∈ opened then Phase.idle else .unopened) = fun _ => .idle :=
        funext fun ch => if_pos (hmem ch)
      rw [hphase] at h₁
      refine (session_sat n h₁).bind ?_
      rintro code s₂ ⟨phase', h₂, hended, hcode, hstopped⟩
      refine (closeChannels_sat opened hnodup (fun ch _ => hended ch) h₂).bind ?_
      intro _ s₃ h₃
      simp only [hmem, if_true] at h₃
      refine ⟨hcode, _, h₃, fun ch => ?_, ?_⟩
      · rcases hended ch with hch | hch <;>
          simp [hch, Phase.close, Phase.isOpen, Phase.isAlive, Phase.made, Phase.settled]
      · rw [hstopped]
        refine forall_congr' fun ch => ?_
        rcases hended ch with hch | hch <;> simp [hch, Phase.close, Phase.made]

theorem knows_init (table : List MotorMapEntry) :
    Knows table (fun _ => .unopened) Robot.init where
  logged := ⟨each_nil, by simp [Robot.init], fun _ => rfl, fun _ => rfl,
    fun ch => by simp [Robot.init, Phase.made], fun ch hch => by cases hch⟩
  thread_eq := fun _ => rfl
  disciplined := fun t p hp => by cases hp
  acted := fun ch hch => by cases hch
  hold := fun hmem => by cases hmem

/-- **Nothing is used by two at once, or when it is not there.**  At every moment of every run,
whatever the threads do between the calls of `main`, whatever signals come and whatever the driver
and `pthread_create` answer: a channel is initialized at most once at a time and is used only while
it is; it is used by its thread from the creation to the join, and else by `main`; a slot is
written by its own thread alone, and the action before there are threads; and `main` joins a thread
only when the flag was raised.  The frames are ENABLE and STOP of `main` for the motors of the
channel, and the threads' commands to hold. -/
theorem exclusive_use {n : ℕ} {o : Option ℤ} {s' : Robot}
    (h : Runs (robotWorld table) (main table n) Robot.init s o) (hs' : Background s s') :
    Each Proper s'.shared.log ∧ ∀ e ∈ s'.shared.log, Lawful table e := by
  obtain ⟨⟨phase, hknows⟩, -⟩ := h.sat (main_sat n (knows_init table)) ⟨_, knows_init table⟩
  obtain ⟨h', -⟩ := hknows.background hs'
  exact ⟨h'.logged.proper, h'.logged.lawful⟩

/-- **The program leaves nothing behind.**  When `main` has returned, no channel is initialized,
no thread is left, and the last two frames or more to each motor of a channel for which a thread
was created were STOP frames; the exit code is 0 or 1, and 0 exactly if all four threads were
created. -/
theorem safe_exit {n : ℕ} {code : ℤ}
    (h : Runs (robotWorld table) (main table n) Robot.init s (some code)) :
    (∀ ch, isOpen ch s.shared.log = false ∧ s.threads ch = none) ∧
    (∀ ch, .created ch true ∈ s.shared.log → Stopped table ch s.shared.log) ∧
    (code = 0 ∨ code = 1) ∧ (code = 0 ↔ ∀ ch, .created ch true ∈ s.shared.log) := by
  obtain ⟨-, hpost⟩ := h.sat (main_sat n (knows_init table)) ⟨_, knows_init table⟩
  obtain ⟨hcode, phase, hknows, hphase, hmade⟩ := hpost code rfl
  refine ⟨fun ch => ⟨?_, ?_⟩, fun ch hch => ?_, hcode, ?_⟩
  · rw [hknows.logged.open_eq, (hphase ch).1]
  · have := hknows.thread_eq ch
    rw [(hphase ch).2.1] at this
    simpa using this
  · refine hknows.logged.settled ch ?_
    rw [← (hphase ch).2.2]
    exact (hknows.logged.made_iff ch).mp hch
  · rw [hmade]
    exact forall_congr' fun ch => (hknows.logged.made_iff ch).symm

end program

/-! ### A thread that is created and one that is not -/

def kneeTable : List MotorMapEntry := [⟨0, 4, JointIdx.rKneePitch, "R_knee_pitch"⟩]

/-- A call of `main` after something has happened beside it. -/
theorem call_beside {α : Type} {table : List MotorMapEntry} {c : RobotCall}
    {k : c.Resp → RobotM α} {s s₁ s₂ s₃ : Robot} {o : Option α} (r : c.Resp)
    (hbeside : Background s s₁) (heff : mainEffect table s₁ c r s₂)
    (h : Runs (robotWorld table) (k r) s₂ s₃ o) : Runs (robotWorld table) (.call c k) s s₃ o :=
  .call ⟨s₁, hbeside, heff⟩ h

theorem call_alone {α : Type} {table : List MotorMapEntry} {c : RobotCall} {k : c.Resp → RobotM α}
    {s s₁ s₂ : Robot} {o : Option α} (r : c.Resp) (heff : mainEffect table s c r s₁)
    (h : Runs (robotWorld table) (k r) s₁ s₂ o) : Runs (robotWorld table) (.call c k) s s₂ o :=
  call_beside r .refl heff h

theorem thread_beside {threads : Fin numChannels → Option (SysM MotorThread)}
    {shared shared' : Shared} (ch : Fin numChannels) {c : SysCall} {k : c.Resp → SysM MotorThread}
    (r : c.Resp) (ht : threads ch = some (.call (I := Sys) c k))
    (hw : threadWorld ch shared c r shared') {s : Robot}
    (h : Background ⟨Function.update threads ch (some (k r)), shared'⟩ s) :
    Background ⟨threads, shared⟩ s :=
  .head (.thread (.call ht hw)) h

theorem create_effect (table : List MotorMapEntry) (ch : Fin numChannels) (n : ℕ) (s : Robot) :
    mainEffect table s (.onThread ch .pthreadCreate) (0 : ℤ)
      ⟨Function.update s.threads ch (some (MotorThread.run (fun _ => {}) n (threadOf table ch))),
        { s.shared.note (.created ch true) with
          startedSince := Function.update s.shared.startedSince ch 0 }⟩ := ⟨_, _, rfl⟩

/-- The thread of the motor is created and completes a cycle; that of channel 1 cannot be created,
so the first one is joined and the motor is stopped. -/
theorem failing_run : ∃ s, Runs (robotWorld kneeTable) (main kneeTable 0) Robot.init s (some 1) ∧
    .created 0 true ∈ s.shared.log ∧ ∃ msg, .wrote (some 0) 0 msg ∈ s.shared.log := by
  have hclock : ∀ shared, threadWorld 0 shared .clockGettime (⟨0, 0⟩ : Timespec) shared :=
    fun _ => rfl
  have hlook : ∀ shared, threadWorld 0 shared .loadShutdown shared.flag shared :=
    fun _ => ⟨rfl, rfl⟩
  have hload : ∀ shared, threadWorld 0 shared .loadAction shared.action _ := fun _ => ⟨rfl, rfl⟩
  have hwrite : ∀ (shared : Shared) (msg : TPCANMsg), threadWorld 0 shared (.canWrite 0 msg)
      pcanErrorOk (shared.note (.wrote (some 0) 0 msg)) := fun _ _ => rfl
  have hread : ∀ shared, threadWorld 0 shared (.canRead 0) (pcanErrorQrcvEmpty, {})
      (shared.note (.read (some 0) 0)) := fun _ => rfl
  have hstore : ∀ (shared : Shared) (state : ChannelState),
      threadWorld 0 shared (.storeChannel 0 state) ()
        (Shared.note { shared with slot := Function.update shared.slot 0 state }
          (.published (some 0) 0)) := fun _ _ => rfl
  have hsleep : ∀ (shared : Shared) (wake : Timespec),
      threadWorld 0 shared (.clockNanosleep wake) () shared := fun _ _ => rfl
  have hrun : ∃ s, Runs (robotWorld kneeTable) (main kneeTable 0) Robot.init s (some 1) ∧
      s.shared.log[13]? = some (.created 0 true) ∧
      ∃ msg, s.shared.log[12]? = some (.wrote (some 0) 0 msg) := by
    exact ⟨_,
      call_alone pcanErrorOk rfl <| call_alone pcanErrorOk rfl <|
      call_alone pcanErrorOk rfl <| call_alone pcanErrorOk rfl <|
      call_alone (⟨0, 0⟩ : Timespec) rfl <| call_alone () rfl <|
      call_alone pcanErrorOk rfl <| call_alone (0 : ℤ) (create_effect _ 0 2 _) <|
      call_beside (11 : ℤ)
        (thread_beside 0 _ rfl (hclock _) <| thread_beside 0 _ rfl (hlook _) <|
          thread_beside 0 _ rfl (hload _) <| thread_beside 0 _ rfl (hwrite _ _) <|
          thread_beside 0 _ rfl (hread _) <| thread_beside 0 _ rfl (hclock _) <|
          thread_beside 0 _ rfl (hstore _ _) <| thread_beside 0 _ rfl (hclock _) <|
          thread_beside 0 _ rfl (hsleep _ _) .refl) rfl <|
      call_alone () rfl <| call_alone () rfl <|
      -- the thread sees the flag, and then it can be joined
      call_beside () (thread_beside 0 _ rfl (hlook _) .refl) ⟨_, rfl, rfl⟩ <|
      call_alone pcanErrorOk rfl <| call_alone pcanErrorOk rfl <|
      call_alone () rfl <| call_alone () rfl <| call_alone () rfl <| call_alone () rfl <| .ret _ _,
      rfl, _, rfl⟩
  obtain ⟨s, hrun, hcreated, msg, hwrote⟩ := hrun
  exact ⟨s, hrun, List.mem_of_getElem? hcreated, msg, List.mem_of_getElem? hwrote⟩

theorem safe_exit_failing : ∃ s,
    Runs (robotWorld kneeTable) (main kneeTable 0) Robot.init s (some 1) ∧
      (∃ msg, .wrote (some 0) 0 msg ∈ s.shared.log) ∧
      (∀ ch, isOpen ch s.shared.log = false ∧ s.threads ch = none) ∧
      Stopped kneeTable 0 s.shared.log := by
  obtain ⟨s, h, hcreated, hwrote⟩ := failing_run
  obtain ⟨hclosed, hstopped, -⟩ := safe_exit h
  exact ⟨s, h, hwrote, hclosed, hstopped 0 hcreated⟩

/-! ### A thread that has written its first command -/

/-- The motor is enabled and its thread is created. -/
theorem creating_run : ∃ s, Runs (robotWorld kneeTable) (main kneeTable 0) Robot.init s none ∧
    s.threads 0 = some (MotorThread.run (fun _ => {}) 1 (threadOf kneeTable 0)) ∧
    s.shared.flag = false ∧ s.shared.action = holdAction (⟨0, 0⟩ : Timespec).toNs ∧
    s.shared.startedSince 0 = 0 := by
  exact ⟨_,
    call_alone pcanErrorOk rfl <| call_alone pcanErrorOk rfl <|
    call_alone pcanErrorOk rfl <| call_alone pcanErrorOk rfl <|
    call_alone (⟨0, 0⟩ : Timespec) rfl <| call_alone () rfl <|
    call_alone pcanErrorOk rfl <| call_alone (0 : ℤ) (create_effect _ 0 1 _) <| .stop _ _,
    rfl, rfl, rfl, rfl⟩

/-- The thread commands the motor, beside `main`. -/
theorem first_command {s : Robot}
    (ht : s.threads 0 = some (MotorThread.run (fun _ => {}) 1 (threadOf kneeTable 0)))
    (hflag : s.shared.flag = false) {now : UInt64} (haction : s.shared.action = holdAction now) :
    ∃ s' msg, Background s s' ∧ .wrote (some 0) 0 msg ∈ s'.shared.log := by
  obtain ⟨threads, shared⟩ := s
  have hclock : threadWorld 0 shared .clockGettime (⟨0, 0⟩ : Timespec) shared := rfl
  have hlook : threadWorld 0 shared .loadShutdown false shared := ⟨hflag.symm, rfl⟩
  have hload : threadWorld 0 shared .loadAction (holdAction now) _ := ⟨haction.symm, rfl⟩
  have hwrite : ∀ (shared : Shared) (msg : TPCANMsg), threadWorld 0 shared (.canWrite 0 msg)
      pcanErrorOk (shared.note (.wrote (some 0) 0 msg)) := fun _ _ => rfl
  exact ⟨_, _, thread_beside 0 _ ht hclock <| thread_beside 0 _ rfl hlook <|
    thread_beside 0 _ rfl hload <| thread_beside 0 _ rfl (hwrite _ _) <| .refl,
    List.mem_cons_self⟩

/-- It was entitled to do so. -/
theorem exclusive_use_commanding : ∃ s s',
    Runs (robotWorld kneeTable) (main kneeTable 0) Robot.init s none ∧ Background s s' ∧
      ∃ msg, .wrote (some 0) 0 msg ∈ s'.shared.log ∧ Lawful kneeTable (.wrote (some 0) 0 msg) := by
  obtain ⟨s, h, ht, hflag, haction, -⟩ := creating_run
  obtain ⟨s', msg, hs', hmsg⟩ := first_command ht hflag haction
  exact ⟨s, s', h, hs', msg, hmsg, (exclusive_use h hs').2 _ hmsg⟩

end FourChannels

end Qub
