import QubController.Chosen
import QubController.Spacing

/-! # The rounds of the terminal program

In the world `ticking` every call may take any time, and a sleep may end late.  A round begins with
its read of the terminal.  A late round does not make the later ones hurry: the deadline moves with
it, so the rounds keep their distance, and in a window of `q` periods at most `q + 1` of them begin
(`rounds_spaced`). -/

namespace Qub

open Interaction Spacing

namespace PositionRead

structure Ticking where
  time : ℤ
  /-- The last reading of the clock. -/
  reading : ℤ := 0
  /-- The reads of the terminal, the last one first. -/
  rounds : List ℤ := []

/-- Time passes during the calls.  `sleep_until` is a sleep from the last reading of the clock. -/
def ticking : World Sys Ticking := fun s c r s' =>
  s.time ≤ s'.time ∧
  match c, r with
  | .steadyNow, now => s.time ≤ now ∧ now ≤ s'.time ∧ s'.reading = now ∧ s'.rounds = s.rounds
  | .sleepFor ns, _ => s.reading + ns ≤ s'.time ∧ s'.reading = s.reading ∧ s'.rounds = s.rounds
  | .readStdin, _ =>
      ∃ t, s.time ≤ t ∧ t ≤ s'.time ∧ s'.reading = s.reading ∧ s'.rounds = t :: s.rounds
  | _, _ => s'.reading = s.reading ∧ s'.rounds = s.rounds

/-- The rounds keep their distance. -/
def Paced (s : Ticking) : Prop := Spaced (ms controlPeriodMs) s.rounds

/-- No round begins, and no time is lost. -/
def SameRounds (s s' : Ticking) : Prop := s.time ≤ s'.time ∧ s'.rounds = s.rounds

/-- The invariant of the loop. -/
structure Rested (nextTick : ℤ) (s : Ticking) : Prop where
  reached : nextTick ≤ s.time
  below : Below (ms controlPeriodMs) nextTick s.rounds
  paced : Paced s

section rounds
variable {s s' : Ticking} {nextTick : ℤ}

theorem SameRounds.refl (s : Ticking) : SameRounds s s := ⟨le_rfl, rfl⟩

theorem SameRounds.trans {s'' : Ticking} (h : SameRounds s s') (h' : SameRounds s' s'') :
    SameRounds s s'' := ⟨h.1.trans h'.1, h'.2.trans h.2⟩

theorem SameRounds.paced (h : SameRounds s s') (hpaced : Paced s) : Paced s' := by
  rwa [Paced, h.2]

theorem sameRounds_call {c : SysCall} {r : c.Resp} (hc : c ≠ .readStdin) (h : ticking s c r s') :
    SameRounds s s' := by
  refine ⟨h.1, ?_⟩
  cases c with
  | readStdin => exact absurd rfl hc
  | steadyNow => exact h.2.2.2.2
  | sleepFor => exact h.2.2.2
  | _ => exact h.2.2

/-- A routine that does not read the terminal. -/
theorem sameRounds_sat {α : Type} {P : SysCall → Prop} {p : SysM α} {R : α → Prop}
    (hp : p.Obeys P R) (hP : ∀ c, P c → c ≠ .readStdin) (hpaced : Paced s) :
    Sat ticking Paced p (fun a s' => R a ∧ SameRounds s s') s := by
  refine hp.sat (fun s₁ c r s₂ hc h₁ hw => ?_) (.refl s)
  have h₂ := h₁.trans (sameRounds_call (hP c hc) hw)
  exact ⟨h₂.paced hpaced, h₂⟩

theorem Rested.later (h : Rested nextTick s) (hsame : SameRounds s s') : Rested nextTick s' :=
  ⟨h.reached.trans hsame.1, hsame.2 ▸ h.below, hsame.paced h.paced⟩

theorem Rested.read {bytes : List Char} (h : Rested nextTick s)
    (hw : ticking s .readStdin bytes s') :
    ∃ t, nextTick ≤ t ∧ t ≤ s'.time ∧ s'.rounds = t :: s.rounds ∧ Paced s' := by
  obtain ⟨-, t, hfrom, hto, -, hrounds⟩ := hw
  refine ⟨t, h.reached.trans hfrom, hto, hrounds, ?_⟩
  rw [Paced, hrounds]
  exact ⟨h.below.mono (h.reached.trans hfrom), h.paced⟩

/-- The deadline after a round that began at `t`. -/
theorem Rested.next (h : Rested nextTick s) {t deadline : ℤ} (hrounds : s'.rounds = t :: s.rounds)
    (ht : t ≤ deadline) (hdeadline : nextTick + ms controlPeriodMs ≤ deadline)
    (hpaced : Paced s') (hreached : deadline ≤ s'.time) : Rested deadline s' := by
  refine ⟨hreached, ?_, hpaced⟩
  rw [hrounds]
  exact ⟨ht, h.below.mono (by omega)⟩

end rounds

/-! ### The loop -/

section loop
variable {n : ℕ} {channels : Channels} {config : Config} {motors : Motors n} {s : Ticking}
  {K : Fin n → Place}

/-- Any frame may be written. -/
theorem allows_all (K : Fin n → Place) : Allows (fun _ _ => True) K (fun _ => True) :=
  ⟨fun _ => trivial, fun _ _ => trivial, fun _ _ => trivial⟩

theorem IsStep.not_readStdin {A : Place → CommType → Prop} {c : SysCall} (h : IsStep A c) :
    c ≠ .readStdin := by
  rintro rfl
  exact h

/-- By induction over the rounds. -/
theorem guiLoop_rested (fuel left tick : ℕ) (nextTick : ℤ) (running : Bool) {g : Gui n}
    (hmotors : Roster K (fun _ => True) g.motors) (h : Rested nextTick s) :
    Sat ticking Paced (guiLoop channels config fuel left tick nextTick running g)
      (fun r s' => Roster K (fun _ => True) (leftMotors id r) ∧ Paced s') s := by
  induction left generalizing tick nextTick running g s with
  | zero => trivial
  | succ left ih =>
      rw [guiLoop, loadRunning_bind]
      intro flag s₁ hw₁
      have h₁ := h.later (sameRounds_call (by simp) hw₁)
      refine ⟨h₁.paced, ?_⟩
      by_cases hleave : (!(running && flag)) = true
      · simp only [hleave, if_true]
        exact ⟨hmotors, h₁.paced⟩
      · simp only [hleave]
        intro bytes s₂ hw₂
        obtain ⟨t, hfrom, hto, hrounds, hpaced⟩ := h₁.read hw₂
        refine ⟨hpaced, ?_⟩
        have hkey := handleKey_step (A := fun _ _ => True) channels config fuel (readKey bytes)
          hmotors (allows_all K) fun _ _ _ => ⟨trivial, trivial, trivial⟩
        refine (sameRounds_sat hkey (fun _ => IsStep.not_readStdin) hpaced).bind ?_
        rintro r s₃ ⟨⟨hleft, -⟩, hsame₃⟩
        have hpaced₃ : Paced s₃ := hsame₃.paced hpaced
        cases r with
        | error motors => exact ⟨hleft, hpaced₃⟩
        | ok g₁ =>
            have hservice := serviceMotors_step (A := fun _ _ => True) channels config tick
              (readKey bytes) hleft (allows_all K)
            refine (sameRounds_sat hservice (fun _ => IsStep.not_readStdin) hpaced₃).bind ?_
            rintro r s₄ ⟨⟨hleft, -⟩, hsame₄⟩
            have hsame := hsame₃.trans hsame₄
            have hpaced₄ : Paced s₄ := hsame.paced hpaced
            cases r with
            | error motors => exact ⟨hleft, hpaced₄⟩
            | ok g₂ =>
                simp only [steadyNow_bind]
                intro now s₅ hw₅
                have hsame₅ := hsame.trans (sameRounds_call (by simp) hw₅)
                have hpaced₅ : Paced s₅ := hsame₅.paced hpaced
                obtain ⟨-, hfrom₅, hto₅, hreading, -⟩ := hw₅
                have ht : t ≤ now := hto.trans (hsame.1.trans hfrom₅)
                refine ⟨hpaced₅, ?_⟩
                by_cases hearly : now < nextTick + ms controlPeriodMs
                · simp only [hearly, if_true]
                  intro _ s₆ hw₆
                  have hsame₆ := hsame₅.trans (sameRounds_call (by simp) hw₆)
                  have hpaced₆ : Paced s₆ := hsame₆.paced hpaced
                  have hslept := hw₆.2.1
                  rw [hreading] at hslept
                  refine ⟨hpaced₆, ih _ _ _ hleft ?_⟩
                  exact h₁.next (hsame₆.2.trans hrounds) (ht.trans hearly.le) le_rfl hpaced₆
                    (by omega)
                · simp only [hearly, if_false]
                  refine ih _ _ _ hleft ?_
                  exact h₁.next (hsame₅.2.trans hrounds) ht (not_lt.mp hearly) hpaced₅ hto₅

theorem runGui_paced (fuel : ℕ) (hmotors : Roster K (fun _ => True) motors)
    (hrounds : s.rounds = []) :
    Sat ticking Paced (runGui channels config fuel motors) (fun _ _ => True) s := by
  have hnone : ∀ {s : Ticking}, s.rounds = [] → Paced s := fun h => by rw [Paced, h]; trivial
  have hsession : Sat ticking Paced (guiSession channels config fuel motors)
      (fun r s' => Roster K (fun _ => True) (leftMotors id r) ∧ Paced s') s := by
    unfold guiSession
    simp only [isatty_bind]
    intro terminal s₁ hw₁
    have hrounds₁ : s₁.rounds = [] := (sameRounds_call (by simp) hw₁).2.trans hrounds
    refine ⟨hnone hrounds₁, ?_⟩
    cases terminal with
    | false => exact ⟨hmotors, hnone hrounds₁⟩
    | true =>
        simp only [Bool.not_true, Bool.false_eq_true, if_false]
        have hrender := renderGui_step (A := fun _ _ => True)
        refine (sameRounds_sat hrender (fun _ => IsStep.not_readStdin) (hnone hrounds₁)).bind ?_
        rintro rendered s₂ ⟨-, hsame₂⟩
        have hrounds₂ := hsame₂.2.trans hrounds₁
        cases rendered with
        | false => exact ⟨hmotors, hnone hrounds₂⟩
        | true =>
            intro nextTick s₃ hw₃
            have hrounds₃ := (sameRounds_call (by simp) hw₃).2.trans hrounds₂
            refine ⟨hnone hrounds₃, guiLoop_rested fuel fuel 0 nextTick true hmotors ?_⟩
            refine ⟨hw₃.2.2.1, ?_, hnone hrounds₃⟩
            rw [hrounds₃]
            trivial
  have hstop : ∀ {motors : Motors n} {s : Ticking}, Roster K (fun _ => True) motors → Paced s →
      Sat ticking Paced (stopAll motors) (fun _ _ => True) s :=
    fun h hpaced => (sameRounds_sat (stopLoop_step _ h (allows_all K))
      (fun _ => IsStep.not_readStdin) hpaced).mono fun _ _ _ => trivial
  unfold runGui
  refine hsession.bind ?_
  rintro r s' ⟨hleft, hpaced⟩
  cases r with
  | error motors => exact (hstop hleft hpaced).bind fun _ _ _ => trivial
  | ok motors => exact (hstop hleft hpaced).bind fun _ _ _ => trivial

theorem IsAsk.not_readStdin {c : SysCall} (h : IsAsk c) : c ≠ .readStdin := by
  rintro rfl
  exact h

theorem main_paced (config : Config) (fuel : ℕ) (hrounds : s.rounds = []) :
    Sat ticking Paced (main config fuel) (fun _ _ => True) s := by
  have hnone : ∀ {s : Ticking}, s.rounds = [] → Paced s := fun h => by rw [Paced, h]; trivial
  unfold main
  simp only [isatty_bind]
  intro terminal s₁ hw₁
  have hrounds₁ : s₁.rounds = [] := (sameRounds_call (by simp) hw₁).2.trans hrounds
  refine ⟨hnone hrounds₁, ?_⟩
  cases terminal with
  | false => trivial
  | true =>
      simp only [Bool.not_true, Bool.false_eq_true, if_false]
      refine (sameRounds_sat (scanChannels_ask config fuel).obeys (fun _ => IsAsk.not_readStdin)
        (hnone hrounds₁)).bind ?_
      rintro ⟨channels, devices⟩ s₂ ⟨-, hsame₂⟩
      have hrounds₂ := hsame₂.2.trans hrounds₁
      have hroster : Roster (places devices) (fun _ => True) (makeMotorStates config devices) :=
        ⟨makeMotorStates_place config devices, fun _ _ => trivial⟩
      refine (sameRounds_sat (refreshInitialPositions_ask channels config fuel _ hroster)
        (fun _ => IsAsk.not_readStdin) (hnone hrounds₂)).bind ?_
      rintro motors s₃ ⟨hmotors, hsame₃⟩
      exact runGui_paced fuel hmotors (hsame₃.2.trans hrounds₂)

end loop

/-- **The rounds keep their distance.**  In every run of the program, however long its calls take
and however late its sleeps end, `m` rounds after a round is at least `m - 1` periods after it,
and in a window of `q` periods at most `q + 1` rounds begin. -/
theorem rounds_spaced {config : Config} {fuel : ℕ} {s s' : Ticking} {o : Option ℤ}
    (hs : s.rounds = []) (h : Runs ticking (main config fuel) s s' o) :
    (∀ (i j : ℕ) (_ : i < j) (hj : j < s'.rounds.length),
      s'.rounds[j] + (j - i - 1) * ms controlPeriodMs ≤ s'.rounds[i]) ∧
    ∀ (start : ℤ) (q : ℕ), s'.rounds.countP
      (fun t => start ≤ t ∧ t < start + q * ms controlPeriodMs) ≤ q + 1 := by
  have hstart : Paced s := by rw [Paced, hs]; trivial
  have hpaced : Spaced (ms controlPeriodMs) s'.rounds :=
    (h.sat (main_paced config fuel hs) hstart).1
  exact ⟨fun i j hij hj => hpaced.getElem i j hij hj, hpaced.countP_le (by decide)⟩

/-- Nothing is connected, the screen takes 50 ms to draw, and the third key is `q`. -/
def slowScreen : Handler Sys Ticking := fun s c =>
  match c with
  | .isatty => (true, s)
  | .canInitialize _ => (pcanErrorQrcvEmpty, s)
  | .steadyNow => (s.time, { s with reading := s.time })
  | .sleepFor ns => ((), { s with time := max s.time (s.reading + ns) })
  | .readStdin =>
      (if s.rounds.length = 2 then ['q'] else [], { s with rounds := s.time :: s.rounds })
  | .render => ((), { s with time := s.time + ms 50 })
  | c => (c.quiet, s)

/-- After a late round the next one is a period later. -/
theorem rounds_spaced_late : ∃ s', Runs ticking (main {} 4) ⟨0, 0, []⟩ s' (some 0) ∧
    s'.rounds = [ms 120, ms 100, ms 50] ∧
    ∀ (start : ℤ) (q : ℕ), s'.rounds.countP
      (fun t => start ≤ t ∧ t < start + q * ms controlPeriodMs) ≤ q + 1 := by
  have hrun := runs_exec (P := fun _ => True) (W := ticking) (h := slowScreen) (fun s c _ => by
    refine ⟨⟨?_, ?_⟩, trivial⟩
    · cases c with
      | sleepFor ns => exact le_max_left _ _
      | render => exact Int.le_add_of_nonneg_right (by decide)
      | _ => exact le_rfl
    · cases c with
      | steadyNow => exact ⟨le_rfl, le_rfl, rfl, rfl⟩
      | sleepFor ns => exact ⟨le_max_right _ _, rfl, rfl⟩
      | readStdin => exact ⟨s.time, le_rfl, le_rfl, rfl, rfl⟩
      | _ => exact ⟨rfl, rfl⟩) (main {} 4) (s := ⟨0, 0, []⟩) trivial
  obtain ⟨hend, hrounds⟩ : (exec slowScreen (main {} 4) ⟨0, 0, []⟩).2 = some 0 ∧
      (exec slowScreen (main {} 4) ⟨0, 0, []⟩).1.rounds = [ms 120, ms 100, ms 50] := by
    decide +kernel
  rw [hend] at hrun
  exact ⟨_, hrun, hrounds, (rounds_spaced rfl hrun).2⟩

end PositionRead

end Qub
