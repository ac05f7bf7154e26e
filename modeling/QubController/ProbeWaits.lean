import Mathlib.Algebra.Order.Ring.Int
import Mathlib.Tactic.Linarith
import QubController.Completion
import QubController.TestConnection

/-! # The waits of the connection test

The two waits of `test_connection.cpp` read the clock only when the receive queue is empty, and
`drain_rx_queue` does not read it at all.  In the world `traffic` the reads of the channel are
answered by a given stream, finite (nothing but an empty queue from some read on) or endless;
every read takes some time, a pause at least as long as it is asked to be, and the other calls may
take any time.

A wait starts at most one read behind its deadline exactly if no other frame is the first to
arrive (`wait_late_iff`), and the draining is bounded exactly if some read brings no frame
(`drain_bounded_iff`).  The probe and the scan take such reads from the stream: one for each
draining, and one for each turn of a wait.  With enough of them they return, and with fewer than
there are drainings they do not. -/

namespace Qub

open Interaction

namespace TestConnection

/-! ### Bus traffic -/

/-- What the reads of a channel report, one after the other. -/
abbrev Traffic := ℕ → TPCANStatus × TPCANMsg

/-- The position in the stream, the time, the first reading of the clock, and the times at which
the reads were started. -/
structure Watched where
  pos : ℕ
  time : ℤ
  start : Option ℤ := none
  issued : List ℤ := []

/-- Every read takes at least `δ` and a pause its time; any time may pass before a call takes
effect. -/
def traffic (S : Traffic) (δ : ℤ) : World Sys Watched := fun s c r s' =>
  ∃ t, s.time ≤ t ∧
    match c, r with
    | .canRead _, r => r = S s.pos ∧ ∃ t', t + δ ≤ t' ∧
        s' = { s with pos := s.pos + 1, time := t', issued := s.issued ++ [t] }
    | .steadyNow, r => r = t ∧ s' = { s with time := t, start := s.start.or (some t) }
    | .sleepFor ns, _ => ∃ t', t ≤ t' ∧ t + ns ≤ t' ∧ s' = { s with time := t' }
    | _, _ => s' = { s with time := t }

/-- The number of reads that were started when the deadline was over. -/
def lateAt (deadline : ℤ) (s : Watched) : ℕ := s.issued.countP (deadline ≤ ·)

/-- The same for the deadline of a wait that began with the first reading of the clock. -/
def lateReads (timeoutNs : ℤ) (s : Watched) : ℕ :=
  match s.start with
  | some t => lateAt (t + timeoutNs) s
  | none => 0

/-- The first frame that arrives while the clock can be before the deadline is accepted; a turn of
the wait without a frame takes the time of a read and of a pause. -/
def FirstFits (accepts : TPCANMsg → Bool) (S : Traffic) (pos : ℕ) (δ timeoutNs : ℤ) : Prop :=
  ∀ i : ℕ, i * (δ + pollPauseNs) < timeoutNs → (∀ j < i, (S (pos + j)).1 ≠ pcanErrorOk) →
    (S (pos + i)).1 = pcanErrorOk → accepts (S (pos + i)).2 = true

/-- At least `k` reads from `pos` on bring no frame. -/
def Gaps (S : Traffic) : ℕ → ℕ → Prop
  | 0, _ => True
  | k + 1, pos => ∃ j, pos ≤ j ∧ (S j).1 ≠ pcanErrorOk ∧ Gaps S k (j + 1)

/-- No more turns than this fit in a wait. -/
def turns (δ timeoutNs : ℤ) : ℕ := (timeoutNs / (δ + pollPauseNs)).toNat + 1

/-- Enough iterations let the program return. -/
def Finishes {α : Type} (W : World Sys Watched) (p : ℕ → SysM α) (s : Watched) : Prop :=
  ∃ N, ∀ n, N ≤ n → Completes W (p n) (fun _ _ => True) s

section waits
variable {S : Traffic} {δ : ℤ} (ch : Fin numChannels) {α β : Type} {accepts : TPCANMsg → Bool}
  (onReply : TPCANMsg → α → α) (onStatus : TPCANStatus → α → α)

/-! ### Late reads -/

/-- The loop of a wait after `i` reads, none of which brought a frame. -/
structure Quiet (S : Traffic) (δ timeoutNs t₀ : ℤ) (pos i : ℕ) (s : Watched) : Prop where
  pos_eq : s.pos = pos + i
  start_eq : s.start = some t₀
  blank : ∀ j < i, (S (pos + j)).1 ≠ pcanErrorOk
  time_le : t₀ + i * (δ + pollPauseNs) ≤ s.time
  late : lateAt (t₀ + timeoutNs) s = 0 ∨
    lateAt (t₀ + timeoutNs) s = 1 ∧ t₀ + timeoutNs ≤ s.time

abbrev InTime (timeoutNs : ℤ) (s : Watched) : Prop := lateReads timeoutNs s ≤ 1

theorem lateAt_append (deadline : ℤ) (s : Watched) (pos : ℕ) (time t : ℤ) (start : Option ℤ) :
    lateAt deadline ⟨pos, time, start, s.issued ++ [t]⟩ =
      lateAt deadline s + if deadline ≤ t then 1 else 0 := by
  simp [lateAt, List.countP_append, List.countP_cons]

theorem lateAt_late (deadline : ℤ) (pos pos' : ℕ) (time time' : ℤ) (start : Option ℤ)
    (issued : List ℤ) :
    lateAt deadline ⟨pos', time', start, issued ++ [max time deadline]⟩ =
      lateAt deadline ⟨pos, time, start, issued⟩ + 1 := by
  rw [lateAt_append deadline ⟨pos, time, start, issued⟩, if_pos (le_max_right _ _)]

theorem traffic_read (pos : ℕ) (time later : ℤ) (start : Option ℤ) (issued : List ℤ) :
    traffic S δ ⟨pos, time, start, issued⟩ (.canRead ch) (S pos)
      ⟨pos + 1, max time later + δ, start, issued ++ [max time later]⟩ :=
  ⟨max time later, le_max_left _ _, rfl, _, le_rfl, rfl⟩

theorem Quiet.inTime {timeoutNs t₀ : ℤ} {pos i : ℕ} {s : Watched}
    (h : Quiet S δ timeoutNs t₀ pos i s) : InTime timeoutNs s := by
  unfold InTime lateReads
  rw [h.start_eq]
  rcases h.late with hlate | ⟨hlate, -⟩ <;> simp [hlate]

theorem Quiet.later {timeoutNs t₀ t : ℤ} {pos i : ℕ} {s : Watched}
    (h : Quiet S δ timeoutNs t₀ pos i s) (ht : s.time ≤ t) :
    Quiet S δ timeoutNs t₀ pos i { s with time := t } :=
  ⟨h.pos_eq, h.start_eq, h.blank, h.time_le.trans ht,
    h.late.imp id fun hlate => ⟨hlate.1, hlate.2.trans ht⟩⟩

/-- One read is late at most when the clock was looked at before the deadline. -/
theorem Quiet.late_read {timeoutNs t₀ : ℤ} {pos i : ℕ} {s : Watched}
    (h : Quiet S δ timeoutNs t₀ pos i s) (t t' : ℤ) (hbefore : s.time < t₀ + timeoutNs) :
    lateAt (t₀ + timeoutNs) ⟨s.pos + 1, t', s.start, s.issued ++ [t]⟩ =
      if t₀ + timeoutNs ≤ t then 1 else 0 := by
  have hzero : lateAt (t₀ + timeoutNs) s = 0 := by
    rcases h.late with hlate | ⟨-, hlate⟩
    · exact hlate
    · omega
  rw [lateAt_append, hzero, Nat.zero_add]

theorem Quiet.read {timeoutNs t₀ t t' : ℤ} {pos i : ℕ} {s : Watched}
    (h : Quiet S δ timeoutNs t₀ pos i s) (hbefore : s.time < t₀ + timeoutNs) :
    InTime timeoutNs ⟨s.pos + 1, t', s.start, s.issued ++ [t]⟩ := by
  have hone := h.late_read t t' hbefore
  unfold InTime lateReads
  rw [h.start_eq] at hone ⊢
  simp only [hone]
  split <;> omega

theorem Quiet.turn {timeoutNs t₀ t t' t₁ : ℤ} {pos i : ℕ} {s : Watched}
    (h : Quiet S δ timeoutNs t₀ pos i s) (hbefore : s.time < t₀ + timeoutNs) (ht : s.time ≤ t)
    (ht' : t + δ ≤ t') (hpause : t' + pollPauseNs ≤ t₁) (hle : t ≤ t₁)
    (hempty : (S s.pos).1 ≠ pcanErrorOk) :
    Quiet S δ timeoutNs t₀ pos (i + 1) ⟨s.pos + 1, t₁, s.start, s.issued ++ [t]⟩ := by
  refine ⟨by simp [h.pos_eq, Nat.add_assoc], h.start_eq, fun j hj => ?_, ?_, ?_⟩
  · rcases Nat.lt_succ_iff_lt_or_eq.mp hj with hj | rfl
    · exact h.blank j hj
    · rwa [← h.pos_eq]
  · have := h.time_le
    show t₀ + (i + 1 : ℕ) * (δ + pollPauseNs) ≤ t₁
    push_cast
    linarith
  · rw [h.late_read t t₁ hbefore]
    by_cases hlate : t₀ + timeoutNs ≤ t
    · exact .inr ⟨if_pos hlate, hlate.trans hle⟩
    · exact .inl (if_neg hlate)

/-- Run lemma: a wait in which no other frame arrives first. -/
theorem waitLoop_inTime (hδ : 0 ≤ δ)
    (hfill : ∀ buf frame : TPCANMsg, accepts (buf.fill frame) = accepts frame) {pos : ℕ}
    {timeoutNs t₀ : ℤ} (hfits : FirstFits accepts S pos δ timeoutNs) (n left : ℕ)
    {i : ℕ} {s : Watched} (h : Quiet S δ timeoutNs t₀ pos i s) (result : α) :
    Sat (traffic S δ) (InTime timeoutNs)
      (waitLoop ch accepts onReply onStatus n (t₀ + timeoutNs) left result)
      (fun _ _ => True) s := by
  induction left generalizing i s result with
  | zero => trivial
  | succ left ih =>
      rw [waitLoop]
      simp only [steadyNow_bind, sat_call]
      rintro now s₁ ⟨_, hnow, rfl, rfl⟩
      have h₁ : Quiet S δ timeoutNs t₀ pos i
          { s with time := now, start := s.start.or (some now) } := by
        rw [show s.start.or (some now) = s.start by rw [h.start_eq]; rfl]
        exact h.later hnow
      refine ⟨h₁.inTime, ?_⟩
      by_cases hlt : now < t₀ + timeoutNs
      · rw [if_pos hlt]
        cases n with
        | zero => trivial
        | succ n =>
            rw [readReply]
            simp only [canRead_bind, Prog.call_bind, sat_call]
            rintro _ s₂ ⟨t, ht, rfl, t', ht', rfl⟩
            refine ⟨h₁.read hlt, ?_⟩
            by_cases hok : (S s.pos).1 = pcanErrorOk
            · have hfit : accepts (S s.pos).2 = true := by
                have hin : (i : ℤ) * (δ + pollPauseNs) < timeoutNs :=
                  lt_of_add_lt_add_left (lt_of_le_of_lt h₁.time_le hlt)
                rw [h.pos_eq] at hok ⊢
                exact hfits i hin h.blank hok
              simp [hok, hfill, hfit]
            · simp only [hok, beq_iff_eq, if_false, sleepFor_bind, Prog.pure_eq, Prog.ret_bind]
              rintro _ s₃ ⟨t₂, ht₂, t₃, ht₃, hpause, rfl⟩
              have hread : t' ≤ t₂ := ht₂
              have hturn : t' + pollPauseNs ≤ t₃ := by omega
              have h₃ := h₁.turn hlt ht ht' hturn (by omega) hok
              exact ⟨h₃.inTime, ih h₃ _⟩
      · rw [if_neg hlt]
        trivial

/-- Frames that are not accepted are read on, when the deadline is over too. -/
theorem readReply_late (hfill : ∀ buf frame : TPCANMsg, accepts (buf.fill frame) = accepts frame)
    (deadline : ℤ) (m : ℕ) {n pos : ℕ} (hn : m < n)
    (hframes : ∀ j < m, (S (pos + j)).1 = pcanErrorOk ∧ accepts (S (pos + j)).2 = false)
    (time : ℤ) (start : Option ℤ) (issued : List ℤ) (buf : TPCANMsg)
    (f : Except TPCANStatus TPCANMsg → SysM β) :
    ∃ s', Runs (traffic S δ) (readReply ch accepts n buf >>= f) ⟨pos, time, start, issued⟩ s' none ∧
      s'.start = start ∧
        lateAt deadline ⟨pos, time, start, issued⟩ + m + 1 ≤ lateAt deadline s' := by
  induction m generalizing n pos time issued buf with
  | zero =>
      obtain ⟨n, rfl⟩ := Nat.exists_eq_succ_of_ne_zero (by omega : n ≠ 0)
      refine ⟨_, .call (traffic_read ch pos time deadline start issued) (.stop _ _), rfl, ?_⟩
      rw [lateAt_late deadline pos (pos + 1)]
  | succ m ih =>
      obtain ⟨n, rfl⟩ := Nat.exists_eq_succ_of_ne_zero (by omega : n ≠ 0)
      obtain ⟨hok, hno⟩ := hframes 0 (Nat.succ_pos m)
      have hnext : ∀ j < m, (S (pos + 1 + j)).1 = pcanErrorOk ∧
          accepts (S (pos + 1 + j)).2 = false := by
        intro j hj
        rw [Nat.add_assoc, Nat.add_comm 1 j]
        exact hframes (j + 1) (by omega)
      obtain ⟨s', hrun, hstart, hlate⟩ := ih (by omega : m < n) hnext (max time deadline + δ)
        (issued ++ [max time deadline]) (buf.fill (S pos).2)
      refine ⟨s', ?_, hstart, ?_⟩
      · rw [readReply]
        simp only [canRead_bind, Prog.call_bind]
        refine .call (traffic_read ch pos time deadline start issued) ?_
        rw [Nat.add_zero] at hok hno
        simpa [hok, hfill, hno] using hrun
      · rw [lateAt_late deadline pos (pos + 1)] at hlate
        omega

theorem waitLoop_frames (hfill : ∀ buf frame : TPCANMsg, accepts (buf.fill frame) = accepts frame)
    {m n : ℕ} (hn : m < n) {deadline : ℤ} (left : ℕ) {pos : ℕ} {time : ℤ} (htime : time < deadline)
    (hframes : ∀ j < m, (S (pos + j)).1 = pcanErrorOk ∧ accepts (S (pos + j)).2 = false)
    (t₀ : ℤ) (issued : List ℤ) (result : α) :
    ∃ s', Runs (traffic S δ) (waitLoop ch accepts onReply onStatus n deadline (left + 1) result)
        ⟨pos, time, some t₀, issued⟩ s' none ∧
      s'.start = some t₀ ∧ m + 1 ≤ lateAt deadline s' := by
  obtain ⟨k, hk⟩ : ∃ k, waitLoop ch accepts onReply onStatus n deadline (left + 1) result =
      .call (I := Sys) .steadyNow fun now =>
        if now < deadline then readReply ch accepts n {} >>= k else .ret (false, result) :=
    ⟨_, rfl⟩
  obtain ⟨s', hrun, hstart, hlate⟩ := readReply_late (δ := δ) ch hfill deadline m hn
    hframes time (some t₀) issued {} k
  refine ⟨s', ?_, hstart, by omega⟩
  rw [hk]
  refine .call ⟨time, le_rfl, rfl, rfl⟩ ?_
  rw [if_pos htime]
  exact hrun

theorem waitLoop_blank {n : ℕ} {deadline : ℤ} {left pos : ℕ} {time : ℤ} (htime : time < deadline)
    (hempty : (S pos).1 ≠ pcanErrorOk) {t₀ : ℤ} {issued : List ℤ} {result : α} {s' : Watched}
    (hrun : Runs (traffic S δ)
      (waitLoop ch accepts onReply onStatus (n + 1) deadline left (onStatus (S pos).1 result))
      ⟨pos + 1, time + (δ + pollPauseNs), some t₀, issued ++ [time]⟩ s' none) :
    Runs (traffic S δ) (waitLoop ch accepts onReply onStatus (n + 1) deadline (left + 1) result)
      ⟨pos, time, some t₀, issued⟩ s' none := by
  have hread := traffic_read (S := S) (δ := δ) ch pos time time (some t₀) issued
  rw [max_self] at hread
  rw [waitLoop, readReply]
  simp only [steadyNow_bind, canRead_bind, Prog.call_bind]
  refine .call ⟨time, le_rfl, rfl, rfl⟩ ?_
  rw [if_pos htime]
  refine .call hread ?_
  simp only [hempty, beq_iff_eq, if_false, sleepFor_bind, Prog.pure_eq, Prog.ret_bind]
  have hpause : time + δ ≤ time + (δ + pollPauseNs) := by
    unfold pollPauseNs
    omega
  exact .call (r := ()) ⟨time + δ, le_rfl, _, hpause, (add_assoc _ _ _).le, rfl⟩ hrun

/-- A wait whose first `m` frames are not accepted goes on reading behind its deadline. -/
theorem waitLoop_late (hfill : ∀ buf frame : TPCANMsg, accepts (buf.fill frame) = accepts frame)
    {m n : ℕ} (hn : m < n) {deadline : ℤ} (i : ℕ) {left pos : ℕ} (hleft : i < left) {time : ℤ}
    (hδ : 0 ≤ δ) (htime : time + i * (δ + pollPauseNs) < deadline)
    (hblank : ∀ j < i, (S (pos + j)).1 ≠ pcanErrorOk)
    (hframes : ∀ j < m, (S (pos + i + j)).1 = pcanErrorOk ∧ accepts (S (pos + i + j)).2 = false)
    (t₀ : ℤ) (issued : List ℤ) (result : α) :
    ∃ s', Runs (traffic S δ) (waitLoop ch accepts onReply onStatus n deadline left result)
        ⟨pos, time, some t₀, issued⟩ s' none ∧
      s'.start = some t₀ ∧ m + 1 ≤ lateAt deadline s' := by
  induction i generalizing left pos time issued result with
  | zero =>
      obtain ⟨left, rfl⟩ := Nat.exists_eq_succ_of_ne_zero (by omega : left ≠ 0)
      exact waitLoop_frames ch onReply onStatus hfill hn left (by simpa using htime) hframes t₀
        issued result
  | succ i ih =>
      obtain ⟨left, rfl⟩ := Nat.exists_eq_succ_of_ne_zero (by omega : left ≠ 0)
      obtain ⟨n, rfl⟩ := Nat.exists_eq_succ_of_ne_zero (by omega : n ≠ 0)
      have hstep : time + (δ + pollPauseNs) + i * (δ + pollPauseNs) =
          time + (i + 1 : ℕ) * (δ + pollPauseNs) := by
        push_cast
        ring
      have hturn : 0 ≤ δ + pollPauseNs := by
        unfold pollPauseNs
        omega
      have hlt : time < deadline := by
        have : (0 : ℤ) ≤ (i + 1 : ℕ) * (δ + pollPauseNs) := mul_nonneg (Int.natCast_nonneg _) hturn
        omega
      have hblank' : ∀ j < i, (S (pos + 1 + j)).1 ≠ pcanErrorOk := by
        intro j hj
        rw [Nat.add_assoc, Nat.add_comm 1 j]
        exact hblank (j + 1) (by omega)
      have hframes' : ∀ j < m, (S (pos + 1 + i + j)).1 = pcanErrorOk ∧
          accepts (S (pos + 1 + i + j)).2 = false := by
        rw [Nat.add_assoc pos, Nat.add_comm 1 i]
        exact hframes
      obtain ⟨s', hrun, hstart, hlate⟩ := ih (by omega : i < left) (by rwa [hstep]) hblank' hframes'
        (issued ++ [time]) (onStatus (S pos).1 result)
      have hempty : (S pos).1 ≠ pcanErrorOk := hblank 0 (Nat.succ_pos i)
      exact ⟨s', waitLoop_blank ch onReply onStatus hlt hempty hrun, hstart, hlate⟩

/-- The deadline of a wait, for all its runs. -/
theorem wait_late_iff (hδ : 0 ≤ δ)
    (hfill : ∀ buf frame : TPCANMsg, accepts (buf.fill frame) = accepts frame) (timeoutNs : ℤ)
    (pos : ℕ) (result₀ : α) :
    (∀ time n result s o, Runs (traffic S δ) (steadyNow >>= fun now =>
        waitLoop ch accepts onReply onStatus n (now + timeoutNs) n result)
        ⟨pos, time, none, []⟩ s o →
      lateReads timeoutNs s ≤ 1) ↔ FirstFits accepts S pos δ timeoutNs := by
  constructor
  · intro h i hi hblank hok
    by_contra hno
    have hframes : ∀ j < 1, (S (pos + i + j)).1 = pcanErrorOk ∧
        accepts (S (pos + i + j)).2 = false := by
      intro j hj
      obtain rfl : j = 0 := by omega
      exact ⟨hok, Bool.eq_false_iff.mpr hno⟩
    obtain ⟨s', hrun, hstart, hlate⟩ := waitLoop_late ch onReply onStatus hfill
      (by omega : 1 < i + 2) i (by omega : i < i + 2) hδ
      (by simpa using hi : (0 : ℤ) + i * (δ + pollPauseNs) < 0 + timeoutNs) hblank hframes 0 []
      result₀
    have hlook : traffic S δ ⟨pos, 0, none, []⟩ .steadyNow (0 : ℤ) ⟨pos, 0, some 0, []⟩ :=
      ⟨0, le_rfl, rfl, rfl⟩
    have hle := h 0 (i + 2) result₀ s' none (.call hlook hrun)
    unfold lateReads at hle
    rw [hstart] at hle
    simp only at hle
    omega
  · intro hfits time n result s o hrun
    have hsat : Sat (traffic S δ) (InTime timeoutNs) (steadyNow >>= fun now =>
        waitLoop ch accepts onReply onStatus n (now + timeoutNs) n result) (fun _ _ => True)
        ⟨pos, time, none, []⟩ := by
      simp only [steadyNow_bind, sat_call]
      rintro now s₁ ⟨_, hnow, rfl, rfl⟩
      have h₁ : Quiet S δ timeoutNs now pos 0 ⟨pos, now, some now, []⟩ :=
        ⟨rfl, rfl, by simp, by simp, .inl rfl⟩
      exact ⟨h₁.inTime, waitLoop_inTime ch onReply onStatus hδ hfill hfits n n h₁ result⟩
    exact (hrun.sat hsat (by simp [InTime, lateReads])).1

/-! ### Draining -/

/-- Frames only: the loop reads as often as it may. -/
theorem drainRxQueue_run (n : ℕ) {pos : ℕ} (hframes : ∀ j, pos ≤ j → (S j).1 = pcanErrorOk)
    (time : ℤ) (start : Option ℤ) (issued : List ℤ) :
    ∃ s', Runs (traffic S δ) (drainRxQueue ch n) ⟨pos, time, start, issued⟩ s' none ∧
      s'.pos = pos + n := by
  induction n generalizing pos time issued with
  | zero => exact ⟨_, .stop _ _, rfl⟩
  | succ n ih =>
      have hnext : ∀ j, pos + 1 ≤ j → (S j).1 = pcanErrorOk := fun j hj => hframes j (by omega)
      obtain ⟨s', hrun, hpos⟩ := ih hnext (max time time + δ) (issued ++ [max time time])
      refine ⟨s', ?_, by omega⟩
      rw [drainRxQueue]
      simp only [canRead_bind]
      refine .call (traffic_read ch pos time time start issued) ?_
      simpa [hframes pos le_rfl] using hrun

/-- A read without a frame ends the draining. -/
theorem drainRxQueue_sat {j : ℕ} (hj : (S j).1 ≠ pcanErrorOk) (n : ℕ) {s : Watched}
    (hs : s.pos ≤ j) :
    Sat (traffic S δ) (fun s' => s'.pos ≤ j + 1) (drainRxQueue ch n) (fun _ _ => True) s := by
  induction n generalizing s with
  | zero => trivial
  | succ n ih =>
      rw [drainRxQueue]
      simp only [canRead_bind, sat_call]
      rintro _ s₁ ⟨t, ht, rfl, t', ht', rfl⟩
      refine ⟨Nat.succ_le_succ hs, ?_⟩
      by_cases hok : (S s.pos).1 = pcanErrorOk
      · have hne : s.pos ≠ j := fun heq => hj (heq ▸ hok)
        simpa [hok] using ih (show s.pos + 1 ≤ j by omega)
      · simp [hok]

/-- The reads of the draining are bounded exactly if one of them brings no frame. -/
theorem drain_bounded_iff (s : Watched) :
    (∃ B, ∀ n s' o, Runs (traffic S δ) (drainRxQueue ch n) s s' o → s'.pos ≤ s.pos + B) ↔
      ∃ j, s.pos ≤ j ∧ (S j).1 ≠ pcanErrorOk := by
  constructor
  · rintro ⟨B, hB⟩
    by_contra hno
    have hframes : ∀ j, s.pos ≤ j → (S j).1 = pcanErrorOk := fun j hj =>
      by_contra fun hne => hno ⟨j, hj, hne⟩
    obtain ⟨s', hrun, hpos⟩ := drainRxQueue_run (δ := δ) ch (B + 1) hframes s.time s.start s.issued
    have := hB (B + 1) s' none hrun
    omega
  · rintro ⟨j, hle, hj⟩
    refine ⟨j - s.pos + 1, fun n s' o hrun => ?_⟩
    have := (hrun.sat (drainRxQueue_sat ch hj n hle) (by omega)).1
    omega

/-! ### Returning -/

theorem Gaps.later {k : ℕ} {pos pos' : ℕ} (h : Gaps S k pos') (hle : pos ≤ pos') :
    Gaps S k pos := by
  cases k with
  | zero => trivial
  | succ k =>
      obtain ⟨j, hj, hempty, hrest⟩ := h
      exact ⟨j, hle.trans hj, hempty, hrest⟩

theorem Gaps.fewer {k pos : ℕ} (h : Gaps S (k + 1) pos) : Gaps S k pos := by
  obtain ⟨j, hj, -, hrest⟩ := h
  exact hrest.later (Nat.le_succ_of_le hj)

theorem Gaps.of_add {k m pos : ℕ} (h : Gaps S (k + m) pos) : Gaps S k pos := by
  induction m with
  | zero => exact h
  | succ m ih => exact ih h.fewer

/-- The next of them is not far, wherever the reading up to `B` has come. -/
theorem exists_gap (S : Traffic) (B : ℕ) : ∃ J, ∀ k pos, pos ≤ B → Gaps S (k + 1) pos →
    ∃ j, pos ≤ j ∧ j ≤ J ∧ (S j).1 ≠ pcanErrorOk ∧ Gaps S k (j + 1) := by
  by_cases hlater : ∃ b, B ≤ b ∧ (S b).1 ≠ pcanErrorOk
  · obtain ⟨b, hb, hempty⟩ := hlater
    refine ⟨b, fun k pos hpos h => ?_⟩
    obtain ⟨j, hj, hemptyj, hrest⟩ := h
    by_cases hle : j ≤ b
    · exact ⟨j, hj, hle, hemptyj, hrest⟩
    · exact ⟨b, hpos.trans hb, le_rfl, hempty, hrest.later (by omega)⟩
  · refine ⟨B, fun k pos hpos h => ?_⟩
    obtain ⟨j, hj, hemptyj, hrest⟩ := h
    have hle : j ≤ B := by
      by_contra hlt
      exact hlater ⟨j, by omega, hemptyj⟩
    exact ⟨j, hj, hle, hemptyj, hrest⟩

section returning
variable {ι κ : Type}

/-- The measure of a state is how far the stream was read, and what is counted are the reads
without a frame. -/
abbrev SettlesIn (S : Traffic) (δ : ℤ) (c : ℕ) (p : ℕ → ι → SysM α) : Prop :=
  Settles (traffic S δ) Watched.pos (fun k s => Gaps S k s.pos) c p

def NoRead (c : SysCall) : Prop := ∀ ch, c ≠ .canRead ch

theorem NoRead.keeps {c : SysCall} (hc : NoRead c) {r : c.Resp} {s s' : Watched}
    (h : traffic S δ s c r s') : s'.pos = s.pos := by
  obtain ⟨t, ht, heff⟩ := h
  cases c with
  | canRead ch => exact absurd rfl (hc ch)
  | steadyNow =>
      obtain ⟨-, rfl⟩ := heff
      rfl
  | sleepFor ns =>
      obtain ⟨t', -, -, rfl⟩ := heff
      rfl
  | _ =>
      obtain rfl := heff
      rfl

theorem sleep_later {ns : ℤ} {r : Unit} {s s' : Watched} (h : traffic S δ s (.sleepFor ns) r s') :
    s'.pos = s.pos ∧ s.time + ns ≤ s'.time := by
  obtain ⟨t, ht, t', -, hpause, rfl⟩ := h
  exact ⟨rfl, (Int.add_le_add_right ht ns).trans hpause⟩

theorem SettlesIn.supply {c d : ℕ} {p : ℕ → ι → SysM α} (h : SettlesIn S δ c p) (hle : c ≤ d) :
    SettlesIn S δ d p := Settles.supply h (fun _ _ => Gaps.fewer) hle

theorem settles_ret (c : ℕ) (f : ι → α) : SettlesIn S δ c (fun _ i => .ret (f i)) :=
  SettlesIn.supply (Settles.ret f) (Nat.zero_le c)

/-- Reading on ends at the next read without a frame; it has taken its time. -/
theorem readReply_completes {j : ℕ} (hj : (S j).1 ≠ pcanErrorOk) (hδ : 0 ≤ δ) (d : ℕ) {n : ℕ}
    {s : Watched} (hn : d < n) (hd : j - s.pos ≤ d) (hs : s.pos ≤ j) (buf : TPCANMsg) :
    Completes (traffic S δ) (readReply ch accepts n buf)
      (fun _ s' => s'.pos ≤ j + 1 ∧ s.time + δ ≤ s'.time) s := by
  induction d generalizing n s buf with
  | zero =>
      obtain ⟨n, rfl⟩ := Nat.exists_eq_succ_of_ne_zero (by omega : n ≠ 0)
      obtain rfl : s.pos = j := by omega
      rw [readReply]
      simp only [canRead_bind, completes_call]
      rintro _ s₁ ⟨t, ht, rfl, t', ht', rfl⟩
      have htime : s.time + δ ≤ t' := by omega
      simp [hj, htime]
  | succ d ih =>
      obtain ⟨n, rfl⟩ := Nat.exists_eq_succ_of_ne_zero (by omega : n ≠ 0)
      rw [readReply]
      simp only [canRead_bind, completes_call]
      rintro _ s₁ ⟨t, ht, rfl, t', ht', rfl⟩
      have htime : s.time + δ ≤ t' := by omega
      by_cases hok : (S s.pos).1 = pcanErrorOk
      · have hne : s.pos ≠ j := fun heq => hj (heq ▸ hok)
        simp only [hok, beq_self_eq_true, if_true]
        split
        · exact ⟨by show s.pos + 1 ≤ j + 1; omega, htime⟩
        · refine (ih (by omega) (by show j - (s.pos + 1) ≤ d; omega)
            (by show s.pos + 1 ≤ j; omega) _).mono fun _ s' hs' => ⟨hs'.1, ?_⟩
          have hlater : t' + δ ≤ s'.time := hs'.2
          omega
      · simpa [hok, htime] using hs

/-- The draining is a reading on that accepts no frame. -/
theorem drainRxQueue_eq (n : ℕ) (buf : TPCANMsg) :
    drainRxQueue ch n = readReply ch (fun _ => false) n buf >>= fun _ => pure () := by
  induction n generalizing buf with
  | zero => rfl
  | succ n ih =>
      rw [drainRxQueue, readReply]
      simp only [canRead_bind, Prog.call_bind]
      refine congrArg _ (funext fun r => ?_)
      by_cases hok : r.1 = pcanErrorOk
      · simpa [hok] using ih _
      · simp [hok]

theorem drainRxQueue_settles (hδ : 0 ≤ δ) :
    SettlesIn S δ 1 (fun n (_ : ι) => drainRxQueue ch n) := by
  intro B
  obtain ⟨J, hJ⟩ := exists_gap S B
  refine ⟨J + 1, J + 1, fun n hn _ s k hs hgaps => ?_⟩
  obtain ⟨j, hpos, hle, hempty, hrest⟩ := hJ k s.pos hs hgaps
  show Completes _ (drainRxQueue ch n) _ _
  rw [drainRxQueue_eq ch n {}]
  refine (readReply_completes ch hempty hδ j (by omega) (by omega) hpos _).bind ?_
  rintro _ s' ⟨hpos', -⟩
  exact ⟨by omega, hrest.later hpos'⟩

/-- The loop of a wait returns: each of its turns takes time, and one read without a frame. -/
theorem waitLoop_settles (hδ : 0 < δ) (m B : ℕ) :
    ∃ N B', ∀ n, N ≤ n → ∀ deadline left (s : Watched) result k, m < left → s.pos ≤ B →
      Gaps S (k + m) s.pos → deadline ≤ s.time + m * (δ + pollPauseNs) →
      Completes (traffic S δ) (waitLoop ch accepts onReply onStatus n deadline left result)
        (fun _ s' => s'.pos ≤ B' ∧ Gaps S k s'.pos) s := by
  induction m generalizing B with
  | zero =>
      refine ⟨0, B, fun n _ deadline left s result k hleft hs hgaps hdeadline => ?_⟩
      obtain ⟨left, rfl⟩ := Nat.exists_eq_succ_of_ne_zero (by omega : left ≠ 0)
      rw [waitLoop]
      simp only [steadyNow_bind, completes_call]
      rintro now s₁ ⟨_, hnow, rfl, rfl⟩
      rw [if_neg (by simp at hdeadline; omega)]
      exact ⟨hs, hgaps⟩
  | succ m ih =>
      obtain ⟨J, hJ⟩ := exists_gap S B
      obtain ⟨N, B', hnext⟩ := ih (J + 1)
      refine ⟨max N (J + 1), max (J + 1) (max B B'),
        fun n hn deadline left s result k hleft hs hgaps hdeadline => ?_⟩
      obtain ⟨left, rfl⟩ := Nat.exists_eq_succ_of_ne_zero (by omega : left ≠ 0)
      obtain ⟨j, hpos, hle, hempty, hrest⟩ := hJ (k + m) s.pos hs hgaps
      rw [waitLoop]
      simp only [steadyNow_bind, completes_call]
      rintro now s₁ ⟨_, hnow, rfl, rfl⟩
      split
      · have hn' : j < n := by omega
        refine (readReply_completes ch hempty hδ.le j hn' (Nat.sub_le _ _)
          (by exact hpos) _).bind ?_
        rintro (sts | msg) s₂ ⟨hpos₂, htime⟩
        · simp only [sleepFor_bind, completes_call]
          intro _ s₃ hsleep
          obtain ⟨hpos₃, hpause⟩ := sleep_later hsleep
          have hgaps₃ : Gaps S (k + m) s₃.pos := hrest.later (hpos₃.le.trans hpos₂)
          refine (hnext n (by omega) deadline left s₃ _ k (by omega) (by omega) hgaps₃ ?_).mono ?_
          · have hlater : now + δ ≤ s₂.time := htime
            push_cast at hdeadline
            linarith
          · rintro _ s' ⟨hs', hgaps'⟩
            exact ⟨by omega, hgaps'⟩
        · exact ⟨by omega, (hrest.later hpos₂).of_add⟩
      · exact ⟨by show s.pos ≤ _; omega, hgaps.of_add⟩

theorem wait_settles (hδ : 0 < δ) (timeoutNs : ℤ) :
    SettlesIn S δ (turns δ timeoutNs) (fun n (result : α) => steadyNow >>= fun now =>
      waitLoop ch accepts onReply onStatus n (now + timeoutNs) n result) := by
  intro B
  obtain ⟨N, B', h⟩ := waitLoop_settles ch onReply onStatus hδ (turns δ timeoutNs) B
  refine ⟨max N (turns δ timeoutNs + 1), B', fun n hn result s k hs hgaps => ?_⟩
  simp only [steadyNow_bind, completes_call]
  rintro now s₁ ⟨_, hnow, rfl, rfl⟩
  refine h n (by omega) _ n _ result k (by omega) hs hgaps ?_
  have hturn : 0 < δ + pollPauseNs := by
    unfold pollPauseNs
    omega
  have hfloor : timeoutNs < (timeoutNs / (δ + pollPauseNs) + 1) * (δ + pollPauseNs) :=
    Int.lt_ediv_add_one_mul_self timeoutNs hturn
  have hround : timeoutNs / (δ + pollPauseNs) + 1 ≤ turns δ timeoutNs := by
    unfold turns
    push_cast
    have := Int.self_le_toNat (timeoutNs / (δ + pollPauseNs))
    omega
  have hlong := mul_le_mul_of_nonneg_right hround hturn.le
  show now + timeoutNs ≤ now + turns δ timeoutNs * (δ + pollPauseNs)
  linarith

theorem write_settles (msg : ι → TPCANMsg) :
    SettlesIn S δ 0 (fun _ i => canWrite ch (msg i)) := by
  refine Settles.perform fun i s r s' h => ?_
  have hpos := NoRead.keeps (by simp [NoRead]) h
  exact ⟨hpos.le, fun k hgaps => by rwa [hpos]⟩

/-- The waits of the parameters take a read without a frame for each of their turns. -/
theorem probeParamLoop_settles (hδ : 0 < δ) (motorId : UInt8) (indices : List UInt16) :
    SettlesIn S δ (indices.length * turns δ probeTimeoutNs)
      (fun n result => probeParamLoop ch n motorId indices result) := by
  induction indices with
  | nil => exact settles_ret _ _
  | cons index rest ih =>
      have hcount : (index :: rest).length * turns δ probeTimeoutNs =
          0 + (turns δ probeTimeoutNs + rest.length * turns δ probeTimeoutNs) := by
        rw [List.length_cons]
        ring
      rw [hcount]
      unfold probeParamLoop
      refine (write_settles ch _).bind (Settles.ite (settles_ret _ _) ?_)
      refine ((wait_settles ch _ _ hδ probeTimeoutNs).comp _).bind ?_
      exact Settles.ite (settles_ret _ _) (ih.comp _)

/-- What an attempt of the probe takes at most. -/
def attemptGaps (δ : ℤ) : ℕ := 1 + (1 + probeParams.length) * turns δ probeTimeoutNs

theorem probeLoop_settles (hδ : 0 < δ) (motorId : UInt8) (attempts : List ℤ) :
    SettlesIn S δ (attempts.length * attemptGaps δ)
      (fun n result => probeLoop ch n motorId attempts result) := by
  induction attempts with
  | nil => exact settles_ret _ _
  | cons attempt rest ih =>
      have hcount : (attempt :: rest).length * attemptGaps δ =
          1 + (0 + (turns δ probeTimeoutNs + (probeParams.length * turns δ probeTimeoutNs +
            rest.length * attemptGaps δ))) := by
        rw [List.length_cons, attemptGaps]
        ring
      have hrest : rest.length * attemptGaps δ ≤ turns δ probeTimeoutNs +
          (probeParams.length * turns δ probeTimeoutNs + rest.length * attemptGaps δ) := by
        omega
      rw [hcount]
      unfold probeLoop
      refine (drainRxQueue_settles ch hδ.le).bind ((write_settles ch _).bind ?_)
      refine Settles.ite (SettlesIn.supply (ih.comp _) hrest) ?_
      refine ((wait_settles ch _ _ hδ probeTimeoutNs).comp _).bind ?_
      refine Settles.ite (settles_ret _ _) ?_
      refine ((probeParamLoop_settles ch hδ motorId probeParams).comp _).bind ?_
      exact Settles.ite (settles_ret _ _) (ih.comp _)

theorem scanLoop_settles (hδ : 0 < δ) (ids : List UInt8) :
    SettlesIn S δ (ids.length * (1 + turns δ getIdScanTimeoutNs))
      (fun n hits => scanLoop ch n ids hits) := by
  induction ids with
  | nil => exact settles_ret _ _
  | cons requestedId rest ih =>
      have hcount : (requestedId :: rest).length * (1 + turns δ getIdScanTimeoutNs) =
          1 + (0 + (turns δ getIdScanTimeoutNs +
            rest.length * (1 + turns δ getIdScanTimeoutNs))) := by
        rw [List.length_cons]
        ring
      rw [hcount]
      unfold scanLoop
      refine (drainRxQueue_settles ch hδ.le).bind ((write_settles ch _).bind ?_)
      refine Settles.ite (SettlesIn.supply (ih.comp _) (Nat.le_add_left _ _)) ?_
      exact ((wait_settles ch _ _ hδ getIdScanTimeoutNs).comp _).bind (ih.comp _)

/-- A draining that returns has found a read without a frame, and the rest of the program returns
from behind it. -/
theorem gap_of_completes (f : Unit → SysM β) {Q : β → Watched → Prop} (n : ℕ) {s : Watched}
    (h : Completes (traffic S δ) (drainRxQueue ch n >>= f) Q s) :
    ∃ j s', s.pos ≤ j ∧ (S j).1 ≠ pcanErrorOk ∧ s'.pos = j + 1 ∧
      Completes (traffic S δ) (f ()) Q s' := by
  induction n generalizing s with
  | zero => exact h.elim
  | succ n ih =>
      rw [drainRxQueue] at h
      simp only [canRead_bind, Prog.call_bind, completes_call] at h
      have hnext := h _ _ (traffic_read ch s.pos s.time s.time s.start s.issued)
      by_cases hok : (S s.pos).1 = pcanErrorOk
      · simp only [hok, beq_self_eq_true, if_true] at hnext
        obtain ⟨j, s', hpos, hrest⟩ := ih hnext
        exact ⟨j, s', Nat.le_of_succ_le hpos, hrest⟩
      · simp only [hok, beq_iff_eq, if_false] at hnext
        exact ⟨s.pos, _, le_rfl, hok, rfl, hnext⟩

theorem gap_of_refused {msg : TPCANMsg} {f : TPCANStatus → SysM β} {Q : β → Watched → Prop}
    (n : ℕ) {s : Watched}
    (h : Completes (traffic S δ) (drainRxQueue ch n >>= fun _ => canWrite ch msg >>= f) Q s) :
    ∃ j s', s.pos ≤ j ∧ (S j).1 ≠ pcanErrorOk ∧ s'.pos = j + 1 ∧
      Completes (traffic S δ) (f (pcanErrorOk + 1)) Q s' := by
  obtain ⟨j, s', hpos, hempty, hs', hrest⟩ := gap_of_completes ch _ n h
  exact ⟨j, s', hpos, hempty, hs', hrest _ s' ⟨s'.time, le_rfl, rfl⟩⟩

/-- Each draining of the probe needs a read without a frame. -/
theorem probeLoop_gaps (n : ℕ) (motorId : UInt8) (attempts : List ℤ) (result : ProbeResult)
    {Q : ProbeResult → Watched → Prop} {s : Watched}
    (h : Completes (traffic S δ) (probeLoop ch n motorId attempts result) Q s) :
    Gaps S attempts.length s.pos := by
  induction attempts generalizing result s with
  | nil => trivial
  | cons attempt rest ih =>
      unfold probeLoop sendGetId at h
      obtain ⟨j, s', hpos, hempty, hs', hrest⟩ := gap_of_refused ch n h
      have hgaps := ih _ hrest
      rw [hs'] at hgaps
      exact ⟨j, hpos, hempty, hgaps⟩

theorem scanLoop_gaps (n : ℕ) (ids : List UInt8) (hits : List GetIdHit)
    {Q : List GetIdHit → Watched → Prop} {s : Watched}
    (h : Completes (traffic S δ) (scanLoop ch n ids hits) Q s) : Gaps S ids.length s.pos := by
  induction ids generalizing hits s with
  | nil => trivial
  | cons requestedId rest ih =>
      unfold scanLoop sendGetId at h
      obtain ⟨j, s', hpos, hempty, hs', hrest⟩ := gap_of_refused ch n h
      have hgaps := ih _ hrest
      rw [hs'] at hgaps
      exact ⟨j, hpos, hempty, hgaps⟩

end returning

end waits

/-- **When the waits keep their deadlines and the tools return.**  On every bus and for every
clock that takes at least `δ > 0` for a read: a wait starts at most one read behind its deadline
in all its runs if and only if the first frame in time is one it accepts; the draining is
bounded if and only if some later read brings no frame.  The probe and the scan return if the stream
has, from where they start, as many reads without a frame as their drainings and the turns of their
waits can take, and they do not return if it has fewer than they have drainings. -/
theorem probe_waits_iff (S : Traffic) {δ : ℤ} (hδ : 0 < δ) (ch : Fin numChannels)
    (motorId : UInt8) (timeoutNs : ℤ) :
    (∀ pos,
      ((∀ time n result s o,
          Runs (traffic S δ) (waitForReply ch n motorId timeoutNs result)
            ⟨pos, time, none, []⟩ s o →
          lateReads timeoutNs s ≤ 1) ↔ FirstFits (isReplyForMotor motorId) S pos δ timeoutNs) ∧
      ((∀ time n hit s o,
          Runs (traffic S δ) (waitForGetIdReply ch n timeoutNs hit) ⟨pos, time, none, []⟩ s o →
          lateReads timeoutNs s ≤ 1) ↔ FirstFits isGetIdReply S pos δ timeoutNs)) ∧
    (∀ s, (∃ B, ∀ n s' o, Runs (traffic S δ) (drainRxQueue ch n) s s' o → s'.pos ≤ s.pos + B) ↔
      ∃ j, s.pos ≤ j ∧ (S j).1 ≠ pcanErrorOk) ∧
    (∀ s, (Gaps S (probeAttempts.length * (1 + (1 + probeParams.length) * turns δ probeTimeoutNs))
          s.pos → Finishes (traffic S δ) (fun n => probeMotor ch n motorId) s) ∧
      (Finishes (traffic S δ) (fun n => probeMotor ch n motorId) s →
        Gaps S probeAttempts.length s.pos)) ∧
    (∀ s, (Gaps S (scanIds.length * (1 + turns δ getIdScanTimeoutNs)) s.pos →
        Finishes (traffic S δ) (scanChannelIds ch) s) ∧
      (Finishes (traffic S δ) (scanChannelIds ch) s → Gaps S scanIds.length s.pos)) := by
  refine ⟨fun pos => ⟨?_, ?_⟩, drain_bounded_iff ch, fun s => ⟨fun h => ?_, ?_⟩,
    fun s => ⟨fun h => ?_, ?_⟩⟩
  · exact wait_late_iff ch _ _ hδ.le (fun _ _ => rfl) timeoutNs pos {}
  · exact wait_late_iff ch _ _ hδ.le (fun _ _ => rfl) timeoutNs pos {}
  · exact (probeLoop_settles ch hδ motorId probeAttempts).completes { channelReady := true } h
  · rintro ⟨N, hN⟩
    exact probeLoop_gaps ch N motorId _ _ (hN N le_rfl)
  · exact (scanLoop_settles ch hδ scanIds).completes [] h
  · rintro ⟨N, hN⟩
    exact scanLoop_gaps ch N scanIds _ (hN N le_rfl)

def quietBus : Traffic := fun _ => (pcanErrorQrcvEmpty, {})

theorem quietBus_gaps : ∀ k pos, Gaps quietBus k pos
  | 0, _ => trivial
  | k + 1, pos => ⟨pos, le_rfl, by show pcanErrorQrcvEmpty ≠ pcanErrorOk; decide,
      quietBus_gaps k (pos + 1)⟩

theorem probe_waits_iff_quiet :
    (∀ time n result s o,
      Runs (traffic quietBus 1) (waitForReply 0 n 4 probeTimeoutNs result) ⟨0, time, none, []⟩ s o →
      lateReads probeTimeoutNs s ≤ 1) ∧
    ∀ s, Finishes (traffic quietBus 1) (fun n => probeMotor 0 n 4) s := by
  obtain ⟨hwaits, -, hprobe, -⟩ :=
    probe_waits_iff quietBus (by decide : (0 : ℤ) < 1) 0 4 probeTimeoutNs
  have hblank : ∀ j, (quietBus j).1 ≠ pcanErrorOk := fun j => by
    show pcanErrorQrcvEmpty ≠ pcanErrorOk
    decide
  exact ⟨(hwaits 0).1.mpr fun i _ _ hok => absurd hok (hblank _),
    fun s => (hprobe s).1 (quietBus_gaps _ _)⟩

/-- Motor 5 reports its state without being asked: a frame of type 24. -/
def activeReport : TPCANMsg := extendedFrame (buildExtId 0x18 5 probeHostId) zeroData

/-- A bus on which these reports do not end. -/
def busyBus : Traffic := fun _ => (pcanErrorOk, activeReport)

theorem busyBus_late {α : Type} {accepts : TPCANMsg → Bool} (onReply : TPCANMsg → α → α)
    (onStatus : TPCANStatus → α → α)
    (hfill : ∀ buf frame : TPCANMsg, accepts (buf.fill frame) = accepts frame)
    (hno : accepts activeReport = false) (result : α) (N : ℕ) :
    ∃ n s, Runs (traffic busyBus 1000) (steadyNow >>= fun now =>
        waitLoop 0 accepts onReply onStatus n (now + probeTimeoutNs) n result)
        ⟨0, 0, none, []⟩ s none ∧ N ≤ lateReads probeTimeoutNs s := by
  have hlook : traffic busyBus 1000 ⟨0, 0, none, []⟩ .steadyNow (0 : ℤ) ⟨0, 0, some 0, []⟩ :=
    ⟨0, le_rfl, rfl, rfl⟩
  obtain ⟨s, hrun, hstart, hlate⟩ := waitLoop_late (S := busyBus) (δ := 1000) 0 onReply onStatus
    hfill (Nat.lt_succ_self N) 0 (Nat.succ_pos N) (by decide)
    (by decide : (0 : ℤ) + (0 : ℕ) * (1000 + pollPauseNs) < 0 + probeTimeoutNs) (by simp)
    (fun _ _ => ⟨rfl, hno⟩) 0 [] result
  refine ⟨N + 1, s, .call hlook hrun, ?_⟩
  unfold lateReads
  rw [hstart]
  exact Nat.le_of_succ_le hlate

/-- **A busy bus keeps the test waiting.**  Both waits of 20 ms read on for ever behind their
deadlines, the draining is not bounded, and neither the probe of motor 4 nor the scan returns. -/
theorem busy_bus_keeps_waiting :
    (∀ N, ∃ n s,
      Runs (traffic busyBus 1000) (waitForReply 0 n 4 probeTimeoutNs {}) ⟨0, 0, none, []⟩ s none ∧
        N ≤ lateReads probeTimeoutNs s) ∧
    (∀ N, ∃ n s,
      Runs (traffic busyBus 1000) (waitForGetIdReply 0 n probeTimeoutNs {})
          ⟨0, 0, none, []⟩ s none ∧
        N ≤ lateReads probeTimeoutNs s) ∧
    (¬ ∃ B, ∀ n s o, Runs (traffic busyBus 1000) (drainRxQueue 0 n) ⟨0, 0, none, []⟩ s o →
      s.pos ≤ 0 + B) ∧
    ¬ Finishes (traffic busyBus 1000) (fun n => probeMotor 0 n 4) ⟨0, 0, none, []⟩ ∧
    ¬ Finishes (traffic busyBus 1000) (scanChannelIds 0) ⟨0, 0, none, []⟩ := by
  refine ⟨?_, ?_, ?_, ?_, ?_⟩
  · exact busyBus_late onReplyForMotor onProbeStatus (fun _ _ => rfl) (by decide) {}
  · exact busyBus_late onGetIdReply (fun _ hit => hit) (fun _ _ => rfl) (by decide) {}
  · rw [drain_bounded_iff 0 ⟨0, 0, none, []⟩]
    rintro ⟨j, -, hj⟩
    exact hj rfl
  · rintro ⟨N, hN⟩
    obtain ⟨j, -, hempty, -⟩ := probeLoop_gaps 0 N 4 probeAttempts _ (hN N le_rfl)
    exact hempty rfl
  · rintro ⟨N, hN⟩
    obtain ⟨j, -, hempty, -⟩ := scanLoop_gaps 0 N scanIds _ (hN N le_rfl)
    exact hempty rfl

end TestConnection

end Qub
