import QubController.PositionRead
import QubController.RoundRobin

/-! # Polling of the disabled motors

`poll_disabled_positions` on an open channel is one turn of a round robin among the disabled
motors of the channel.  Calls may follow each other with anything in between that leaves the
motors' places and flags alone. -/

namespace Qub

open Interaction

namespace PositionRead

variable {n : ℕ}

/-- The frame of a position request. -/
def positionRequest (hostId motorId : UInt8) : TPCANMsg :=
  extendedFrame (buildExtId CommType.paramRead.code hostId.toUInt16 motorId) mechPosQuery

/-- Is the motor polled on channel `ch`? -/
def polled (motors : Motors n) (ch : Fin numChannels) (i : Fin n) : Bool :=
  (motors i).channelIdx == ch && !(motors i).enabled

/-- One call after the other; what happens between them shows in the motors only. -/
def pollCalls (channels : Channels) (hostId : UInt8) :
    List (Motors n) → (Fin numChannels → ℕ) → SysM (Fin numChannels → ℕ)
  | [], cursors => return cursors
  | motors :: rest, cursors => do
      let cursors ← pollDisabledPositions channels hostId motors cursors
      pollCalls channels hostId rest cursors

/-- The motors are the same but for what messages change. -/
def SameFlags (motors motors' : Motors n) : Prop :=
  ∀ i, (motors' i).channelIdx = (motors i).channelIdx ∧ (motors' i).motorId = (motors i).motorId ∧
    (motors' i).enabled = (motors i).enabled

/-- The frames written on each channel, the oldest first. -/
abbrev Written := Fin numChannels → List TPCANMsg

/-- The world that collects them; writes succeed or fail. -/
def written : World Sys Written := fun s c _ s' =>
  match c with
  | .canWrite ch msg => s' = Function.update s ch (s ch ++ [msg])
  | _ => s' = s

section poll
variable [NeZero n] {hostId : UInt8} {ch : Fin numChannels} {motors : Motors n} {s : Written}

/-- The search requests the first eligible motor in its order. -/
theorem pollChannel_eq (hostId : UInt8) (ch : Fin numChannels) (motors : Motors n) (cursor : ℕ)
    (l : List ℕ) :
    pollChannel hostId ch motors cursor l =
      match (l.map fun checked => Fin.ofNat n (cursor + checked)).find?
        (polled motors ch) with
      | none => .ret cursor
      | some i => Prog.call (I := Sys) (.canWrite ch (positionRequest hostId (motors i).motorId))
          (fun _ => .ret ((i.val + 1) % n)) := by
  induction l with
  | nil => rfl
  | cons checked rest ih =>
      rw [pollChannel, List.map_cons]
      by_cases hpolled : polled motors ch (Fin.ofNat n (cursor + checked)) = true
      · have hcond : ((motors (Fin.ofNat n (cursor + checked))).channelIdx != ch ||
            (motors (Fin.ofNat n (cursor + checked))).enabled) = false := by
          simpa [polled] using hpolled
        rw [List.find?_cons_of_pos hpolled]
        simp only [hcond]
        rfl
      · have hcond : ((motors (Fin.ofNat n (cursor + checked))).channelIdx != ch ||
            (motors (Fin.ofNat n (cursor + checked))).enabled) = true := by
          simpa [polled, imp_iff_not_or] using hpolled
        rw [List.find?_cons_of_neg hpolled, ← ih]
        simp only [hcond, if_true]

/-- One turn: the cursor and the frames of a channel after a call. -/
def Turn (hostId : UInt8) (motors : Motors n) (ch : Fin numChannels) (cursor : ℕ)
    (frames : List TPCANMsg) (cursor' : ℕ) (frames' : List TPCANMsg) : Prop :=
  match (RoundRobin.searchFrom n cursor).find? (polled motors ch) with
  | none => cursor' = cursor ∧ frames' = frames
  | some i => cursor' = (i.val + 1) % n ∧
      frames' = frames ++ [positionRequest hostId (motors i).motorId]

theorem pollChannel_written (ch : Fin numChannels) (motors : Motors n) (cursor : ℕ) (s : Written) :
    Sat written (fun _ => True) (pollChannel hostId ch motors cursor (List.range n))
      (fun cursor' s' => Turn hostId motors ch cursor (s ch) cursor' (s' ch) ∧
        ∀ c, c ≠ ch → s' c = s c) s := by
  rw [pollChannel_eq]
  unfold Turn RoundRobin.searchFrom
  cases (List.map (fun checked => Fin.ofNat n (cursor + checked)) (List.range n)).find?
      (polled motors ch) with
  | none => exact ⟨⟨rfl, rfl⟩, fun _ _ => rfl⟩
  | some i =>
      rintro r s' rfl
      refine ⟨trivial, ⟨rfl, ?_⟩, fun c hc => ?_⟩
      · rw [Function.update_self]
      · rw [Function.update_of_ne hc]

/-- A call is one turn on every open channel of the list. -/
theorem pollChannels_written (channels : Channels) (motors : Motors n)
    (l : List (Fin numChannels)) (hl : l.Nodup) (cursors : Fin numChannels → ℕ) (s : Written) :
    Sat written (fun _ => True) (pollChannels channels hostId motors l cursors)
      (fun cursors' s' => (∀ c ∈ l, channels c = true →
          Turn hostId motors c (cursors c) (s c) (cursors' c) (s' c)) ∧
        ∀ c, c ∉ l → cursors' c = cursors c ∧ s' c = s c) s := by
  induction l generalizing cursors s with
  | nil => exact ⟨fun c hc => absurd hc (by simp), fun _ _ => ⟨rfl, rfl⟩⟩
  | cons ch rest ih =>
      obtain ⟨hch, hrest⟩ := List.nodup_cons.mp hl
      rw [pollChannels]
      by_cases hopen : channels ch = true
      · simp only [hopen, if_true]
        refine (pollChannel_written ch motors (cursors ch) s).bind ?_
        rintro cursor s₁ ⟨hturn, hkeep⟩
        refine (ih hrest (Function.update cursors ch cursor) s₁).mono ?_
        rintro cursors' s' ⟨hturns, hkeeps⟩
        refine ⟨fun c hc hc' => ?_, fun c hc => ?_⟩
        · rcases List.mem_cons.mp hc with rfl | hc
          · obtain ⟨hcursor, hframes⟩ := hkeeps c hch
            rw [hcursor, hframes, Function.update_self]
            exact hturn
          · have hne : c ≠ ch := fun h => hch (h ▸ hc)
            have h := hturns c hc hc'
            rwa [Function.update_of_ne hne, hkeep c hne] at h
        · obtain ⟨hne, hc⟩ := not_or.mp (List.mem_cons.not.mp hc)
          obtain ⟨hcursor, hframes⟩ := hkeeps c hc
          rw [hcursor, hframes, Function.update_of_ne hne, hkeep c hne]
          exact ⟨rfl, rfl⟩
      · simp only [hopen]
        refine (ih hrest cursors s).mono ?_
        rintro cursors' s' ⟨hturns, hkeeps⟩
        refine ⟨fun c hc hc' => ?_, fun c hc => hkeeps c fun h => hc (List.mem_cons_of_mem ch h)⟩
        rcases List.mem_cons.mp hc with rfl | hc
        · exact absurd hc' hopen
        · exact hturns c hc hc'

end poll

theorem pollDisabledPositions_written [NeZero n] {hostId : UInt8} {channels : Channels}
    {motors : Motors n} {ch : Fin numChannels} (hopen : channels ch = true)
    (cursors : Fin numChannels → ℕ) (s : Written) :
    Sat written (fun _ => True) (pollDisabledPositions channels hostId motors cursors)
      (fun cursors' s' => Turn hostId motors ch (cursors ch) (s ch) (cursors' ch) (s' ch)) s := by
  unfold pollDisabledPositions
  rw [dif_neg (NeZero.ne n)]
  refine (pollChannels_written channels motors _ (List.nodup_finRange _) cursors s).mono ?_
  exact fun cursors' s' h => h.1 ch (List.mem_finRange ch) hopen

/-! ### Consecutive calls -/

section calls
variable {hostId : UInt8} {channels : Channels} {motors motors' : Motors n}
  {ch : Fin numChannels}

theorem SameFlags.polled (h : SameFlags motors motors') (ch : Fin numChannels) :
    polled motors' ch = polled motors ch := by
  funext i
  obtain ⟨hch, -, henabled⟩ := h i
  rw [PositionRead.polled, PositionRead.polled, hch, henabled]

theorem polled_iff {i : Fin n} :
    polled motors ch i = true ↔ (motors i).channelIdx = ch ∧ (motors i).enabled = false := by
  simp [polled]

theorem Turn.next [NeZero n] {cursor cursor' : ℕ} {frames frames' : List TPCANMsg}
    (h : Turn hostId motors' ch cursor frames cursor' frames') (hsame : SameFlags motors motors')
    (hcursor : cursor < n) (k : ℕ) :
    cursor' < n ∧
      frames' ++ (RoundRobin.turns (polled motors ch) k cursor').map
          (fun i => positionRequest hostId (motors i).motorId) =
        frames ++ (RoundRobin.turns (polled motors ch) (k + 1) cursor).map
          (fun i => positionRequest hostId (motors i).motorId) := by
  unfold Turn at h
  rw [hsame.polled] at h
  rw [RoundRobin.turns]
  cases hfind : (RoundRobin.searchFrom n cursor).find? (polled motors ch) with
  | none =>
      rw [hfind] at h
      obtain ⟨rfl, rfl⟩ := h
      have hnone : ∀ i, polled motors ch i = false := fun i => by
        simpa using List.find?_eq_none.mp hfind i (RoundRobin.mem_searchFrom _ i)
      rw [RoundRobin.turns_of_none hnone]
      exact ⟨hcursor, rfl⟩
  | some i =>
      rw [hfind] at h
      obtain ⟨rfl, rfl⟩ := h
      have hid : (motors' i).motorId = (motors i).motorId := (hsame i).2.1
      refine ⟨Nat.mod_lt _ (Nat.pos_of_neZero n), ?_⟩
      rw [hid, List.append_assoc]
      rfl

theorem pollCalls_written [NeZero n] (hopen : channels ch = true) (calls : List (Motors n))
    (hsame : ∀ m ∈ calls, SameFlags motors m) (cursors : Fin numChannels → ℕ)
    (hcursor : cursors ch < n) (s : Written) :
    Sat written (fun _ => True) (pollCalls channels hostId calls cursors)
      (fun cursors' s' => cursors' ch < n ∧
        s' ch = s ch ++ (RoundRobin.turns (polled motors ch) calls.length (cursors ch)).map
          (fun i => positionRequest hostId (motors i).motorId)) s := by
  induction calls generalizing cursors s with
  | nil => exact ⟨hcursor, by simp [RoundRobin.turns]⟩
  | cons m rest ih =>
      rw [pollCalls]
      refine (pollDisabledPositions_written hopen cursors s).bind fun cursors₁ s₁ hturn => ?_
      obtain ⟨hcursor₁, hframes⟩ :=
        hturn.next (hsame m List.mem_cons_self) hcursor rest.length
      refine (ih (fun m' hm' => hsame m' (List.mem_cons_of_mem m hm')) cursors₁ hcursor₁ s₁).mono ?_
      rintro cursors' s' ⟨hcursor', hs'⟩
      exact ⟨hcursor', hs'.trans hframes⟩

end calls

/-- **Fair polling.**  As many calls as there are disabled motors on an open channel send each of
them one position request and write nothing else there; without such motors nothing is written;
and the cursor stays an index. -/
theorem fair_polling (channels : Channels) (hostId : UInt8) (motors : Motors n)
    (calls : List (Motors n)) (hsame : ∀ m ∈ calls, SameFlags motors m) (ch : Fin numChannels)
    (hopen : channels ch = true) (cursors cursors' : Fin numChannels → ℕ)
    (hcursor : cursors ch < n) (s s' : Written)
    (hrun : Runs written (pollCalls channels hostId calls cursors) s s' (some cursors')) :
    cursors' ch < n ∧
    (calls.length = (List.finRange n).countP (polled motors ch) →
      ∃ order : List (Fin n), order.Nodup ∧
        (∀ i, i ∈ order ↔ (motors i).channelIdx = ch ∧ (motors i).enabled = false) ∧
        s' ch = s ch ++ order.map fun i => positionRequest hostId (motors i).motorId) ∧
    ((∀ i, (motors i).channelIdx = ch → (motors i).enabled = true) → s' ch = s ch) := by
  have hn : NeZero n := ⟨by omega⟩
  obtain ⟨hcursor', hframes⟩ := hrun.post (pollCalls_written hopen calls hsame cursors hcursor s)
  refine ⟨hcursor', fun hk => ?_, fun hnone => ?_⟩
  · refine ⟨RoundRobin.eligibleFrom (polled motors ch) (cursors ch),
      RoundRobin.nodup_eligibleFrom, fun i => ?_, ?_⟩
    · rw [RoundRobin.mem_eligibleFrom, polled_iff]
    · have hlen : calls.length =
          (RoundRobin.eligibleFrom (polled motors ch) (cursors ch)).length := by
        rw [hk, RoundRobin.length_eligibleFrom]
      rw [hframes, RoundRobin.turns_eq hlen.le, hlen, List.take_length]
  · have hidle : ∀ i, polled motors ch i = false := by
      intro i
      rw [← Bool.not_eq_true, polled_iff]
      rintro ⟨hch, hoff⟩
      rw [hnone i hch] at hoff
      cases hoff
    rw [hframes, RoundRobin.turns_of_none hidle, List.map_nil, List.append_nil]

/-- Motors 4 to 6 of channel 0, of which the second is enabled. -/
def threeMotors : Motors 3 := fun i =>
  { channelIdx := 0
    motorId := 4 + UInt8.ofNat i.val
    uid := zeroData
    driver := ⟨0, 4 + UInt8.ofNat i.val, hostIdDefault, {}⟩
    enabled := i == 1 }

/-- Writes succeed and are kept. -/
def writtenHandler : Handler Sys Written := fun s c =>
  match c with
  | .canWrite ch msg => (pcanErrorOk, Function.update s ch (s ch ++ [msg]))
  | c => (c.quiet, s)

theorem written_handler (s : Written) (c : SysCall) :
    written s c (writtenHandler s c).1 (writtenHandler s c).2 := by
  cases c <;> rfl

/-- Two calls that start at the second motor request the third and then the first. -/
theorem fair_polling_three : ∃ (s' : Written) (cursors' : Fin numChannels → ℕ),
    Runs written (pollCalls (fun _ => true) hostIdDefault [threeMotors, threeMotors] fun _ => 1)
      (fun _ => []) s' (some cursors') ∧ cursors' 0 < 3 ∧ (s' 0).length = 2 := by
  have hrun := runs_exec (P := fun _ => True) (fun s c _ => ⟨written_handler s c, trivial⟩)
    (pollCalls (fun _ => true) hostIdDefault [threeMotors, threeMotors] fun _ => 1)
    (s := fun _ => []) trivial
  have hsame : ∀ m ∈ [threeMotors, threeMotors], SameFlags threeMotors m := by
    intro m hm i
    obtain rfl : m = threeMotors := by simpa using hm
    exact ⟨rfl, rfl, rfl⟩
  have hfair := fair_polling (fun _ => true) hostIdDefault threeMotors _ hsame 0 rfl _ _
    (by decide) _ _ hrun
  obtain ⟨order, hnodup, hmem, hframes⟩ := hfair.2.1 (by decide)
  refine ⟨_, _, hrun, hfair.1, ?_⟩
  rw [hframes]
  have hperm : order.Perm [0, 2] := by
    refine (List.perm_ext_iff_of_nodup hnodup (by decide)).mpr fun i => ?_
    rw [hmem]
    revert i
    decide
  simp [hperm.length_eq]

end PositionRead

end Qub
