import QubController.Conversions
import QubController.HoldTargets
import QubController.NumericArguments

/-! # From the command line to the frames

`parse_arguments` of `position_read.cpp`.  A command line is accepted if and only if it is the
rendering of a list of `Group`s, an option with an accepted value each, and the last value of an
option counts (`accepted_iff`).  All values that are accepted lie in the ranges of the MIT frame,
and so the frames say what was asked for (`frames_as_asked`).

`std::stof` is a parameter: the value of a text with the number of its characters that were read,
or an exception. -/

namespace Qub

open Interaction

namespace PositionRead

/-! ### The options -/

inductive GuiOption
  | hostId | scanTimeout | kp | kd
deriving DecidableEq

namespace GuiOption

/-- What an option sets. -/
abbrev Value : GuiOption → Type
  | hostId => UInt8
  | scanTimeout => ℤ
  | kp | kd => CFloat

def name : GuiOption → String
  | hostId => "--host-id"
  | scanTimeout => "--scan-timeout"
  | kp => "--kp"
  | kd => "--kd"

def named (argument : String) : Option GuiOption :=
  if argument == "--host-id" then some hostId
  else if argument == "--scan-timeout" then some scanTimeout
  else if argument == "--kp" then some kp
  else if argument == "--kd" then some kd
  else none

/-- The values that are accepted. -/
def Permits : (o : GuiOption) → o.Value → Prop
  | hostId, _ => True
  | scanTimeout, v => 1 ≤ v ∧ v ≤ 1000
  | kp, v => ∃ q : ℚ, v = .rat q ∧ 0 ≤ q ∧ q ≤ 500
  | kd, v => ∃ q : ℚ, v = .rat q ∧ 0 ≤ q ∧ q ≤ 5

theorem named_iff {argument : String} {o : GuiOption} :
    named argument = some o ↔ argument = o.name := by
  constructor
  · intro h
    unfold named at h
    split_ifs at h with hid htimeout hkp hkd
    · exact Option.some.inj h ▸ beq_iff_eq.mp hid
    · exact Option.some.inj h ▸ beq_iff_eq.mp htimeout
    · exact Option.some.inj h ▸ beq_iff_eq.mp hkp
    · exact Option.some.inj h ▸ beq_iff_eq.mp hkd
  · rintro rfl
    cases o <;> decide

theorem not_help (o : GuiOption) : (o.name == "-h" || o.name == "--help") = false := by
  cases o <;> decide

end GuiOption

namespace Config

variable (config : Config)

def get : (o : GuiOption) → o.Value
  | .hostId => config.hostId
  | .scanTimeout => config.scanTimeoutMs
  | .kp => config.kp
  | .kd => config.kd

def set : (o : GuiOption) → o.Value → Config
  | .hostId, v => { config with hostId := v }
  | .scanTimeout, v => { config with scanTimeoutMs := v }
  | .kp, v => { config with kp := v }
  | .kd, v => { config with kd := v }

theorem get_set (o : GuiOption) (v : o.Value) : (config.set o v).get o = v := by
  cases o <;> rfl

theorem get_set_of_ne {o o' : GuiOption} (v : o.Value) (h : o' ≠ o) :
    (config.set o v).get o' = config.get o' := by
  cases o <;> cases o' <;> first | rfl | exact absurd rfl h

variable {config} in
theorem eq_of_get {config' : Config} (h : ∀ o, config.get o = config'.get o) :
    config = config' := by
  have hid := h .hostId
  have htimeout := h .scanTimeout
  have hkp := h .kp
  have hkd := h .kd
  cases config
  cases config'
  simp only [get] at hid htimeout hkp hkd
  rw [hid, htimeout, hkp, hkd]

/-- The defaults pass their own checks. -/
theorem permits_default (o : GuiOption) : o.Permits (({} : Config).get o) := by
  cases o with
  | hostId => trivial
  | scanTimeout => exact ⟨by decide, by decide⟩
  | kp => exact ⟨10, rfl, by norm_num, by norm_num⟩
  | kd => exact ⟨1 / 2, rfl, by norm_num, by norm_num⟩

end Config

/-! ### The parser -/

section parser
variable (stof : String → Option (CFloat × ℕ))

def parseFloat (text : String) (minimum maximum : CFloat) (label : String) :
    Except String CFloat :=
  match stof text with
  | none => .error ("invalid " ++ label ++ ": " ++ text)
  | some (value, parsed) =>
      if parsed ≠ text.length ∨ (!value.isFinite || value.lt minimum || value.gt maximum) then
        .error (label ++ " out of range: " ++ text)
      else .ok value

def GuiOption.parse (text : String) : (o : GuiOption) → Except String o.Value
  | hostId => (parseInteger text 0 255 "host ID").map fun value => UInt8.ofInt value.toInt
  | scanTimeout => (parseInteger text 1 1000 "scan timeout").map Int64.toInt
  | kp => parseFloat stof text kpMin kpMax "Kp"
  | kd => parseFloat stof text kdMin kdMax "Kd"

/-- How `parse_arguments` ends: with the help text, with an exception, or with its result. -/
inductive ArgumentsResult
  | help
  | error (message : String)
  | ok (config : Config)

/-- The loop of `parse_arguments`.  An option takes the next argument, whatever it is. -/
def parseArguments : List String → Config → ArgumentsResult
  | [], config => .ok config
  | argument :: rest, config =>
      if argument == "-h" || argument == "--help" then .help
      else match GuiOption.named argument, rest with
        | none, _ => .error ("unknown option: " ++ argument)
        | some _, [] => .error (argument ++ " requires a value")
        | some o, text :: rest =>
            match o.parse stof text with
            | .error message => .error message
            | .ok value => parseArguments rest (config.set o value)

/-- `main`: the help text and an exception end it before anything else. -/
def mainArguments (argv : List String) (fuel : ℕ) : SysM ℤ :=
  match parseArguments stof argv {} with
  | .help => return 0
  | .error _ => return 1
  | .ok config => main config fuel

/-! ### What is accepted -/

/-- An option with an accepted value. -/
structure Group where
  option : GuiOption
  text : String
  value : option.Value
  accepted : option.parse stof text = .ok value

def Group.render (g : Group stof) : List String := [g.option.name, g.text]

/-- The value that the group gives to the option `o`, if it does. -/
def Group.valueOf (o : GuiOption) (g : Group stof) : Option o.Value :=
  if h : g.option = o then some (h ▸ g.value) else none

/-- The last value of an option. -/
def lastValue (o : GuiOption) (gs : List (Group stof)) : Option o.Value :=
  (gs.filterMap (·.valueOf stof o)).getLast?

variable {stof} {gs : List (Group stof)} {argv : List String} {config config' : Config}

theorem parseFloat_range {text label : String} {lo hi : ℚ} {value : CFloat}
    (h : parseFloat stof text (.rat lo) (.rat hi) label = .ok value) :
    ∃ q : ℚ, value = .rat q ∧ lo ≤ q ∧ q ≤ hi := by
  unfold parseFloat at h
  cases hstof : stof text with
  | none =>
      rw [hstof] at h
      cases h
  | some r =>
      obtain ⟨parsedValue, parsed⟩ := r
      simp only [hstof] at h
      split at h
      · cases h
      · rename_i hgood
        obtain rfl := Except.ok.inj h
        cases parsedValue with
        | rat q =>
            simp only [CFloat.isFinite, CFloat.gt, CFloat.lt, Bool.not_true, Bool.false_or,
              Bool.or_eq_true, decide_eq_true_eq, not_or, not_lt] at hgood
            exact ⟨q, rfl, hgood.2⟩
        | nan => simp [CFloat.isFinite] at hgood
        | posInf => simp [CFloat.isFinite] at hgood
        | negInf => simp [CFloat.isFinite] at hgood

theorem parseInteger_range {text label : String} {minimum maximum value : Int64}
    (h : parseInteger text minimum maximum label = .ok value) :
    minimum.toInt ≤ value.toInt ∧ value.toInt ≤ maximum.toInt := by
  have hvalue := parseInteger_value text label minimum maximum
  rw [h] at hvalue
  obtain ⟨v, -, hin⟩ := Option.bind_eq_some_iff.mp hvalue.symm
  unfold valueIn at hin
  split at hin
  · rename_i hrange
    exact Option.some.inj hin ▸ hrange
  · cases hin

/-- What is accepted is permitted. -/
theorem GuiOption.parse_permits {text : String} (o : GuiOption) {v : o.Value}
    (h : o.parse stof text = .ok v) : o.Permits v := by
  cases o with
  | hostId => trivial
  | scanTimeout =>
      unfold GuiOption.parse at h
      cases hparse : parseInteger text 1 1000 "scan timeout" with
      | error message =>
          rw [hparse] at h
          cases h
      | ok value =>
          rw [hparse] at h
          obtain rfl := Except.ok.inj h
          exact parseInteger_range hparse
  | kp => exact parseFloat_range h
  | kd => exact parseFloat_range h

/-- The last value counts. -/
theorem foldl_set (gs : List (Group stof)) (config : Config) (o : GuiOption) :
    (gs.foldl (fun c g => c.set g.option g.value) config).get o =
      (lastValue stof o gs).getD (config.get o) := by
  induction gs using List.reverseRecOn with
  | nil => rfl
  | append_singleton gs g ih =>
      rw [List.foldl_append, List.foldl_cons, List.foldl_nil, lastValue, List.filterMap_append]
      by_cases ho : g.option = o
      · subst ho
        rw [Config.get_set]
        simp [Group.valueOf]
      · rw [Config.get_set_of_ne _ _ (Ne.symm ho), ih]
        simp [Group.valueOf, ho, lastValue]

/-- Step lemma: the loop takes one group. -/
theorem parseArguments_group (g : Group stof) (rest : List String) (config : Config) :
    parseArguments stof (g.render ++ rest) config =
      parseArguments stof rest (config.set g.option g.value) := by
  have hname : GuiOption.named g.option.name = some g.option := GuiOption.named_iff.mpr rfl
  have hhelp := g.option.not_help
  rw [Group.render]
  simp [parseArguments, hhelp, hname, g.accepted]

/-- Run lemma: a list of groups is accepted. -/
theorem parseArguments_render (gs : List (Group stof)) (config : Config) :
    parseArguments stof (gs.flatMap (Group.render stof)) config =
      .ok (gs.foldl (fun c g => c.set g.option g.value) config) := by
  induction gs generalizing config with
  | nil => simp [parseArguments]
  | cons g gs ih =>
      rw [List.flatMap_cons, parseArguments_group]
      exact ih _

/-- By induction along the calls of the loop. -/
theorem render_of_ok (h : parseArguments stof argv config = .ok config') :
    ∃ gs : List (Group stof), argv = gs.flatMap (Group.render stof) ∧
      config' = gs.foldl (fun c g => c.set g.option g.value) config := by
  fun_induction parseArguments stof argv config with
  | case1 config => exact ⟨[], rfl, (ArgumentsResult.ok.inj h).symm⟩
  | case2 | case3 | case4 | case5 => cases h
  | case6 argument config hhelp o text rest hnamed value hparse ih =>
      obtain ⟨gs, rfl, rfl⟩ := ih h
      obtain rfl := GuiOption.named_iff.mp hnamed
      exact ⟨⟨o, text, value, hparse⟩ :: gs, rfl, rfl⟩

/-- The values that count are permitted. -/
theorem lastValue_permits (gs : List (Group stof)) (o : GuiOption) :
    o.Permits ((lastValue stof o gs).getD (({} : Config).get o)) := by
  cases hlast : lastValue stof o gs with
  | none => exact Config.permits_default o
  | some v =>
      obtain ⟨g, -, hg⟩ := List.mem_filterMap.mp (List.mem_of_getLast? hlast)
      unfold Group.valueOf at hg
      split at hg
      · rename_i ho
        subst ho
        exact Option.some.inj hg ▸ g.option.parse_permits g.accepted
      · cases hg

/-- **The accepted command lines.**  They are the sequences of options with an accepted value each;
the last value of an option counts, and else its default, and both are in the range of the
option. -/
theorem accepted_iff (stof : String → Option (CFloat × ℕ)) (argv : List String) (config : Config) :
    (parseArguments stof argv {} = .ok config ↔ ∃ gs : List (Group stof),
      argv = gs.flatMap (Group.render stof) ∧
        ∀ o, config.get o = (lastValue stof o gs).getD (({} : Config).get o)) ∧
    ∀ (gs : List (Group stof)) (o : GuiOption),
      o.Permits ((lastValue stof o gs).getD (({} : Config).get o)) := by
  refine ⟨⟨fun h => ?_, ?_⟩, lastValue_permits⟩
  · obtain ⟨gs, hargv, rfl⟩ := render_of_ok h
    exact ⟨gs, hargv, foldl_set gs {}⟩
  · rintro ⟨gs, rfl, hget⟩
    rw [parseArguments_render]
    refine congrArg ArgumentsResult.ok (Config.eq_of_get fun o => ?_)
    rw [foldl_set, hget]

/-- The parsed values are permitted. -/
theorem permits_of_ok (h : parseArguments stof argv {} = .ok config) (o : GuiOption) :
    o.Permits (config.get o) := by
  obtain ⟨gs, -, rfl⟩ := render_of_ok h
  rw [foldl_set]
  exact lastValue_permits gs o

end parser

/-! ### The frames -/

/-- What the frames say: a measured position to hold at rest, with the gains that were asked for. -/
def asked (p kp kd : ℚ) : MitField → ℚ
  | .position => p
  | .velocity => 0
  | .kp => kp
  | .kd => kd
  | .torque => 0

section frames
variable {stof : String → Option (CFloat × ℕ)} {config : Config} {k : Place} {log : List GuiEvent}

/-- A motor that is commanded has reported the position. -/
theorem OnRequest.reported {p : CFloat} (h : OnRequest config k p log) :
    ∃ msg, .read k.1 msg ∈ log ∧ Reports config.hostId k msg p := by
  obtain ⟨moded, stopped, before, rfl, -, -, msg, earlier, rfl, hreports, -⟩ := h
  exact ⟨msg, by simp, hreports⟩

theorem Held.reported {p : CFloat} (h : Held config k p log) :
    ∃ msg, .read k.1 msg ∈ log ∧ Reports config.hostId k msg p := by
  obtain ⟨later, on, before, rfl, -, hrequest, -⟩ := h
  obtain ⟨msg, hmem, hreports⟩ := hrequest.reported
  exact ⟨msg, by simp [hmem], hreports⟩

/-- Values in the ranges are converted without a clamp. -/
theorem asked_mem {p kp kd : ℚ} (hp : -1257 / 100 ≤ p ∧ p ≤ 1257 / 100) (hkp : 0 ≤ kp ∧ kp ≤ 500)
    (hkd : 0 ≤ kd ∧ kd ≤ 5) (f : MitField) : f.lo ≤ asked p kp kd f ∧ asked p kp kd f ≤ f.hi := by
  cases f with
  | position => exact hp
  | kp => exact hkp
  | kd => exact hkd
  | velocity => norm_num [asked, MitField.lo, MitField.hi]
  | torque => norm_num [asked, MitField.lo, MitField.hi]

/-- A program that returns at once leaves no trace. -/
theorem returned_trace {code : ℤ} {o : Option ℤ} (h : Runs noted (.ret code) [] log o) :
    log = [] := by
  cases h with
  | stop => rfl
  | ret => rfl

end frames

/-- **The frames say what was asked for.**  For every command line, whatever is read from the
channels and the terminal, with the conversions in exact arithmetic: each MIT frame that is written
is, in all five fields, less than one step of the code below a position in the range that its motor
has reported before, no velocity, the gains of the command line and no torque, and its conversions
are defined; and a command line that is not accepted leads to no call at all. -/
theorem frames_as_asked {stof : String → Option (CFloat × ℕ)} {argv : List String} {fuel : ℕ}
    {log : List GuiEvent} {o : Option ℤ}
    (h : Runs noted (mainArguments stof argv fuel) [] log o) :
    (∀ ch msg ok, .wrote ch msg ok ∈ log → msg.commType = CommType.mitControl.code →
      ∃ (config : Config) (p kp kd : ℚ), parseArguments stof argv {} = .ok config ∧
        config.kp = .rat kp ∧ config.kd = .rat kd ∧
        (∃ report, .read ch report ∈ log ∧
          Reports config.hostId (ch, msg.destinationId) report (.rat p)) ∧
        ∀ f : MitField, InRange16 (floatToUintOperand (.rat (asked p kp kd f)) f.min f.max) ∧
          ∃ v : ℚ, uintToFloat (f.word msg) f.min f.max = .rat v ∧ 0 ≤ asked p kp kd f - v ∧
            asked p kp kd f - v < (f.hi - f.lo) / 65535) ∧
    ((∀ config, parseArguments stof argv {} ≠ .ok config) → log = []) := by
  unfold mainArguments at h
  cases hparse : parseArguments stof argv {} with
  | help =>
      obtain rfl := returned_trace (hparse ▸ h)
      exact ⟨fun _ _ _ hmem => absurd hmem List.not_mem_nil, fun _ => rfl⟩
  | error message =>
      obtain rfl := returned_trace (hparse ▸ h)
      exact ⟨fun _ _ _ hmem => absurd hmem List.not_mem_nil, fun _ => rfl⟩
  | ok config =>
      rw [hparse] at h
      refine ⟨fun ch msg ok hmem htype => ?_, fun hnone => absurd rfl (hnone config)⟩
      have heach := (h.sat (main_noted config fuel) each_nil).1
      obtain ⟨later, earlier, hlog⟩ := List.append_of_mem hmem
      obtain ⟨x, hframe, ⟨p, rfl, hp⟩, hsource⟩ :=
        (heach later _ earlier hlog ch msg ok rfl).1 htype
      obtain ⟨kp, hkp, hkprange⟩ := permits_of_ok hparse .kp
      obtain ⟨kd, hkd, hkdrange⟩ := permits_of_ok hparse .kd
      have hreport : ∃ report, .read ch report ∈ earlier ∧
          Reports config.hostId (ch, msg.destinationId) report (.rat p) :=
        hsource.elim OnRequest.reported Held.reported
      refine ⟨config, p, kp, kd, rfl, hkp, hkd, ?_, fun f => ?_⟩
      · obtain ⟨report, hread, hreports⟩ := hreport
        exact ⟨report, by simp [hlog, hread], hreports⟩
      · have hmem := asked_mem hp hkprange hkdrange f
        have hmit : msg = (⟨ch, msg.destinationId, config.hostId, {}⟩ : Robstride).mit
            fun f => .rat (asked p kp kd f) := by
          rw [hframe, holdFrame_destinationId, holdFrame]
          simp only [Robstride.mit, asked, ← hkp, ← hkd]
          rfl
        have hword := Robstride.word_mit ⟨ch, msg.destinationId, config.hostId, {}⟩
          (fun f => .rat (asked p kp kd f)) f
        rw [← hmit] at hword
        rw [hword, f.min_eq, f.max_eq]
        refine ⟨(inRange_operand_iff f.lo_lt_hi _).mpr (by simp), ?_⟩
        have hcode := uintToFloat_floatToUint f.lo_lt_hi (asked p kp kd f)
        rwa [saturate_of_mem hmem.1 hmem.2] at hcode

/-- `std::stof` on the text of twenty. -/
def stofTwenty (text : String) : Option (CFloat × ℕ) :=
  if text = "20" then some (.rat 20, 2) else none

/-- Motor 4 is held with the stiffness 20. -/
theorem frames_as_asked_twenty : ∃ log msg,
    Runs noted (mainArguments stofTwenty ["--kp", "20"] 3) [] log (some 0) ∧
    .wrote 0 msg true ∈ log ∧ msg.commType = CommType.mitControl.code ∧
      ∃ v : ℚ, uintToFloat (MitField.kp.word msg) MitField.kp.min MitField.kp.max = .rat v ∧
        0 ≤ 20 - v ∧ 20 - v < 500 / 65535 := by
  have hparse : parseArguments stofTwenty ["--kp", "20"] {} = .ok { kp := .rat 20 } := by rfl
  have hmain : mainArguments stofTwenty ["--kp", "20"] 3 = main { kp := .rat 20 } 3 := by
    rw [mainArguments, hparse]
  have hrun := runs_exec (P := fun _ => True) (W := noted) (h := handlerFour)
    (fun s c _ => ⟨rfl, trivial⟩) (mainArguments stofTwenty ["--kp", "20"] 3) (s := []) trivial
  obtain ⟨hend, hmit⟩ : (exec handlerFour (main { kp := .rat 20 } 3) []).2 = some 0 ∧
      (exec handlerFour (main { kp := .rat 20 } 3) []).1.any isCommand = true := by decide +kernel
  rw [hmain, hend] at hrun
  obtain ⟨e, he, hcommand⟩ := List.any_eq_true.mp hmit
  cases e with
  | wrote ch msg ok =>
      simp only [isCommand, Bool.and_eq_true, beq_iff_eq] at hcommand
      obtain ⟨⟨rfl, rfl⟩, htype⟩ := hcommand
      rw [← hmain] at hrun
      obtain ⟨config, p, kp, kd, hok, hkp, -, -, hfield⟩ :=
        (frames_as_asked hrun).1 0 msg true he htype
      obtain rfl := ArgumentsResult.ok.inj (hparse.symm.trans hok)
      obtain rfl := CFloat.rat.inj hkp
      obtain ⟨-, v, hv, hlow, hhigh⟩ := hfield .kp
      refine ⟨_, msg, hrun, he, htype, v, hv, hlow, hhigh.trans_le ?_⟩
      norm_num [MitField.hi, MitField.lo]
  | _ => cases hcommand

end PositionRead

end Qub
