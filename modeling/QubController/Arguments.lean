import QubController.NumericArguments

/-! # The command line of motor_config

The argument loop of `main` in `motor_config.cpp`, and what `main` does with its result.

A command line is well formed if it is the rendering of a list of `Group`s: positional words,
options with an accepted value, and flags.  `argLoop_render` runs the loop group by group, and
`foldl_apply` says what is left at the end: the words in their order, the last value of each
option, and whether a flag was given. -/

namespace Qub

open Interaction

namespace MotorConfig

/-! ### The loop -/

/-- The options that take a value. -/
inductive ValueOption
  | channel | hostId | timeout | retries
deriving DecidableEq

inductive Flag
  | assumeYes | dryRun | verbose
deriving DecidableEq

/-- The variables of `main` that the loop changes. -/
structure Arguments where
  channelIdx : Option Int32 := none
  config : Config := {}
  verbose : Bool := false
  command : String := ""
  commandArgs : List String := []

def ValueOption.parse (text : String) : ValueOption → Except String Int32
  | channel => parseInteger text 0 (Int32.ofNat (numChannels - 1)) "channel"
  | hostId => parseInteger text 0 255 "host ID"
  | timeout => parseInteger text 1 10000 "timeout"
  | retries => parseInteger text 1 20 "retries"

namespace Arguments

variable (a : Arguments)

def setValue (value : Int32) : ValueOption → Arguments
  | .channel => { a with channelIdx := some value }
  | .hostId => { a with config := { a.config with hostId := UInt8.ofInt value.toInt } }
  | .timeout => { a with config := { a.config with timeoutMs := value.toInt } }
  | .retries => { a with config := { a.config with retries := value.toInt.toNat } }

def setFlag : Flag → Arguments
  | .assumeYes => { a with config := { a.config with assumeYes := true } }
  | .dryRun => { a with config := { a.config with dryRun := true } }
  | .verbose => { a with verbose := true }

/-- A positional word: the command, or one of its arguments. -/
def addWord (word : String) : Arguments :=
  if a.command.isEmpty then { a with command := word }
  else { a with commandArgs := a.commandArgs ++ [word] }

end Arguments

def valueOption (arg : String) : Option ValueOption :=
  if arg == "--channel" then some .channel
  else if arg == "--host-id" then some .hostId
  else if arg == "--timeout" then some .timeout
  else if arg == "--retries" then some .retries
  else none

def flag (arg : String) : Option Flag :=
  if arg == "-y" || arg == "--yes" then some .assumeYes
  else if arg == "--dry-run" then some .dryRun
  else if arg == "-v" || arg == "--verbose" then some .verbose
  else none

/-- How the loop ends: with the help text, with an exception, or with all arguments read. -/
inductive ArgsResult
  | help
  | error (message : String)
  | ok (a : Arguments)

/-- The argument loop.  An option with a value takes the next argument, whatever it is. -/
def argLoop : List String → Arguments → ArgsResult
  | [], a => .ok a
  | arg :: rest, a =>
      if arg == "-h" || arg == "--help" then .help
      else match valueOption arg, rest with
        | some _, [] => .error (arg ++ " requires a value")
        | some o, text :: rest =>
            match o.parse text with
            | .error message => .error message
            | .ok value => argLoop rest (a.setValue value o)
        | none, rest =>
            match flag arg with
            | some f => argLoop rest (a.setFlag f)
            | none =>
                if arg.toList.head? == some '-' then .error ("Unknown option: " ++ arg)
                else argLoop rest (a.addWord arg)

/-! ### Behind the loop -/

/-- `static_cast<size_t>` of a channel index. -/
def channelOf (channelIdx : Int32) : Fin numChannels := Fin.ofNat numChannels channelIdx.toInt.toNat

/-- An argument that is a motor ID. -/
def parseMotorId (text label : String) : Except String UInt8 :=
  (parseInteger text 0 127 label).map fun value => UInt8.ofInt value.toInt

/-- `command_scan` with its arguments. -/
def mainScan (a : Arguments) (n : ℕ) : SysM ℤ :=
  match a.commandArgs with
  | [] => commandScan a.config (a.channelIdx.map channelOf) n 0 127
  | [minimum] =>
      match parseMotorId minimum "motor ID" with
      | .error _ => return 2
      | .ok minimum => commandScan a.config (a.channelIdx.map channelOf) n minimum.toNat 127
  | [minimum, maximum] =>
      match parseMotorId minimum "motor ID", parseMotorId maximum "motor ID" with
      | .ok minimum, .ok maximum =>
          commandScan a.config (a.channelIdx.map channelOf) n minimum.toNat maximum.toNat
      | _, _ => return 2
  | _ => return 2

/-- `command_get`, `command_set_id` or `command_set_zero` with its arguments. -/
def CanBus.mainCommand (bus : CanBus) (command : String) (commandArgs : List String) (n : ℕ) :
    SysM ℤ :=
  if command == "get" then
    match commandArgs with
    | [text] =>
        match parseMotorId text "motor ID" with
        | .error _ => return 2
        | .ok motorId => bus.commandGet n motorId
    | _ => return 2
  else if command == "set-id" then
    match commandArgs with
    | [oldText, newText] =>
        match parseMotorId oldText "old motor ID", parseMotorId newText "new motor ID" with
        | .ok oldId, .ok newId => do
            let x ← bus.commandSetId n oldId newId
            return x.exitCode
        | _, _ => return 2
    | _ => return 2
  else
    match commandArgs with
    | [text] =>
        match parseMotorId text "motor ID" with
        | .error _ => return 2
        | .ok motorId => do
            let x ← bus.commandSetZero n motorId
            return x.exitCode
    | _ => return 2

def commandRequiresChannel (command : String) : Bool :=
  command == "get" || command == "set-id" || command == "set-zero"

/-- `main` behind the argument loop. -/
def mainArguments (a : Arguments) (n : ℕ) : SysM ℤ :=
  if a.command.isEmpty then return 2
  else if a.command == "scan" then mainScan a n
  else if commandRequiresChannel a.command then
    match a.channelIdx with
    | none => return 2
    | some channelIdx => do
        match ← CanBus.init a.config (channelOf channelIdx) with
        | none => return 2
        | some bus => bus.mainCommand a.command a.commandArgs n
  else return 2

/-- `main`, with the arguments behind the program's name. -/
def main (argv : List String) (n : ℕ) : SysM ℤ :=
  match argLoop argv {} with
  | .help => return 0
  | .error _ => return 2
  | .ok a => mainArguments a n

/-- The command that the arguments ask for. -/
inductive Arguments.Asks (a : Arguments) : Command → Prop
  | scan (hc : a.command = "scan") (hargs : a.commandArgs = []) :
      a.Asks (.scan (a.channelIdx.map channelOf) 0 127)
  | scanFrom {text : String} {minimum : UInt8} (hc : a.command = "scan")
      (hargs : a.commandArgs = [text]) (hmin : parseMotorId text "motor ID" = .ok minimum) :
      a.Asks (.scan (a.channelIdx.map channelOf) minimum.toNat 127)
  | scanBetween {text text' : String} {minimum maximum : UInt8} (hc : a.command = "scan")
      (hargs : a.commandArgs = [text, text']) (hmin : parseMotorId text "motor ID" = .ok minimum)
      (hmax : parseMotorId text' "motor ID" = .ok maximum) :
      a.Asks (.scan (a.channelIdx.map channelOf) minimum.toNat maximum.toNat)
  | get {text : String} {channelIdx : Int32} {motorId : UInt8} (hc : a.command = "get")
      (hchannel : a.channelIdx = some channelIdx) (hargs : a.commandArgs = [text])
      (hid : parseMotorId text "motor ID" = .ok motorId) :
      a.Asks (.get (channelOf channelIdx) motorId)
  | setId {text text' : String} {channelIdx : Int32} {oldId newId : UInt8}
      (hc : a.command = "set-id") (hchannel : a.channelIdx = some channelIdx)
      (hargs : a.commandArgs = [text, text']) (hold : parseMotorId text "old motor ID" = .ok oldId)
      (hnew : parseMotorId text' "new motor ID" = .ok newId) :
      a.Asks (.setId (channelOf channelIdx) oldId newId)
  | setZero {text : String} {channelIdx : Int32} {motorId : UInt8} (hc : a.command = "set-zero")
      (hchannel : a.channelIdx = some channelIdx) (hargs : a.commandArgs = [text])
      (hid : parseMotorId text "motor ID" = .ok motorId) :
      a.Asks (.setZero (channelOf channelIdx) motorId)

/-- The commands that are made on one channel open it first. -/
theorem mainArguments_onBus {a : Arguments} {channelIdx : Int32}
    (hc : a.command = "get" ∨ a.command = "set-id" ∨ a.command = "set-zero")
    (hchannel : a.channelIdx = some channelIdx) (n : ℕ) :
    mainArguments a n = CanBus.init a.config (channelOf channelIdx) >>= fun bus =>
      bus.elim (.ret 2) fun bus => bus.mainCommand a.command a.commandArgs n := by
  have hcommand : a.command.isEmpty = false ∧ (a.command == "scan") = false ∧
      commandRequiresChannel a.command = true := by
    rcases hc with hc | hc | hc <;> rw [hc] <;> decide
  obtain ⟨hgiven, hscan, hrequires⟩ := hcommand
  rw [mainArguments, hgiven, hscan, hrequires, hchannel]
  refine congrArg (CanBus.init a.config (channelOf channelIdx) >>= ·) (funext fun bus => ?_)
  cases bus <;> rfl

/-- A command line that asks for a command runs it. -/
theorem main_of_asks {argv : List String} {a : Arguments} (h : argLoop argv {} = .ok a)
    {c : Command} (hc : a.Asks c) (n : ℕ) : main argv n = runCommand a.config n c := by
  rw [main, h]
  cases hc with
  | scan hc hargs => simp [mainArguments, hc, mainScan, hargs, runCommand]
  | scanFrom hc hargs hmin => simp [mainArguments, hc, mainScan, hargs, hmin, runCommand]
  | scanBetween hc hargs hmin hmax =>
      simp [mainArguments, hc, mainScan, hargs, hmin, hmax, runCommand]
  | get hc hchannel hargs hid =>
      refine (mainArguments_onBus (.inl hc) hchannel n).trans (congrArg _ (funext fun bus => ?_))
      cases bus with
      | none => rfl
      | some bus => simp [CanBus.mainCommand, hc, hargs, hid]
  | setId hc hchannel hargs hold hnew =>
      refine (mainArguments_onBus (.inr (.inl hc)) hchannel n).trans
        (congrArg _ (funext fun bus => ?_))
      cases bus with
      | none => rfl
      | some bus => simp [CanBus.mainCommand, hc, hargs, hold, hnew]
  | setZero hc hchannel hargs hid =>
      refine (mainArguments_onBus (.inr (.inr hc)) hchannel n).trans
        (congrArg _ (funext fun bus => ?_))
      cases bus with
      | none => rfl
      | some bus => simp [CanBus.mainCommand, hc, hargs, hid]

/-! ### Well-formed command lines -/

def ValueOption.name : ValueOption → String
  | channel => "--channel"
  | hostId => "--host-id"
  | timeout => "--timeout"
  | retries => "--retries"

/-- The spellings of a flag. -/
def Flag.names : Flag → List String
  | assumeYes => ["-y", "--yes"]
  | dryRun => ["--dry-run"]
  | verbose => ["-v", "--verbose"]

/-- A word of a well-formed command line, or an option with all that belongs to it. -/
inductive Group
  | word (w : String) (nonempty : w ≠ "") (no_dash : w.toList.head? ≠ some '-')
  | value (o : ValueOption) (text : String) (value : Int32) (accepted : o.parse text = .ok value)
  | flag (f : Flag) (name : String) (mem : name ∈ f.names)

namespace Group

/-- The arguments of a group. -/
def render : Group → List String
  | word w _ _ => [w]
  | value o text _ _ => [o.name, text]
  | flag _ name _ => [name]

def apply (a : Arguments) : Group → Arguments
  | word w _ _ => a.addWord w
  | value o _ v _ => a.setValue v o
  | flag f _ _ => a.setFlag f

def words : Group → List String
  | word w _ _ => [w]
  | _ => []

/-- The value that the group gives to the option `o`, if it does. -/
def valueOf (o : ValueOption) : Group → Option Int32
  | value o' _ v _ => if o' = o then some v else none
  | _ => none

def sets (f : Flag) : Group → Bool
  | flag f' _ _ => f' == f
  | _ => false

end Group

/-- The command line of a list of groups. -/
def render (gs : List Group) : List String := gs.flatMap Group.render

/-- The positional words. -/
def words (gs : List Group) : List String := gs.flatMap Group.words

/-- The last value of an option. -/
def lastValue (o : ValueOption) (gs : List Group) : Option Int32 :=
  (gs.filterMap (·.valueOf o)).getLast?

/-- Is the flag given? -/
def hasFlag (f : Flag) (gs : List Group) : Bool := gs.any (·.sets f)

/-! ### Group by group -/

theorem valueOption_name (o : ValueOption) : valueOption o.name = some o := by cases o <;> decide

theorem not_help_name (o : ValueOption) : (o.name == "-h" || o.name == "--help") = false := by
  cases o <;> decide

theorem flag_of_mem {f : Flag} {name : String} (h : name ∈ f.names) :
    (name == "-h" || name == "--help") = false ∧ valueOption name = none ∧
      flag name = some f := by
  cases f <;> simp only [Flag.names, List.mem_cons, List.not_mem_nil, or_false] at h
  · rcases h with rfl | rfl <;> exact ⟨by decide, by decide, by decide⟩
  · rw [h]
    exact ⟨by decide, by decide, by decide⟩
  · rcases h with rfl | rfl <;> exact ⟨by decide, by decide, by decide⟩

theorem ne_of_dash {w name : String} (h : w.toList.head? ≠ some '-')
    (hname : name.toList.head? = some '-') : (w == name) = false := by
  refine beq_false_of_ne ?_
  rintro rfl
  exact h hname

/-- A word without a leading dash is no option. -/
theorem option_of_word {w : String} (h : w.toList.head? ≠ some '-') :
    (w == "-h" || w == "--help") = false ∧ valueOption w = none ∧ flag w = none := by
  simp (disch := decide) [valueOption, flag, ne_of_dash h]

/-- Step lemma: the loop takes one group. -/
theorem argLoop_group (g : Group) (rest : List String) (a : Arguments) :
    argLoop (g.render ++ rest) a = argLoop rest (g.apply a) := by
  cases g with
  | word w hne hdash =>
      obtain ⟨hhelp, hvalue, hflag⟩ := option_of_word hdash
      have hdash' : (w.toList.head? == some '-') = false := beq_false_of_ne hdash
      simp [Group.render, Group.apply, argLoop, hhelp, hvalue, hflag, hdash']
  | value o text v h =>
      simp [Group.render, Group.apply, argLoop, not_help_name, valueOption_name, h]
  | flag f name h =>
      obtain ⟨hhelp, hvalue, hflag⟩ := flag_of_mem h
      simp [Group.render, Group.apply, argLoop, hhelp, hvalue, hflag]

/-- Run lemma: a well-formed command line is accepted. -/
theorem argLoop_render (gs : List Group) (a : Arguments) :
    argLoop (render gs) a = .ok (gs.foldl Group.apply a) := by
  induction gs generalizing a with
  | nil => rfl
  | cons g gs ih =>
      rw [render, List.flatMap_cons, argLoop_group]
      exact ih (g.apply a)

/-! ### What is left -/

/-- The arguments with these words, these values of the options and these flags; an option that
is not given keeps its default. -/
def outcome (ws : List String) (last : ValueOption → Option Int32) (given : Flag → Bool) :
    Arguments where
  channelIdx := last .channel
  config :=
    { hostId := (last .hostId).elim hostIdDefault fun value => UInt8.ofInt value.toInt
      timeoutMs := (last .timeout).elim 20 Int32.toInt
      retries := (last .retries).elim 2 fun value => value.toInt.toNat
      assumeYes := given .assumeYes
      dryRun := given .dryRun }
  verbose := given .verbose
  command := ws.headD ""
  commandArgs := ws.tail

section outcome
variable (ws : List String) (last : ValueOption → Option Int32) (given : Flag → Bool)

theorem outcome_addWord (hws : ∀ w ∈ ws, w ≠ "") (w : String) :
    (outcome ws last given).addWord w = outcome (ws ++ [w]) last given := by
  cases ws with
  | nil => rfl
  | cons c ws =>
      have hc : c.isEmpty = false := by simpa using hws c (by simp)
      simp [outcome, Arguments.addWord, hc]

theorem outcome_setValue (value : Int32) (o : ValueOption) :
    (outcome ws last given).setValue value o =
      outcome ws (Function.update last o (some value)) given := by
  cases o <;> simp [outcome, Arguments.setValue]

theorem outcome_setFlag (f : Flag) :
    (outcome ws last given).setFlag f = outcome ws last (fun f' => given f' || f == f') := by
  cases f <;> simp [outcome, Arguments.setFlag]

end outcome

theorem words_nonempty (gs : List Group) : ∀ w ∈ words gs, w ≠ "" := by
  intro w hw
  obtain ⟨g, -, hw⟩ := List.mem_flatMap.mp hw
  cases g with
  | word w' hne hdash =>
      rw [List.mem_singleton.mp hw]
      exact hne
  | value => exact absurd hw List.not_mem_nil
  | flag => exact absurd hw List.not_mem_nil

theorem foldl_apply (gs : List Group) :
    gs.foldl Group.apply {} = outcome (words gs) (lastValue · gs) (hasFlag · gs) := by
  induction gs using List.reverseRecOn with
  | nil => rfl
  | append_singleton gs g ih =>
      rw [List.foldl_concat, ih]
      cases g with
      | word w hne hdash =>
          rw [Group.apply, outcome_addWord _ _ _ (words_nonempty gs)]
          simp [words, lastValue, hasFlag, Group.words, Group.valueOf, Group.sets]
      | value o text v h =>
          rw [Group.apply, outcome_setValue]
          congr 1
          · simp [words, Group.words]
          · funext o'
            by_cases ho : o' = o
            · subst ho
              simp [lastValue, Group.valueOf]
            · rw [Function.update_of_ne ho]
              simp [lastValue, Group.valueOf, Ne.symm ho]
          · simp [hasFlag, Group.sets]
      | flag f name h =>
          rw [Group.apply, outcome_setFlag]
          simp [words, lastValue, hasFlag, Group.words, Group.valueOf, Group.sets]

/-- Two groups that may change places: they are not both words, and do not give values to the
same option. -/
def Group.Independent (g g' : Group) : Prop :=
  (g.words = [] ∨ g'.words = []) ∧ ∀ o, g.valueOf o = none ∨ g'.valueOf o = none

/-- **Options may stand anywhere.**  Every well-formed command line is accepted, and what it
means depends on its words, on the last value of each option and on which flags are given.
Neighbours that are not both words and do not set the same option may change places. -/
theorem options_anywhere (gs : List Group) :
    argLoop (render gs) {} = .ok (outcome (words gs) (lastValue · gs) (hasFlag · gs)) ∧
    (∀ gs' : List Group, words gs' = words gs → (∀ o, lastValue o gs' = lastValue o gs) →
      (∀ f, hasFlag f gs' = hasFlag f gs) →
      argLoop (render gs') {} = argLoop (render gs) {} ∧
        ∀ n, main (render gs') n = main (render gs) n) ∧
    ∀ (before after : List Group) (g g' : Group), gs = before ++ g :: g' :: after →
      g.Independent g' →
      argLoop (render (before ++ g' :: g :: after)) {} = argLoop (render gs) {} ∧
        ∀ n, main (render (before ++ g' :: g :: after)) n = main (render gs) n := by
  have haccept : ∀ gs : List Group, argLoop (render gs) {} =
      .ok (outcome (words gs) (lastValue · gs) (hasFlag · gs)) := fun gs => by
    rw [argLoop_render, foldl_apply]
  have hsame : ∀ gs' : List Group, words gs' = words gs →
      (∀ o, lastValue o gs' = lastValue o gs) → (∀ f, hasFlag f gs' = hasFlag f gs) →
      argLoop (render gs') {} = argLoop (render gs) {} ∧
        ∀ n, main (render gs') n = main (render gs) n := by
    intro gs' hwords hlast hflag
    have heq : argLoop (render gs') {} = argLoop (render gs) {} := by
      rw [haccept, haccept, hwords, funext hlast, funext hflag]
    exact ⟨heq, fun n => by rw [main, main, heq]⟩
  refine ⟨haccept gs, hsame, ?_⟩
  rintro before after g g' rfl ⟨hw, hv⟩
  refine hsame _ ?_ (fun o => ?_) fun f => ?_
  · rcases hw with hw | hw <;> simp [words, hw]
  · rcases hv o with hv | hv <;> simp [lastValue, hv]
  · simp [hasFlag, Bool.or_left_comm]

example : argLoop ["--dry-run", "set-id", "--channel", "1", "3", "7"] {} =
    argLoop ["set-id", "3", "--channel", "0x1", "7", "--dry-run"] {} := by rfl

end MotorConfig

end Qub
