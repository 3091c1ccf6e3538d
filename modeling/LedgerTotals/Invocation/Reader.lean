/-
Reading an invocation: switches for all commands come before the name of the command, and its own
switches after it.

Of several errors those of the command's own arguments come first, and a missing argument comes
after all others. Where the settings are may also be told from outside, if no argument tells it.
-/
import LedgerTotals.Invocation.Switch

namespace LedgerTotals.Invocation

structure Draft where
  logLevel : Option Level := none
  config : Option String := none
  force : Bool := false
  input : Option String := none
  output : Option String := none
  transactions : Option String := none
  rendered : Bool := false
  renumber : Option RenumberMode := none
  malformed : Option MalformedPolicy := none

/-! ## switches -/

/-- a switch with a value that `parse` reads -/
def valued {α : Type} (name : String) (letter : Option Char) (get : Draft → Option α)
    (set : Draft → α → Draft) (parse : String → Except UsageError α) : Switch Draft :=
  ⟨name, letter, true, fun d => (get d).isSome, fun d s => (parse s).map (set d)⟩

def flag (name : String) (get : Draft → Bool) (set : Draft → Draft) : Switch Draft :=
  ⟨name, none, false, get, fun d _ => .ok (set d)⟩

/-- a path is any text but the empty one -/
def parsePath (s : String) : Except UsageError String :=
  if s = "" then .error .invalidValue else .ok s

def parseLevel (s : String) : Except UsageError Level :=
  match Level.ofText? s with
  | some level => .ok level
  | none => .error .unreadableValue

def parseChoice {α : Type} (choices : Choices α) (s : String) : Except UsageError α :=
  (choices.pick s).mapError fun _ => .invalidValue

def helpSwitch : Switch Draft := ⟨"help", some 'h', false, fun _ => false, fun _ _ => .error .helpAsked⟩

def configSwitch : Switch Draft :=
  valued "config" none (·.config) (fun d v => { d with config := some v }) parsePath

def outputSwitch : Switch Draft :=
  valued "output" (some 'o') (·.output) (fun d v => { d with output := some v }) parsePath

def overrideSwitches : List (Switch Draft) := [
  valued "renumber" none (·.renumber) (fun d v => { d with renumber := some v })
    (parseChoice RenumberMode.choices),
  valued "malformed-amounts" none (·.malformed) (fun d v => { d with malformed := some v })
    (parseChoice MalformedPolicy.choices)]

/-- the switches in front of a command -/
def commonSwitches : List (Switch Draft) := [
  helpSwitch,
  valued "log-level" none (·.logLevel) (fun d v => { d with logLevel := some v }) parseLevel,
  configSwitch]

def initSwitches : List (Switch Draft) :=
  [helpSwitch, flag "force" (·.force) fun d => { d with force := true }]

def renderSwitches : List (Switch Draft) :=
  [helpSwitch,
    valued "input" (some 'i') (·.input) (fun d v => { d with input := some v }) parsePath,
    outputSwitch] ++ overrideSwitches

def groupSwitches : List (Switch Draft) :=
  [helpSwitch,
    valued "transactions" (some 't') (·.transactions)
      (fun d v => { d with transactions := some v }) parsePath,
    outputSwitch,
    flag "render" (·.rendered) fun d => { d with rendered := true }] ++ overrideSwitches

/-! ## commands -/

/-- the commands by their names, with their switches; `help` is asked about, not run -/
def commandSwitches : List (String × List (Switch Draft)) :=
  [("init", initSwitches), ("render", renderSwitches), ("group", groupSwitches)]

def commandNames : List String := ["init", "render", "group", "help"]

def Draft.overrides (d : Draft) : Overrides := ⟨d.renumber, d.malformed⟩

/-- the command of a name with the arguments of a draft; `none` if a required one is missing -/
def Draft.command? (d : Draft) (name : String) : Option Command :=
  match name with
  | "init" => some (.init d.force)
  | "render" => d.input.map fun input => .render input d.output d.overrides
  | "group" => d.transactions.map fun input => .group input d.output d.rendered d.overrides
  | _ => none

def readCommand (name : String) (args : List String) : Except UsageError Command := do
  let switches := (commandSwitches.lookup name).getD []
  let (r, _) ← SwitchReader.readArguments switches [] false (.of {}) args
  let draft ← r.settle
  match draft.command? name with
  | some command => .ok command
  | none => .error .missingArgument

/-- the words after `help` name at most one command -/
def readHelp : List String → UsageError
  | [] => .helpAsked
  | [name] => if name ∈ commandNames then .helpAsked else .unknownCommand
  | _ => .unknownCommand

/-- the draft with what is told from outside where the arguments tell nothing -/
def Draft.withConfig (d : Draft) (config : Option String) : Except UsageError Draft :=
  match d.config, config with
  | none, some path => configSwitch.store d path
  | _, _ => .ok d

/-- an invocation from the arguments of the program; `config` is where the settings are if no
argument tells it -/
def ofArguments (config : Option String) (args : List String) : Except UsageError Invocation := do
  let (r, command) ← SwitchReader.readArguments commonSwitches commandNames false (.of {}) args
  match command with
  | some ("help", words) => .error (readHelp words)
  | some (name, rest) =>
    let command ← readCommand name rest
    let draft ← r.settle
    let draft ← draft.withConfig config
    .ok ⟨draft.logLevel.getD .info, draft.config, command⟩
  | none =>
    let draft ← r.settle
    let draft ← draft.withConfig config
    if draft.logLevel.isNone ∧ draft.config.isNone then .error .nothingAsked
    else .error .missingCommand

/-- how the program is called -/
def usage : String :=
  "Usage: rollup [--log-level <level>] [--config <path>] <command>\n\n" ++
  "Commands:\n" ++
  "  init    [--force]\n" ++
  "  render  --input <path> [--output <path>] [--renumber <mode>] [--malformed-amounts <policy>]\n" ++
  "  group   --transactions <path> [--output <path>] [--render] [--renumber <mode>]\n" ++
  "          [--malformed-amounts <policy>]\n" ++
  "  help    [command]\n"

end LedgerTotals.Invocation
