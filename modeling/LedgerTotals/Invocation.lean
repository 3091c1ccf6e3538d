/-
Invocations: what the program is asked to do by the arguments it is started with.
-/
import LedgerTotals.Settings
import LedgerTotals.Journal.Filter

namespace LedgerTotals

/-- the three commands of the program, each with its own arguments -/
inductive Command where
  /-- make a settings file -/
  | init (force : Bool)
  /-- roll up a page -/
  | render (input : String) (output : Option String) (overrides : Overrides)
  /-- make a page of transactions, and roll it up if `rendered` says so -/
  | group (transactions : String) (output : Option String) (rendered : Bool)
      (overrides : Overrides)
  deriving DecidableEq

/-- a command, with how much of the journal is shown and where the settings are -/
structure Invocation where
  logLevel : Level
  config : Option String
  command : Command
  deriving DecidableEq

inductive UsageError where
  | unknownArgument
  | unknownCommand
  | missingArgument
  /-- an argument without its value, or with one it does not take -/
  | invalidValue
  /-- a value that cannot be read -/
  | unreadableValue
  | unexpectedValue
  | repeatedArgument
  | missingCommand
  /-- nothing at all is asked for -/
  | nothingAsked
  /-- help is asked for -/
  | helpAsked
  deriving DecidableEq

def UsageError.message : UsageError → String
  | .unknownArgument => "there is no such argument"
  | .unknownCommand => "there is no such command"
  | .missingArgument => "a required argument is missing"
  | .invalidValue => "an argument has no value, or one that it does not take"
  | .unreadableValue => "the value of an argument cannot be read"
  | .unexpectedValue => "an argument that takes no value has one"
  | .repeatedArgument => "an argument is given more than once"
  | .missingCommand => "a command is missing"
  | .nothingAsked => "nothing is asked for"
  | .helpAsked => "help is asked for"

end LedgerTotals
