/-
Settings files: JSON texts that hold settings, with the name of the program they are for and the
version of their form. `SettingsFile.accept` says which of them are valid.
-/
import LedgerTotals.Settings
import LedgerTotals.Json.Reader
import LedgerTotals.Json.Value

namespace LedgerTotals

open Json

structure SettingsFile where
  program : String
  version : Nat
  settings : Settings
  deriving DecidableEq

namespace SettingsFile

/-- the program that settings files are for -/
def programName : String := "rollup"

/-- the newest form of settings files -/
def newestVersion : Nat := 1

def ofSettings (settings : Settings) : SettingsFile := ⟨programName, newestVersion, settings⟩

/-! ## reading -/

structure Draft where
  program : Option String := none
  version : Option Nat := none
  trees : Option (List String) := none
  renumber : Option RenumberMode := none
  malformed : Option MalformedPolicy := none
  thousandsSeparators : Option Bool := none

def fields : List (RecordField Draft) := [
  .of "app_name" true (·.program) (fun s v => { s with program := some v }) readText,
  .of "config_version" true (·.version) (fun s v => { s with version := some v }) readByte,
  .of "trees" false (·.trees) (fun s v => { s with trees := some v }) (readList readText),
  .of "renumber" false (·.renumber) (fun s v => { s with renumber := some v })
    (readChoice RenumberMode.choices),
  .of "malformed_amounts" false (·.malformed) (fun s v => { s with malformed := some v })
    (readChoice MalformedPolicy.choices),
  .of "thousands_separators" false (·.thousandsSeparators)
    (fun s v => { s with thousandsSeparators := some v }) readBool]

/-- settings that are not there are the built-in ones -/
def Draft.finish (s : Draft) : SettingsFile :=
  ⟨s.program.getD "", s.version.getD 0,
    ⟨s.trees.getD Settings.builtIn.trees, s.renumber.getD Settings.builtIn.renumber,
      s.malformed.getD Settings.builtIn.malformed,
      s.thousandsSeparators.getD Settings.builtIn.thousandsSeparators⟩⟩

def read : Reader SettingsFile := Json.finish (readRecord "ConfigFile" fields {}) (·.finish)

def ofJson (s : String) : Except JsonError SettingsFile := readAll read s

/-! ## writing -/

def toValue (f : SettingsFile) : Value :=
  .object [("app_name", .string f.program), ("config_version", .number f.version),
    ("trees", .array (f.settings.trees.map .string)),
    ("renumber", .string f.settings.renumber.name),
    ("malformed_amounts", .string f.settings.malformed.name),
    ("thousands_separators", .boolean f.settings.thousandsSeparators)]

def toLines (f : SettingsFile) : String := f.toValue.toLines

/-! ## validity -/

/-- why a settings file is not accepted -/
inductive Refusal where
  | otherProgram (name : String)
  | newerVersion (version : Nat)
  | noTrees
  | repeatedTree (name : String)
  deriving DecidableEq

def Refusal.message : Refusal → String
  | .otherProgram name =>
    "Invalid app_name in config file: expected '" ++ programName ++ "', got '" ++ name ++ "'"
  | .newerVersion version =>
    "Unsupported config_version " ++ Digits.text version ++
      " in config file, the newest supported is " ++ Digits.text newestVersion
  | .noTrees => "The config file must name at least one tree"
  | .repeatedTree name => "The tree '" ++ name ++ "' is named more than once in the config file"

/-- the first name that stands in `seen` or in front of itself -/
def repeatedAfter? (seen : List String) : List String → Option String
  | [] => none
  | name :: names => if name ∈ seen then some name else repeatedAfter? (name :: seen) names

/-- the first name that equals an earlier one -/
def repeated? (names : List String) : Option String := repeatedAfter? [] names

/-- the settings of a file that is for this program, of a known form, and names trees without
repetition -/
def accept (f : SettingsFile) : Except Refusal Settings :=
  if f.program ≠ programName then .error (.otherProgram f.program)
  else if f.version > newestVersion then .error (.newerVersion f.version)
  else if f.settings.trees = [] then .error .noTrees
  else match repeated? f.settings.trees with
    | some name => .error (.repeatedTree name)
    | none => .ok f.settings

end SettingsFile

end LedgerTotals
