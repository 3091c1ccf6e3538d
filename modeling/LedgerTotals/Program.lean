/-
The program: from its arguments, its surroundings and the files to what it prints, what it leaves
behind, and how it ends.

Journal lines come from the library or from the program itself, and a filter decides which of them
are shown. The program ends with 0 if its job is done, with 1 if the job fails, and with 2 if it
cannot tell what the job is.
-/
import LedgerTotals.Jobs
import LedgerTotals.Invocation.Reader

namespace LedgerTotals

structure Surroundings where
  /-- the directory for settings -/
  settingsDirectory : Option String
  /-- where the settings are if no argument tells it -/
  config : Option String
  /-- the filter of the journal; without one, the arguments tell how much is shown -/
  filter : Option String

def Surroundings.defaultPath (s : Surroundings) : Option String :=
  s.settingsDirectory.map Configuration.defaultPath

namespace Program

/-! ## sources of journal lines -/

/-- the source of what jobs tell -/
def librarySource : String := "ledger_rollup"

/-- the source of what the program itself tells -/
def programSource : String := "rollup"

abbrev Line := String × Entry

def filter (around : Surroundings) (level : Level) : Filter :=
  match around.filter with
  | some text => .ofText text
  | none => .ofSources level [programSource, librarySource]

def shown (filter : Filter) (lines : List Line) : List Entry :=
  (lines.filter fun l => filter.keeps l.1 l.2.level).map (·.2)

/-! ## commands -/

/-- the result of a job as the journal tells it -/
def closing (message : String) (data : Option Json.Value) : List Entry :=
  ⟨.info, message⟩ ::
    match data with
    | some value => [⟨.debug, "Command output:\n\n" ++ value.toLines ++ "\n\n"⟩]
    | none => []

/-- a job under the settings in force, with policies put in place of theirs -/
def configured {α : Type} (around : Surroundings) (config : Option String) (overrides : Overrides)
    (files : Files) (job : Settings → Job α) : Job α :=
  let entry := Configuration.resolveEntry files config around.defaultPath
  match Configuration.resolve files config around.defaultPath with
  | .error fault => .failed .config fault files [entry]
  | .ok c => (job (c.withOverrides overrides).settings).after [entry]

/-- the job of an invocation, with its result as the journal tells it -/
def job (around : Surroundings) (invocation : Invocation) (files : Files) : Job (List Entry) :=
  let config := invocation.config
  match invocation.command with
  | .init force =>
    let path := match config with
      | some path => some path
      | none => around.defaultPath
    (Job.createSettings path force files).map fun path => closing (Job.createdMessage path) none
  | .render input output overrides =>
    (configured around config overrides files fun s => .render s input output files).map
      fun report => closing report.summary (some report.toValue)
  | .group input output rendered overrides =>
    (configured around config overrides files fun s => .group s input output rendered files).map
      fun summary => closing summary.message (some summary.toValue)

/-! ## runs -/

/-- how a run ends: its status, what it printed, the journal lines that are shown, what it says of
its arguments, and the files after it -/
structure Outcome where
  status : Nat
  printed : String
  journal : List Entry
  complaint : String
  files : Files

def perform (around : Surroundings) (invocation : Invocation) (files : Files) : Outcome :=
  let done := job around invocation files
  let (status, ending) : Nat × List Line := match done.result with
    | .ok entries => (0, entries.map fun e => (librarySource, e))
    | .error fault =>
      (1, [(programSource,
        ⟨.error, "Exiting with " ++ fault.part.name ++ " error: " ++ fault.message⟩)])
  let opening : Line :=
    (programSource, ⟨.debug, "Log level set to " ++ invocation.logLevel.name⟩)
  let lines := opening :: (done.journal.map fun e => (librarySource, e)) ++ ending
  ⟨status, done.printed, shown (filter around invocation.logLevel) lines, "", done.files⟩

def run (around : Surroundings) (args : List String) (files : Files) : Outcome :=
  match Invocation.ofArguments around.config args with
  | .ok invocation => perform around invocation files
  | .error .helpAsked => ⟨0, Invocation.usage, [], "", files⟩
  | .error e => ⟨2, "", [], "error: " ++ e.message ++ "\n\n" ++ Invocation.usage, files⟩

/-- the paths of the files that an invocation may touch -/
def paths (around : Surroundings) (args : List String) : List String :=
  match Invocation.ofArguments around.config args with
  | .error _ => []
  | .ok invocation =>
    let config := match invocation.config with
      | some path => some path
      | none => around.defaultPath
    config.toList ++
      match invocation.command with
      | .init _ => []
      | .render input output _ => input :: output.toList
      | .group input output _ _ => input :: output.toList

end Program

end LedgerTotals
