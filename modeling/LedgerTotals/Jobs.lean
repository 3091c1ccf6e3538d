/-
Jobs: what the program does with files. A new settings file is made, a page is rendered, or a page
is made of transactions.

A job that fails leaves the files as they were and prints nothing. One that succeeds puts its page
either into a file or on the output, never both.
-/
import LedgerTotals.Settings.Source
import LedgerTotals.Rollup
import LedgerTotals.Grouping

namespace LedgerTotals

/-- what a job has done: its result, the files after it, what it printed, and its journal -/
structure Job (α : Type) where
  result : Except PartFault α
  files : Files
  printed : String
  journal : List Entry

namespace Job

/-- a job that failed and changed nothing -/
def failed {α : Type} (part : Part) (fault : Fault) (files : Files) (journal : List Entry) : Job α :=
  ⟨.error ⟨part, fault⟩, files, "", journal⟩

def map {α β : Type} (f : α → β) (job : Job α) : Job β :=
  ⟨job.result.map f, job.files, job.printed, job.journal⟩

/-- the job after some lines of the journal -/
def after {α : Type} (entries : List Entry) (job : Job α) : Job α :=
  { job with journal := entries ++ job.journal }

/-! ## settings -/

/-- a new file of built-in settings at a path, and the path -/
def createSettings (path : Option String) (force : Bool) (files : Files) : Job String :=
  match path with
  | none =>
    failed .config (.of "Unable to find the config directory, use --config") files []
  | some path =>
    match Configuration.create files path force with
    | .error fault => failed .config (fault.within "Unable to create the config file") files []
    | .ok files => ⟨.ok path, files, "", []⟩

def createdMessage (path : String) : String := "Successfully created the config file at " ++ path

/-! ## pages -/

def readInput (files : Files) (path : String) : Except Fault String :=
  (files.readText path).mapError fun e =>
    (Fault.of e.message).within ("Failed to read file at " ++ path)

def readPage (files : Files) (path : String) : Except Fault Page :=
  (readInput files path).bind fun text =>
    (Page.ofJson text).mapError fun e =>
      (Fault.of e.message).within ("Failed to parse JSON file at " ++ path)

def readTransactions (files : Files) (path : String) : Except Fault Transactions :=
  (readInput files path).bind fun text => Transactions.ofCsv (Utf8.encode text)

/-- a page put into a file, or printed if there is none, and the result of the job -/
def deliver {α : Type} (page : Page) (output : Option String) (files : Files)
    (journal : List Entry) (result : α) : Job α :=
  match output with
  | none => ⟨.ok result, files, page.toLines ++ "\n", journal⟩
  | some path =>
    match files.write path (Utf8.encode page.toLines) with
    | .error e =>
      failed .output ((Fault.of e.message).within ("Unable to write to " ++ path)) files journal
    | .ok files =>
      ⟨.ok result, files, "", journal ++ [⟨.debug, "Wrote the results page to " ++ path⟩]⟩

/-- a page rolled up by the settings -/
def renderPage (settings : Settings) (page : Page) : Rollup.Pass :=
  Rollup.renderPage settings.options page settings.trees

/-- what the journal says of a pass and its issues -/
def passEntries (pass : Rollup.Pass) : List Entry :=
  pass.journal ++ pass.report.issues.map fun issue => ⟨.warn, issue.message⟩

/-- the page in a file rolled up and delivered -/
def render (settings : Settings) (input : String) (output : Option String) (files : Files) :
    Job Report :=
  let opening : Entry := ⟨.info, "Rendering the results page at " ++ input⟩
  match readPage files input with
  | .error fault => failed .input fault files [opening]
  | .ok page =>
    let pass := renderPage settings page
    deliver pass.page output files (opening :: passEntries pass) pass.report

/-! ## transactions -/

/-- how many transactions a page was made of, what was wrong with the other rows, and the report of
the pass if there was one -/
structure GroupSummary where
  transactions : Nat
  failures : List String
  report : Option Report
  deriving DecidableEq

def GroupSummary.of (ts : Transactions) (report : Option Report) : GroupSummary :=
  ⟨ts.data.length, ts.failures, report⟩

def GroupSummary.message (s : GroupSummary) : String :=
  "Grouped " ++ Digits.text s.transactions ++ " transactions, " ++ Digits.text s.failures.length ++
    " rows could not be read" ++
    match s.report with
    | some report => ". " ++ report.summary
    | none => ""

def GroupSummary.toValue (s : GroupSummary) : Json.Value :=
  .object [("transactions", .number s.transactions),
    ("failures", .array (s.failures.map .string)),
    ("report", .optional (s.report.map Report.toValue))]

/-- the transactions in a file made into a page, which is rolled up if `rendered` says so, and
delivered -/
def group (settings : Settings) (input : String) (output : Option String) (rendered : Bool)
    (files : Files) : Job GroupSummary :=
  let opening : Entry := ⟨.info, "Grouping the transactions in " ++ input⟩
  match readTransactions files input with
  | .error fault => failed .input fault files [opening]
  | .ok ts =>
    let journal := opening :: ts.journal
    let page := Grouping.page ts.data
    if rendered then
      let pass := renderPage settings page
      deliver pass.page output files (journal ++ passEntries pass) (.of ts (some pass.report))
    else deliver page output files journal (.of ts none)

end Job

end LedgerTotals
