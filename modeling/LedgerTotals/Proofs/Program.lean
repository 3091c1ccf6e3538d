/-
What a run leaves behind that makes a page.

Such a run can fail in its settings, in its input and in writing its output. The first of them that fails is told, and
nothing else happens: `RunFails`. Otherwise the page goes to one place, from which it is read back, and all other files
stay: `RunDelivers`. What the page holds does not matter: any page is accepted, and so is any text of a table.

Main result: `run_leaves`.
-/
import LedgerTotals.Proofs.Jobs
import LedgerTotals.Proofs.Transaction.Table
import LedgerTotals.Program

namespace LedgerTotals

/-- a text was put into the file that a path leads to, and into no other -/
structure Files.Written (before : Files) (path text : String) (after : Files) : Prop where
  text : after.readText path = .ok text
  places : ∃ place, (before.target path).landing? = some place ∧
    ∀ other, other ≠ place → after.get? other = before.get? other
  others : ∀ other bytes, before.read other = .ok bytes →
    (before.target other).landing? ≠ (before.target path).landing? → after.read other = .ok bytes

theorem Files.written_of_write {files after : Files} {path text : String}
    (h : files.write path (Utf8.encode text) = .ok after) : files.Written path text after where
  text := readText_of_write h
  places := by
    obtain ⟨place, hplace, -, rfl⟩ := write_eq_ok_iff.1 h
    exact ⟨place, hplace, fun other hne => get?_put_ne files hne _⟩
  others _ _ := read_of_write_ne h

/-! ## Jobs -/

namespace Job

variable {α β : Type} {part : Part} {files : Files} {page : Page} {output : Option String} {job : Job α}

/-- the job failed in a part of the work: it printed nothing, and left the files as they were -/
structure Fails (part : Part) (files : Files) (job : Job α) : Prop where
  result : ∃ fault, job.result = .error ⟨part, fault⟩
  printed : job.printed = ""
  files : job.files = files

/-- the job printed the text of a page, with a line end, or put it into a file, and did nothing else; the page is read
back from there -/
structure Delivers (page : Page) (output : Option String) (files : Files) (job : Job α) : Prop where
  result : ∃ a, job.result = .ok a
  readBack : ∃ text, job.delivered output = .ok text ∧ Page.ofJson text = .ok page
  printed : output = none → job.printed = page.toLines ++ "\n" ∧ job.files = files
  written : ∀ path, output = some path → job.printed = "" ∧ files.Written path page.toLines job.files

theorem fails_failed (part : Part) (fault : Fault) (files : Files) (journal : List Entry) :
    Fails part files (failed part fault files journal : Job α) := ⟨⟨fault, rfl⟩, rfl, rfl⟩

theorem Fails.map (h : Fails part files job) (f : α → β) : Fails part files (job.map f) := by
  obtain ⟨⟨fault, hfault⟩, hprinted, hfiles⟩ := h
  refine ⟨⟨fault, ?_⟩, hprinted, hfiles⟩
  unfold Job.map
  rw [hfault]
  rfl

theorem Fails.after (h : Fails part files job) (entries : List Entry) : Fails part files (job.after entries) :=
  ⟨h.result, h.printed, h.files⟩

theorem Delivers.map (h : Delivers page output files job) (f : α → β) : Delivers page output files (job.map f) := by
  obtain ⟨⟨a, ha⟩, hread, hprinted, hwritten⟩ := h
  refine ⟨⟨f a, ?_⟩, hread, hprinted, hwritten⟩
  unfold Job.map
  rw [ha]
  rfl

theorem Delivers.after (h : Delivers page output files job) (entries : List Entry) :
    Delivers page output files (job.after entries) := ⟨h.result, h.readBack, h.printed, h.written⟩

def Writable (files : Files) (output : Option String) : Prop :=
  ∀ path, output = some path → ∃ bytes after, files.write path bytes = .ok after

/-- a page is delivered if its output can be written to -/
theorem delivers_deliver (h : Writable files output) (page : Page) (journal : List Entry) (result : α) :
    Delivers page output files (deliver page output files journal result) := by
  have hback := ofJson_pageText page output
  cases output with
  | none => exact ⟨⟨result, rfl⟩, ⟨_, rfl, hback⟩, fun _ => ⟨rfl, rfl⟩, nofun⟩
  | some path =>
    obtain ⟨bytes, after, hbytes⟩ := h path rfl
    obtain ⟨after', hwrite⟩ := Files.exists_write hbytes (Utf8.encode page.toLines)
    rw [deliver_of_write hwrite]
    refine ⟨⟨result, rfl⟩, ⟨_, Files.readText_of_write hwrite, hback⟩, nofun, ?_⟩
    intro path' heq
    obtain rfl := Option.some.inj heq
    exact ⟨rfl, Files.written_of_write hwrite⟩

theorem fails_deliver (h : ¬ Writable files output) (page : Page) (journal : List Entry) (result : α) :
    Fails .output files (deliver page output files journal result) := by
  cases output with
  | none => exact absurd nofun h
  | some path =>
    cases hwrite : files.write path (Utf8.encode page.toLines) with
    | error e =>
      simp only [deliver, hwrite]
      exact fails_failed _ _ _ _
    | ok after =>
      refine absurd ?_ h
      intro path' heq
      obtain rfl := Option.some.inj heq
      exact ⟨_, after, hwrite⟩

/-- the job made a page, and delivered it or failed to write it -/
def Makes (page : Page) (output : Option String) (files : Files) (job : Job α) : Prop :=
  (Writable files output → Delivers page output files job) ∧
    (¬ Writable files output → Fails .output files job)

theorem Makes.map (h : Makes page output files job) (f : α → β) : Makes page output files (job.map f) :=
  ⟨fun hw => (h.1 hw).map f, fun hw => (h.2 hw).map f⟩

theorem Makes.after (h : Makes page output files job) (entries : List Entry) :
    Makes page output files (job.after entries) :=
  ⟨fun hw => (h.1 hw).after entries, fun hw => (h.2 hw).after entries⟩

theorem makes_deliver (page : Page) (output : Option String) (files : Files) (journal : List Entry) (result : α) :
    Makes page output files (deliver page output files journal result) :=
  ⟨fun h => delivers_deliver h page journal result, fun h => fails_deliver h page journal result⟩

end Job

/-! ## Commands -/

namespace Command

/-- where a command reads what it makes a page of -/
def input? : Command → Option String
  | .init _ => none
  | .render input _ _ => some input
  | .group input _ _ _ => some input

/-- where a command puts its page, if it does not print it -/
def output? : Command → Option String
  | .init _ => none
  | .render _ output _ => output
  | .group _ output _ _ => output

def overrides : Command → Overrides
  | .init _ => .none
  | .render _ _ overrides => overrides
  | .group _ _ _ overrides => overrides

/-- the text is what the command asks for: a page in JSON, or a table whose header is a text -/
def Accepts : Command → String → Prop
  | .init _, _ => False
  | .render _ _ _, text => ∃ page, Page.ofJson text = .ok page
  | .group _ _ _ _, text => ∀ head rows, Csv.records (Utf8.encode text) = head :: rows → head.IsText

/-- the command makes this page of a text -/
def MakesOf (settings : Settings) (text : String) (page : Page) : Command → Prop
  | .init _ => False
  | .render _ _ _ => ∃ read, Page.ofJson text = .ok read ∧ page = (Job.renderPage settings read).page
  | .group _ _ rendered _ => ∃ ts, Transactions.ofCsv (Utf8.encode text) = .ok ts ∧
      page = if rendered then (Job.renderPage settings (Grouping.page ts.data)).page else Grouping.page ts.data

theorem exists_ofCsv_iff {bytes : List UInt8} : (∃ ts, Transactions.ofCsv bytes = .ok ts) ↔
    ∀ head rows, Csv.records bytes = head :: rows → head.IsText := by
  have herror : (Transactions.ofCsv bytes).isOk = false ↔ _ := Transactions.isOk_ofCsv_eq_false_iff
  cases htable : Transactions.ofCsv bytes with
  | ok ts =>
    simp only [htable, Except.isOk, Except.toBool, reduceCtorEq, false_iff, not_exists, not_and, not_not] at herror
    exact ⟨fun _ => herror, fun _ => ⟨ts, rfl⟩⟩
  | error fault =>
    simp only [htable, Except.isOk, Except.toBool, true_iff] at herror
    obtain ⟨head, rows, hrecords, hhead⟩ := herror
    constructor
    · rintro ⟨ts, hts⟩
      cases hts
    · intro h
      exact absurd (h head rows hrecords) hhead

/-- whatever a page holds, its text is accepted in any layout -/
theorem accepts_page (input : String) (output : Option String) (overrides : Overrides) {page : Page} {cs : List Char}
    (h : Json.Spells page.toValue cs) : (render input output overrides).Accepts (String.ofList cs) :=
  ⟨page, Json.readAll_spelled (reads_page page) h⟩

/-- whatever a table holds, its text is accepted -/
theorem accepts_table (input : String) (output : Option String) (rendered : Bool) (overrides : Overrides)
    (text : String) : (group input output rendered overrides).Accepts text := by
  intro head rows hrecords
  apply Csv.isText_of_mem_records (s := text)
  rw [hrecords]
  exact List.mem_cons_self

end Command

/-! ## Rendering and grouping -/

namespace Job

variable {files : Files} {input text : String}

theorem mapError_eq_ok_iff {ε ε' α : Type} {x : Except ε α} {f : ε → ε'} {a : α} :
    x.mapError f = .ok a ↔ x = .ok a := by
  cases x <;> simp [Except.mapError]

theorem bind_eq_ok_iff {ε α β : Type} {x : Except ε α} {f : α → Except ε β} {b : β} :
    x.bind f = .ok b ↔ ∃ a, x = .ok a ∧ f a = .ok b := by
  cases x <;> simp [Except.bind]

theorem readInput_eq_ok_iff : readInput files input = .ok text ↔ files.readText input = .ok text := mapError_eq_ok_iff

theorem readPage_eq_ok_iff {page : Page} : readPage files input = .ok page ↔
    ∃ text, files.readText input = .ok text ∧ Page.ofJson text = .ok page := by
  unfold readPage
  simp only [bind_eq_ok_iff, mapError_eq_ok_iff, readInput_eq_ok_iff]

theorem readTransactions_eq_ok_iff {ts : Transactions} : readTransactions files input = .ok ts ↔
    ∃ text, files.readText input = .ok text ∧ Transactions.ofCsv (Utf8.encode text) = .ok ts := by
  unfold readTransactions
  simp only [bind_eq_ok_iff, readInput_eq_ok_iff]

/-- without a page in its input, rendering fails there -/
theorem fails_render (settings : Settings) (output : Option String) (h : ∀ page, readPage files input ≠ .ok page) :
    Fails .input files (render settings input output files) := by
  unfold render
  cases hpage : readPage files input with
  | error fault => exact fails_failed _ _ _ _
  | ok page => exact absurd hpage (h page)

theorem makes_render (settings : Settings) (output : Option String) {page : Page}
    (h : readPage files input = .ok page) :
    Makes (renderPage settings page).page output files (render settings input output files) := by
  unfold render
  rw [h]
  exact makes_deliver _ _ _ _ _

/-- without a table in its input, grouping fails there -/
theorem fails_group (settings : Settings) (output : Option String) (rendered : Bool)
    (h : ∀ ts, readTransactions files input ≠ .ok ts) :
    Fails .input files (group settings input output rendered files) := by
  unfold group
  cases htable : readTransactions files input with
  | error fault => exact fails_failed _ _ _ _
  | ok ts => exact absurd htable (h ts)

theorem makes_group (settings : Settings) (output : Option String) (rendered : Bool) {ts : Transactions}
    (h : readTransactions files input = .ok ts) :
    Makes (if rendered then (renderPage settings (Grouping.page ts.data)).page else Grouping.page ts.data) output files
      (group settings input output rendered files) := by
  unfold group
  rw [h]
  cases rendered with
  | false => exact makes_deliver _ _ _ _ _
  | true => exact makes_deliver _ _ _ _ _

end Job

/-! ## Runs -/

namespace Program

variable {around : Surroundings} {invocation : Invocation} {files : Files} {part : Part} {page : Page}
  {output : Option String}

/-- the run failed in a part of the work: it told so, printed nothing, and left the files as they were -/
structure RunFails (around : Surroundings) (invocation : Invocation) (part : Part) (before : Files)
    (outcome : Outcome) : Prop where
  status : outcome.status = 1
  printed : outcome.printed = ""
  files : outcome.files = before
  told : ∃ fault : PartFault, fault.part = part ∧ (job around invocation before).result = .error fault ∧
    ((filter around invocation.logLevel).keeps programSource .error = true →
      ⟨.error, "Exiting with " ++ part.name ++ " error: " ++ fault.message⟩ ∈ outcome.journal)

/-- the text that a run has put into its output: what the file says now, or what was printed -/
def Outcome.delivered (outcome : Outcome) (output : Option String) : Except FileError String :=
  match output with
  | none => .ok outcome.printed
  | some path => outcome.files.readText path

/-- the run put a page into its output: it printed the page, with a line end, or wrote it into a file, and did nothing
else; what it put there is read back as that page -/
structure RunDelivers (page : Page) (output : Option String) (before : Files) (outcome : Outcome) : Prop where
  status : outcome.status = 0
  readBack : ∃ text, outcome.delivered output = .ok text ∧ Page.ofJson text = .ok page
  printed : output = none → outcome.printed = page.toLines ++ "\n" ∧ outcome.files = before
  written : ∀ path, output = some path → outcome.printed = "" ∧ before.Written path page.toLines outcome.files

theorem mem_shown {filter : Filter} {lines : List Line} {source : String} {entry : Entry}
    (h : (source, entry) ∈ lines) (hkeeps : filter.keeps source entry.level = true) : entry ∈ shown filter lines :=
  List.mem_map.2 ⟨(source, entry), List.mem_filter.2 ⟨h, hkeeps⟩, rfl⟩

theorem runFails_of_fails (h : Job.Fails part files (job around invocation files)) :
    RunFails around invocation part files (perform around invocation files) := by
  obtain ⟨⟨fault, hfault⟩, hprinted, hfiles⟩ := h
  simp only [perform, hfault]
  refine ⟨rfl, hprinted, hfiles, ⟨part, fault⟩, rfl, hfault, fun hkeeps => ?_⟩
  refine mem_shown ?_ hkeeps
  exact List.mem_append_right _ List.mem_cons_self

theorem runDelivers_of_delivers (h : Job.Delivers page output files (job around invocation files)) :
    RunDelivers page output files (perform around invocation files) := by
  obtain ⟨⟨entries, hentries⟩, ⟨text, htext, hpage⟩, hprinted, hwritten⟩ := h
  have hdelivered : (perform around invocation files).delivered output = .ok text := by
    rw [← htext]
    cases output <;> rfl
  refine ⟨?_, ⟨text, hdelivered, hpage⟩, hprinted, hwritten⟩
  simp only [perform, hentries]

/-! ## From the settings to the output -/

variable {input text : String} {fault : Fault} {c : Configuration}

theorem fails_configured {α : Type} {config : Option String} (overrides : Overrides) (body : Settings → Job α)
    (h : Configuration.resolve files config around.defaultPath = .error fault) :
    Job.Fails .config files (configured around config overrides files body) := by
  unfold configured
  rw [h]
  exact Job.fails_failed _ _ _ _

theorem configured_of_ok {α : Type} {config : Option String} (overrides : Overrides) (body : Settings → Job α)
    (h : Configuration.resolve files config around.defaultPath = .ok c) :
    configured around config overrides files body = (body (c.settings.withOverrides overrides)).after
      [Configuration.resolveEntry files config around.defaultPath] := by
  unfold configured
  rw [h]
  rfl

theorem job_fails_config (hinput : invocation.command.input? = some input)
    (h : Configuration.resolve files invocation.config around.defaultPath = .error fault) :
    Job.Fails .config files (job around invocation files) := by
  unfold job
  cases hcommand : invocation.command with
  | init force =>
    rw [hcommand] at hinput
    cases hinput
  | render _ output overrides => exact (fails_configured overrides _ h).map _
  | group _ output rendered overrides => exact (fails_configured overrides _ h).map _

theorem job_fails_input (hinput : invocation.command.input? = some input)
    (hconfig : Configuration.resolve files invocation.config around.defaultPath = .ok c)
    (h : ¬ ∃ text, files.readText input = .ok text ∧ invocation.command.Accepts text) :
    Job.Fails .input files (job around invocation files) := by
  unfold job
  cases hcommand : invocation.command with
  | init force =>
    rw [hcommand] at hinput
    cases hinput
  | render path output overrides =>
    rw [hcommand] at hinput h
    obtain rfl := Option.some.inj hinput
    dsimp only
    rw [configured_of_ok overrides _ hconfig]
    refine ((Job.fails_render _ output ?_).after _).map _
    intro page hpage
    obtain ⟨text, htext, hjson⟩ := Job.readPage_eq_ok_iff.1 hpage
    exact h ⟨text, htext, page, hjson⟩
  | group path output rendered overrides =>
    rw [hcommand] at hinput h
    obtain rfl := Option.some.inj hinput
    dsimp only
    rw [configured_of_ok overrides _ hconfig]
    refine ((Job.fails_group _ output rendered ?_).after _).map _
    intro ts htable
    obtain ⟨text, htext, hcsv⟩ := Job.readTransactions_eq_ok_iff.1 htable
    exact h ⟨text, htext, Command.exists_ofCsv_iff.1 ⟨ts, hcsv⟩⟩

theorem job_makes (hinput : invocation.command.input? = some input)
    (hconfig : Configuration.resolve files invocation.config around.defaultPath = .ok c)
    (htext : files.readText input = .ok text) (haccepts : invocation.command.Accepts text) :
    ∃ page, invocation.command.MakesOf (c.settings.withOverrides invocation.command.overrides) text page ∧
      Job.Makes page invocation.command.output? files (job around invocation files) := by
  unfold job
  cases hcommand : invocation.command with
  | init force =>
    rw [hcommand] at hinput
    cases hinput
  | render path output overrides =>
    rw [hcommand] at hinput haccepts
    obtain rfl := Option.some.inj hinput
    obtain ⟨page, hjson⟩ := haccepts
    dsimp only
    rw [configured_of_ok overrides _ hconfig]
    have hpage := Job.readPage_eq_ok_iff.2 ⟨text, htext, hjson⟩
    exact ⟨_, ⟨page, hjson, rfl⟩, ((Job.makes_render _ output hpage).after _).map _⟩
  | group path output rendered overrides =>
    rw [hcommand] at hinput haccepts
    obtain rfl := Option.some.inj hinput
    obtain ⟨ts, hcsv⟩ := Command.exists_ofCsv_iff.2 haccepts
    dsimp only
    rw [configured_of_ok overrides _ hconfig]
    have htable := Job.readTransactions_eq_ok_iff.2 ⟨text, htext, hcsv⟩
    exact ⟨_, ⟨ts, hcsv, rfl⟩, ((Job.makes_group _ output rendered htable).after _).map _⟩

theorem run_of_arguments {args : List String} (h : Invocation.ofArguments around.config args = .ok invocation)
    (files : Files) : run around args files = perform around invocation files := by
  unfold run
  rw [h]

/-- **Bad input leaves no output.** A run that is to make a page fails in its settings if they cannot be resolved, or
else in its input if this cannot be read or is not what was asked for, and then it prints nothing and changes no file.
Otherwise it makes a page, and puts it into its output if this can be written to, and nowhere else. Whatever the page or
the table holds, its text is accepted -/
theorem run_leaves (around : Surroundings) (args : List String) (files : Files) {invocation : Invocation} {input : String}
    (hargs : Invocation.ofArguments around.config args = .ok invocation)
    (hinput : invocation.command.input? = some input) :
    let resolved := Configuration.resolve files invocation.config around.defaultPath
    let command := invocation.command
    let outcome := run around args files
    ((∃ fault, resolved = .error fault) → RunFails around invocation .config files outcome) ∧
    ((∃ c, resolved = .ok c) → (¬ ∃ text, files.readText input = .ok text ∧ command.Accepts text) →
      RunFails around invocation .input files outcome) ∧
    (∀ c text, resolved = .ok c → files.readText input = .ok text → command.Accepts text →
      ∃ page, command.MakesOf (c.settings.withOverrides command.overrides) text page ∧
        (Job.Writable files command.output? → RunDelivers page command.output? files outcome) ∧
        (¬ Job.Writable files command.output? → RunFails around invocation .output files outcome)) ∧
    (∀ output overrides, command = .render input output overrides →
      ∀ (page : Page) (cs : List Char), Json.Spells page.toValue cs → command.Accepts (String.ofList cs)) ∧
    (∀ output rendered overrides, command = .group input output rendered overrides →
      ∀ text, command.Accepts text) := by
  intro resolved command outcome
  have hrun : outcome = perform around invocation files := run_of_arguments hargs files
  refine ⟨?_, ?_, ?_, ?_, ?_⟩
  · rintro ⟨fault, hfault⟩
    rw [hrun]
    exact runFails_of_fails (job_fails_config hinput hfault)
  · rintro ⟨c, hc⟩ hnone
    rw [hrun]
    exact runFails_of_fails (job_fails_input hinput hc hnone)
  · intro c text hc htext haccepts
    obtain ⟨page, hpage, hdelivers, hfails⟩ := job_makes hinput hc htext haccepts
    rw [hrun]
    exact ⟨page, hpage, fun hw => runDelivers_of_delivers (hdelivers hw), fun hw => runFails_of_fails (hfails hw)⟩
  · intro output overrides hcommand page cs hcs
    rw [hcommand]
    exact Command.accepts_page input output overrides hcs
  · intro output rendered overrides hcommand text
    rw [hcommand]
    exact Command.accepts_table input output rendered overrides text

/-- settings with a tree that no page has -/
def oddSettings : Settings := ⟨[assignedName, "missing"], .prepend, .zero, false⟩

def oddSettingsText : String :=
  "\x7b\"app_name\": \"rollup\", \"config_version\": 1, \"trees\": [\"assigned\", \"missing\"]\x7d"

/-- two amounts that are too large together, a date that is none, and a record that is too short and never ends -/
def oddTable : String :=
  "id,date,amount,account_code\nt1,2022-01-03,79228162514264337593543950335,4100\n" ++
    "t2,2022-01-04,79228162514264337593543950335,4100\nt3,never,1,\n\"t4"

/-- a directory with a settings file and a table -/
def desk : Files :=
  ⟨[(["rollup.json"], .file (Utf8.encode oddSettingsText)),
    (["bank.csv"], .file (Utf8.encode oddTable))]⟩

def nothingAround : Surroundings := ⟨none, none, none⟩

def groupArguments (config input : String) : List String :=
  ["--config", config, "group", "-t", input, "-o", "page.json", "--render", "--renumber=replace"]

def groupInvocation (config input : String) : Invocation :=
  ⟨.info, some config, .group input (some "page.json") true ⟨some .replace, none⟩⟩

theorem run_leaves_desk :
    (∃ page, RunDelivers page (some "page.json") desk
      (run nothingAround (groupArguments "rollup.json" "bank.csv") desk)) ∧
    RunFails nothingAround (groupInvocation "settings.json" "missing.csv") .config desk
      (run nothingAround (groupArguments "settings.json" "missing.csv") desk) ∧
    RunFails nothingAround (groupInvocation "rollup.json" "missing.csv") .input desk
      (run nothingAround (groupArguments "rollup.json" "missing.csv") desk) := by
  have hsettings : desk.read "rollup.json" = .ok (Utf8.encode oddSettingsText) := rfl
  have haccepted : Configuration.ofText "rollup.json" oddSettingsText = .ok oddSettings := by decide +kernel
  have hfound : Configuration.resolve desk (some "rollup.json") none = .ok ⟨some "rollup.json", oddSettings⟩ := by
    simp only [Configuration.resolve, Configuration.source?, Configuration.load, Files.isFile, hsettings,
      Files.readText_of_read hsettings, haccepted]
    rfl
  have hlost : Configuration.resolve desk (some "settings.json") none =
      .error (.of "The config file is missing 'settings.json'") := by decide +kernel
  have htable : desk.readText "bank.csv" = .ok oddTable := Files.readText_of_read rfl
  have hmissing : desk.readText "missing.csv" = .error .notFound := by decide +kernel
  have hwritable : Job.Writable desk (some "page.json") := by
    intro path heq
    obtain rfl := Option.some.inj heq
    exact ⟨[], _, rfl⟩
  refine ⟨?_, ?_, ?_⟩
  · have hargs : Invocation.ofArguments none (groupArguments "rollup.json" "bank.csv") =
        .ok (groupInvocation "rollup.json" "bank.csv") := by decide +kernel
    obtain ⟨-, -, hmakes, -, haccepts⟩ := run_leaves nothingAround _ desk hargs rfl
    obtain ⟨page, -, hdelivers, -⟩ := hmakes _ _ hfound htable (haccepts _ _ _ rfl oddTable)
    exact ⟨page, hdelivers hwritable⟩
  · have hargs : Invocation.ofArguments none (groupArguments "settings.json" "missing.csv") =
        .ok (groupInvocation "settings.json" "missing.csv") := by decide +kernel
    obtain ⟨hfails, -⟩ := run_leaves nothingAround _ desk hargs rfl
    exact hfails ⟨_, hlost⟩
  · have hargs : Invocation.ofArguments none (groupArguments "rollup.json" "missing.csv") =
        .ok (groupInvocation "rollup.json" "missing.csv") := by decide +kernel
    obtain ⟨-, hfails, -⟩ := run_leaves nothingAround _ desk hargs rfl
    apply hfails ⟨_, hfound⟩
    rintro ⟨text, htext, -⟩
    rw [hmissing] at htext
    cases htext

end Program

end LedgerTotals
