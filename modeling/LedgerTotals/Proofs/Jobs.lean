/-
Grouping and rendering in one step, and in two.

Transactions can be grouped and rendered at once, or grouped into a file that is rendered afterwards. The page goes
through the file unchanged, so both ways end with the same text and the same report: `group_then_render`.
-/
import LedgerTotals.Proofs.Files
import LedgerTotals.Proofs.Page.Json
import LedgerTotals.Jobs

namespace LedgerTotals.Job

/-! ## Delivery -/

/-- the text that a job has put into its output: what the file says now, or what was printed -/
def delivered {α : Type} (job : Job α) (output : Option String) : Except FileError String :=
  match output with
  | none => .ok job.printed
  | some path => job.files.readText path

/-- the text of a page as it is put into an output: a line end follows it only if it is printed -/
def pageText (page : Page) (output : Option String) : String :=
  match output with
  | none => page.toLines ++ "\n"
  | some _ => page.toLines

/-- the text of a page is read back as that page, wherever it is put -/
theorem ofJson_pageText (page : Page) (output : Option String) : Page.ofJson (pageText page output) = .ok page := by
  cases output with
  | none => exact page.ofJson_toLines_lineEnd
  | some path => exact page.ofJson_toLines

variable {α β : Type} {files after : Files} {path : String} {bytes : List UInt8}

theorem deliver_of_write {page : Page} (h : files.write path (Utf8.encode page.toLines) = .ok after)
    (journal : List Entry) (result : α) :
    deliver page (some path) files journal result =
      ⟨.ok result, after, "", journal ++ [⟨.debug, "Wrote the results page to " ++ path⟩]⟩ := by
  simp only [deliver, h]

/-- a delivery that goes through gives its result, and puts the text of the page into the output -/
theorem of_isOk_deliver {page : Page} {output : Option String} {journal : List Entry} {result : α}
    (h : (deliver page output files journal result).result.isOk) :
    (deliver page output files journal result).result = .ok result ∧
      (deliver page output files journal result).delivered output = .ok (pageText page output) := by
  cases output with
  | none => exact ⟨rfl, rfl⟩
  | some path =>
    cases hwrite : files.write path (Utf8.encode page.toLines) with
    | error e =>
      simp only [deliver, hwrite, failed] at h
      cases h
    | ok after =>
      rw [deliver_of_write hwrite]
      exact ⟨rfl, Files.readText_of_write hwrite⟩

theorem isOk_deliver (page : Page) (output : Option String) (files : Files) (journal : List Entry) (result : α) :
    (deliver page output files journal result).result.isOk = output.all fun path => (files.write path []).isOk := by
  cases output with
  | none => rfl
  | some path =>
    rw [Option.all_some, files.isOk_write path [], ← files.isOk_write path (Utf8.encode page.toLines)]
    cases hwrite : files.write path (Utf8.encode page.toLines) with
    | error e => simp only [deliver, hwrite, failed]; rfl
    | ok after => rw [deliver_of_write hwrite]; rfl

/-! ## Two steps -/

/-- **One step or two.** If transactions can be grouped into a file, then rendering that file and grouping and rendering
at once succeed alike, with the same report and the same text in the output -/
theorem group_then_render (config : Settings) (overrides : Overrides) (input between : String) (output : Option String)
    (files : Files) (h : (group (config.withOverrides overrides) input (some between) false files).result.isOk) :
    let settings := config.withOverrides overrides
    let staged := render settings between output (group settings input (some between) false files).files
    let direct := group settings input output true files
    staged.result.isOk = direct.result.isOk ∧
      (direct.result.isOk → ∃ summary report text, direct.result = .ok summary ∧ summary.report = some report ∧
        staged.result = .ok report ∧ direct.delivered output = .ok text ∧ staged.delivered output = .ok text) := by
  intro settings staged direct
  cases hread : readTransactions files input with
  | error fault =>
    simp only [group, hread, failed] at h
    cases h
  | ok ts =>
    set page := Grouping.page ts.data with hpage
    set pass := renderPage settings page with hpass
    cases hwrite : files.write between (Utf8.encode page.toLines) with
    | error e =>
      simp only [group, hread, Bool.false_eq_true, if_false, deliver, ← hpage, hwrite, failed] at h
      cases h
    | ok after =>
      have hgrouped : (group settings input (some between) false files).files = after := by
        simp only [group, hread, Bool.false_eq_true, if_false, deliver, ← hpage, hwrite]
      -- the second step reads the page that the first one wrote
      have hreadPage : readPage after between = .ok page := by
        simp [readPage, readInput, Files.readText_of_write hwrite, Page.ofJson_toLines, Except.mapError, Except.bind]
      have hdirect : direct = deliver pass.page output files
          (⟨.info, "Grouping the transactions in " ++ input⟩ :: ts.journal ++ passEntries pass)
          (.of ts (some pass.report)) := by
        simp only [direct, group, hread, if_true, ← hpage, ← hpass]
      have hstaged : staged = deliver pass.page output after
          (⟨.info, "Rendering the results page at " ++ between⟩ :: passEntries pass) pass.report := by
        simp only [staged, hgrouped, render, hreadPage, ← hpass]
      have hsame : staged.result.isOk = direct.result.isOk := by
        rw [hstaged, hdirect, isOk_deliver, isOk_deliver]
        simp only [Files.isOk_write_of_write hwrite]
      refine ⟨hsame, fun hok => ?_⟩
      have hok' : staged.result.isOk := hsame.trans hok
      rw [hdirect] at hok ⊢
      rw [hstaged] at hok' ⊢
      obtain ⟨hresult, htext⟩ := of_isOk_deliver hok
      obtain ⟨hresult', htext'⟩ := of_isOk_deliver hok'
      exact ⟨_, _, _, hresult, rfl, hresult', htext, htext'⟩

/-- a statement with a date beyond the year 9999, an absent description, and a row that is not a transaction -/
def statement : Files :=
  ⟨[(["bank.csv"], .file (Utf8.encode ("id,date,description,amount,relation_name,account_code,account_description\n" ++
    "t1,+12345-01-03,,-40.00,Supermarket,,\nt2,2022-01-04,January \t\\rent,-950.00,,4100,Housing\nbad,,,1,,,\n")))]⟩

theorem group_then_render_statement :
    let settings := Settings.builtIn.withOverrides ⟨some .replace, none⟩
    let staged := render settings "page.json" none (group settings "bank.csv" (some "page.json") false statement).files
    let direct := group settings "bank.csv" none true statement
    (group settings "bank.csv" (some "page.json") false statement).result.isOk ∧ staged.result.isOk ∧
      staged.printed = direct.printed := by
  have hgroup : (group (Settings.builtIn.withOverrides ⟨some .replace, none⟩) "bank.csv" (some "page.json") false
      statement).result.isOk := by decide +kernel
  have hdirect : (group (Settings.builtIn.withOverrides ⟨some .replace, none⟩) "bank.csv" none true
      statement).result.isOk := by decide +kernel
  obtain ⟨hsame, hboth⟩ := group_then_render Settings.builtIn ⟨some .replace, none⟩ "bank.csv" "page.json" none statement
    hgroup
  obtain ⟨_, _, text, -, -, -, htext, htext'⟩ := hboth hdirect
  exact ⟨hgroup, hsame.trans hdirect, Except.ok.inj (htext'.trans htext.symm)⟩

end LedgerTotals.Job
