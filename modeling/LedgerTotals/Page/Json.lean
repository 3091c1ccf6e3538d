/-
Results pages as JSON. Sinks and row fields that are absent are not written, and what is not written
is read as absent; lists and texts that are not written are read as empty.
-/
import LedgerTotals.Page.Basic
import LedgerTotals.Json.Reader
import LedgerTotals.Json.Value

namespace LedgerTotals

open Json

/-! ## reading -/

def readDate : Reader Date := readParsed "a formatted date string" Date.ofText DateError.message

/-- sinks of which some texts are read -/
structure Sinks.Draft where
  debit : Option String := none
  credit : Option String := none
  total : Option String := none

def Sinks.fields : List (RecordField Sinks.Draft) := [
  .of "debit" false (·.debit) (fun s v => { s with debit := some v }) readText,
  .of "credit" false (·.credit) (fun s v => { s with credit := some v }) readText,
  .of "total" false (·.total) (fun s v => { s with total := some v }) readText]

/-- texts that were not there are empty -/
def Sinks.Draft.finish (s : Sinks.Draft) : Sinks :=
  ⟨s.debit.getD "", s.credit.getD "", s.total.getD ""⟩

def Sinks.read : Reader Sinks := finish (readRecord "DisplaySinks" Sinks.fields {}) (·.finish)

structure Row.Draft where
  id : Option (Option String) := none
  date : Option (Option Date) := none
  description : Option (Option String) := none
  amount : Option String := none

def Row.fields : List (RecordField Row.Draft) := [
  .of "id" false (·.id) (fun s v => { s with id := some v }) (readOptional readText),
  .of "date" false (·.date) (fun s v => { s with date := some v }) (readOptional readDate),
  .of "description" false (·.description) (fun s v => { s with description := some v })
    (readOptional readText),
  .of "amount" false (·.amount) (fun s v => { s with amount := some v }) readText]

/-- fields that were not there are absent, and so is the amount's text empty -/
def Row.Draft.finish (s : Row.Draft) : Row :=
  ⟨s.id.getD none, s.date.getD none, s.description.getD none, s.amount.getD ""⟩

def Row.read : Reader Row := finish (readRecord "PageRow" Row.fields {}) (·.finish)

structure Category.Draft where
  label : Option String := none
  rows : Option (List Row) := none
  totals : Option (Option Sinks) := none

def Category.fields : List (RecordField Category.Draft) := [
  .of "label" true (·.label) (fun s v => { s with label := some v }) readText,
  .of "rows" false (·.rows) (fun s v => { s with rows := some v }) (readList Row.read),
  .of "totals" false (·.totals) (fun s v => { s with totals := some v })
    (readOptional Sinks.read)]

/-- the label is always there: it is required -/
def Category.Draft.finish (s : Category.Draft) : Category :=
  ⟨s.label.getD "", s.rows.getD [], s.totals.getD none⟩

def Category.read : Reader Category :=
  finish (readRecord "PageCategory" Category.fields {}) (·.finish)

structure Tree.Draft where
  name : Option String := none
  total : Option (Option Sinks) := none
  categories : Option (List Category) := none

def Tree.fields : List (RecordField Tree.Draft) := [
  .of "name" true (·.name) (fun s v => { s with name := some v }) readText,
  .of "total" false (·.total) (fun s v => { s with total := some v }) (readOptional Sinks.read),
  .of "categories" false (·.categories) (fun s v => { s with categories := some v })
    (readList Category.read)]

/-- the name is always there: it is required -/
def Tree.Draft.finish (s : Tree.Draft) : Tree :=
  ⟨s.name.getD "", s.total.getD none, s.categories.getD []⟩

def Tree.read : Reader Tree := finish (readRecord "PageTree" Tree.fields {}) (·.finish)

structure Page.Draft where
  trees : Option (List Tree) := none
  grandTotal : Option (Option Sinks) := none

def Page.fields : List (RecordField Page.Draft) := [
  .of "trees" false (·.trees) (fun s v => { s with trees := some v }) (readList Tree.read),
  .of "grand_total" false (·.grandTotal) (fun s v => { s with grandTotal := some v })
    (readOptional Sinks.read)]

/-- a page without a list of trees has none -/
def Page.Draft.finish (s : Page.Draft) : Page := ⟨s.trees.getD [], s.grandTotal.getD none⟩

def Page.read : Reader Page :=
  finish (readRecord "ResultsPage" Page.fields {}) (·.finish)

def Page.ofJson (s : String) : Except JsonError Page := readAll Page.read s

/-! ## writing -/

/-- a member that is written only if its value is there -/
def member? (key : String) : Option Value → List (String × Value)
  | some v => [(key, v)]
  | none => []

def Sinks.toValue (s : Sinks) : Value :=
  .object [("debit", .string s.debit), ("credit", .string s.credit), ("total", .string s.total)]

def Row.toValue (r : Row) : Value :=
  .object (member? "id" (r.id.map .string) ++ member? "date" (r.date.map fun d => .string d.toText) ++
    member? "description" (r.description.map .string) ++ [("amount", .string r.amount)])

def Category.toValue (c : Category) : Value :=
  .object ([("label", .string c.label), ("rows", .array (c.rows.map Row.toValue))] ++
    member? "totals" (c.totals.map Sinks.toValue))

def Tree.toValue (t : Tree) : Value :=
  .object ([("name", .string t.name)] ++ member? "total" (t.total.map Sinks.toValue) ++
    [("categories", .array (t.categories.map Category.toValue))])

def Page.toValue (p : Page) : Value :=
  .object ([("trees", .array (p.trees.map Tree.toValue))] ++
    member? "grand_total" (p.grandTotal.map Sinks.toValue))

def Page.toLine (p : Page) : String := p.toValue.toLine

def Page.toLines (p : Page) : String := p.toValue.toLines

end LedgerTotals
