/-
Bank transactions as JSON, and from the cells of a table.

Both forms know the same fields. A field that is absent is written as `null`; an empty cell is an
absent one.
-/
import LedgerTotals.Transaction.Basic
import LedgerTotals.Amount.Json
import LedgerTotals.Page.Json
import LedgerTotals.Csv.Table

namespace LedgerTotals.Transaction

open Json

structure Draft where
  id : Option String := none
  date : Option Date := none
  description : Option (Option String) := none
  amount : Option Amount := none
  relation : Option (Option String) := none
  accountCode : Option (Option String) := none
  accountDescription : Option (Option String) := none

/-- the transaction, or the first field that it lacks -/
def Draft.finish (d : Draft) : Except JsonError Transaction :=
  match d.id, d.date, d.amount with
  | some id, some date, some amount =>
    .ok ⟨id, date, d.description.getD none, amount, d.relation.getD none, d.accountCode.getD none,
      d.accountDescription.getD none⟩
  | none, _, _ => .error (.missingField "id")
  | _, none, _ => .error (.missingField "date")
  | _, _, none => .error (.missingField "amount")

/-! ## JSON -/

def fields : List (RecordField Draft) := [
  .of "id" true (·.id) (fun s v => { s with id := some v }) readText,
  .of "date" true (·.date) (fun s v => { s with date := some v }) readDate,
  .of "description" false (·.description) (fun s v => { s with description := some v })
    (readOptional readText),
  .of "amount" true (·.amount) (fun s v => { s with amount := some v }) Amount.read,
  .of "relation_name" false (·.relation) (fun s v => { s with relation := some v })
    (readOptional readText),
  .of "account_code" false (·.accountCode) (fun s v => { s with accountCode := some v })
    (readOptional readText),
  .of "account_description" false (·.accountDescription)
    (fun s v => { s with accountDescription := some v }) (readOptional readText)]

def read : Reader Transaction := fun cs => do
  let (draft, r) ← readRecord "BankTransaction" fields {} cs
  let t ← draft.finish
  .ok (t, r)

def ofJson (s : String) : Except JsonError Transaction := readAll read s

def textOrNull (s : Option String) : Value := .optional (s.map .string)

/-- the transaction as JSON, its amount as it is shown -/
def toValue (t : Transaction) : Value :=
  .object [("id", .string t.id), ("date", .string t.date.toText),
    ("description", textOrNull t.description), ("amount", t.amount.toValue),
    ("relation_name", textOrNull t.relation), ("account_code", textOrNull t.accountCode),
    ("account_description", textOrNull t.accountDescription)]

def toLine (t : Transaction) : String := t.toValue.toLine

/-! ## cells -/

/-- an empty cell is an absent one -/
def cellText (cell : String) : Option String := if cell = "" then none else some cell

/-- a field from a cell, unless it is there already -/
def Draft.fill {α : Type} (name : String) (old : Option α) (new : Except JsonError α)
    (store : α → Draft) : Except JsonError Draft :=
  if old.isSome then .error (.duplicateField name) else new.map store

/-- the draft with one more cell; a column of another name does not count -/
def Draft.withCell (d : Draft) (column cell : String) : Except JsonError Draft :=
  match column with
  | "id" => fill column d.id (.ok cell) fun v => { d with id := some v }
  | "date" =>
    fill column d.date ((Date.ofText cell).mapError fun e => .refused e.message)
      fun v => { d with date := some v }
  | "description" =>
    fill column d.description (.ok (cellText cell)) fun v => { d with description := some v }
  | "amount" =>
    fill column d.amount ((Amount.ofText cell).mapError fun e => .refused e.message)
      fun v => { d with amount := some v }
  | "relation_name" =>
    fill column d.relation (.ok (cellText cell)) fun v => { d with relation := some v }
  | "account_code" =>
    fill column d.accountCode (.ok (cellText cell)) fun v => { d with accountCode := some v }
  | "account_description" =>
    fill column d.accountDescription (.ok (cellText cell))
      fun v => { d with accountDescription := some v }
  | _ => .ok d

/-- a transaction from the cells of a record, from left to right -/
def ofCells (cells : List (String × String)) : Except JsonError Transaction :=
  (cells.foldlM (fun (d : Draft) c => d.withCell c.1 c.2) {}).bind (·.finish)

end LedgerTotals.Transaction
