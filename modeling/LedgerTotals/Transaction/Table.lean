/-
Transactions from a table with a header. Every record is accounted for once: as a transaction, or as
a failure that tells its row.
-/
import LedgerTotals.Transaction.Json
import LedgerTotals.Journal
import LedgerTotals.Fault

namespace LedgerTotals

/-- the transactions of a table, and what is wrong with the rows that are none -/
structure Transactions where
  data : List Transaction
  failures : List String
  deriving DecidableEq

namespace Transactions

open Csv

def ofList (data : List Transaction) : Transactions := ⟨data, []⟩

def decode (header : List String) (r : Record) : Except RecordError Transaction :=
  (r.cells header).bind fun cells =>
    (Transaction.ofCells cells).mapError fun e => .refused e.message

/-- what is said of the record at `index`, counted from zero: the first row is the header -/
def failure (index : Nat) (r : Record) (e : RecordError) : String :=
  "Row " ++ Digits.text (index + 2) ++ ": " ++ e.message (index + 1) r.start

/-- a transaction or a failure for every record, `index` records standing in front of them -/
def decodeAll (header : List String) : Nat → List Record → Transactions
  | _, [] => ⟨[], []⟩
  | index, r :: rs =>
    let rest := decodeAll header (index + 1) rs
    match decode header r with
    | .ok t => { rest with data := t :: rest.data }
    | .error e => { rest with failures := failure index r e :: rest.failures }

/-- the transactions of the bytes of a table; only a header that is no text is an error -/
def ofCsv (bytes : List UInt8) : Except Fault Transactions :=
  match records bytes with
  | [] => .ok ⟨[], []⟩
  | head :: rows =>
    match head.texts with
    | .ok header => .ok (decodeAll header 0 rows)
    | .error e =>
      .error ((Fault.of (e.message 0 head.start)).within
        "Unable to read the header row of the transactions")

def journal (t : Transactions) : List Entry :=
  (t.failures.map fun failure => ⟨.warn, "Skipping transaction. " ++ failure⟩) ++
    [⟨.debug, "Read " ++ Digits.text t.data.length ++ " transactions with " ++
      Digits.text t.failures.length ++ " failures"⟩]

end Transactions

end LedgerTotals
