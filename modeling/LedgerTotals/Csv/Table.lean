/-
Tables: records under a header. Every record has as many fields as the header, and every field is a
text in UTF-8; a record that is not so is an error of its own and does not touch the others.
-/
import LedgerTotals.Csv.Record
import LedgerTotals.Text.Utf8
import LedgerTotals.Text.Digits

namespace LedgerTotals.Csv

inductive RecordError where
  /-- another number of fields than the header -/
  | fieldCount (found expected : Nat)
  /-- a field is not UTF-8 from this byte of it on -/
  | notText (field index : Nat)
  /-- the fields are texts, but not those that were asked for -/
  | refused (reason : String)
  deriving DecidableEq

/-- the wording of the error, for the record of this number that begins at this place -/
def RecordError.message (number : Nat) (start : Position) : RecordError → String
  | .fieldCount found expected =>
    "CSV error: record " ++ Digits.text number ++ " (line: " ++ Digits.text start.line ++
      ", byte: " ++ Digits.text start.byte ++ "): found record with " ++ Digits.text found ++
      " fields, but the previous record has " ++ Digits.text expected ++ " fields"
  | .notText field index =>
    "CSV parse error: record " ++ Digits.text number ++ " (line " ++ Digits.text start.line ++
      ", field: " ++ Digits.text field ++ ", byte: " ++ Digits.text start.byte ++
      "): invalid utf-8: invalid UTF-8 in field " ++ Digits.text field ++ " near byte index " ++
      Digits.text index
  | .refused reason =>
    "CSV deserialize error: record " ++ Digits.text number ++ " (line: " ++
      Digits.text start.line ++ ", byte: " ++ Digits.text start.byte ++ "): " ++ reason

/-- the fields as texts, with `i` fields in front of them -/
def textsFrom (i : Nat) : List (List UInt8) → Except RecordError (List String)
  | [] => .ok []
  | field :: fields =>
    match Utf8.decode field with
    | .error index => .error (.notText i index)
    | .ok cs => (textsFrom (i + 1) fields).map (String.ofList cs :: ·)

def Record.texts (r : Record) : Except RecordError (List String) := textsFrom 0 r.fields

/-- the cells of a record under a header, each with its column's name -/
def Record.cells (header : List String) (r : Record) : Except RecordError (List (String × String)) :=
  if r.fields.length = header.length then r.texts.map header.zip
  else .error (.fieldCount r.fields.length header.length)

end LedgerTotals.Csv
