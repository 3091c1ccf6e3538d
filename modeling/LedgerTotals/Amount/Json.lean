/-
Amounts as JSON: a string that holds the amount as it is shown.
-/
import LedgerTotals.Amount
import LedgerTotals.Json.Reader
import LedgerTotals.Json.Value

namespace LedgerTotals.Amount

open Json

def read : Reader Amount := readParsed "a string" ofText AmountError.message

def ofJson (s : String) : Except JsonError Amount := readAll read s

def toValue (a : Amount) : Value := .string a.toText

end LedgerTotals.Amount
