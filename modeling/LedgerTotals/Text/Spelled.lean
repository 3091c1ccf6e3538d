/-
Spelled texts: a text in quotation marks, with quotation marks, backslashes and what cannot be seen
spelled out.
-/
import LedgerTotals.Text.Unprintable

namespace LedgerTotals.Spelled

/-- a code point in hexadecimal digits -/
def code (n : Nat) : List Char := "\\u\x7b".toList ++ Nat.toDigits 16 n ++ ['}']

def char (c : Char) : List Char :=
  if c = '"' ∨ c = '\\' then ['\\', c]
  else if c = '\t' then ['\\', 't']
  else if c = '\r' then ['\\', 'r']
  else if c = '\n' then ['\\', 'n']
  else if c.toNat = 0 then ['\\', '0']
  else if Unprintable.isUnprintable c then code c.toNat
  else [c]

def text (s : String) : String := String.ofList ('"' :: (s.toList.flatMap char ++ ['"']))

end LedgerTotals.Spelled
