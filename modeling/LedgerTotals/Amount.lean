/-
Amounts of money: a decimal together with the way it is written, which is an optional currency
symbol and whether commas stand between groups of three digits.

A text is read as an optional minus sign, an optional symbol and a number with commas anywhere. It
is written rounded to cents. The written form counts in comparisons of amounts, after the number.
-/
import LedgerTotals.Decimal.Text
import LedgerTotals.Text.Blank

namespace LedgerTotals

/-- the currency symbols that may lead an amount -/
inductive Currency where
  | dollar
  | euro
  deriving DecidableEq

def Currency.symbol : Currency → Char
  | .dollar => '$'
  | .euro => '€'

def Currency.ofSymbol? (c : Char) : Option Currency :=
  if c = '$' then some .dollar else if c = '€' then some .euro else none

/-- the place in the order of amounts: no symbol, then dollar, then euro -/
def Currency.rank : Option Currency → Nat
  | none => 0
  | some .dollar => 1
  | some .euro => 2

/-- how an amount is written -/
structure AmountFormat where
  symbol : Option Currency
  commas : Bool
  deriving DecidableEq

namespace AmountFormat

/-- no symbol and no commas -/
def plain : AmountFormat := ⟨none, false⟩

/-- no symbol, with or without commas -/
def withCommas (commas : Bool) : AmountFormat := ⟨none, commas⟩

end AmountFormat

/-- a number and how it is written -/
structure Amount where
  value : Decimal
  format : AmountFormat
  deriving DecidableEq

inductive AmountError where
  | misplacedSign (text : String)
  | decimal (error : DecimalError)
  deriving DecidableEq

def AmountError.message : AmountError → String
  | .misplacedSign text => "'" ++ text ++ "' has a misplaced sign"
  | .decimal e => e.message

namespace Amount

open Digits

/-- the amount of an empty cell -/
def zero : Amount := ⟨.zero, .plain⟩

/-! ## reading -/

/-- an optional minus sign, and the rest -/
def splitSign : List Char → Bool × List Char
  | '-' :: r => (true, r)
  | r => (false, r)

/-- an optional currency symbol, and the rest -/
def splitSymbol : List Char → Option Currency × List Char
  | [] => (none, [])
  | c :: r =>
    match Currency.ofSymbol? c with
    | some s => (some s, r)
    | none => (none, c :: r)

/-- the text starts with a sign of its own -/
def startsWithSign : List Char → Bool
  | c :: _ => c = '-' || c = '+'
  | [] => false

/-- an amount from a text without blanks at its ends -/
def ofTrimmed (cs : List Char) : Except AmountError Amount :=
  if cs = [] then .ok zero
  else
    let (negative, unsigned) := splitSign cs
    let (symbol, number) := splitSymbol unsigned
    if startsWithSign number then .error (.misplacedSign (String.ofList cs))
    else
      match Decimal.ofChars (number.filter (· ≠ ',')) with
      | .ok d => .ok ⟨if negative then d.neg else d, ⟨symbol, number.contains ','⟩⟩
      | .error e => .error (.decimal e)

/-- an amount from its text; blanks at the ends do not count -/
def ofChars (cs : List Char) : Except AmountError Amount := ofTrimmed (Blank.trim cs)

def ofText (s : String) : Except AmountError Amount := ofChars s.toList

/-! ## writing -/

/-- the value rounded to cents, halves away from zero -/
def rounded (a : Amount) : Decimal := a.value.rounded

/-- the digits in front of the point, in groups if the format asks for commas -/
def wholeChars (f : AmountFormat) (cents : Nat) : List Char :=
  if f.commas then grouped (digits (cents / 100)) else digits (cents / 100)

/-- the amount as it is shown: sign, symbol, whole digits, point, two digits -/
def toChars (a : Amount) : List Char :=
  (if a.rounded.negative then ['-'] else []) ++
    (a.format.symbol.map Currency.symbol).toList ++
    (wholeChars a.format a.rounded.cents ++ '.' :: fixedDigits 2 a.rounded.cents)

def toText (a : Amount) : String := String.ofList a.toChars

/-! ## comparing -/

def isZero (a : Amount) : Bool := a.value.isZero

/-- the value is strictly below zero -/
def isNegative (a : Amount) : Bool := a.value.isNegative

/-- the order of formats: by symbol, then without commas before with commas -/
def formatOrder (f g : AmountFormat) : Ordering :=
  if Currency.rank f.symbol < Currency.rank g.symbol then .lt
  else if Currency.rank g.symbol < Currency.rank f.symbol then .gt
  else if f.commas = g.commas then .eq
  else if g.commas then .lt else .gt

/-- the order of amounts: by value, then by format -/
def compare (a b : Amount) : Ordering := (a.value.compare b.value).then (formatOrder a.format b.format)

end Amount

end LedgerTotals
