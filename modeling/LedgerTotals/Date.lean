/-
Dates of the Gregorian calendar, carried back before its introduction, in the years -262143 to
262142.

A date is written as year, month and day. A year outside 0 to 9999 has a sign. Reading allows white
space in front of each number and hyphen; a year without a sign has at most four digits.
-/
import LedgerTotals.Text.Digits
import LedgerTotals.Text.Blank

namespace LedgerTotals

open Digits

namespace Date

def isLeapYear (year : Int) : Bool :=
  year % 4 = 0 && (year % 100 ≠ 0 || year % 400 = 0)

def daysIn (year : Int) (month : Nat) : Nat :=
  if month = 2 then if isLeapYear year then 29 else 28
  else if month = 4 ∨ month = 6 ∨ month = 9 ∨ month = 11 then 30
  else 31

def firstYear : Int := -262143
def lastYear : Int := 262142

/-- there is such a day, in a year that is covered -/
def isDay (year : Int) (month day : Nat) : Bool :=
  firstYear ≤ year && year ≤ lastYear && 1 ≤ month && month ≤ 12 && 1 ≤ day &&
    day ≤ daysIn year month

end Date

structure Date where
  year : Int
  month : Nat
  day : Nat
  valid : Date.isDay year month day = true
  deriving DecidableEq

inductive DateError where
  | prematureEnd
  | invalidCharacters
  | outOfRange
  | trailingInput
  deriving DecidableEq

def DateError.message : DateError → String
  | .prematureEnd => "premature end of input"
  | .invalidCharacters => "input contains invalid characters"
  | .outOfRange => "input is out of range"
  | .trailingInput => "trailing input"

namespace Date

/-! ## writing -/

/-- the digits of `n`, at least four of them -/
def atLeastFour (n : Nat) : List Char := if n < 10000 then fixedDigits 4 n else digits n

/-- the year, with a sign outside 0 to 9999 -/
def yearChars (year : Int) : List Char :=
  if 0 ≤ year ∧ year < 10000 then fixedDigits 4 year.natAbs
  else (if year < 0 then '-' else '+') :: atLeastFour year.natAbs

/-- the date as year, month and day -/
def toChars (d : Date) : List Char :=
  yearChars d.year ++ '-' :: (fixedDigits 2 d.month ++ '-' :: fixedDigits 2 d.day)

def toText (d : Date) : String := String.ofList d.toChars

/-! ## reading -/

def skipBlanks (cs : List Char) : List Char := cs.dropWhile Blank.isBlank

/-- the digits at the front of `window`, which is the front of `cs` -/
def readDigits (window cs : List Char) : Except DateError (Nat × List Char) :=
  let ds := window.takeWhile isDigit
  if cs = [] then .error .prematureEnd
  else if ds = [] then .error .invalidCharacters
  else .ok (value ds, cs.drop ds.length)

/-- a number of one or two digits from 1 to `most` -/
def readPart (most : Nat) (cs : List Char) : Except DateError (Nat × List Char) := do
  let cs := skipBlanks cs
  let (n, r) ← readDigits (cs.take 2) cs
  if 1 ≤ n ∧ n ≤ most then .ok (n, r) else .error .outOfRange

/-- a year must fit 32 bits as soon as it is read -/
def yearLimit : Nat := Nat.pow 2 31

/-- a year: signed with any number of digits, or up to four digits without a sign -/
def readYear (cs : List Char) : Except DateError (Int × List Char) :=
  match skipBlanks cs with
  | '-' :: r => do
    let (n, r) ← readDigits r r
    if n ≤ yearLimit then .ok (-(n : Int), r) else .error .outOfRange
  | '+' :: r => do
    let (n, r) ← readDigits r r
    if n < yearLimit then .ok ((n : Int), r) else .error .outOfRange
  | cs => do
    let (n, r) ← readDigits (cs.take 4) cs
    .ok ((n : Int), r)

/-- a hyphen, with blanks in front of it -/
def readHyphen (cs : List Char) : Except DateError (List Char) :=
  match skipBlanks cs with
  | [] => .error .prematureEnd
  | c :: r => if c = '-' then .ok r else .error .invalidCharacters

def ofChars (cs : List Char) : Except DateError Date := do
  let (year, r) ← readYear cs
  let r ← readHyphen r
  let (month, r) ← readPart 12 r
  let r ← readHyphen r
  let (day, r) ← readPart 31 r
  if skipBlanks r ≠ [] then .error .trailingInput
  else if h : isDay year month day = true then .ok ⟨year, month, day, h⟩
  else .error .outOfRange

def ofText (s : String) : Except DateError Date := ofChars s.toList

end Date

end LedgerTotals
