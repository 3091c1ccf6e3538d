/-
Numbers in a JSON text. A whole number keeps its exact value as long as it fits 64 bits. Any other
number is a double: its digits are gathered into 64 bits, further ones dropped, and the result is
scaled by a power of ten in double arithmetic.
-/
import LedgerTotals.Json.Error
import LedgerTotals.Binary64

namespace LedgerTotals.Json

open Digits

inductive Number where
  | natural (n : Nat)
  | negative (n : Nat)
  | float (negative : Bool) (magnitude : Binary64)

def Number.found : Number → Found
  | .natural n => .natural n
  | .negative n => .negative n
  | .float sign d => .float (d.text sign)

/-- the largest number of 64 bits -/
def maxWord : Nat := Nat.pow 2 64 - 1

/-- the largest exponent that is read exactly -/
def maxExponent : Nat := Nat.pow 2 31 - 1

/-- digits appended to `s` as long as the number fits 64 bits, and how many were left -/
def gather (s : Nat) : List Char → Nat × Nat
  | [] => (s, 0)
  | d :: r =>
    if maxWord < 10 * s + digitValue d then (s, (d :: r).length)
    else gather (10 * s + digitValue d) r

/-- `f * 10 ^ e` in double arithmetic, in as many steps as the range of powers of ten asks for -/
def scaleFloat : Nat → Binary64 → Int → Except JsonError Binary64
  | 0, f, _ => .ok f
  | n + 1, f, e =>
    if e.natAbs ≤ 308 then
      if 0 ≤ e then
        match f.mul? (Binary64.tenTo e.natAbs) with
        | some d => .ok d
        | none => .error .numberOutOfRange
      else .ok ((f.div? (Binary64.tenTo e.natAbs)).getD .zero)
    else if f.mantissa = 0 then .ok f
    else if 0 ≤ e then .error .numberOutOfRange
    else scaleFloat n ((f.div? (Binary64.tenTo 308)).getD .zero) (e + 308)

/-- the double `± s * 10 ^ e` -/
def float (negative : Bool) (s : Nat) (e : Int) : Except JsonError Number :=
  (scaleFloat 4 ((Binary64.ofRatio? s 1).getD .zero) e).map (.float negative)

/-- what follows the letter of an exponent; `s` and `e` are the number so far -/
def readExponent (negative : Bool) (s : Nat) (e : Int) (cs : List Char) :
    Except JsonError (Number × List Char) :=
  let (down, digitsOn) := match cs with
    | '+' :: r => (false, r)
    | '-' :: r => (true, r)
    | r => (false, r)
  match digitsOn with
  | [] => .error .endInValue
  | c :: _ =>
    if isDigit c then
      let exponent := value (digitsOn.takeWhile isDigit)
      let rest := digitsOn.dropWhile isDigit
      if maxExponent < exponent then
        if s ≠ 0 && !down then .error .numberOutOfRange else .ok (.float negative .zero, rest)
      else (float negative s (if down then e - exponent else e + exponent)).map ((·, rest))
    else .error .invalidNumber

def readScaled (negative : Bool) (s : Nat) (e : Int) (cs : List Char) :
    Except JsonError (Number × List Char) :=
  match cs with
  | c :: r =>
    if c = 'e' ∨ c = 'E' then readExponent negative s e r
    else (float negative s e).map ((·, cs))
  | [] => (float negative s e).map ((·, cs))

/-- what follows the point -/
def readFraction (negative : Bool) (s : Nat) (e : Int) (cs : List Char) :
    Except JsonError (Number × List Char) :=
  let ds := cs.takeWhile isDigit
  let rest := cs.dropWhile isDigit
  if ds = [] then .error (if rest = [] then .endInValue else .invalidNumber)
  else
    let (s', dropped) := gather s ds
    readScaled negative s' (e - ((ds.length - dropped : Nat) : Int)) rest

/-- what follows the digits in front of the point, of which `dropped` are not in `s` -/
def readTail (negative : Bool) (s dropped : Nat) (cs : List Char) :
    Except JsonError (Number × List Char) :=
  match cs with
  | '.' :: r => readFraction negative s dropped r
  | 'e' :: r => readExponent negative s dropped r
  | 'E' :: r => readExponent negative s dropped r
  | r =>
    if dropped ≠ 0 then (float negative s dropped).map ((·, r))
    else if !negative then .ok (.natural s, r)
    else if s = 0 ∨ Nat.pow 2 63 < s then (float true s 0).map ((·, r))
    else .ok (.negative s, r)

/-- a number after its sign -/
def readNumber (negative : Bool) : Reader Number
  | [] => .error .endInValue
  | c :: r =>
    if c = '0' then
      if (r.headD 'x' |> isDigit) then .error .invalidNumber else readTail negative 0 0 r
    else if isDigit c then
      let (s, dropped) := gather 0 ((c :: r).takeWhile isDigit)
      readTail negative s dropped ((c :: r).dropWhile isDigit)
    else .error .invalidNumber

/-! ## form only -/

/-- the exponent of a number whose value does not matter -/
def skipExponent (cs : List Char) : Except JsonError (List Char) :=
  let digitsOn := match cs with
    | '+' :: r => r
    | '-' :: r => r
    | r => r
  if digitsOn.headD 'x' |> isDigit then .ok (digitsOn.dropWhile isDigit)
  else .error .invalidNumber

def skipScaled : List Char → Except JsonError (List Char)
  | 'e' :: r => skipExponent r
  | 'E' :: r => skipExponent r
  | r => .ok r

def skipTail : List Char → Except JsonError (List Char)
  | '.' :: r =>
    if r.headD 'x' |> isDigit then skipScaled (r.dropWhile isDigit) else .error .invalidNumber
  | r => skipScaled r

/-- a number after its sign, checked for its form -/
def skipNumber : List Char → Except JsonError (List Char)
  | [] => .error .invalidNumber
  | c :: r =>
    if c = '0' then
      if r.headD 'x' |> isDigit then .error .invalidNumber else skipTail r
    else if isDigit c then skipTail (r.dropWhile isDigit)
    else .error .invalidNumber

end LedgerTotals.Json
