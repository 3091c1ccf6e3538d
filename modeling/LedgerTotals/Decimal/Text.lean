/-
The text of a decimal.

Writing: a sign if the decimal has one, the digits, and exactly `scale` of them after the point.

Reading takes digits with at most one point, anywhere; underscores may stand between them. In front
of the point the mantissa has to fit 96 bits. After the point the digit that would not fit, or the
one that follows 28 places, rounds what was read before it and ends the number. A text that is no
such number is taken as a base and an exponent, split at its first `e` or `E`.
-/
import LedgerTotals.Decimal.Arithmetic
import LedgerTotals.Decimal.Cents
import LedgerTotals.Text.Digits

namespace LedgerTotals

open Digits

inductive DecimalError where
  | empty
  | noDigits
  | unknownCharacter
  | secondPoint
  | leadingSeparator
  | tooManyDigits
  | roundingOverflow
  | malformedExponent
  | scaleTooLarge (places : Nat)
  | tooLarge
  deriving DecidableEq

def DecimalError.message : DecimalError → String
  | .empty => "Invalid decimal: empty"
  | .noDigits => "Invalid decimal: no digits found"
  | .unknownCharacter => "Invalid decimal: unknown character"
  | .secondPoint => "Invalid decimal: two decimal points"
  | .leadingSeparator => "Invalid decimal: must start lead with a number"
  | .tooManyDigits => "Invalid decimal: overflow from too many digits"
  | .roundingOverflow => "Invalid decimal: overflow from mantissa after rounding"
  | .malformedExponent => "Failed to parse"
  | .scaleTooLarge places =>
    "Scale exceeds the maximum precision allowed: " ++ Digits.text places ++ " > 28"
  | .tooLarge => "Number exceeds maximum value that can be represented."

namespace Decimal

/-! ## writing -/

def toChars (d : Decimal) : List Char :=
  (if d.negative then ['-'] else []) ++
    if d.scale = 0 then digits d.mantissa
    else digits (d.mantissa / pow10 d.scale) ++ '.' :: fixedDigits d.scale d.mantissa

def toText (d : Decimal) : String := String.ofList d.toChars

/-! ## reading -/

/-- a decimal just read: a zero does not keep the sign -/
def signed (negative : Bool) (m k : Nat) (hm : m < capacity) (hk : k ≤ maxScale) : Decimal :=
  ⟨negative && m != 0, m, k, hm, hk⟩

/-- the error of a character that cannot stand in a number -/
def unexpected (c : Char) : DecimalError :=
  if c = '.' then .secondPoint else if c = '_' then .leadingSeparator else .unknownCharacter

/-- after the number is complete only digits and underscores may follow; they do not count -/
def checkRest (d : Decimal) : List Char → Except DecimalError Decimal
  | [] => .ok d
  | c :: r => if isDigit c || c = '_' then checkRest d r else .error (unexpected c)

/-- the mantissa is raised by one; if it leaves 96 bits the number loses a place instead -/
def roundUp (negative : Bool) (m k : Nat) (hk : k ≤ maxScale) : Except DecimalError Decimal :=
  if hm : m + 1 < capacity then .ok (signed negative (m + 1) k hm hk)
  else if k = 0 then .error .roundingOverflow
  else if hm : (m + 5) / 10 < capacity then
    .ok (signed negative ((m + 5) / 10) (k - 1) hm (Nat.le_trans (Nat.sub_le k 1) hk))
  else .error .roundingOverflow

/-- the number `m / 10 ^ k` ends at the character `c`, which rounds it -/
def roundAt (negative : Bool) (m k : Nat) (hm : m < capacity) (hk : k ≤ maxScale) (c : Char)
    (rest : List Char) : Except DecimalError Decimal :=
  if isDigit c || c = '_' then
    if isDigit c && 5 ≤ digitValue c then (roundUp negative m k hk).bind (checkRest · rest)
    else checkRest (signed negative m k hm hk) rest
  else .error (unexpected c)

/-- from this mantissa on, underscores between the last place and the rounding digit are skipped -/
def wideMantissa : Nat := (Nat.pow 2 64 - 1) / 10 - 255

/-- the characters after the point, with `m` read so far and `k` places after the point -/
def readFraction (negative : Bool) (m k : Nat) (hm : m < capacity) (hk : k ≤ maxScale)
    (seen : Bool) : List Char → Except DecimalError Decimal
  | [] => if seen then .ok (signed negative m k hm hk) else .error .noDigits
  | c :: r =>
    if isDigit c then
      if h : 10 * m + digitValue c < capacity ∧ k + 1 ≤ maxScale then
        if k + 1 = maxScale then
          match if wideMantissa ≤ m then r.dropWhile (· = '_') else r with
          | [] => .ok (signed negative (10 * m + digitValue c) (k + 1) h.1 h.2)
          | c' :: r' => roundAt negative (10 * m + digitValue c) (k + 1) h.1 h.2 c' r'
        else readFraction negative (10 * m + digitValue c) (k + 1) h.1 h.2 true r
      else roundAt negative m k hm hk c r
    else if c = '_' && seen then readFraction negative m k hm hk seen r
    else .error (unexpected c)

/-- the characters up to the point, with `m` read so far -/
def readWhole (negative : Bool) (m : Nat) (hm : m < capacity) (seen : Bool) :
    List Char → Except DecimalError Decimal
  | [] => if seen then .ok (signed negative m 0 hm (Nat.zero_le _)) else .error .noDigits
  | c :: r =>
    if isDigit c then
      if h : 10 * m + digitValue c < capacity then
        readWhole negative (10 * m + digitValue c) h true r
      else .error .tooManyDigits
    else if c = '.' then readFraction negative m 0 hm (Nat.zero_le _) seen r
    else if c = '_' && seen then readWhole negative m hm seen r
    else .error (unexpected c)

/-- a number without an exponent, with at most one sign in front -/
def ofPlain : List Char → Except DecimalError Decimal
  | [] => .error .empty
  | '-' :: r => readWhole true 0 capacity_pos false r
  | '+' :: r => readWhole false 0 capacity_pos false r
  | cs => readWhole false 0 capacity_pos false cs

/-- the exponent's digits, with an optional plus sign, below `2 ^ 32` -/
def exponentValue? (cs : List Char) : Option Nat :=
  let ds := match cs with
    | '+' :: r => r
    | r => r
  if ds = [] then none
  else if ds.all isDigit && value ds < Nat.pow 2 32 then some (value ds)
  else none

/-- `base / 10 ^ n`: more places, after rounding the base so that there is room for them -/
def lowered (base : Decimal) (n : Nat) : Except DecimalError Decimal :=
  if n ≤ maxScale then
    if hs : base.scale + n ≤ maxScale then .ok { base with scale := base.scale + n, scale_le := hs }
    else .ok { base.round (maxScale - n) with scale := maxScale, scale_le := Nat.le_refl _ }
  else .error (.scaleTooLarge n)

/-- the largest power of ten that is multiplied with in one step -/
def shiftStep : Nat := 19

/-- `base * 10 ^ n`: fewer places, or a product once there is none left -/
def raised (base : Decimal) (n : Nat) : Except DecimalError Decimal :=
  if n ≤ base.scale then
    .ok { base with
      scale := base.scale - n, scale_le := Nat.le_trans (Nat.sub_le _ _) base.scale_le }
  else if n ≤ maxScale then
    match (base.shift? (min n shiftStep)).bind (·.shift? (n - shiftStep)) with
    | some d => .ok d.trimZeros
    | none => .error .tooLarge
  else .error (.scaleTooLarge n)

/-- an exponent, which may be negative, applied to its base -/
def withExponent (base : Decimal) : List Char → Except DecimalError Decimal
  | '-' :: r =>
    match exponentValue? r with
    | some n => base.lowered n
    | none => .error .malformedExponent
  | r =>
    match exponentValue? r with
    | some n => base.raised n
    | none => .error .malformedExponent

/-- the letters that start an exponent -/
def isExponentMark (c : Char) : Bool := c = 'e' || c = 'E'

/-- a decimal from its text: a plain number, else a base and an exponent -/
def ofChars (cs : List Char) : Except DecimalError Decimal :=
  match ofPlain cs with
  | .ok d => .ok d
  | .error e =>
    match cs.dropWhile (! isExponentMark ·) with
    | [] => .error e
    | _ :: exponent => (ofPlain (cs.takeWhile (! isExponentMark ·))).bind (·.withExponent exponent)

def ofText (s : String) : Except DecimalError Decimal := ofChars s.toList

end Decimal

end LedgerTotals
