/-
Strings in quotation marks.

Written, a string escapes the quotation mark, the backslash and the control characters below 0x20,
with the short escapes where there is one. `readString` takes what follows an opening quotation mark
and undoes all escapes of JSON; two escapes may make up one character above 0xFFFF. `skipString`
checks the form only: it does not ask what an escape stands for.
-/
import LedgerTotals.Json.Error

namespace LedgerTotals.Json

open Digits

/-! ## writing -/

/-- a hexadecimal digit in lower case -/
def hexDigit (d : Nat) : Char := if d < 10 then Char.ofNat (48 + d) else Char.ofNat (87 + d)

/-- a character as it stands between quotation marks -/
def escaped (c : Char) : List Char :=
  if c = '"' then ['\\', '"']
  else if c = '\\' then ['\\', '\\']
  else if c.toNat = 8 then ['\\', 'b']
  else if c.toNat = 9 then ['\\', 't']
  else if c.toNat = 10 then ['\\', 'n']
  else if c.toNat = 12 then ['\\', 'f']
  else if c.toNat = 13 then ['\\', 'r']
  else if c.toNat < 0x20 then
    ['\\', 'u', '0', '0', hexDigit (c.toNat / 16), hexDigit (c.toNat % 16)]
  else [c]

def quoted (s : String) : List Char := '"' :: (s.toList.flatMap escaped ++ ['"'])

/-! ## reading -/

/-- the value of a hexadecimal digit in either case -/
def hexValue? (c : Char) : Option Nat :=
  let n := c.toNat
  if 48 ≤ n ∧ n ≤ 57 then some (n - 48)
  else if 97 ≤ n ∧ n ≤ 102 then some (n - 87)
  else if 65 ≤ n ∧ n ≤ 70 then some (n - 55)
  else none

def byteCount (cs : List Char) : Nat := cs.foldl (fun n c => n + c.utf8Size) 0

def shortEscape? (c : Char) : Option Char :=
  if c = '"' ∨ c = '\\' ∨ c = '/' then some c
  else if c = 'b' then some (Char.ofNat 8)
  else if c = 'f' then some (Char.ofNat 12)
  else if c = 'n' then some '\n'
  else if c = 'r' then some '\r'
  else if c = 't' then some '\t'
  else none

/-- where a reader stands inside a string -/
inductive QuotedState where
  | plain
  /-- after a backslash -/
  | escape
  /-- `count` hexadecimal digits of an escape read -/
  | hex (count value : Nat)
  /-- after the first half `high` of a pair -/
  | pairBackslash (high : Nat)
  /-- after the backslash of the second half -/
  | pairLetter (high : Nat)
  /-- `count` hexadecimal digits of the second half read -/
  | pairHex (high count value : Nat)

/-- the error when fewer digits than four came before `cs`: the end of the text wins over a
character that is no digit when not even four bytes are left for the digits -/
def hexError (count : Nat) (cs : List Char) : JsonError :=
  if count + byteCount cs < 4 then .endInString else .invalidEscape

/-- the rest of a string, after what is in `acc` in reverse -/
def readQuoted : QuotedState → List Char → Reader (List Char)
  | .plain, _, [] => .error .endInString
  | .plain, acc, c :: r =>
    if c = '"' then .ok (acc.reverse, r)
    else if c = '\\' then readQuoted .escape acc r
    else if c.toNat < 0x20 then .error .controlCharacter
    else readQuoted .plain (c :: acc) r
  | .escape, _, [] => .error .endInString
  | .escape, acc, c :: r =>
    if c = 'u' then readQuoted (.hex 0 0) acc r
    else match shortEscape? c with
      | some e => readQuoted .plain (e :: acc) r
      | none => .error .invalidEscape
  | .hex count _, _, [] => .error (hexError count [])
  | .hex count value, acc, c :: r =>
    match hexValue? c with
    | none => .error (hexError count (c :: r))
    | some d =>
      let n := 16 * value + d
      if count < 3 then readQuoted (.hex (count + 1) n) acc r
      else if 0xDC00 ≤ n ∧ n ≤ 0xDFFF then .error .loneSurrogate
      else if 0xD800 ≤ n ∧ n ≤ 0xDBFF then readQuoted (.pairBackslash n) acc r
      else readQuoted .plain (Char.ofNat n :: acc) r
  | .pairBackslash _, _, [] => .error .endInString
  | .pairBackslash high, acc, c :: r =>
    if c = '\\' then readQuoted (.pairLetter high) acc r else .error .endOfEscape
  | .pairLetter _, _, [] => .error .endInString
  | .pairLetter high, acc, c :: r =>
    if c = 'u' then readQuoted (.pairHex high 0 0) acc r else .error .endOfEscape
  | .pairHex _ count _, _, [] => .error (hexError count [])
  | .pairHex high count value, acc, c :: r =>
    match hexValue? c with
    | none => .error (hexError count (c :: r))
    | some d =>
      let n := 16 * value + d
      if count < 3 then readQuoted (.pairHex high (count + 1) n) acc r
      else if 0xDC00 ≤ n ∧ n ≤ 0xDFFF then
        readQuoted .plain (Char.ofNat (0x10000 + (high - 0xD800) * 0x400 + (n - 0xDC00)) :: acc) r
      else .error .loneSurrogate

/-- the string after its opening quotation mark -/
def readString : Reader String := fun cs =>
  (readQuoted .plain [] cs).map fun p => (String.ofList p.1, p.2)

/-- where a check of form stands inside a string -/
inductive SkipState where
  | plain
  | escape
  /-- `count` hexadecimal digits of an escape read -/
  | hex (count : Nat)

/-- the rest of a text after the string that it starts in; escapes are not interpreted -/
def skipString : SkipState → List Char → Except JsonError (List Char)
  | .hex count, [] => .error (hexError count [])
  | _, [] => .error .endInString
  | .plain, c :: r =>
    if c = '"' then .ok r
    else if c = '\\' then skipString .escape r
    else if c.toNat < 0x20 then .error .controlCharacter
    else skipString .plain r
  | .escape, c :: r =>
    if c = 'u' then skipString (.hex 0) r
    else if (shortEscape? c).isSome then skipString .plain r
    else .error .invalidEscape
  | .hex count, c :: r =>
    if (hexValue? c).isNone then .error (hexError count (c :: r))
    else if count < 3 then skipString (.hex (count + 1)) r
    else skipString .plain r

end LedgerTotals.Json
