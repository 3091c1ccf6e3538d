/-
JSON values to be written, in one line or over several lines with two spaces for each level.

Members of an object keep their order.
-/
import LedgerTotals.Json.Quoted

namespace LedgerTotals.Json

/-- a value to be written -/
inductive Value where
  | null
  | boolean (b : Bool)
  | number (n : Nat)
  | string (s : String)
  | array (items : List Value)
  | object (members : List (String × Value))

namespace Value

/-- a value that may be absent, `null` if it is -/
def optional (v : Option Value) : Value := v.getD .null

def boolChars (b : Bool) : List Char := if b then "true".toList else "false".toList

/-! ## one line -/

mutual

/-- the value without any white space -/
def compact : Value → List Char
  | .null => "null".toList
  | .boolean b => boolChars b
  | .number n => Digits.digits n
  | .string s => quoted s
  | .array items => '[' :: compactItems items
  | .object members => '{' :: compactMembers members

/-- items and the closing bracket -/
def compactItems : List Value → List Char
  | [] => [']']
  | [v] => compact v ++ [']']
  | v :: w :: r => compact v ++ ',' :: compactItems (w :: r)

/-- members and the closing brace -/
def compactMembers : List (String × Value) → List Char
  | [] => ['}']
  | [(k, v)] => quoted k ++ ':' :: (compact v ++ ['}'])
  | (k, v) :: m :: r => quoted k ++ ':' :: (compact v ++ ',' :: compactMembers (m :: r))

end

/-! ## several lines -/

def newLine (level : Nat) : List Char := '\n' :: List.replicate (2 * level) ' '

mutual

/-- the value over several lines, its first line standing at `level` -/
def pretty (level : Nat) : Value → List Char
  | .null => "null".toList
  | .boolean b => boolChars b
  | .number n => Digits.digits n
  | .string s => quoted s
  | .array [] => ['[', ']']
  | .array (v :: r) => '[' :: (newLine (level + 1) ++ prettyItems level (v :: r))
  | .object [] => ['{', '}']
  | .object (m :: r) => '{' :: (newLine (level + 1) ++ prettyMembers level (m :: r))

/-- items on a line each, and the closing bracket on its own -/
def prettyItems (level : Nat) : List Value → List Char
  | [] => [']']
  | [v] => pretty (level + 1) v ++ newLine level ++ [']']
  | v :: w :: r => pretty (level + 1) v ++ ',' :: (newLine (level + 1) ++ prettyItems level (w :: r))

/-- members on a line each, and the closing brace on its own -/
def prettyMembers (level : Nat) : List (String × Value) → List Char
  | [] => ['}']
  | [(k, v)] => quoted k ++ ':' :: ' ' :: (pretty (level + 1) v ++ newLine level ++ ['}'])
  | (k, v) :: m :: r =>
    quoted k ++ ':' :: ' ' ::
      (pretty (level + 1) v ++ ',' :: (newLine (level + 1) ++ prettyMembers level (m :: r)))

end

def toLine (v : Value) : String := String.ofList v.compact

/-- the value as a text of several lines, without a line end after the last -/
def toLines (v : Value) : String := String.ofList (v.pretty 0)

end Value

end LedgerTotals.Json
