/-
Splitting bytes into records of fields.

Commas separate fields; a line feed, a carriage return or both end a record; blank lines are no
records. A quotation mark at the start of a field encloses it: commas and line ends inside belong to
the field, and two quotation marks stand for one. What follows the closing mark is appended as it
stands, and the end of the bytes closes a field that is still open. A byte order mark in front of
everything is skipped.

A record is said to begin right behind the byte that ended the record before it.
-/
namespace LedgerTotals.Csv

/-- a place among the bytes: the bytes in front of it, and one more than the line feeds in front -/
structure Position where
  byte : Nat
  line : Nat
  deriving DecidableEq

/-- the fields of a record, and the place it is said to begin at -/
structure Record where
  fields : List (List UInt8)
  start : Position
  deriving DecidableEq

/-- where the splitter stands -/
inductive Place where
  /-- in front of a record -/
  | between
  /-- in front of a field that is not the first -/
  | fieldStart
  /-- in a field, outside quotation marks -/
  | bare
  /-- inside quotation marks -/
  | enclosed
  /-- after a quotation mark that may close the field or be one of two -/
  | closing
  deriving DecidableEq

/-- the splitter: the field at hand and the fields before it, both in reverse -/
structure Splitter where
  place : Place
  field : List UInt8
  fields : List (List UInt8)
  start : Position
  now : Position

def comma : UInt8 := 44
def quote : UInt8 := 34
def lineFeed : UInt8 := 10
def carriageReturn : UInt8 := 13

namespace Splitter

def initial (byte : Nat) : Splitter := ⟨.between, [], [], ⟨0, 1⟩, ⟨byte, 1⟩⟩

def advance (s : Splitter) (b : UInt8) : Splitter :=
  { s with now := ⟨s.now.byte + 1, if b = lineFeed then s.now.line + 1 else s.now.line⟩ }

def record (s : Splitter) : Record := ⟨(s.field.reverse :: s.fields).reverse, s.start⟩

def endField (s : Splitter) : Splitter :=
  { s with place := .fieldStart, field := [], fields := s.field.reverse :: s.fields }

def endRecord (s : Splitter) : Splitter := ⟨.between, [], [], s.now, s.now⟩

def push (s : Splitter) (place : Place) (b : UInt8) : Splitter :=
  { s with place := place, field := b :: s.field }

def isLineEnd (b : UInt8) : Bool := b = lineFeed || b = carriageReturn

/-- a byte outside quotation marks, in a field or behind one: the record that it ends, if it does -/
def outside (s : Splitter) (b : UInt8) : Option Record × Splitter :=
  if b = comma then (none, (s.advance b).endField)
  else if isLineEnd b then (some s.record, (s.advance b).endRecord)
  else (none, (s.advance b).push .bare b)

/-- one byte: the record that it ends, if it does, and the splitter behind it -/
def step (s : Splitter) (b : UInt8) : Option Record × Splitter :=
  match s.place with
  | .between =>
    if isLineEnd b then (none, s.advance b)
    else if b = quote then (none, { s.advance b with place := .enclosed })
    else s.outside b
  | .fieldStart =>
    if b = quote then (none, { s.advance b with place := .enclosed }) else s.outside b
  | .bare => s.outside b
  | .enclosed =>
    if b = quote then (none, { s.advance b with place := .closing })
    else (none, (s.advance b).push .enclosed b)
  | .closing =>
    if b = quote then (none, (s.advance b).push .enclosed b) else s.outside b

/-- the records from here to the end of the bytes -/
def records (s : Splitter) : List UInt8 → List Record
  | [] => if s.place = .between then [] else [s.record]
  | b :: bytes =>
    match s.step b with
    | (some r, s) => r :: records s bytes
    | (none, s) => records s bytes

end Splitter

/-- the records of the bytes -/
def records : List UInt8 → List Record
  | 0xEF :: 0xBB :: 0xBF :: bytes => (Splitter.initial 3).records bytes
  | bytes => (Splitter.initial 0).records bytes

end LedgerTotals.Csv
