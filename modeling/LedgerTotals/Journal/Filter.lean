/-
Filters: which lines of a journal are kept, and how these are shown.

A filter is written as directives with commas between them. A directive names the beginning of a
source and a level; a level alone goes for all sources, and a source alone, with or without an
equals sign, for all levels. Directives that cannot be read do not count, and a filter without any
keeps the errors.
-/
import LedgerTotals.Journal
import LedgerTotals.Text.Digits
import LedgerTotals.Text.Pieces
import LedgerTotals.Text.Spelled

namespace LedgerTotals

/-! ## levels -/

/-- the name of a level in capital letters -/
def Level.label (level : Level) : String := String.ofList (level.name.toList.map Char.toUpper)

/-- the level of a name in small or capital letters, or of a number from 0 to 5; no text at all
stands for errors -/
def Level.ofChars? (cs : List Char) : Option Level :=
  let digits := match cs with
    | '+' :: ds => ds
    | ds => ds
  if cs = [] then some .error
  else if digits ≠ [] ∧ digits.all Digits.isDigit = true then all[Digits.value digits]?
  else all.find? fun level => level.name.toList = cs.map Char.toLower

def Level.ofText? (s : String) : Option Level := Level.ofChars? s.toList

/-! ## directives -/

/-- how much is kept of the sources that begin with a text -/
structure Directive where
  source : List Char
  level : Level
  deriving DecidableEq

/-- a character with which a directive can begin -/
def Directive.isFirst (c : Char) : Bool := c.isAlphanum || c = '-' || c = ':' || c = '_'

def Directive.ofChars? (cs : List Char) : Option Directive :=
  if cs.head?.all isFirst then
    match cs.dropWhile (· ≠ '=') with
    | [_] => some ⟨cs.takeWhile (· ≠ '='), .trace⟩
    | _ :: level => (Level.ofChars? level).map fun l => ⟨cs.takeWhile (· ≠ '='), l⟩
    | [] =>
      match Level.ofChars? cs with
      | some level => some ⟨[], level⟩
      | none => some ⟨cs, .trace⟩
  else none

/-- directives in their order; a later one takes the place of an earlier one for the same source -/
abbrev Filter := List Directive

namespace Filter

def ofText (s : String) : Filter :=
  match ((pieces ',' s.toList).filter (· ≠ [])).filterMap Directive.ofChars? with
  | [] => [⟨[], .error⟩]
  | ds => ds

/-- the same level for each of some sources -/
def ofSources (level : Level) (sources : List String) : Filter :=
  sources.map fun s => ⟨s.toList, level⟩

/-- the better of what decided so far and one more directive, for lines from a source -/
def prefer (source : List Char) (best : Option Directive) (d : Directive) : Option Directive :=
  if d.source.isPrefixOf source then
    match best with
    | some b => if d.source.length < b.source.length then some b else some d
    | none => some d
  else best

/-- how much is kept of a source: of the directives for it, the one with the longest text decides -/
def level (filter : Filter) (source : String) : Level :=
  ((filter.foldl (prefer source.toList) none).map (·.level)).getD .off

/-- a line of this level from the source is kept -/
def keeps (filter : Filter) (source : String) (level : Level) : Bool :=
  level.rank ≤ (filter.level source).rank

end Filter

/-! ## lines -/

/-- a character as a journal shows it: what would steer a terminal is spelled out -/
def Entry.shown (c : Char) : List Char :=
  let n := c.toNat
  if n = 0x07 then "\\x07".toList
  else if n = 0x08 then "\\x08".toList
  else if n = 0x0c then "\\x0c".toList
  else if n = 0x1b then "\\x1b".toList
  else if n = 0x7f then "\\x7f".toList
  else if 0x80 ≤ n ∧ n ≤ 0x9f then Spelled.code n
  else [c]

def Entry.line (e : Entry) : String :=
  e.level.label ++ " " ++ String.ofList (e.text.toList.flatMap shown)

end LedgerTotals
