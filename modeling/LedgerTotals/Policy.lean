/-
The settings of one pass over a page: how labels are renumbered, what becomes of an amount that is
not a number, and how totals are written.
-/
import LedgerTotals.Amount
import LedgerTotals.Text.Named

namespace LedgerTotals

/-- how a label that already carries a position is renumbered -/
inductive RenumberMode where
  /-- the new position goes in front of what is there -/
  | prepend
  /-- the new position takes the place of an old one -/
  | replace
  deriving DecidableEq

namespace RenumberMode

def name : RenumberMode → String
  | .prepend => "prefix"
  | .replace => "replace"

def choices : Choices RenumberMode :=
  ⟨[("prefix", .prepend), ("replace", .replace)], "`prefix` or `replace`"⟩

end RenumberMode

/-- what becomes of an amount that is not a number -/
inductive MalformedPolicy where
  /-- it counts as zero -/
  | zero
  /-- its category is left out of every total -/
  | reject
  deriving DecidableEq

namespace MalformedPolicy

def name : MalformedPolicy → String
  | .zero => "zero"
  | .reject => "reject"

def choices : Choices MalformedPolicy :=
  ⟨[("zero", .zero), ("reject", .reject)], "`zero` or `reject`"⟩

end MalformedPolicy

/-- the settings of one pass -/
structure Options where
  renumber : RenumberMode
  malformed : MalformedPolicy
  format : AmountFormat
  deriving DecidableEq

end LedgerTotals
