/-
Settings: which trees are rolled up, and how. They come from a file or are the built-in ones, and a
command may put its own policies in their place.
-/
import LedgerTotals.Policy
import LedgerTotals.Page.Basic

namespace LedgerTotals

/-- the trees to roll up in their order, and how to do it -/
structure Settings where
  trees : List String
  renumber : RenumberMode
  malformed : MalformedPolicy
  thousandsSeparators : Bool
  deriving DecidableEq

namespace Settings

/-- the names of both trees that transactions go to -/
def builtInTrees : List String := [importedName, assignedName]

/-- the settings where none are given -/
def builtIn : Settings := ⟨builtInTrees, .prepend, .zero, false⟩

def options (s : Settings) : LedgerTotals.Options :=
  ⟨s.renumber, s.malformed, .withCommas s.thousandsSeparators⟩

end Settings

/-- policies that go before those of the settings -/
structure Overrides where
  renumber : Option RenumberMode
  malformed : Option MalformedPolicy
  deriving DecidableEq

def Overrides.none : Overrides := ⟨.none, .none⟩

def Settings.withOverrides (s : Settings) (o : Overrides) : Settings :=
  { s with renumber := o.renumber.getD s.renumber, malformed := o.malformed.getD s.malformed }

end LedgerTotals
