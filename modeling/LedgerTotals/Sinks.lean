/-
Sinks: the places that display a debit, a credit and a total.
-/
namespace LedgerTotals

/-- the three texts that display a debit, a credit and a total -/
structure Sinks where
  debit : String
  credit : String
  total : String
  deriving DecidableEq

def Sinks.empty : Sinks := ⟨"", "", ""⟩

end LedgerTotals
