/-
The order of texts by code point, character after character; a text stands before its extensions.
-/
namespace LedgerTotals.Order

/-- the first text stands strictly before the second -/
def before : List Char → List Char → Bool
  | _, [] => false
  | [], _ :: _ => true
  | c :: cs, d :: ds => c.toNat < d.toNat || (c.toNat == d.toNat && before cs ds)

end LedgerTotals.Order
