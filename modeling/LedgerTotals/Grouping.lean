/-
Grouping: transactions become a page with an imported and an assigned tree. Categories stand in the
order of their labels, and the rows of a category in the order of the transactions.
-/
import LedgerTotals.Transaction.Table
import LedgerTotals.Text.Order

namespace LedgerTotals.Grouping

/-- labels in increasing order, each with its rows -/
abbrev Groups := List (String × List Row)

/-- a row under its label, behind the rows that are there already -/
def file (label : String) (row : Row) : Groups → Groups
  | [] => [(label, [row])]
  | (l, rows) :: rest =>
    if l = label then (l, rows ++ [row]) :: rest
    else if Order.before label.toList l.toList then (label, [row]) :: (l, rows) :: rest
    else (l, rows) :: file label row rest

/-- the groups with one more transaction, if it belongs to the side -/
def fileTransaction (side : Side) (groups : Groups) (t : Transaction) : Groups :=
  if t.placement.1 = side then file t.placement.2 t.toRow groups else groups

/-- the transactions of one side in their groups -/
def groups (side : Side) (ts : List Transaction) : Groups := ts.foldl (fileTransaction side) []

def tree (side : Side) (ts : List Transaction) : Tree :=
  .new side.name ((groups side ts).map fun g => .new g.1 g.2)

/-- the page of the transactions, with both trees even if they are empty -/
def page (ts : List Transaction) : Page :=
  (Page.empty.pushTree (tree .imported ts)).pushTree (tree .assigned ts)

end LedgerTotals.Grouping
