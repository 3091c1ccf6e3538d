/-
Rolling up below an account of a forest: the categories of a tree are posted to the account and to
all above it.
-/
import LedgerTotals.Rollup
import LedgerTotals.Forest

namespace LedgerTotals.Rollup

/-- one tree rolled up below account `i`, and the forest after it -/
def aggregateInto (options : Options) (page : Page) (f : Forest) (i : Nat) (name : String) :
    Pass × Forest :=
  let pass := aggregate options page (f.lineTotals i) name
  (pass, f.setTotals (f.line i) pass.line)

/-- where the totals of a tree or a page would be shown -/
inductive Shown where
  | shown
  | noTree
  | noSinks
  deriving DecidableEq

/-- totals shown in the sinks of the first tree of the name -/
def showTreeTotal (format : AmountFormat) (totals : Totals) (page : Page) (name : String) :
    Page × Shown :=
  match page.findTree? name with
  | none => (page, .noTree)
  | some tree =>
    (page.updateTree name (showTotal format totals), if tree.total.isSome then .shown else .noSinks)

def showPageTotal (format : AmountFormat) (totals : Totals) (page : Page) : Page × Shown :=
  (showGrandTotal format totals page, if page.grandTotal.isSome then .shown else .noSinks)

end LedgerTotals.Rollup
