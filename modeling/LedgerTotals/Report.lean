/-
Reports: what a pass over a page did, and the issues it met on the way without stopping.
-/
import LedgerTotals.Text.Digits
import LedgerTotals.Json.Value

namespace LedgerTotals

open Json

/-- something that went wrong without stopping the pass -/
inductive Issue where
  /-- no tree of this name -/
  | missingTree (tree : String)
  /-- an amount that is not a number -/
  | malformedAmount (tree category text : String)
  /-- a category that would push a total beyond the range of decimals, and is left out -/
  | overflow (tree category : String)
  /-- nowhere to display the totals of a category, without a category those of a tree, without a
  tree those of the page -/
  | missingSink (tree category : Option String)
  deriving DecidableEq

namespace Issue

def message : Issue → String
  | .missingTree tree => "There is no '" ++ tree ++ "' tree on the page"
  | .malformedAmount tree category text =>
    "The amount '" ++ text ++ "' in category '" ++ category ++ "' of the '" ++ tree ++
      "' tree is not a number"
  | .overflow tree category =>
    "Category '" ++ category ++ "' of the '" ++ tree ++ "' tree is too large to add to the totals"
  | .missingSink (some tree) (some category) =>
    "Category '" ++ category ++ "' of the '" ++ tree ++ "' tree has nowhere to display its totals"
  | .missingSink (some tree) none => "The '" ++ tree ++ "' tree has nowhere to display its total"
  | .missingSink none _ => "The page has nowhere to display the grand total"

def textOrNull (s : Option String) : Value := .optional (s.map .string)

def toValue : Issue → Value
  | .missingTree tree => .object [("kind", .string "missing_tree"), ("tree", .string tree)]
  | .malformedAmount tree category text =>
    .object [("kind", .string "malformed_amount"), ("tree", .string tree),
      ("category", .string category), ("text", .string text)]
  | .overflow tree category =>
    .object [("kind", .string "overflow"), ("tree", .string tree), ("category", .string category)]
  | .missingSink tree category =>
    .object [("kind", .string "missing_sink"), ("tree", textOrNull tree),
      ("category", textOrNull category)]

end Issue

/-- what a pass did -/
structure Report where
  treesProcessed : Nat
  nodesRendered : Nat
  amountsAdded : Nat
  issues : List Issue
  deriving DecidableEq

namespace Report

def empty : Report := ⟨0, 0, 0, []⟩

def ofIssues (issues : List Issue) : Report := { empty with issues := issues }

/-- the report of two passes, one after the other -/
def merge (a b : Report) : Report :=
  ⟨a.treesProcessed + b.treesProcessed, a.nodesRendered + b.nodesRendered,
    a.amountsAdded + b.amountsAdded, a.issues ++ b.issues⟩

def isClean (r : Report) : Bool := r.issues.isEmpty

def summary (r : Report) : String :=
  "Rendered " ++ Digits.text r.nodesRendered ++ " categories in " ++
    Digits.text r.treesProcessed ++ " trees from " ++ Digits.text r.amountsAdded ++
    " amounts with " ++ Digits.text r.issues.length ++ " issues"

def toValue (r : Report) : Value :=
  .object [("trees_processed", .number r.treesProcessed),
    ("nodes_rendered", .number r.nodesRendered), ("amounts_added", .number r.amountsAdded),
    ("issues", .array (r.issues.map Issue.toValue))]

end Report

end LedgerTotals
