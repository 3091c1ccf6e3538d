/-
Results pages: named trees of categories, each category listing the transactions filed under it.

A page, a tree and a category may each have a place that displays its debit, credit and total. A
place that is absent stays absent. Several trees may have one name; the first of them is the one
that the name stands for.
-/
import LedgerTotals.Date
import LedgerTotals.Sinks

namespace LedgerTotals

/-- a transaction as it is listed on a page; only its amount takes part in totals -/
structure Row where
  id : Option String
  date : Option Date
  description : Option String
  amount : String
  deriving DecidableEq

def Row.ofAmount (amount : String) : Row := ⟨none, none, none, amount⟩

/-- a category with the rows filed under it -/
structure Category where
  label : String
  rows : List Row
  totals : Option Sinks
  deriving DecidableEq

namespace Category

def new (label : String) (rows : List Row) : Category := ⟨label, rows, some .empty⟩

def amountTexts (c : Category) : List String := c.rows.map (·.amount)

end Category

structure Tree where
  name : String
  total : Option Sinks
  categories : List Category
  deriving DecidableEq

def Tree.new (name : String) (categories : List Category) : Tree := ⟨name, some .empty, categories⟩

structure Page where
  trees : List Tree
  grandTotal : Option Sinks
  deriving DecidableEq

namespace Page

/-- a page without trees, with empty sinks for the grand total -/
def empty : Page := ⟨[], some .empty⟩

def pushTree (p : Page) (t : Tree) : Page := { p with trees := p.trees ++ [t] }

/-- the first tree of the name -/
def findTree? (p : Page) (name : String) : Option Tree := p.trees.find? (·.name == name)

/-- the trees with the first one of the name replaced by its image -/
def updateFirst (name : String) (f : Tree → Tree) : List Tree → List Tree
  | [] => []
  | t :: r => if t.name == name then f t :: r else t :: updateFirst name f r

/-- the page with the first tree of the name replaced by its image -/
def updateTree (p : Page) (name : String) (f : Tree → Tree) : Page :=
  { p with trees := updateFirst name f p.trees }

def updateTreeAt (p : Page) (index : Nat) (f : Tree → Tree) : Page :=
  { p with trees := p.trees.modify index f }

def updateCategoryAt (p : Page) (tree index : Nat) (f : Category → Category) : Page :=
  p.updateTreeAt tree fun t => { t with categories := t.categories.modify index f }

end Page

/-- the tree of transactions that have no account yet -/
def importedName : String := "imported"

/-- the tree of transactions that have an account -/
def assignedName : String := "assigned"

end LedgerTotals
