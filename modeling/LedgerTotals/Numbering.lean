/-
Numbering: every category label of a tree gets its position in front, counted from one.
-/
import LedgerTotals.Page.Basic
import LedgerTotals.Policy
import LedgerTotals.Journal

namespace LedgerTotals

open Digits

namespace Numbering

/-- the label without one leading position, which is digits and a point -/
def stripPosition (cs : List Char) : List Char :=
  match cs.takeWhile isDigit, cs.dropWhile isDigit with
  | _ :: _, '.' :: r => r
  | _, _ => cs

/-- what a label keeps when it is renumbered -/
def kept (mode : RenumberMode) (label : String) : List Char :=
  match mode with
  | .prepend => label.toList
  | .replace => stripPosition label.toList

/-- the label of the category at `index`, counted from zero -/
def numbered (mode : RenumberMode) (index : Nat) (label : String) : String :=
  String.ofList (digits (index + 1) ++ '.' :: kept mode label)

def renumberAll (mode : RenumberMode) (categories : List Category) : List Category :=
  categories.mapIdx fun i c => { c with label := numbered mode i c.label }

def renumberTree (mode : RenumberMode) (t : Tree) : Tree :=
  { t with categories := renumberAll mode t.categories }

/-- the page with the labels of the first tree of the name renumbered -/
def renumber (mode : RenumberMode) (page : Page) (name : String) : Page :=
  page.updateTree name (renumberTree mode)

/-- how many labels of the page `renumber` changes -/
def count (page : Page) (name : String) : Nat :=
  match page.findTree? name with
  | some t => t.categories.length
  | none => 0

/-- what the journal says of it -/
def entry (page : Page) (name : String) : Entry :=
  match page.findTree? name with
  | some t =>
    ⟨.debug, "Renumbered " ++ Digits.text t.categories.length ++ " labels in the '" ++ name ++
      "' tree"⟩
  | none => ⟨.debug, "No '" ++ name ++ "' tree to renumber"⟩

end Numbering

end LedgerTotals
