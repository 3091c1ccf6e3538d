/-
Bank transactions that are read from a statement and, possibly, assigned to an account.

A transaction with an account is filed in the assigned tree under its account, any other in the
imported tree under the name of its relation.
-/
import LedgerTotals.Amount
import LedgerTotals.Page.Basic

namespace LedgerTotals

structure Transaction where
  id : String
  date : Date
  description : Option String
  amount : Amount
  relation : Option String
  accountCode : Option String
  accountDescription : Option String
  deriving DecidableEq

/-- the two trees that transactions are filed in -/
inductive Side where
  | imported
  | assigned
  deriving DecidableEq

def Side.name : Side → String
  | .imported => importedName
  | .assigned => assignedName

namespace Transaction

/-- the category of transactions without an account and without a relation -/
def unknownRelation : String := "[Unknown]"

/-- a transaction with nothing but what it must have -/
def new (id : String) (date : Date) (amount : Amount) : Transaction :=
  ⟨id, date, none, amount, none, none, none⟩

/-- the tree and the label that the transaction is filed under -/
def placement (t : Transaction) : Side × String :=
  match t.accountCode with
  | some code =>
    match t.accountDescription with
    | some description => (.assigned, code ++ " - " ++ description)
    | none => (.assigned, code)
  | none => (.imported, t.relation.getD unknownRelation)

/-- the transaction as a row of a page, its amount with all digits -/
def toRow (t : Transaction) : Row := ⟨some t.id, some t.date, t.description, t.amount.value.toText⟩

end Transaction

end LedgerTotals
