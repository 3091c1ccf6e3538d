/-
Running totals: the debits and the credits of a run of amounts, kept apart.

A negative amount is a credit of its absolute value, any other a debit. A batch of amounts is summed
on its own first; posting it adds both sums to a pair of running totals, and fails if either sum is
too large for a decimal. Posting to a line of running totals succeeds for all of them or for none.
-/
import LedgerTotals.Amount
import LedgerTotals.Sinks

namespace LedgerTotals

/-- debits and credits, neither of them signed -/
structure Totals where
  debit : Decimal
  credit : Decimal
  deriving DecidableEq

/-- a total grew beyond the range of decimals -/
structure TotalsOverflow where

def TotalsOverflow.message (_ : TotalsOverflow) : String :=
  "The totals are too large to be represented"

namespace Totals

def zero : Totals := ⟨.zero, .zero⟩

def include? (t : Totals) (amount : Decimal) : Option Totals :=
  if amount.isNegative then (t.credit.add? amount.abs).map fun credit => { t with credit := credit }
  else (t.debit.add? amount).map fun debit => { t with debit := debit }

/-- the debit and the credit of a batch, each summed from zero in order -/
def ofBatch? (amounts : List Decimal) : Option Totals :=
  amounts.foldlM include? zero

/-- a batch added to running totals -/
def post? (batch t : Totals) : Option Totals :=
  match t.debit.add? batch.debit, t.credit.add? batch.credit with
  | some debit, some credit => some ⟨debit, credit⟩
  | _, _ => none

/-- a batch added to every running total of a line, or to none -/
def postAll? (batch : Totals) (line : List Totals) : Option (List Totals) :=
  line.mapM (post? batch)

/-- debit less credit; the difference of two unsigned decimals never leaves their range -/
def balance (t : Totals) : Decimal := (t.debit.sub? t.credit).getD .zero

/-- the three texts that show the totals in a format -/
def sinks (t : Totals) (format : AmountFormat) : Sinks :=
  ⟨Amount.toText ⟨t.debit, format⟩, Amount.toText ⟨t.credit, format⟩,
    Amount.toText ⟨t.balance, format⟩⟩

def describe (t : Totals) (hasParent : Bool) : String :=
  "Accumulator \x7b debit: " ++ t.debit.toText ++ ", credit: " ++ t.credit.toText ++
    ", has_parent: " ++ (if hasParent then "true" else "false") ++ " \x7d"

end Totals

end LedgerTotals
