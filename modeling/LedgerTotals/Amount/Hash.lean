/-
Equality of amounts, and what a hasher takes in of them.

Decimals are equal if they are the same number, so one amount can equal another that is stored in another way. The
format counts as well. An amount is hashed part by part, the value first; what a hasher does with each part is its own.
-/
import LedgerTotals.Amount

namespace LedgerTotals

/-- the same number, whatever the signs of zeros and the scales -/
def Decimal.equal (d e : Decimal) : Bool := d.compare e == .eq

/-- the same value written in the same way -/
def Amount.equal (a b : Amount) : Bool := a.value.equal b.value && a.format == b.format

/-- what becomes of the state of a hasher as it takes in a decimal, the number of a case, a character or a flag -/
structure Hasher (σ : Type) where
  decimal : Decimal → σ → σ
  variant : Nat → σ → σ
  char : Char → σ → σ
  flag : Bool → σ → σ

namespace Hasher

variable {σ : Type} (h : Hasher σ)

/-- which case it is, and the character if there is one -/
def symbol : Option Currency → σ → σ
  | none, s => h.variant 0 s
  | some c, s => h.char c.symbol (h.variant 1 s)

def format (f : AmountFormat) (s : σ) : σ := h.flag f.commas (h.symbol f.symbol s)

def amount (a : Amount) (s : σ) : σ := h.format a.format (h.decimal a.value s)

end Hasher

end LedgerTotals
