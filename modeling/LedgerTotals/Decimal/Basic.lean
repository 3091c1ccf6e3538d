/-
Decimals: a sign, a mantissa of 96 bits and up to 28 decimal places, standing for the number
`± mantissa / 10 ^ scale`.

The same number has several decimals (`1.5` and `1.500`, `0` and `-0.00`), and which one a
calculation gives shows in its text. `compare` and `isNegative` look at the number alone.
-/
import LedgerTotals.Round

namespace LedgerTotals

/-- mantissas lie below this bound: they fit 96 bits -/
def Decimal.capacity : Nat := Nat.pow 2 96

theorem Decimal.capacity_pos : 0 < Decimal.capacity := by decide

theorem Decimal.capacity_pred_lt : Decimal.capacity - 1 < Decimal.capacity := by decide

def Decimal.maxScale : Nat := 28

theorem Decimal.one_le_maxScale : 1 ≤ Decimal.maxScale := by decide

theorem Decimal.two_le_maxScale : 2 ≤ Decimal.maxScale := by decide

/-- a decimal stands for `± mantissa / 10 ^ scale`; a zero may carry a sign -/
structure Decimal where
  negative : Bool
  mantissa : Nat
  scale : Nat
  mantissa_lt : mantissa < Decimal.capacity
  scale_le : scale ≤ Decimal.maxScale
  deriving DecidableEq

namespace Decimal

/-- the plain zero: no sign, no decimal places -/
def zero : Decimal := ⟨false, 0, 0, capacity_pos, Nat.zero_le _⟩

instance : Inhabited Decimal := ⟨zero⟩

/-- the mantissa with its sign -/
def coefficient (d : Decimal) : Int := if d.negative then -(d.mantissa : Int) else d.mantissa

/-- the whole number `d * 10 ^ places`, for at least as many places as `d` has -/
def atScale (d : Decimal) (places : Nat) : Int := d.coefficient * (pow10 (places - d.scale) : Nat)

/-- the number is zero, whatever its sign and scale -/
def isZero (d : Decimal) : Bool := d.mantissa == 0

/-- the number is strictly below zero -/
def isNegative (d : Decimal) : Bool := d.negative && !d.isZero

/-- the other sign, on a zero too -/
def neg (d : Decimal) : Decimal := { d with negative := !d.negative }

/-- the same digits without a sign -/
def abs (d : Decimal) : Decimal := { d with negative := false }

/-- the order of the numbers, compared at a scale common to both -/
def compare (a b : Decimal) : Ordering :=
  let x := a.coefficient * (pow10 b.scale : Nat)
  let y := b.coefficient * (pow10 a.scale : Nat)
  if x < y then .lt else if x = y then .eq else .gt

theorem coefficient_neg (d : Decimal) : d.neg.coefficient = -d.coefficient := by
  cases h : d.negative <;> simp [coefficient, neg, h]

theorem natAbs_coefficient (d : Decimal) : d.coefficient.natAbs = d.mantissa := by
  cases h : d.negative <;> simp [coefficient, h]

end Decimal

end LedgerTotals
