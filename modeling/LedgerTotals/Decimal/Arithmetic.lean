/-
Sums, differences and products by a power of ten.

A result is first taken exactly, as a whole number of units at the larger scale of its operands.
`fit?` then makes a decimal of it: the exact one if the digits fit 96 bits, else the result rounded
half to even to the largest smaller scale at which they fit, else nothing. An operand that is zero
gives the other operand as it stands, so adding zero never changes a scale.
-/
import LedgerTotals.Decimal.Basic

namespace LedgerTotals

namespace Decimal

/-- the decimal nearest to `± n / 10 ^ exact` with at most `places` places, and as many of them as
its mantissa leaves room for -/
def fitFrom? (negative : Bool) (n exact : Nat) : (places : Nat) → places ≤ maxScale → Option Decimal
  | 0, hp =>
    if hm : roundHalfEven n (pow10 exact) < capacity then
      some ⟨negative, roundHalfEven n (pow10 exact), 0, hm, hp⟩
    else none
  | places + 1, hp =>
    if hm : roundHalfEven n (pow10 (exact - (places + 1))) < capacity then
      some ⟨negative, roundHalfEven n (pow10 (exact - (places + 1))), places + 1, hm, hp⟩
    else fitFrom? negative n exact places (Nat.le_of_succ_le hp)

/-- the decimal for `z / 10 ^ scale`, rounded only if its digits do not fit; zero has no sign -/
def fit? (z : Int) (scale : Nat) (hs : scale ≤ maxScale) : Option Decimal :=
  fitFrom? (decide (z < 0)) z.natAbs scale scale hs

def commonScale (a b : Decimal) : Nat := max a.scale b.scale

theorem commonScale_le (a b : Decimal) : commonScale a b ≤ maxScale :=
  Nat.max_le.2 ⟨a.scale_le, b.scale_le⟩

/-- the sum; `none` if it is too large at every scale -/
def add? (a b : Decimal) : Option Decimal :=
  if a.isZero then some b
  else if b.isZero then some a
  else fit? (a.atScale (commonScale a b) + b.atScale (commonScale a b)) (commonScale a b)
    (commonScale_le a b)

/-- the difference; `none` if it is too large at every scale -/
def sub? (a b : Decimal) : Option Decimal :=
  if a.isZero then some (if b.isZero then b else b.neg)
  else if b.isZero then some a
  else fit? (a.atScale (commonScale a b) - b.atScale (commonScale a b)) (commonScale a b)
    (commonScale_le a b)

/-- the product with `10 ^ k`, at the same scale if it fits; zero loses its decimal places -/
def shift? (d : Decimal) (k : Nat) : Option Decimal :=
  if d.isZero then some zero else fit? (d.coefficient * (pow10 k : Nat)) d.scale d.scale_le

/-- `m / 10 ^ s` without trailing zeros after the point -/
def trimmed (negative : Bool) : (s m : Nat) → m < capacity → s ≤ maxScale → Decimal
  | 0, m, hm, hs => ⟨negative, m, 0, hm, hs⟩
  | s + 1, m, hm, hs =>
    if m % 10 = 0 then
      trimmed negative s (m / 10) (Nat.lt_of_le_of_lt (Nat.div_le_self m 10) hm) (Nat.le_of_succ_le hs)
    else ⟨negative, m, s + 1, hm, hs⟩

/-- the same number without trailing zeros after the point -/
def trimZeros (d : Decimal) : Decimal :=
  trimmed d.negative d.scale d.mantissa d.mantissa_lt d.scale_le

end Decimal

end LedgerTotals
