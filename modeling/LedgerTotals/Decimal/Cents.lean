/-
Rounding to whole cents. A decimal with more than two places is rounded to two, a half going away
from zero; one with two places or fewer stands as it is. A zero comes out plain, so no rounded
decimal is a negative zero.
-/
import LedgerTotals.Decimal.Basic

namespace LedgerTotals

namespace Decimal

/-- the places that amounts are shown with -/
def shownPlaces : Nat := 2

/-- rounded to `places` places, a half away from zero; fewer places are left alone -/
def round (d : Decimal) (places : Nat) : Decimal :=
  if h : places < d.scale then
    ⟨d.negative, roundHalfUp d.mantissa (pow10 (d.scale - places)), places,
      Nat.lt_of_le_of_lt (roundHalfUp_le_self _ _ (two_le_pow10 (Nat.sub_pos_of_lt h))) d.mantissa_lt,
      Nat.le_trans (Nat.le_of_lt h) d.scale_le⟩
  else d

/-- rounded to cents, with plain zero for every zero -/
def rounded (d : Decimal) : Decimal :=
  if (d.round shownPlaces).isZero then zero else d.round shownPlaces

/-- the number of whole cents, of a decimal with two places or fewer -/
def cents (d : Decimal) : Nat := d.mantissa * pow10 (shownPlaces - d.scale)

end Decimal

end LedgerTotals
