/-
The number that a decimal stands for, as a rational.

- `toRat_mul_pow`: at any scale that is large enough, the number in units of that scale is `atScale`;
- `isNegative_iff`, `isZero_iff`: the tests look at the number alone;
- `Representable`: the numbers that some decimal stands for. Every whole number of units below 96 bits is one of them,
  at any scale (`representable_of_units`).
-/
import LedgerTotals.Decimal.Cents
import LedgerTotals.Proofs.Round

namespace LedgerTotals

namespace Decimal

/-- the number that the decimal stands for -/
def toRat (d : Decimal) : ℚ := d.coefficient / 10 ^ d.scale

theorem toRat_mul_pow_scale (d : Decimal) : d.toRat * 10 ^ d.scale = d.coefficient :=
  div_mul_cancel₀ _ (by positivity)

theorem toRat_mul_pow {d : Decimal} {s : ℕ} (h : d.scale ≤ s) : d.toRat * 10 ^ s = d.atScale s := by
  obtain ⟨k, rfl⟩ := Nat.exists_eq_add_of_le h
  rw [pow_add, ← mul_assoc, toRat_mul_pow_scale, atScale, Nat.add_sub_cancel_left, Int.cast_mul, Int.cast_natCast,
    cast_pow10]

@[simp] theorem toRat_zero : Decimal.zero.toRat = 0 := by
  simp [toRat, zero, coefficient]

@[simp] theorem toRat_neg (d : Decimal) : d.neg.toRat = -d.toRat := by
  rw [toRat, coefficient_neg, Int.cast_neg, neg_div]
  rfl

theorem abs_toRat (d : Decimal) : |d.toRat| = d.mantissa / 10 ^ d.scale := by
  rw [toRat, abs_div, abs_of_pos (a := (10 : ℚ) ^ d.scale) (by positivity), ← natAbs_coefficient, Nat.cast_natAbs,
    Int.cast_abs]

@[simp] theorem toRat_abs (d : Decimal) : d.abs.toRat = |d.toRat| := by
  rw [abs_toRat]
  simp [toRat, coefficient, abs]

theorem isZero_iff {d : Decimal} : d.isZero = true ↔ d.toRat = 0 := by
  rw [← abs_eq_zero, abs_toRat]
  simp [isZero]

theorem isNegative_iff {d : Decimal} : d.isNegative = true ↔ d.toRat < 0 := by
  have hpos : (0 : ℚ) < 10 ^ d.scale := by positivity
  rw [toRat, div_lt_iff₀ hpos, zero_mul]
  cases h : d.negative
  · simp [isNegative, coefficient, h]
  · simp [isNegative, isZero, coefficient, h, Nat.pos_iff_ne_zero]

theorem isNegative_eq_false_iff {d : Decimal} : d.isNegative = false ↔ 0 ≤ d.toRat := by
  rw [← not_lt, ← isNegative_iff, Bool.not_eq_true]

/-! ## Numbers that have a decimal -/

/-- some decimal stands for the number -/
def Representable (q : ℚ) : Prop := ∃ d : Decimal, d.toRat = q

/-- a whole number of units of `10 ^ -s` has a decimal if it fits the mantissa -/
theorem representable_of_units {q : ℚ} {s : ℕ} (hs : s ≤ maxScale) {z : ℤ} (hz : q * 10 ^ s = z)
    (hlt : z.natAbs < capacity) : Representable q := by
  refine ⟨⟨decide (z < 0), z.natAbs, s, hlt, hs⟩, ?_⟩
  have hcoeff : coefficient ⟨decide (z < 0), z.natAbs, s, hlt, hs⟩ = z := by
    simp only [coefficient, decide_eq_true_eq]
    split_ifs <;> omega
  rw [toRat, hcoeff, ← hz]
  exact mul_div_cancel_right₀ q (by positivity)

/-- the number has at most `s` places after the point -/
def HasPlaces (s : ℕ) (q : ℚ) : Prop := ∃ z : ℤ, q * 10 ^ s = z

theorem hasPlaces_iff_den {s : ℕ} {q : ℚ} : HasPlaces s q ↔ (q * 10 ^ s).den = 1 :=
  ⟨fun ⟨z, hz⟩ => by rw [hz]; rfl, fun h => ⟨_, (Rat.coe_int_num_of_den_eq_one h).symm⟩⟩

instance (s : ℕ) (q : ℚ) : Decidable (HasPlaces s q) := decidable_of_iff _ hasPlaces_iff_den.symm

theorem hasPlaces_toRat {d : Decimal} {s : ℕ} (h : d.scale ≤ s) : HasPlaces s d.toRat :=
  ⟨d.atScale s, toRat_mul_pow h⟩

theorem HasPlaces.zero (s : ℕ) : HasPlaces s 0 := ⟨0, by simp⟩

theorem HasPlaces.add {s : ℕ} {p q : ℚ} (hp : HasPlaces s p) (hq : HasPlaces s q) : HasPlaces s (p + q) := by
  obtain ⟨y, hy⟩ := hp
  obtain ⟨z, hz⟩ := hq
  exact ⟨y + z, by rw [add_mul, hy, hz, Int.cast_add]⟩

theorem HasPlaces.neg {s : ℕ} {q : ℚ} (hq : HasPlaces s q) : HasPlaces s (-q) := by
  obtain ⟨z, hz⟩ := hq
  exact ⟨-z, by rw [neg_mul, hz, Int.cast_neg]⟩

theorem HasPlaces.sub {s : ℕ} {p q : ℚ} (hp : HasPlaces s p) (hq : HasPlaces s q) : HasPlaces s (p - q) := by
  rw [sub_eq_add_neg]
  exact hp.add hq.neg

theorem HasPlaces.abs {s : ℕ} {q : ℚ} (hq : HasPlaces s q) : HasPlaces s |q| := by
  rcases abs_choice q with h | h
  · rw [h]; exact hq
  · rw [h]; exact hq.neg

theorem HasPlaces.representable {s : ℕ} {q : ℚ} (hs : s ≤ maxScale) (hq : HasPlaces s q)
    (hlt : |q| * 10 ^ s < 2 ^ 96) : Representable q := by
  obtain ⟨z, hz⟩ := hq
  refine representable_of_units hs hz ?_
  have habs : ((z.natAbs : ℕ) : ℚ) < ((2 ^ 96 : ℕ) : ℚ) := by
    rw [Nat.cast_natAbs, Int.cast_abs, ← hz, abs_mul, abs_of_pos (a := (10 : ℚ) ^ s) (by positivity)]
    exact_mod_cast hlt
  exact_mod_cast habs

end Decimal

end LedgerTotals
