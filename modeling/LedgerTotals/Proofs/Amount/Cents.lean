/-
The cent nearest to a number, and how rounding a decimal finds it.

- `nearestCent`: the whole number of cents nearest to a number, where a half goes away from zero. It is never off by more
  than half a cent (`abs_nearestCent_sub_le`), and it keeps the order of numbers (`nearestCent_mono`);
- `IsNearestCent`: the same as a relation, by the distances to all other cents, and it has one solution
  (`isNearestCent_iff`);
- `rounded_cents`, `rounded_negative`, `toRat_rounded`: a decimal rounded to cents is the nearest cent of its number.
-/
import LedgerTotals.Proofs.Decimal.Number

namespace LedgerTotals

/-- the number in cents, rounded to the nearest whole number of them, a half away from zero -/
def nearestCent (q : ℚ) : ℤ := if q < 0 then -⌊-q * 100 + 1 / 2⌋ else ⌊q * 100 + 1 / 2⌋

theorem nearestCent_of_nonneg {q : ℚ} (hq : 0 ≤ q) : nearestCent q = ⌊q * 100 + 1 / 2⌋ :=
  if_neg (not_lt.2 hq)

theorem nearestCent_neg (q : ℚ) : nearestCent (-q) = -nearestCent q := by
  rcases lt_trichotomy q 0 with hq | rfl | hq
  · rw [nearestCent_of_nonneg (by linarith), nearestCent, if_pos hq, neg_neg]
  · norm_num [nearestCent]
  · rw [nearestCent, if_pos (by linarith), neg_neg, nearestCent_of_nonneg hq.le]

theorem abs_nearestCent_sub_le (q : ℚ) : |(nearestCent q : ℚ) - q * 100| ≤ 1 / 2 := by
  have hnonneg : ∀ p : ℚ, 0 ≤ p → |(nearestCent p : ℚ) - p * 100| ≤ 1 / 2 := by
    intro p hp
    have hle := Int.floor_le (p * 100 + 1 / 2)
    have hlt := Int.lt_floor_add_one (p * 100 + 1 / 2)
    rw [nearestCent_of_nonneg hp, abs_le]
    constructor <;> linarith
  rcases le_total 0 q with hq | hq
  · exact hnonneg q hq
  · have hneg := hnonneg (-q) (by linarith)
    rwa [nearestCent_neg, Int.cast_neg, neg_mul, ← neg_sub', abs_neg] at hneg

theorem nearestCent_nonneg {q : ℚ} (hq : 0 ≤ q) : 0 ≤ nearestCent q := by
  rw [nearestCent_of_nonneg hq]
  exact Int.floor_nonneg.2 (by positivity)

/-- rounding keeps the order, across zero as well -/
theorem nearestCent_mono : Monotone nearestCent := by
  have hnonneg : ∀ {p q : ℚ}, 0 ≤ p → p ≤ q → nearestCent p ≤ nearestCent q := by
    intro p q hp hle
    rw [nearestCent_of_nonneg hp, nearestCent_of_nonneg (hp.trans hle)]
    exact Int.floor_le_floor (by linarith)
  intro p q hle
  rcases le_total 0 p with hp | hp
  · exact hnonneg hp hle
  · have hp' := nearestCent_nonneg (neg_nonneg.2 hp)
    rcases le_total 0 q with hq | hq
    · calc nearestCent p = -nearestCent (-p) := by rw [nearestCent_neg, neg_neg]
        _ ≤ 0 := neg_nonpos.2 hp'
        _ ≤ nearestCent q := nearestCent_nonneg hq
    · have hneg := hnonneg (neg_nonneg.2 hq) (neg_le_neg hle)
      rwa [nearestCent_neg, nearestCent_neg, neg_le_neg_iff] at hneg

/-- a whole number of cents is its own nearest -/
theorem nearestCent_of_cents {q : ℚ} {z : ℤ} (h : q * 100 = z) : nearestCent q = z := by
  have hfloor : ∀ y : ℤ, ⌊(y : ℚ) + 1 / 2⌋ = y := fun y => by
    rw [Int.floor_eq_iff]
    constructor <;> linarith
  rw [nearestCent]
  split_ifs
  · rw [neg_mul, h, ← Int.cast_neg, hfloor, neg_neg]
  · rw [h, hfloor]

/-! ## Nearest of all -/

/-- `q` is in whole cents, no whole number of cents is nearer to `v`, and none that is as near is farther from zero -/
structure IsNearestCent (v q : ℚ) : Prop where
  cents : Decimal.HasPlaces 2 q
  nearest : ∀ p, Decimal.HasPlaces 2 p → |q - v| ≤ |p - v|
  away : ∀ p, Decimal.HasPlaces 2 p → |p - v| = |q - v| → |p| ≤ |q|

theorem abs_nearestCent_sub_le_of_int (v : ℚ) (z : ℤ) : |(nearestCent v : ℚ) - v * 100| ≤ |(z : ℚ) - v * 100| := by
  have hhalf := abs_nearestCent_sub_le v
  by_cases hz : z = nearestCent v
  · rw [hz]
  · have hstep : (1 : ℚ) ≤ |(z : ℚ) - nearestCent v| := by
      exact_mod_cast Int.one_le_abs (sub_ne_zero.2 hz)
    have htriangle := abs_sub_le (z : ℚ) (v * 100) (nearestCent v)
    rw [abs_sub_comm (v * 100)] at htriangle
    linarith

/-- of two whole numbers of cents that are as near as can be, the one farther from zero is taken -/
theorem abs_le_abs_nearestCent {v : ℚ} {z : ℤ} (h : |(z : ℚ) - v * 100| = |(nearestCent v : ℚ) - v * 100|) :
    |(z : ℚ)| ≤ |(nearestCent v : ℚ)| := by
  have hnonneg : ∀ {p : ℚ} {y : ℤ}, 0 ≤ p → |(y : ℚ) - p * 100| = |(nearestCent p : ℚ) - p * 100| →
      |(y : ℚ)| ≤ |(nearestCent p : ℚ)| := by
    intro p y hp hy
    have hc : (0 : ℚ) ≤ nearestCent p := by exact_mod_cast nearestCent_nonneg hp
    have hle := Int.floor_le (p * 100 + 1 / 2)
    rw [← nearestCent_of_nonneg hp] at hle
    rcases abs_eq_abs.1 hy with hsame | hother
    · rw [sub_left_inj.1 hsame]
    · -- the number lies halfway between the two
      have hsum : (y : ℚ) + nearestCent p = 2 * (p * 100) := by linarith
      have hlt := Int.lt_floor_add_one (p * 100 + 1 / 2)
      rw [← nearestCent_of_nonneg hp] at hlt
      have hupper : y ≤ nearestCent p := by
        have hcast : (y : ℚ) < nearestCent p + 1 := by linarith
        exact Int.lt_add_one_iff.1 (by exact_mod_cast hcast)
      rw [abs_of_nonneg hc, abs_le]
      exact ⟨by linarith, by exact_mod_cast hupper⟩
  rcases le_total 0 v with hv | hv
  · exact hnonneg hv h
  · have hneg := @hnonneg (-v) (-z) (by linarith)
    rw [nearestCent_neg, Int.cast_neg, Int.cast_neg, neg_mul, ← neg_sub', ← neg_sub', abs_neg, abs_neg, abs_neg,
      abs_neg] at hneg
    exact hneg h

theorem isNearestCent_nearestCent (v : ℚ) : IsNearestCent v ((nearestCent v : ℚ) / 100) := by
  have hscale : ∀ {p : ℚ} {z : ℤ}, p * 10 ^ 2 = z → |p - v| = |(z : ℚ) - v * 100| / 100 ∧ |p| = |(z : ℚ)| / 100 := by
    intro p z hz
    have hp : p * 100 = z := by rw [← hz]; norm_num
    rw [← hp, ← sub_mul, abs_mul, abs_mul, abs_of_pos (by norm_num : (0 : ℚ) < 100)]
    constructor <;> ring
  have hq : (nearestCent v : ℚ) / 100 * 10 ^ 2 = nearestCent v := by ring
  obtain ⟨hdist, habs⟩ := hscale hq
  refine ⟨⟨_, hq⟩, ?_, ?_⟩
  · rintro p ⟨z, hz⟩
    rw [hdist, (hscale hz).1]
    have hle := abs_nearestCent_sub_le_of_int v z
    linarith
  · rintro p ⟨z, hz⟩ heq
    rw [hdist, (hscale hz).1, div_left_inj' (by norm_num)] at heq
    have hle := abs_le_abs_nearestCent heq
    rw [habs, (hscale hz).2]
    linarith

/-- there is one such number only: two of them could differ in sign alone, and then they lie around zero -/
theorem IsNearestCent.unique {v p q : ℚ} (hp : IsNearestCent v p) (hq : IsNearestCent v q) : p = q := by
  have hdist : |p - v| = |q - v| := le_antisymm (hp.nearest q hq.cents) (hq.nearest p hp.cents)
  have habs : |p| = |q| := le_antisymm (hq.away p hp.cents hdist) (hp.away q hq.cents hdist.symm)
  rcases abs_eq_abs.1 habs with hsame | hopposite
  · exact hsame
  · rcases abs_eq_abs.1 hdist with hsame | hother
    · exact sub_left_inj.1 hsame
    · obtain rfl : v = 0 := by linarith
      have hzero := hq.nearest 0 (Decimal.HasPlaces.zero 2)
      rw [sub_zero, sub_zero, abs_zero, abs_nonpos_iff] at hzero
      rw [hopposite, hzero, neg_zero]

theorem isNearestCent_iff {v q : ℚ} : IsNearestCent v q ↔ q = (nearestCent v : ℚ) / 100 :=
  ⟨fun h => h.unique (isNearestCent_nearestCent v), fun h => h ▸ isNearestCent_nearestCent v⟩

namespace Decimal

theorem natAbs_nearestCent (d : Decimal) : (nearestCent d.toRat).natAbs = (d.round shownPlaces).cents := by
  have habs : (nearestCent d.toRat).natAbs = (nearestCent |d.toRat|).natAbs := by
    rcases abs_choice d.toRat with h | h
    · rw [h]
    · rw [h, nearestCent_neg, Int.natAbs_neg]
  rw [habs, abs_toRat]
  by_cases hs : shownPlaces < d.scale
  · obtain ⟨k, hk⟩ := Nat.exists_eq_add_of_lt hs
    have hquot : (d.mantissa : ℚ) / 10 ^ d.scale * 100 = d.mantissa / (pow10 (d.scale - shownPlaces) : ℕ) := by
      rw [cast_pow10, hk, Nat.add_assoc, Nat.add_sub_cancel_left, pow_add]
      simp only [shownPlaces]
      field_simp
      norm_num
    have hround : (d.round shownPlaces).cents = roundHalfUp d.mantissa (pow10 (d.scale - shownPlaces)) := by
      simp [round, cents, hs, pow10]
    rw [nearestCent_of_nonneg (by positivity), hquot, ← roundHalfUp_eq_floor _ (pow10_pos _), hround, Int.natAbs_natCast]
  · obtain ⟨k, hk⟩ := Nat.exists_eq_add_of_le (Nat.not_lt.1 hs)
    have hcents : (d.mantissa : ℚ) / 10 ^ d.scale * 100 = ((d.round shownPlaces).cents : ℤ) := by
      have hpow : (100 : ℚ) = 10 ^ d.scale * 10 ^ k := by
        rw [← pow_add, ← hk]
        norm_num [shownPlaces]
      have hround : (d.round shownPlaces).cents = d.mantissa * pow10 k := by
        rw [round, dif_neg hs, cents, hk, Nat.add_sub_cancel_left]
      rw [hround, hpow]
      push_cast [cast_pow10]
      field_simp
    rw [nearestCent_of_cents hcents, Int.natAbs_natCast]

theorem cents_eq_zero_iff {d : Decimal} : d.cents = 0 ↔ d.isZero = true := by
  simp [cents, isZero, (pow10_pos _).ne']

theorem rounded_cents (d : Decimal) : d.rounded.cents = (nearestCent d.toRat).natAbs := by
  rw [natAbs_nearestCent, rounded]
  split_ifs with h
  · rw [cents_eq_zero_iff.2 h]
    rfl
  · rfl

theorem rounded_negative (d : Decimal) : d.rounded.negative = true ↔ nearestCent d.toRat < 0 := by
  have hsame : (d.round shownPlaces).negative = d.negative := by
    rw [round]
    split_ifs <;> rfl
  have hzero : (d.round shownPlaces).isZero = true ↔ nearestCent d.toRat = 0 := by
    rw [← cents_eq_zero_iff, ← natAbs_nearestCent, Int.natAbs_eq_zero]
  rw [rounded]
  split_ifs with h
  · simp [zero, hzero.1 h]
  · have hne : nearestCent d.toRat ≠ 0 := fun heq => h (hzero.2 heq)
    rw [hsame]
    -- the sign of the nearest cent is that of the number, unless it is zero
    cases hneg : d.negative
    · have hq : 0 ≤ d.toRat := by simp [toRat, coefficient, hneg]; positivity
      simpa using nearestCent_nonneg hq
    · have hq : 0 ≤ -d.toRat := by simp [toRat, coefficient, hneg, neg_div]; positivity
      have h0 := nearestCent_nonneg hq
      rw [nearestCent_neg] at h0
      simp only [true_iff]
      omega

theorem scale_rounded_le (d : Decimal) : d.rounded.scale ≤ shownPlaces := by
  unfold rounded
  split_ifs
  · exact Nat.zero_le _
  · unfold round
    split_ifs with hs
    · exact Nat.le_refl _
    · exact Nat.not_lt.1 hs

theorem toRat_rounded (d : Decimal) : d.rounded.toRat = (nearestCent d.toRat : ℚ) / 100 := by
  have hunits : d.rounded.atScale shownPlaces =
      if d.rounded.negative then -(d.rounded.cents : ℤ) else d.rounded.cents := by
    rw [atScale, coefficient, cents]
    split_ifs <;> push_cast <;> ring
  have hcents : d.rounded.atScale shownPlaces = nearestCent d.toRat := by
    rw [hunits, rounded_cents]
    by_cases hneg : nearestCent d.toRat < 0
    · rw [if_pos ((rounded_negative d).2 hneg)]
      omega
    · rw [if_neg fun h => hneg ((rounded_negative d).1 h)]
      omega
  have hscaled := toRat_mul_pow (scale_rounded_le d)
  rw [hcents] at hscaled
  rw [eq_div_iff (by norm_num), ← hscaled, shownPlaces]
  norm_num

end Decimal

end LedgerTotals
