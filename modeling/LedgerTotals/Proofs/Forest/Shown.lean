/-
How the three texts of an account agree.

A debit, a credit and their difference are rounded to the cent each on its own, with halves away from zero, so the
difference of the first two figures need not be the third. It is a cent off at most, as long as the difference that is
rounded is the exact one (`abs_nearestCent_sub_sub_le`). Signs agree in any case: since neither side is below zero, a minus
sign stands in the total alone, and only where the credit is the larger side (`Totals.Unsigned.lt_of_balance_neg`).

Main result: `reachable_agree`, for every account of a forest.
-/
import LedgerTotals.Proofs.Amount.Canonical
import LedgerTotals.Proofs.Forest.Order

namespace LedgerTotals

open Decimal

/-! ## Cents of a difference -/

/-- three errors of half a cent at most come to less than two cents, and to whole cents -/
theorem abs_nearestCent_sub_sub_le (p q : ℚ) : |nearestCent p - nearestCent q - nearestCent (p - q)| ≤ 1 := by
  have hp := abs_le.1 (abs_nearestCent_sub_le p)
  have hq := abs_le.1 (abs_nearestCent_sub_le q)
  have hdifference := abs_le.1 (abs_nearestCent_sub_le (p - q))
  have hupper : ((nearestCent p - nearestCent q - nearestCent (p - q) : ℤ) : ℚ) < 2 := by
    push_cast
    linarith
  have hlower : (-2 : ℚ) < (nearestCent p - nearestCent q - nearestCent (p - q) : ℤ) := by
    push_cast
    linarith
  have hupper' : nearestCent p - nearestCent q - nearestCent (p - q) < 2 := by exact_mod_cast hupper
  have hlower' : -2 < nearestCent p - nearestCent q - nearestCent (p - q) := by exact_mod_cast hlower
  rw [abs_le]
  constructor <;> omega

theorem nearestCent_of_hasPlaces {q : ℚ} (h : HasPlaces 2 q) : (nearestCent q : ℚ) = q * 100 := by
  obtain ⟨z, hz⟩ := h
  have hcents : q * 100 = z := by rw [← hz]; norm_num
  rw [nearestCent_of_cents hcents, hcents]

theorem neg_of_nearestCent_neg {q : ℚ} (h : nearestCent q < 0) : q < 0 := by
  by_contra hq
  exact absurd (nearestCent_nonneg (not_lt.1 hq)) (not_le.2 h)

theorem mem_minus_centsText (f : AmountFormat) (c : ℤ) : '-' ∈ (centsText f c).toList ↔ c < 0 := by
  rw [centsText, String.toList_ofList, mem_minus_centsChars]

/-! ## Totals -/

namespace Totals

/-- the exact difference of debit and credit, in units of the larger of their scales, fits the mantissa -/
def DifferenceFits (t : Totals) : Prop :=
  |t.debit.toRat - t.credit.toRat| * 10 ^ max t.debit.scale t.credit.scale < 2 ^ 96

instance (t : Totals) : Decidable t.DifferenceFits := inferInstanceAs (Decidable (_ < _))

/-- a difference that fits is exact -/
theorem DifferenceFits.toRat_balance {t : Totals} (h : t.DifferenceFits) :
    t.balance.toRat = t.debit.toRat - t.credit.toRat := by
  have hdebit : HasPlaces (max t.debit.scale t.credit.scale) t.debit.toRat := hasPlaces_toRat (le_max_left _ _)
  have hcredit : HasPlaces (max t.debit.scale t.credit.scale) t.credit.toRat := hasPlaces_toRat (le_max_right _ _)
  have hscale : max t.debit.scale t.credit.scale ≤ maxScale := max_le t.debit.scale_le t.credit.scale_le
  obtain ⟨c, hc, hexact⟩ := sub?_exact ((hdebit.sub hcredit).representable hscale h)
  rw [balance, hc, Option.getD_some, hexact]

theorem Unsigned.lt_of_balance_neg {t : Totals} (ht : t.Unsigned) (h : t.balance.toRat < 0) :
    t.debit.toRat < t.credit.toRat := by
  by_contra hle
  exact absurd (sub?_nonneg (not_lt.1 hle) ht.sub?_eq) (not_le.2 h)

/-- the sinks show the figures `x`, which agree with each other as far as cents can, and their signs are those of the
totals -/
structure Agree (t : Totals) (s : Sinks) (x : Figures) : Prop where
  display : s.Display x
  within : t.DifferenceFits → |x.debit - x.credit - x.total| ≤ 1 / 100
  wholeCents : t.DifferenceFits → HasPlaces 2 t.debit.toRat → HasPlaces 2 t.credit.toRat → x.debit - x.credit - x.total = 0
  debitUnsigned : '-' ∉ s.debit.toList
  creditUnsigned : '-' ∉ s.credit.toList
  totalSigned : '-' ∈ s.total.toList → t.debit.toRat < t.credit.toRat

/-- the figures of totals in whole cents -/
def cents (t : Totals) : Figures :=
  ⟨(nearestCent t.debit.toRat : ℚ) / 100, (nearestCent t.credit.toRat : ℚ) / 100, (nearestCent t.balance.toRat : ℚ) / 100⟩

theorem Unsigned.agree {t : Totals} (ht : t.Unsigned) (format : AmountFormat) : t.Agree (t.sinks format) t.cents := by
  have hdifference : t.cents.debit - t.cents.credit - t.cents.total =
      ((nearestCent t.debit.toRat - nearestCent t.credit.toRat - nearestCent t.balance.toRat : ℤ) : ℚ) / 100 := by
    push_cast [cents]
    ring
  rw [Totals.sinks_eq]
  refine ⟨⟨?_, ?_, ?_⟩, ?_, ?_, ?_, ?_, ?_⟩
  · exact number?_centsText format _
  · exact number?_centsText format _
  · exact number?_centsText format _
  · intro hfits
    have hcents : (|nearestCent t.debit.toRat - nearestCent t.credit.toRat - nearestCent t.balance.toRat| : ℚ) ≤ 1 := by
      rw [hfits.toRat_balance]
      exact_mod_cast abs_nearestCent_sub_sub_le t.debit.toRat t.credit.toRat
    rw [hdifference, abs_div, abs_of_pos (by norm_num : (0 : ℚ) < 100)]
    push_cast
    linarith
  · intro hfits hdebit hcredit
    simp only [cents, hfits.toRat_balance, nearestCent_of_hasPlaces hdebit, nearestCent_of_hasPlaces hcredit,
      nearestCent_of_hasPlaces (hdebit.sub hcredit)]
    ring
  · exact fun h => not_lt.2 (nearestCent_nonneg ht.debit) ((mem_minus_centsText format _).1 h)
  · exact fun h => not_lt.2 (nearestCent_nonneg ht.credit) ((mem_minus_centsText format _).1 h)
  · exact fun h => ht.lt_of_balance_neg (neg_of_nearestCent_neg ((mem_minus_centsText format _).1 h))

end Totals

namespace Forest

/-- **The three figures agree to the cent.** Of every account of a forest that operations build from nothing, in every
format: the debit that is shown, less the credit that is shown, is at most a cent away from the total that is shown, if
the exact difference fits a decimal, and no cent away if debit and credit are whole cents. The debit and the credit are
shown without a minus sign, and the total with one only where the debit is the smaller side -/
theorem reachable_agree (f : Forest) (hf : f.Reachable) (j : ℕ) (format : AmountFormat) :
    ∃ x, (f.totalsAt j).Agree ((f.totalsAt j).sinks format) x :=
  ⟨_, (hf.layered.unsigned j).agree format⟩

/-- debits of 105 and a credit of 40.005 -/
def halfCent : Forest :=
  empty.run [.root, .post 0 [⟨false, 70, 0, by decide, Nat.zero_le _⟩],
    .post 0 [⟨true, 40005, 3, by decide, Nat.le_of_ble_eq_true rfl⟩], .post 0 [⟨false, 35, 0, by decide, Nat.zero_le _⟩]]

/-- the half of a cent is taken up in the credit and in the total, so the figures are a cent off -/
theorem reachable_agree_halfCent :
    halfCent.Reachable ∧ (halfCent.totalsAt 0).DifferenceFits ∧
      (halfCent.totalsAt 0).sinks .plain = ⟨"105.00", "40.01", "65.00"⟩ ∧
      ∃ x, (halfCent.totalsAt 0).Agree ((halfCent.totalsAt 0).sinks .plain) x ∧ x.debit - x.credit - x.total = -1 / 100 := by
  have hreach : halfCent.Reachable := ⟨_, rfl⟩
  have hsinks : (halfCent.totalsAt 0).sinks .plain = ⟨"105.00", "40.01", "65.00"⟩ := by decide +kernel
  obtain ⟨x, hx⟩ := reachable_agree halfCent hreach 0 .plain
  refine ⟨hreach, by decide +kernel, hsinks, x, hx, ?_⟩
  have hdebit : number? "105.00" = some x.debit := by simpa [hsinks] using hx.display.debit
  have hcredit : number? "40.01" = some x.credit := by simpa [hsinks] using hx.display.credit
  have htotal : number? "65.00" = some x.total := by simpa [hsinks] using hx.display.total
  have hread : number? "105.00" = some 105 ∧ number? "40.01" = some (4001 / 100) ∧ number? "65.00" = some 65 := by
    decide +kernel
  rw [hread.1, Option.some.injEq] at hdebit
  rw [hread.2.1, Option.some.injEq] at hcredit
  rw [hread.2.2, Option.some.injEq] at htotal
  rw [← hdebit, ← hcredit, ← htotal]
  norm_num

end Forest

end LedgerTotals
