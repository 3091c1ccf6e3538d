/-
The form in which an amount is shown.

The text says the nearest cent, with a half taken away from zero. It has a minus sign only in front of a number below
zero, whatever the sign of the value was, no leading zeros and exactly two digits behind the point. Commas, where the
format asks for them, stand between groups of three digits, and the text without them is that of the format without
commas.

Main result: `exists_canonical`.
-/
import LedgerTotals.Proofs.Amount.ReadBack
import LedgerTotals.Proofs.Text.Numeral

namespace LedgerTotals

open Digits

/-! ## The text of some cents -/

/-- a minus sign stands in the text of what is below zero and nowhere else -/
theorem mem_minus_centsChars (f : AmountFormat) (c : ℤ) : '-' ∈ centsChars f c ↔ c < 0 := by
  have hsymbol : '-' ∉ (f.symbol.map Currency.symbol).toList := by
    intro h
    rcases of_mem_symbol h with h | h
    · exact absurd h (by decide)
    · exact absurd h (by decide)
  have hwhole : '-' ∉ Amount.wholeChars f c.natAbs := by
    intro h
    rcases of_mem_wholeChars h with h | h
    · exact absurd h (by decide)
    · exact absurd h (by decide)
  have hplaces : '-' ∉ fixedDigits 2 c.natAbs := fun h => absurd (isDigit_of_mem_fixedDigits h) (by decide)
  unfold centsChars
  by_cases hneg : c < 0
  · simp [hneg]
  · simp [hneg, hsymbol, hwhole, hplaces]

/-- without its commas a text is that of the format without commas -/
theorem filter_centsChars (f : AmountFormat) (c : ℤ) :
    (centsChars f c).filter (· ≠ ',') = centsChars ⟨f.symbol, false⟩ c := by
  have hsign : (if c < 0 then ['-'] else []).filter (· ≠ ',') = if c < 0 then ['-'] else [] := by
    split_ifs <;> rfl
  have hsymbol : (f.symbol.map Currency.symbol).toList.filter (· ≠ ',') = (f.symbol.map Currency.symbol).toList :=
    List.filter_eq_self.2 (decide_ne_of_notMem (comma_notMem_symbol f.symbol))
  rw [centsChars, List.filter_append, List.filter_append, hsign, hsymbol, Amount.filter_shown]
  rfl

/-- the whole digits are in groups of three, or without commas -/
theorem grouped_wholeChars (f : AmountFormat) (n : ℕ) :
    if f.commas then GroupedInThrees (Amount.wholeChars f n) else ',' ∉ Amount.wholeChars f n := by
  unfold Amount.wholeChars
  split_ifs
  · exact groupedInThrees_grouped (digits_ne_nil _) fun c hc => isDigit_of_mem_digits hc
  · exact fun h => absurd (isDigit_of_mem_digits h) (by decide)

/-! ## Amounts -/

namespace Amount

/-- the text of the amount says the number `q`, with `whole` in front of the point and `places` behind it -/
structure Canonical (a : Amount) (q : ℚ) (whole places : List Char) : Prop where
  nearest : IsNearestCent a.value.toRat q
  denotes : number? a.toText = some q
  text : a.toText.toList =
    (if q < 0 then ['-'] else []) ++ (a.format.symbol.map Currency.symbol).toList ++ (whole ++ '.' :: places)
  minus : '-' ∈ a.toText.toList ↔ q < 0
  numeral : IsNumeral (whole.filter (· ≠ ','))
  commas : if a.format.commas then GroupedInThrees whole else ',' ∉ whole
  twoPlaces : places.length = 2 ∧ ∀ c ∈ places, isDigit c = true
  erased : a.toText.toList.filter (· ≠ ',') = (toText ⟨a.value, ⟨a.format.symbol, false⟩⟩).toList

/-- **Amounts are shown in canonical form**: the nearest cent, halves taken away from zero, with a minus sign exactly if
it is below zero, no leading zeros, two places, and commas between groups of three digits exactly if asked for -/
theorem exists_canonical (a : Amount) : ∃ q whole places, a.Canonical q whole places := by
  set c := nearestCent a.value.toRat with hc
  have htext : a.toText = centsText a.format c := a.toText_eq
  have hchars : a.toText.toList = centsChars a.format c := by rw [htext, centsText, String.toList_ofList]
  have hplain : (toText ⟨a.value, ⟨a.format.symbol, false⟩⟩).toList = centsChars ⟨a.format.symbol, false⟩ c := by
    rw [toText_eq, centsText, String.toList_ofList]
  have hsign : (c : ℚ) / 100 < 0 ↔ c < 0 := by
    rw [div_lt_iff₀ (by norm_num), zero_mul]
    exact Int.cast_lt_zero
  obtain ⟨-, -, hwhole⟩ := wholeChars_spec a.format c.natAbs
  refine ⟨(c : ℚ) / 100, wholeChars a.format c.natAbs, fixedDigits 2 c.natAbs, ?_⟩
  exact
    { nearest := isNearestCent_nearestCent a.value.toRat
      denotes := htext ▸ number?_centsText a.format c
      text := by simp only [hchars, centsChars, hsign]
      minus := by rw [hchars, mem_minus_centsChars, hsign]
      numeral := hwhole ▸ isNumeral_digits _
      commas := grouped_wholeChars a.format c.natAbs
      twoPlaces := ⟨length_fixedDigits 2 _, fun x hx => isDigit_of_mem_fixedDigits hx⟩
      erased := by rw [hchars, filter_centsChars, hplain] }

/-- half a cent below a thousand is taken up to the thousand, which has a comma -/
example : toText ⟨⟨true, 999995, 3, by decide, by decide⟩, ⟨some .dollar, true⟩⟩ = "-$1,000.00" := by decide +kernel

end Amount

end LedgerTotals
