/-
The text of a decimal, read as an amount.

The amount takes a minus sign off the front and leaves the rest to the decimal, which reads no sign then; the sign is
put back, on a zero too. There are no blanks and no commas in the text, so nothing else is taken off.
-/
import LedgerTotals.Proofs.Amount.Money

namespace LedgerTotals

open Digits

/-- the text of a decimal without its sign is the body of a text of money -/
theorem MoneyBody.of_toChars_abs (d : Decimal) : MoneyBody d.abs.toChars := by
  have hdigits : ∀ n, ∀ c ∈ digits n, isDigit c = true := fun n c hc => isDigit_of_mem_digits hc
  have habs : d.abs.toChars = if d.scale = 0 then digits d.mantissa
      else digits (d.mantissa / pow10 d.scale) ++ '.' :: fixedDigits d.scale d.mantissa := rfl
  rw [habs]
  split_ifs
  · exact MoneyBody.of_digits (digits_ne_nil _) (hdigits _)
  · obtain ⟨c, hc⟩ := List.exists_mem_of_ne_nil _ (digits_ne_nil (d.mantissa / pow10 d.scale))
    exact MoneyBody.of_point (fun e he => .inl (hdigits _ e he)) ⟨c, hc, hdigits _ c hc⟩
      fun e he => isDigit_of_mem_fixedDigits he

/-- the text of a decimal, as a text of money -/
def Decimal.money (d : Decimal) : MoneyText := .trimmed d.negative none d.abs.toChars (.of_toChars_abs d)

theorem Decimal.text_money (d : Decimal) : d.money.text = d.toText := by
  rw [money, MoneyText.text_trimmed, Option.map_none, Option.toList_none, List.append_nil, ← d.toChars_eq, toText]

namespace Amount

/-- **A decimal is read back from its text**: the sign, also that of a zero, the mantissa and the scale -/
theorem ofText_toText (d : Decimal) : ofText d.toText = .ok ⟨d, .plain⟩ := by
  have hcomma : ',' ∉ d.abs.toChars := by
    intro h
    rcases Decimal.of_mem_toChars_abs h with h | h
    · exact absurd h (by decide)
    · exact absurd h (by decide)
  have hbody : d.money.body.filter (· ≠ ',') = d.abs.toChars := List.filter_eq_self.2 (decide_ne_of_notMem hcomma)
  have hflag : d.money.body.contains ',' = false := by
    rw [List.contains_eq_mem]
    exact decide_eq_false hcomma
  have hvalue : (if d.negative then d.abs.neg else d.abs) = d := by
    obtain ⟨negative, m, s, hm, hs⟩ := d
    cases negative <;> rfl
  rw [← d.text_money, d.money.ofText_of_body (hbody ▸ Decimal.ofChars_toChars_abs d), hflag]
  exact congrArg (fun v => Except.ok (Amount.mk v .plain)) hvalue

example : ofText (Decimal.toText ⟨true, 0, 3, by decide, by decide⟩) =
    .ok ⟨⟨true, 0, 3, by decide, by decide⟩, .plain⟩ := by decide +kernel

end Amount

end LedgerTotals
