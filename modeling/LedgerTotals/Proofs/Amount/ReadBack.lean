/-
An amount, read back from its text.

The text says the nearest cent, and that is what is read. The digits of some cents may be more than a decimal has room
for, but then the last of them are zeros: a decimal with fewer than two places is shown with zeros in place of the ones
that it does not have. The reader keeps such zeros as long as there is room and drops the others, and the number is the
same either way (`readFraction_zeros`).

- `Decimal.exists_ofChars_cents`: the digits of the cents of a decimal are read as these cents;
- `Amount.ofText_toText_stable`: what is read back has the rounded number as its value, the same symbol, commas if the
  text has any, and the same text.
-/
import LedgerTotals.Proofs.Amount.Money

namespace LedgerTotals

open Digits

namespace Digits

/-- a number moved up is written with zeros behind it -/
theorem fixedDigits_mul_pow10 (s m j : ℕ) : fixedDigits (s + j) (m * pow10 j) = fixedDigits s m ++ List.replicate j '0' := by
  induction j with
  | zero => simp [pow10]
  | succ j ih =>
    have hpow : m * pow10 (j + 1) = 10 * (m * pow10 j) := by
      rw [pow10_add]
      simp only [pow10, Nat.pow_eq, pow_one]
      ring
    have hlast : digitChar (10 * (m * pow10 j) % 10) = '0' := by
      rw [Nat.mul_mod_right]
      rfl
    rw [← Nat.add_assoc, fixedDigits, hpow, hlast, Nat.mul_div_cancel_left _ (by decide), ih, List.append_assoc,
      ← List.replicate_succ']

end Digits

namespace Decimal

/-! ## Zeros behind the last place -/

/-- a run of digits that there is room for is added to the number, whatever follows it -/
theorem readFraction_append (negative : Bool) (ws : List Char) {es : List Char} (hes : ∀ c ∈ es, isDigit c = true)
    (hlt : value (ws ++ es) < capacity) (hws : value ws < capacity) {k : ℕ} (hk : k ≤ maxScale)
    (hplaces : k + es.length < maxScale) (seen : Bool) (rest : List Char) :
    readFraction negative (value ws) k hws hk seen (es ++ rest) =
      readFraction negative (value (ws ++ es)) (k + es.length) hlt hplaces.le (seen || !es.isEmpty) rest := by
  induction es generalizing ws k seen with
  | nil => simp
  | cons c es ih =>
    rw [List.length_cons] at hplaces
    have happend : (ws ++ [c]) ++ es = ws ++ c :: es := by simp
    have hlength : k + 1 + es.length = k + (c :: es).length := by
      rw [List.length_cons]
      omega
    have hfits : 10 * value ws + digitValue c < capacity ∧ k + 1 ≤ maxScale := ⟨next_lt_capacity hlt, by omega⟩
    have hnext : value (ws ++ [c]) < capacity := by
      rw [value_append_one]
      exact hfits.1
    have hrest := ih (ws ++ [c]) (fun d hd => hes d (List.mem_cons_of_mem _ hd)) (by rwa [happend]) hnext hfits.2
      (by omega) true
    simp only [value_append_one, happend, hlength] at hrest
    rw [List.cons_append, readFraction, if_pos (hes c List.mem_cons_self), dif_pos hfits, if_neg (by omega), hrest]
    simp

theorem toRat_signed {m k : ℕ} (hm : m < capacity) (hk : k ≤ maxScale) :
    (signed false m k hm hk).toRat = m / 10 ^ k := by
  simp [signed, toRat, coefficient]

/-- digits behind the complete number do not count -/
theorem checkRest_zeros (d : Decimal) (j : ℕ) : checkRest d (List.replicate j '0') = .ok d := by
  induction j with
  | zero => rfl
  | succ j ih =>
    rw [List.replicate_succ, checkRest]
    exact ih

/-- zeros at the end do not change the number, whether or not there is room for them -/
theorem readFraction_zeros (j : ℕ) {m k : ℕ} (hm : m < capacity) (hk : k ≤ maxScale) (hplaces : k + j < maxScale) :
    ∃ d, readFraction false m k hm hk true (List.replicate j '0') = .ok d ∧ d.toRat = m / 10 ^ k := by
  induction j generalizing m k with
  | zero => exact ⟨_, rfl, toRat_signed hm hk⟩
  | succ j ih =>
    have hzero : digitValue '0' = 0 := rfl
    have hdigit : isDigit '0' = true := rfl
    rw [List.replicate_succ, readFraction, if_pos hdigit]
    by_cases hfits : 10 * m + digitValue '0' < capacity ∧ k + 1 ≤ maxScale
    · obtain ⟨d, hd, hvalue⟩ := ih hfits.1 hfits.2 (by omega)
      refine ⟨d, ?_, ?_⟩
      · rw [dif_pos hfits, if_neg (by omega)]
        exact hd
      · rw [hvalue, hzero, pow_succ]
        push_cast
        field_simp
        ring
    · refine ⟨_, ?_, toRat_signed hm hk⟩
      rw [dif_neg hfits]
      exact checkRest_zeros _ j

theorem exists_ofChars_zeros {ds es : List Char} (hne : ds ≠ []) (hds : ∀ c ∈ ds, isDigit c = true)
    (hes : ∀ c ∈ es, isDigit c = true) (hlt : value (ds ++ es) < capacity) {j : ℕ} (hplaces : es.length + j < maxScale) :
    ∃ d, ofChars (ds ++ '.' :: (es ++ List.replicate j '0')) = .ok d ∧ d.toRat = value (ds ++ es) / 10 ^ es.length := by
  have hwhole : value ds < capacity := (value_le_append ds es).trans_lt hlt
  obtain ⟨c, r, rfl⟩ := List.exists_cons_of_ne_nil hne
  have hc := hds c List.mem_cons_self
  obtain ⟨d, hd, hvalue⟩ := readFraction_zeros j hlt (by omega : 0 + es.length ≤ maxScale) (by omega)
  refine ⟨d, ofChars_of_ofPlain ?_, by rwa [Nat.zero_add] at hvalue⟩
  have hread := readWhole_digits false [] hds hwhole capacity_pos false ('.' :: (es ++ List.replicate j '0'))
  have hfraction := readFraction_append false (c :: r) hes hlt hwhole (Nat.zero_le _) (by omega) true
    (List.replicate j '0')
  calc ofPlain ((c :: r) ++ '.' :: (es ++ List.replicate j '0'))
      = readWhole false 0 capacity_pos false ((c :: r) ++ '.' :: (es ++ List.replicate j '0')) :=
        ofPlain_of_unsigned (ne_of_isDigit hc rfl) (ne_of_isDigit hc rfl)
    _ = readWhole false (value (c :: r)) hwhole true ('.' :: (es ++ List.replicate j '0')) := hread
    _ = readFraction false (value (c :: r)) 0 hwhole (Nat.zero_le _) true (es ++ List.replicate j '0') := by
        rw [readWhole]
        rfl
    _ = .ok d := hfraction.trans hd

/-- the digits of the cents of a decimal, as they are shown, are read as these cents -/
theorem exists_ofChars_cents {d : Decimal} (hs : d.scale ≤ shownPlaces) :
    ∃ e, ofChars (digits (d.cents / 100) ++ '.' :: fixedDigits 2 d.cents) = .ok e ∧ e.toRat = (d.cents : ℚ) / 100 := by
  obtain ⟨j, hj⟩ := Nat.exists_eq_add_of_le hs
  have hcents : d.cents = d.mantissa * pow10 j := by rw [cents, hj, Nat.add_sub_cancel_left]
  have hhundred : 100 = pow10 d.scale * pow10 j := by
    rw [← pow10_add, ← hj]
    rfl
  have hwhole : d.cents / 100 = d.mantissa / pow10 d.scale := by
    rw [hcents, hhundred, Nat.mul_div_mul_right _ _ (pow10_pos j)]
  have hplaces : fixedDigits 2 d.cents = fixedDigits d.scale d.mantissa ++ List.replicate j '0' := by
    rw [hcents, ← fixedDigits_mul_pow10, ← hj]
    rfl
  have hvalue : value (digits (d.mantissa / pow10 d.scale) ++ fixedDigits d.scale d.mantissa) = d.mantissa := by
    rw [value_append, value_digits, value_fixedDigits, length_fixedDigits]
    exact Nat.div_add_mod' d.mantissa (pow10 d.scale)
  have hroom : (fixedDigits d.scale d.mantissa).length + j < maxScale := by
    rw [length_fixedDigits, ← hj]
    decide
  obtain ⟨e, he, hrat⟩ := exists_ofChars_zeros (digits_ne_nil _) (fun c hc => isDigit_of_mem_digits hc)
    (fun c hc => isDigit_of_mem_fixedDigits hc) (by rw [hvalue]; exact d.mantissa_lt) hroom
  refine ⟨e, by rw [hwhole, hplaces]; exact he, ?_⟩
  have hpow : (100 : ℚ) = 10 ^ d.scale * 10 ^ j := by
    rw [← cast_pow10, ← cast_pow10, ← Nat.cast_mul, ← hhundred]
    norm_num
  rw [hrat, hvalue, length_fixedDigits, hcents, hpow]
  push_cast [cast_pow10]
  field_simp

end Decimal

/-! ## The text of some cents -/

/-- nothing but digits and commas stands in front of the point -/
theorem of_mem_wholeChars {f : AmountFormat} {n : ℕ} {x : Char} (h : x ∈ Amount.wholeChars f n) :
    isDigit x = true ∨ x = ',' := by
  unfold Amount.wholeChars at h
  split_ifs at h
  · exact (mem_grouped h).imp_left isDigit_of_mem_digits
  · exact .inl (isDigit_of_mem_digits h)

theorem comma_notMem_symbol (s : Option Currency) : ',' ∉ (s.map Currency.symbol).toList := by
  intro h
  rcases of_mem_symbol h with h | h
  · exact absurd h (by decide)
  · exact absurd h (by decide)

/-- there are no commas behind the point -/
theorem comma_notMem_places (n : ℕ) : ',' ∉ '.' :: fixedDigits 2 n := by
  intro h
  rcases List.mem_cons.1 h with h | h
  · exact absurd h (by decide)
  · exact absurd (isDigit_of_mem_fixedDigits h) (by decide)

/-- commas stand in front of the point, if anywhere -/
theorem mem_comma_centsChars (f : AmountFormat) (c : ℤ) : ',' ∈ centsChars f c ↔ ',' ∈ Amount.wholeChars f c.natAbs := by
  have hsign : ',' ∉ (if c < 0 then ['-'] else []) := by split_ifs <;> decide
  rw [centsChars, List.mem_append, List.mem_append, List.mem_append, or_iff_right hsign,
    or_iff_right (comma_notMem_symbol f.symbol), or_iff_left (comma_notMem_places _)]

/-- a text without commas is that of the format without commas -/
theorem centsText_commas (f : AmountFormat) (c : ℤ) :
    centsText ⟨f.symbol, (centsChars f c).contains ','⟩ c = centsText f c := by
  have hwhole : Amount.wholeChars ⟨f.symbol, (centsChars f c).contains ','⟩ c.natAbs = Amount.wholeChars f c.natAbs := by
    by_cases hcomma : ',' ∈ centsChars f c
    · have hcommas : f.commas = true := by
        by_contra hplain
        rw [mem_comma_centsChars, Amount.wholeChars, if_neg hplain] at hcomma
        exact absurd (isDigit_of_mem_digits hcomma) (by decide)
      simp [Amount.wholeChars, hcomma, hcommas]
    · obtain ⟨-, -, hdigits⟩ := wholeChars_spec f c.natAbs
      have hnone : ',' ∉ Amount.wholeChars f c.natAbs := fun h => hcomma ((mem_comma_centsChars f c).2 h)
      rw [List.filter_eq_self.2 (decide_ne_of_notMem hnone)] at hdigits
      rw [hdigits]
      simp [hcomma, Amount.wholeChars]
  unfold centsText centsChars
  exact congrArg _ (congrArg _ (congrArg (· ++ _) hwhole))

/-! ## The amount -/

namespace Amount

theorem filter_shown (f : AmountFormat) (n : ℕ) : (wholeChars f n ++ '.' :: fixedDigits 2 n).filter (· ≠ ',') =
    digits (n / 100) ++ '.' :: fixedDigits 2 n := by
  obtain ⟨-, -, hwhole⟩ := wholeChars_spec f n
  have hplaces : ('.' :: fixedDigits 2 n).filter (· ≠ ',') = '.' :: fixedDigits 2 n :=
    List.filter_eq_self.2 (decide_ne_of_notMem (comma_notMem_places n))
  rw [List.filter_append, hwhole, hplaces]

theorem moneyBody_shown (f : AmountFormat) (n : ℕ) : MoneyBody (wholeChars f n ++ '.' :: fixedDigits 2 n) := by
  obtain ⟨⟨d, r, hdr, hd⟩, -⟩ := wholeChars_spec f n
  exact .of_point (fun x hx => of_mem_wholeChars hx) ⟨d, hdr ▸ List.mem_cons_self, hd⟩
    fun x hx => isDigit_of_mem_fixedDigits hx

/-- the text of some cents, as a text of money -/
def centsMoney (f : AmountFormat) (c : ℤ) : MoneyText :=
  .trimmed (decide (c < 0)) f.symbol (wholeChars f c.natAbs ++ '.' :: fixedDigits 2 c.natAbs)
    (moneyBody_shown f c.natAbs)

theorem text_centsMoney (f : AmountFormat) (c : ℤ) : (centsMoney f c).text = centsText f c := by
  simp only [centsMoney, MoneyText.text_trimmed, centsText, centsChars, decide_eq_true_eq]

/-- the text of some cents is read as what the digits of these cents are read as -/
theorem ofText_centsText (f : AmountFormat) (c : ℤ) {e : Decimal}
    (he : Decimal.ofChars (digits (c.natAbs / 100) ++ '.' :: fixedDigits 2 c.natAbs) = .ok e) :
    ofText (centsText f c) =
      .ok ⟨if c < 0 then e.neg else e, ⟨f.symbol, (centsChars f c).contains ','⟩⟩ := by
  have hcomma : (wholeChars f c.natAbs ++ '.' :: fixedDigits 2 c.natAbs).contains ',' =
      (centsChars f c).contains ',' := by
    rw [Bool.eq_iff_iff, List.contains_iff_mem, List.contains_iff_mem, mem_comma_centsChars, List.mem_append,
      or_iff_left (comma_notMem_places _)]
  rw [← filter_shown f] at he
  rw [← text_centsMoney, (centsMoney f c).ofText_of_body he]
  simp only [centsMoney, MoneyText.trimmed, hcomma, decide_eq_true_eq]

/-- an amount is read back from its text as the cent nearest to it, and shown again it has the same text -/
theorem exists_ofText_shown (a : Amount) : ∃ b, ofText a.toText = .ok b ∧
    b.value.toRat = (nearestCent a.value.toRat : ℚ) / 100 ∧ b.format = ⟨a.format.symbol, a.toText.toList.contains ','⟩ ∧
    b.toText = a.toText := by
  set c := nearestCent a.value.toRat with hc
  have htext : a.toText = centsText a.format c := a.toText_eq
  have hchars : a.toText.toList = centsChars a.format c := by rw [htext, centsText, String.toList_ofList]
  obtain ⟨e, he, hrat⟩ := Decimal.exists_ofChars_cents a.value.scale_rounded_le
  rw [Decimal.rounded_cents, ← hc] at he hrat
  have hvalue : (if c < 0 then e.neg else e).toRat = (c : ℚ) / 100 := by
    have habs : ((c.natAbs : ℕ) : ℚ) = |(c : ℚ)| := by rw [Nat.cast_natAbs, Int.cast_abs]
    by_cases hneg : c < 0
    · have hcast : (c : ℚ) < 0 := by exact_mod_cast hneg
      rw [if_pos hneg, Decimal.toRat_neg, hrat, habs, abs_of_neg hcast]
      ring
    · have hcast : 0 ≤ (c : ℚ) := by exact_mod_cast not_lt.1 hneg
      rw [if_neg hneg, hrat, habs, abs_of_nonneg hcast]
  have hcent : nearestCent ((c : ℚ) / 100) = c := nearestCent_of_cents (div_mul_cancel₀ _ (by norm_num))
  refine ⟨_, (congrArg ofText htext).trans (ofText_centsText a.format c he), hvalue, ?_, ?_⟩
  · rw [hchars]
  · rw [toText_eq, hvalue, hcent, centsText_commas, htext]

/-- **Showing and reading back is stable.** Every amount is read back from its text as the number it is rounded to, with
its symbol, and with commas exactly if there are commas to be seen; shown again, it has the same text -/
theorem ofText_toText_stable (a : Amount) : ∃ b, ofText a.toText = .ok b ∧ b.value.toRat = a.rounded.toRat ∧
    b.format.symbol = a.format.symbol ∧ (b.format.commas = true ↔ ',' ∈ a.toText.toList) ∧ b.toText = a.toText := by
  obtain ⟨b, hread, hvalue, hformat, htext⟩ := a.exists_ofText_shown
  refine ⟨b, hread, ?_, by rw [hformat], ?_, htext⟩
  · rw [hvalue, rounded, Decimal.toRat_rounded]
  · rw [hformat, List.contains_iff_mem]

/-- the largest decimal has no room for the two places that it is shown with -/
example : (ofText (toText ⟨⟨true, Decimal.capacity - 1, 0, Decimal.capacity_pred_lt, Nat.zero_le _⟩, ⟨some .euro, true⟩⟩)).map
    (fun b => (b.toText, b.value.scale)) = .ok ("-€79,228,162,514,264,337,593,543,950,335.00", 0) := by
  decide +kernel

end Amount

end LedgerTotals
