/-
Amounts as they are shown, and the numbers that such texts stand for.

`centsText` is the text of a whole number of cents, and `number?` reads a text as a number by the rules of money alone:
a sign, a currency symbol, digits with commas among them, a point, digits.

- `toText_eq`: the text of an amount is that of the cent nearest to its value;
- `number?_centsText`: the text of some cents stands for so many hundredths, in every format;
- `Sinks.Display`: sinks in which each text stands for its figure; `display_sinks` is what totals in whole cents show.
-/
import LedgerTotals.Proofs.Amount.Cents
import LedgerTotals.Proofs.Text.Digits
import LedgerTotals.Proofs.Totals

namespace LedgerTotals

open Digits

/-! ## Cents as text -/

/-- a whole number of cents as it is shown, one character after another -/
def centsChars (f : AmountFormat) (c : ℤ) : List Char :=
  (if c < 0 then ['-'] else []) ++ (f.symbol.map Currency.symbol).toList ++
    (Amount.wholeChars f c.natAbs ++ '.' :: fixedDigits 2 c.natAbs)

def centsText (f : AmountFormat) (c : ℤ) : String := String.ofList (centsChars f c)

/-- the text of an amount depends on the nearest cent alone -/
theorem Amount.toText_eq (a : Amount) : a.toText = centsText a.format (nearestCent a.value.toRat) := by
  rw [toText, toChars, centsText, centsChars, rounded, Decimal.rounded_cents]
  simp only [Decimal.rounded_negative]

/-! ## The number a text stands for -/

/-- the number that digits, with commas among them, a point and more digits stand for -/
def unsigned? (cs : List Char) : Option ℚ :=
  let whole := (cs.takeWhile (· ≠ '.')).filter (· ≠ ',')
  match cs.dropWhile (· ≠ '.') with
  | '.' :: places =>
    if whole ≠ [] ∧ whole.all isDigit ∧ places.all isDigit then
      some ((value (whole ++ places) : ℚ) / 10 ^ places.length)
    else none
  | _ => none

/-- the number that a text of money stands for: an optional minus sign, an optional symbol, digits -/
def number? (s : String) : Option ℚ :=
  let (negative, unsigned) := Amount.splitSign s.toList
  (unsigned? (Amount.splitSymbol unsigned).2).map fun q => if negative then -q else q

/-- a mark that is not in the text is told apart from everything in it -/
theorem decide_ne_of_notMem {mark : Char} {cs : List Char} (h : mark ∉ cs) : ∀ c ∈ cs, decide (c ≠ mark) = true :=
  fun _ hc => decide_eq_true fun heq => h (heq ▸ hc)

/-- the whole digits start with a digit, hold nothing but digits and commas, and are the digits once these are gone -/
theorem wholeChars_spec (f : AmountFormat) (n : ℕ) :
    (∃ c r, Amount.wholeChars f n = c :: r ∧ isDigit c = true) ∧
    (∀ c ∈ Amount.wholeChars f n, c ≠ '.') ∧
    (Amount.wholeChars f n).filter (· ≠ ',') = digits (n / 100) := by
  have hdigit : ∀ c ∈ digits (n / 100), isDigit c = true := fun c hc => isDigit_of_mem_digits hc
  obtain ⟨c, r, hcr⟩ := List.exists_cons_of_ne_nil (digits_ne_nil (n / 100))
  rw [Amount.wholeChars]
  split_ifs
  · refine ⟨?_, fun c hc => ?_, filter_grouped hdigit⟩
    · obtain ⟨r', hr'⟩ := List.head?_eq_some_iff.1 ((head?_grouped (digits (n / 100))).trans (by rw [hcr]; rfl))
      exact ⟨c, r', hr', hdigit c (hcr ▸ List.mem_cons_self)⟩
    · rcases mem_grouped hc with hc | rfl
      · exact ne_of_isDigit (hdigit c hc) rfl
      · decide
  · refine ⟨⟨c, r, hcr, hdigit c (hcr ▸ List.mem_cons_self)⟩, fun c hc => ne_of_isDigit (hdigit c hc) rfl, ?_⟩
    exact List.filter_eq_self.2 fun c hc => by simpa using ne_of_isDigit (hdigit c hc) rfl

theorem unsigned?_wholeChars (f : AmountFormat) (n : ℕ) :
    unsigned? (Amount.wholeChars f n ++ '.' :: fixedDigits 2 n) = some ((n : ℚ) / 100) := by
  obtain ⟨-, hpoint, hfilter⟩ := wholeChars_spec f n
  have hp : ∀ c ∈ Amount.wholeChars f n, decide (c ≠ '.') = true := fun c hc => by simpa using hpoint c hc
  have htake : (Amount.wholeChars f n ++ '.' :: fixedDigits 2 n).takeWhile (· ≠ '.') = Amount.wholeChars f n := by
    rw [List.takeWhile_append_of_pos hp]
    simp
  have hdrop : (Amount.wholeChars f n ++ '.' :: fixedDigits 2 n).dropWhile (· ≠ '.') = '.' :: fixedDigits 2 n := by
    rw [List.dropWhile_append_of_pos hp]
    simp
  have hall : digits (n / 100) ≠ [] ∧ (digits (n / 100)).all isDigit ∧ (fixedDigits 2 n).all isDigit :=
    ⟨digits_ne_nil _, List.all_eq_true.2 fun c hc => isDigit_of_mem_digits hc,
      List.all_eq_true.2 fun c hc => isDigit_of_mem_fixedDigits hc⟩
  have hvalue : value (digits (n / 100) ++ fixedDigits 2 n) = n := by
    rw [value_append, value_digits, length_fixedDigits, value_fixedDigits]
    simp only [pow10_eq]
    omega
  simp only [unsigned?, htake, hdrop, hfilter]
  rw [if_pos hall, hvalue, length_fixedDigits]
  norm_num

theorem of_mem_symbol {s : Option Currency} {x : Char} (h : x ∈ (s.map Currency.symbol).toList) :
    x = '$' ∨ x = '€' := by
  rw [Option.mem_toList, Option.map_eq_some_iff] at h
  obtain ⟨currency, -, rfl⟩ := h
  cases currency with
  | dollar => exact .inl rfl
  | euro => exact .inr rfl

theorem ofSymbol?_of_isDigit {c : Char} (hc : isDigit c = true) : Currency.ofSymbol? c = none := by
  have hd : c ≠ '$' := ne_of_isDigit hc rfl
  have he : c ≠ '€' := ne_of_isDigit hc rfl
  simp [Currency.ofSymbol?, hd, he]

/-- in front of a character that is no symbol, a symbol is read as it is and nothing else is taken for one -/
theorem splitSymbol_symbol (s : Option Currency) {c : Char} (r : List Char) (hc : Currency.ofSymbol? c = none) :
    Amount.splitSymbol ((s.map Currency.symbol).toList ++ c :: r) = (s, c :: r) := by
  cases s with
  | none => simp [Amount.splitSymbol, hc]
  | some s => cases s <;> rfl

theorem splitSign_unsigned (s : Option Currency) {c : Char} (r : List Char) (hc : c ≠ '-') :
    Amount.splitSign ((s.map Currency.symbol).toList ++ c :: r) = (false, (s.map Currency.symbol).toList ++ c :: r) := by
  cases s with
  | none =>
    simp only [Option.map_none, Option.toList_none, List.nil_append]
    rw [Amount.splitSign]
    rintro r' heq
    exact hc (List.cons.inj heq).1
  | some s => cases s <;> rfl

/-- a minus sign in front of the symbol is taken off, and nothing else -/
theorem splitSign_signed (negative : Prop) [Decidable negative] (s : Option Currency) {c : Char} (r : List Char)
    (hc : c ≠ '-') :
    Amount.splitSign ((if negative then ['-'] else []) ++ (s.map Currency.symbol).toList ++ c :: r) =
      (decide negative, (s.map Currency.symbol).toList ++ c :: r) := by
  by_cases h : negative
  · rw [if_pos h, decide_eq_true h]
    rfl
  · rw [if_neg h, decide_eq_false h]
    exact splitSign_unsigned s r hc

/-- sign, symbol and digits of the text are told apart -/
theorem split_centsChars (f : AmountFormat) (c : ℤ) :
    (Amount.splitSign (centsChars f c)).1 = decide (c < 0) ∧
      Amount.splitSymbol (Amount.splitSign (centsChars f c)).2 =
        (f.symbol, Amount.wholeChars f c.natAbs ++ '.' :: fixedDigits 2 c.natAbs) := by
  obtain ⟨⟨d, r, hdr, hd⟩, -⟩ := wholeChars_spec f c.natAbs
  rw [centsChars, hdr, List.cons_append, splitSign_signed _ f.symbol _ (ne_of_isDigit hd rfl)]
  exact ⟨rfl, splitSymbol_symbol f.symbol _ (ofSymbol?_of_isDigit hd)⟩

/-- what is shown for some cents stands for them -/
theorem number?_centsText (f : AmountFormat) (c : ℤ) : number? (centsText f c) = some ((c : ℚ) / 100) := by
  obtain ⟨hsign, hsplit⟩ := split_centsChars f c
  have hcents : ((c.natAbs : ℕ) : ℚ) = |(c : ℚ)| := by rw [Nat.cast_natAbs, Int.cast_abs]
  simp only [number?, centsText, String.toList_ofList, hsign, hsplit, unsigned?_wholeChars, Option.map_some, hcents,
    decide_eq_true_eq]
  split_ifs with hneg
  · rw [abs_of_neg (by exact_mod_cast hneg), neg_div, neg_neg]
  · rw [abs_of_nonneg (by exact_mod_cast not_lt.1 hneg)]

/-- different cents are shown by different texts -/
theorem centsText_inj {f : AmountFormat} {b c : ℤ} : centsText f b = centsText f c ↔ b = c := by
  refine ⟨fun h => ?_, fun h => h ▸ rfl⟩
  have hnumber : (b : ℚ) / 100 = c / 100 := by
    have hsome := congrArg number? h
    rwa [number?_centsText, number?_centsText, Option.some.injEq] at hsome
  rw [div_left_inj' (by norm_num)] at hnumber
  exact_mod_cast hnumber

/-! ## Figures in sinks -/

/-- the sinks in which figures are shown, each rounded to the nearest cent -/
def Figures.sinks (x : Figures) (f : AmountFormat) : Sinks :=
  ⟨centsText f (nearestCent x.debit), centsText f (nearestCent x.credit), centsText f (nearestCent x.total)⟩

theorem Totals.sinks_eq (t : Totals) (f : AmountFormat) : t.sinks f = t.figures.sinks f := by
  simp only [Totals.sinks, Amount.toText_eq, Figures.sinks, Totals.figures]

/-- what comes to the exact sums of amounts that fit one scale is shown as these sums -/
theorem Totals.SumsTo.sinks {t : Totals} {qs : List ℚ} (h : t.SumsTo qs) {s : ℕ} (hs : s ≤ Decimal.maxScale)
    (hfits : Decimal.FitsAt s qs) (f : AmountFormat) : t.sinks f = (Figures.ofAmounts qs).sinks f := by
  rw [Totals.sinks_eq, h.figures (hfits.representable hs)]

/-- each text of the sinks stands for its figure -/
structure Sinks.Display (s : Sinks) (x : Figures) : Prop where
  debit : number? s.debit = some x.debit
  credit : number? s.credit = some x.credit
  total : number? s.total = some x.total

theorem Figures.display_sinks {x : Figures} (hd : Decimal.HasPlaces 2 x.debit) (hc : Decimal.HasPlaces 2 x.credit)
    (ht : Decimal.HasPlaces 2 x.total) (f : AmountFormat) : (x.sinks f).Display x := by
  have hshow : ∀ {q : ℚ}, Decimal.HasPlaces 2 q → number? (centsText f (nearestCent q)) = some q := by
    rintro q ⟨z, hz⟩
    have hcents : q * 100 = z := by rw [← hz]; norm_num
    rw [number?_centsText, nearestCent_of_cents hcents, ← hcents]
    congr 1
    ring
  exact ⟨hshow hd, hshow hc, hshow ht⟩

end LedgerTotals
