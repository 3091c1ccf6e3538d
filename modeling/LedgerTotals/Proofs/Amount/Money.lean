/-
Texts of money that are read exactly.

White space at the ends, a minus sign, a symbol, and a body of digits with commas in any places and at most one point:
such a text says a whole number, formed by all of its digits, moved down by as many places as there are digits behind
the point. If that number is below 96 bits and there are at most 28 places, it is read without rounding, with the sign
that is written. The sign of a zero is kept, and so are leading and trailing zeros, as places.

- `ofText_of_body`: any such text is read as the number in its body;
- `ofText_money`: within these bounds it is read exactly.
-/
import LedgerTotals.Proofs.Amount.Shown
import LedgerTotals.Proofs.Amount.Signs
import LedgerTotals.Proofs.Date
import LedgerTotals.Proofs.Decimal.Reading

namespace LedgerTotals

open Digits

/-! ## White space -/

namespace Blank

theorem trim_of_notMem {cs : List Char} (h : ∀ c ∈ cs, isBlank c = false) : trim cs = cs := by
  have hdrop : ∀ ds : List Char, (∀ c ∈ ds, isBlank c = false) → ds.dropWhile isBlank = ds := by
    intro ds hds
    cases ds with
    | nil => rfl
    | cons c r => exact List.dropWhile_cons_of_neg (by simp [hds c List.mem_cons_self])
  rw [trim, hdrop cs h, hdrop _ fun c hc => h c (List.mem_reverse.1 hc), List.reverse_reverse]

theorem trim_append_left {before : List Char} (h : ∀ c ∈ before, isBlank c = true) (cs : List Char) :
    trim (before ++ cs) = trim cs := by
  rw [trim, List.dropWhile_append_of_pos h, trim]

theorem trim_append_right {after : List Char} (h : ∀ c ∈ after, isBlank c = true) (cs : List Char) :
    trim (cs ++ after) = trim cs := by
  have hreverse : ∀ c ∈ after.reverse, isBlank c = true := fun c hc => h c (List.mem_reverse.1 hc)
  rw [trim, trim, List.dropWhile_append]
  split_ifs with hblank
  · -- nothing but blanks stands in front of these either
    rw [List.dropWhile_eq_nil_iff.2 h, List.isEmpty_iff.1 hblank]
  · rw [List.reverse_append, List.dropWhile_append_of_pos hreverse]

end Blank

/-! ## Bodies -/

/-- digits, commas in any places and at most one point, with one digit at least -/
structure MoneyBody (cs : List Char) : Prop where
  chars : ∀ c ∈ cs, isDigit c = true ∨ c = ',' ∨ c = '.'
  point : cs.count '.' ≤ 1
  digit : ∃ c ∈ cs, isDigit c = true

theorem moneyBody_iff {cs : List Char} : MoneyBody cs ↔
    cs.all (fun c => isDigit c || c == ',' || c == '.') = true ∧ cs.count '.' ≤ 1 ∧ cs.any isDigit = true := by
  simp only [List.all_eq_true, List.any_eq_true, Bool.or_eq_true, beq_iff_eq, or_assoc]
  exact ⟨fun h => ⟨h.chars, h.point, h.digit⟩, fun ⟨hchars, hpoint, hdigit⟩ => ⟨hchars, hpoint, hdigit⟩⟩

instance (cs : List Char) : Decidable (MoneyBody cs) := decidable_of_iff _ moneyBody_iff.symm

/-- the number of digits behind the point -/
def placesOf (cs : List Char) : ℕ := ((cs.dropWhile (· ≠ '.')).filter isDigit).length

/-- where there is no point, what is left without the commas is the digits -/
theorem filter_comma_of_noPoint {cs : List Char} (h : ∀ c ∈ cs, isDigit c = true ∨ c = ',' ∨ c = '.')
    (hpoint : '.' ∉ cs) : cs.filter (· ≠ ',') = cs.filter isDigit := by
  refine List.filter_congr fun c hc => ?_
  rcases h c hc with hdigit | rfl | rfl
  · have hcomma : c ≠ ',' := ne_of_isDigit hdigit rfl
    simp [hdigit, hcomma]
  · rfl
  · exact absurd hc hpoint

theorem isDigit_of_mem_filter {cs : List Char} {c : Char} (hc : c ∈ cs.filter isDigit) : isDigit c = true :=
  (List.mem_filter.1 hc).2

namespace MoneyBody

variable {cs : List Char}

theorem filter_ne_nil (h : MoneyBody cs) : cs.filter isDigit ≠ [] := by
  obtain ⟨c, hc, hdigit⟩ := h.digit
  exact List.ne_nil_of_mem (List.mem_filter.2 ⟨hc, hdigit⟩)

theorem of_digits {ds : List Char} (hne : ds ≠ []) (hds : ∀ c ∈ ds, isDigit c = true) : MoneyBody ds := by
  have hpoint : '.' ∉ ds := fun h => absurd (hds '.' h) (by decide)
  obtain ⟨c, hc⟩ := List.exists_mem_of_ne_nil ds hne
  exact ⟨fun c hc => .inl (hds c hc), (List.count_eq_zero.2 hpoint).trans_le (Nat.zero_le 1), c, hc, hds c hc⟩

/-- whole digits, with commas or without, a point and more digits -/
theorem of_point {ws ps : List Char} (hws : ∀ c ∈ ws, isDigit c = true ∨ c = ',') (hdigit : ∃ c ∈ ws, isDigit c = true)
    (hps : ∀ c ∈ ps, isDigit c = true) : MoneyBody (ws ++ '.' :: ps) := by
  have hfront : '.' ∉ ws := fun h => absurd (hws '.' h) (by decide)
  have hback : '.' ∉ ps := fun h => absurd (hps '.' h) (by decide)
  obtain ⟨d, hd, hdigit⟩ := hdigit
  refine ⟨fun c hc => ?_, ?_, d, List.mem_append_left _ hd, hdigit⟩
  · rcases List.mem_append.1 hc with hc | hc
    · exact (hws c hc).imp_right .inl
    · rcases List.mem_cons.1 hc with rfl | hc
      · exact .inr (.inr rfl)
      · exact .inl (hps c hc)
  · rw [List.count_append, List.count_cons_self, List.count_eq_zero.2 hfront, List.count_eq_zero.2 hback]

/-- what stands around the point, if there is one, has no point of its own -/
theorem split_point (h : MoneyBody cs) (hpoint : '.' ∈ cs) :
    ∃ ws ps, cs = ws ++ '.' :: ps ∧ '.' ∉ ws ∧ '.' ∉ ps := by
  obtain ⟨ws, ps, rfl, hws⟩ := List.eq_append_cons_of_mem hpoint
  refine ⟨ws, ps, rfl, hws, ?_⟩
  have hcount := h.point
  rw [List.count_append, List.count_cons_self] at hcount
  exact List.count_eq_zero.1 (by omega)

/-- without the commas the body is a decimal, which has all its digits and the places behind the point -/
theorem ofChars_filter (h : MoneyBody cs) (hlt : value (cs.filter isDigit) < Decimal.capacity)
    (hplaces : placesOf cs ≤ Decimal.maxScale) :
    Decimal.ofChars (cs.filter (· ≠ ',')) = .ok ⟨false, value (cs.filter isDigit), placesOf cs, hlt, hplaces⟩ := by
  by_cases hpoint : '.' ∈ cs
  · obtain ⟨ws, ps, rfl, hws, hps⟩ := h.split_point hpoint
    have hdrop : (ws ++ '.' :: ps).dropWhile (· ≠ '.') = '.' :: ps := by
      rw [List.dropWhile_append_of_pos (decide_ne_of_notMem hws)]
      exact List.dropWhile_cons_of_neg (by decide)
    have hlength : placesOf (ws ++ '.' :: ps) = (ps.filter isDigit).length := by
      rw [placesOf, hdrop]
      rfl
    have hdigits : (ws ++ '.' :: ps).filter isDigit = ws.filter isDigit ++ ps.filter isDigit := List.filter_append ..
    have hnumber : (ws ++ '.' :: ps).filter (· ≠ ',') = ws.filter isDigit ++ '.' :: ps.filter isDigit := by
      rw [List.filter_append, List.filter_cons_of_pos (by decide),
        filter_comma_of_noPoint (fun c hc => h.chars c (List.mem_append_left _ hc)) hws,
        filter_comma_of_noPoint (fun c hc => h.chars c (List.mem_append_right _ (List.mem_cons_of_mem _ hc))) hps]
    have hne := h.filter_ne_nil
    simp only [hdigits, hlength] at hlt hplaces hne ⊢
    rw [hnumber]
    exact Decimal.ofChars_point hne (fun c => isDigit_of_mem_filter) (fun c => isDigit_of_mem_filter) hlt hplaces
  · have hnone : placesOf cs = 0 := by
      rw [placesOf, List.dropWhile_eq_nil_iff.2 (decide_ne_of_notMem hpoint)]
      rfl
    simp only [hnone]
    rw [filter_comma_of_noPoint h.chars hpoint]
    exact Decimal.ofChars_digits h.filter_ne_nil (fun c => isDigit_of_mem_filter) hlt

/-- a body starts with no sign and no symbol -/
theorem exists_cons (h : MoneyBody cs) : ∃ c r, cs = c :: r ∧ c ≠ '-' ∧ c ≠ '+' ∧ Currency.ofSymbol? c = none := by
  obtain ⟨d, hd, -⟩ := h.digit
  obtain ⟨c, r, rfl⟩ := List.exists_cons_of_ne_nil (List.ne_nil_of_mem hd)
  refine ⟨c, r, rfl, ?_⟩
  rcases h.chars c List.mem_cons_self with hdigit | rfl | rfl
  · exact ⟨ne_of_isDigit hdigit rfl, ne_of_isDigit hdigit rfl, ofSymbol?_of_isDigit hdigit⟩
  · decide
  · decide

end MoneyBody

/-! ## Texts -/

/-- the parts of a well-formed text of money -/
structure MoneyText where
  before : List Char
  negative : Bool
  symbol : Option Currency
  body : List Char
  after : List Char
  blank_before : ∀ c ∈ before, Blank.isBlank c = true
  blank_after : ∀ c ∈ after, Blank.isBlank c = true
  body_ok : MoneyBody body

namespace MoneyText

/-- the text between the white space at its ends -/
def core (t : MoneyText) : List Char :=
  (if t.negative then ['-'] else []) ++ (t.symbol.map Currency.symbol).toList ++ t.body

def text (t : MoneyText) : String := String.ofList (t.before ++ t.core ++ t.after)

/-- a text without white space at its ends -/
def trimmed (negative : Bool) (symbol : Option Currency) (body : List Char) (h : MoneyBody body) : MoneyText :=
  ⟨[], negative, symbol, body, [], nofun, nofun, h⟩

theorem text_trimmed (negative : Bool) (symbol : Option Currency) {body : List Char} (h : MoneyBody body) :
    (trimmed negative symbol body h).text =
      String.ofList ((if negative then ['-'] else []) ++ (symbol.map Currency.symbol).toList ++ body) :=
  congrArg String.ofList (List.append_nil _)

/-- the whole number that all the digits form -/
def units (t : MoneyText) : ℕ := value (t.body.filter isDigit)

/-- the number of digits behind the point -/
def places (t : MoneyText) : ℕ := placesOf t.body

theorem isBlank_of_mem_core {t : MoneyText} {c : Char} (hc : c ∈ t.core) : Blank.isBlank c = false := by
  rcases List.mem_append.1 hc with hc | hc
  · rcases List.mem_append.1 hc with hc | hc
    · split_ifs at hc
      · rw [List.mem_singleton.1 hc]
        rfl
      · cases hc
    · rcases of_mem_symbol hc with rfl | rfl
      · rfl
      · rfl
  · rcases t.body_ok.chars c hc with hdigit | rfl | rfl
    · exact Date.isBlank_of_isDigit hdigit
    · rfl
    · rfl

theorem trim_text (t : MoneyText) : Blank.trim t.text.toList = t.core := by
  rw [text, String.toList_ofList, Blank.trim_append_right t.blank_after, Blank.trim_append_left t.blank_before,
    Blank.trim_of_notMem fun _ => isBlank_of_mem_core]

/-- sign, symbol and body are told apart, and the body has no sign of its own -/
theorem split_core (t : MoneyText) :
    (Amount.splitSign t.core).1 = t.negative ∧
      Amount.splitSymbol (Amount.splitSign t.core).2 = (t.symbol, t.body) ∧ Amount.startsWithSign t.body = false := by
  obtain ⟨c, r, hcr, hminus, hplus, hsymbol⟩ := t.body_ok.exists_cons
  rw [core, hcr, splitSign_signed _ t.symbol r hminus]
  refine ⟨?_, splitSymbol_symbol t.symbol r hsymbol, ?_⟩
  · simp
  · simp [Amount.startsWithSign, hminus, hplus]

/-- the text is read as its body is, with the sign, the symbol and the commas that are written -/
theorem ofText_of_body (t : MoneyText) {e : Decimal} (he : Decimal.ofChars (t.body.filter (· ≠ ',')) = .ok e) :
    Amount.ofText t.text = .ok ⟨if t.negative then e.neg else e, ⟨t.symbol, t.body.contains ','⟩⟩ := by
  obtain ⟨hsign, hsymbol, hunsigned⟩ := t.split_core
  have hne : t.core ≠ [] := by
    obtain ⟨c, r, hcr, -⟩ := t.body_ok.exists_cons
    rw [core, hcr]
    simp
  have hnumber : Amount.number t.core = t.body := by rw [Amount.number, hsymbol]
  rw [Amount.ofText, Amount.ofChars, trim_text, Amount.ofTrimmed_eq hne, hnumber, hunsigned, he, hsign, hsymbol]
  rfl

/-- **Well-formed texts of money are read exactly**: all their digits are the mantissa, those behind the point are the
places, and sign, symbol and commas are as they are written, the sign of a zero too -/
theorem ofText_money (t : MoneyText) (hunits : t.units < Decimal.capacity) (hplaces : t.places ≤ Decimal.maxScale) :
    Amount.ofText t.text =
      .ok ⟨⟨t.negative, t.units, t.places, hunits, hplaces⟩, ⟨t.symbol, t.body.contains ','⟩⟩ := by
  rw [t.ofText_of_body (t.body_ok.ofChars_filter hunits hplaces)]
  cases t.negative <;> rfl

theorem blank_spaces : ∀ c ∈ ['\u00a0', ' '], Blank.isBlank c = true := List.all_eq_true.1 rfl

theorem blank_newLine : ∀ c ∈ ['\n'], Blank.isBlank c = true := List.all_eq_true.1 rfl

theorem moneyBody_widest : MoneyBody ",0,07.92,28162514264337593543950335,".toList := by decide +kernel

/-- the largest mantissa with the most places, in a text with commas at both ends of its body -/
def widest : MoneyText where
  before := ['\u00a0', ' ']
  negative := true
  symbol := some .euro
  body := ",0,07.92,28162514264337593543950335,".toList
  after := ['\n']
  blank_before := blank_spaces
  blank_after := blank_newLine
  body_ok := moneyBody_widest

/-- the largest mantissa there is and all 28 places are read as they are -/
theorem ofText_money_widest : ∃ hunits hplaces, Amount.ofText "\u00a0 -€,0,07.92,28162514264337593543950335,\n" =
    .ok ⟨⟨true, 79228162514264337593543950335, 28, hunits, hplaces⟩, ⟨some .euro, true⟩⟩ := by
  have hunits : widest.units < Decimal.capacity := by decide +kernel
  have hplaces : widest.places ≤ Decimal.maxScale := by decide +kernel
  exact ⟨hunits, hplaces, ofText_money widest hunits hplaces⟩

end MoneyText

end LedgerTotals
