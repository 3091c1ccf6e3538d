/-
Digits that a decimal has room for are read exactly.

A run of digits moves the number read so far up by its length and adds its own value, as long as the result stays
below 96 bits and within 28 places. Nothing is rounded on the way, since a number never exceeds the one it is the front
of (`Digits.value_le_append`).

- `ofChars_digits`, `ofChars_point`: digits without and with a point;
- `ofChars_toChars_abs`: the text of an unsigned decimal is read back with its scale.
-/
import LedgerTotals.Proofs.Text.Digits
import LedgerTotals.Decimal.Text

namespace LedgerTotals

open Digits

theorem Digits.value_le_append (ds es : List Char) : value ds ≤ value (ds ++ es) := by
  have hpos : 1 ≤ pow10 es.length := by
    rw [pow10_eq]
    exact Nat.one_le_pow _ _ (by decide)
  calc value ds ≤ value ds * pow10 es.length := Nat.le_mul_of_pos_right _ hpos
    _ ≤ value ds * pow10 es.length + value es := Nat.le_add_right ..
    _ = value (ds ++ es) := (value_append ds es).symm

namespace Decimal

/-! ## Runs of digits -/

/-- the number with one digit more still fits, if that with all the digits does -/
theorem next_lt_capacity {es : List Char} {c : Char} {ds : List Char} (hlt : value (es ++ c :: ds) < capacity) :
    10 * value es + digitValue c < capacity := by
  have hle := value_le_append (es ++ [c]) ds
  rw [List.append_assoc, List.singleton_append, value_append_one] at hle
  exact hle.trans_lt hlt

/-- up to the point a run of digits is added to the number that the digits `es` came to -/
theorem readWhole_digits (negative : Bool) (es : List Char) {ds : List Char} (hds : ∀ c ∈ ds, isDigit c = true)
    (hlt : value (es ++ ds) < capacity) (hes : value es < capacity) (seen : Bool) (rest : List Char) :
    readWhole negative (value es) hes seen (ds ++ rest) =
      readWhole negative (value (es ++ ds)) hlt (seen || !ds.isEmpty) rest := by
  induction ds generalizing es seen with
  | nil => simp
  | cons c ds ih =>
    have hnext := next_lt_capacity hlt
    have happend : (es ++ [c]) ++ ds = es ++ c :: ds := by simp
    have hrest := ih (es ++ [c]) (fun d hd => hds d (List.mem_cons_of_mem _ hd)) (by rwa [happend])
      (by rwa [value_append_one]) true
    simp only [value_append_one, happend] at hrest
    rw [List.cons_append, readWhole, if_pos (hds c List.mem_cons_self), dif_pos hnext, hrest]
    simp

/-- a run of digits ends the number, if there is room for all of them as places -/
theorem readFraction_digits (negative : Bool) (es : List Char) {ds : List Char} (hds : ∀ c ∈ ds, isDigit c = true)
    (hlt : value (es ++ ds) < capacity) (hes : value es < capacity) {k : ℕ} (hk : k ≤ maxScale)
    (hplaces : k + ds.length ≤ maxScale) {seen : Bool} (hseen : seen = true ∨ ds ≠ []) :
    readFraction negative (value es) k hes hk seen ds =
      .ok (signed negative (value (es ++ ds)) (k + ds.length) hlt hplaces) := by
  induction ds generalizing es k seen with
  | nil =>
    obtain rfl : seen = true := by simpa using hseen
    simp [readFraction]
  | cons c ds ih =>
    have hnext := next_lt_capacity hlt
    have happend : (es ++ [c]) ++ ds = es ++ c :: ds := by simp
    have hlength : k + 1 + ds.length = k + (c :: ds).length := by
      rw [List.length_cons]
      omega
    have hfits : 10 * value es + digitValue c < capacity ∧ k + 1 ≤ maxScale := ⟨hnext, by omega⟩
    rw [readFraction, if_pos (hds c List.mem_cons_self), dif_pos hfits]
    by_cases hlast : k + 1 = maxScale
    · -- this is the last place there is, so it is the last digit
      obtain rfl : ds = [] := List.length_eq_zero_iff.1 (by omega)
      simp only [if_pos hlast, List.dropWhile_nil, ite_self, value_append_one, List.length_singleton]
    · have hrest := ih (es ++ [c]) (fun d hd => hds d (List.mem_cons_of_mem _ hd)) (by rwa [happend])
        (by rwa [value_append_one]) hfits.2 (by omega) (.inl rfl)
      simp only [value_append_one, happend, hlength] at hrest
      rw [if_neg hlast, hrest]

/-! ## Numbers -/

/-- a text that does not start with a sign is read from its front -/
theorem ofPlain_of_unsigned {c : Char} {cs : List Char} (hminus : c ≠ '-') (hplus : c ≠ '+') :
    ofPlain (c :: cs) = readWhole false 0 capacity_pos false (c :: cs) := by
  rw [ofPlain]
  · exact List.cons_ne_nil c cs
  · rintro r heq
    exact hminus (List.cons.inj heq).1
  · rintro r heq
    exact hplus (List.cons.inj heq).1

theorem ofChars_of_ofPlain {cs : List Char} {d : Decimal} (h : ofPlain cs = .ok d) : ofChars cs = .ok d := by
  rw [ofChars, h]

/-- digits below 96 bits are read as they are -/
theorem ofChars_digits {ds : List Char} (hne : ds ≠ []) (hds : ∀ c ∈ ds, isDigit c = true)
    (hlt : value ds < capacity) : ofChars ds = .ok ⟨false, value ds, 0, hlt, Nat.zero_le _⟩ := by
  apply ofChars_of_ofPlain
  obtain ⟨c, r, rfl⟩ := List.exists_cons_of_ne_nil hne
  have hc := hds c List.mem_cons_self
  have hread := readWhole_digits false [] hds hlt capacity_pos false []
  rw [List.append_nil] at hread
  rw [ofPlain_of_unsigned (ne_of_isDigit hc rfl) (ne_of_isDigit hc rfl)]
  exact hread.trans (by simp [readWhole, signed])

/-- digits around a point are read as they are, with as many places as there are digits behind the point -/
theorem ofChars_point {ds es : List Char} (hne : ds ++ es ≠ []) (hds : ∀ c ∈ ds, isDigit c = true)
    (hes : ∀ c ∈ es, isDigit c = true) (hlt : value (ds ++ es) < capacity) (hplaces : es.length ≤ maxScale) :
    ofChars (ds ++ '.' :: es) = .ok ⟨false, value (ds ++ es), es.length, hlt, hplaces⟩ := by
  apply ofChars_of_ofPlain
  have hwhole : value ds < capacity := (value_le_append ds es).trans_lt hlt
  have hseen : (false || !ds.isEmpty) = true ∨ es ≠ [] := by
    cases ds with
    | nil => exact .inr hne
    | cons c r => exact .inl rfl
  have hplain : ofPlain (ds ++ '.' :: es) = readWhole false 0 capacity_pos false (ds ++ '.' :: es) := by
    cases ds with
    | nil => exact ofPlain_of_unsigned (by decide) (by decide)
    | cons c r =>
      have hc := hds c List.mem_cons_self
      exact ofPlain_of_unsigned (ne_of_isDigit hc rfl) (ne_of_isDigit hc rfl)
  have hread := readWhole_digits false [] hds hwhole capacity_pos false ('.' :: es)
  have hpoint : readWhole false (value ds) hwhole (false || !ds.isEmpty) ('.' :: es) =
      readFraction false (value ds) 0 hwhole (Nat.zero_le _) (false || !ds.isEmpty) es := by
    rw [readWhole]
    rfl
  have hfraction := readFraction_digits false ds hes hlt hwhole (Nat.zero_le _) (by omega) hseen
  rw [hplain]
  refine (hread.trans hpoint).trans (hfraction.trans ?_)
  simp [signed]

/-! ## Texts of decimals -/

/-- the sign stands in front of the text without a sign -/
theorem toChars_eq (d : Decimal) : d.toChars = (if d.negative then ['-'] else []) ++ d.abs.toChars := rfl

/-- the text without a sign holds nothing but digits and a point -/
theorem of_mem_toChars_abs {d : Decimal} {c : Char} (hc : c ∈ d.abs.toChars) : isDigit c = true ∨ c = '.' := by
  have hsign : d.abs.negative = false := rfl
  simp only [toChars, hsign, Bool.false_eq_true, if_false, List.nil_append] at hc
  split_ifs at hc
  · exact .inl (isDigit_of_mem_digits hc)
  · rcases List.mem_append.1 hc with hc | hc
    · exact .inl (isDigit_of_mem_digits hc)
    · rcases List.mem_cons.1 hc with rfl | hc
      · exact .inr rfl
      · exact .inl (isDigit_of_mem_fixedDigits hc)

/-- **A decimal without a sign is read back from its text**, with its mantissa and its scale -/
theorem ofChars_toChars_abs (d : Decimal) : ofChars d.abs.toChars = .ok d.abs := by
  obtain ⟨negative, m, s, hm, hs⟩ := d
  show ofChars (toChars ⟨false, m, s, hm, hs⟩) = .ok ⟨false, m, s, hm, hs⟩
  simp only [toChars, Bool.false_eq_true, if_false, List.nil_append]
  have hdigits : ∀ n, ∀ c ∈ digits n, isDigit c = true := fun n c hc => isDigit_of_mem_digits hc
  split_ifs with hscale
  · subst hscale
    rw [ofChars_digits (digits_ne_nil m) (hdigits m) (by rwa [value_digits])]
    simp only [value_digits]
  · have hvalue : value (digits (m / pow10 s) ++ fixedDigits s m) = m := by
      rw [value_append, value_digits, value_fixedDigits, length_fixedDigits]
      exact Nat.div_add_mod' m (pow10 s)
    rw [ofChars_point (by simp [digits_ne_nil]) (hdigits _) (fun c hc => isDigit_of_mem_fixedDigits hc)
      (by rwa [hvalue]) (by rwa [length_fixedDigits])]
    simp only [hvalue, length_fixedDigits]

end Decimal

end LedgerTotals
