/-
A date is read back from its text: `ofText_toText`, also in the years that are written with a sign.
-/
import Mathlib.Data.List.TakeWhile
import LedgerTotals.Proofs.Text.Digits
import LedgerTotals.Date

namespace LedgerTotals

open Digits

namespace Date

theorem isBlank_of_isDigit {c : Char} (h : isDigit c = true) : Blank.isBlank c = false := by
  simp only [isDigit, Bool.and_eq_true, decide_eq_true_eq] at h
  simp only [Blank.isBlank, Bool.or_eq_false_iff, Bool.and_eq_false_iff, decide_eq_false_iff_not, beq_eq_false_iff_ne]
  omega

/-! ## Numbers -/

/-- digits in front of a text that is not blank, and is the window or goes beyond it -/
theorem readDigits_of_digits {window ds r : List Char} (hne : ds ≠ []) (hwindow : window.takeWhile isDigit = ds) :
    readDigits window (ds ++ r) = .ok (value ds, r) := by
  simp [readDigits, hwindow, hne]

theorem takeWhile_fixedDigits (k n : ℕ) : (fixedDigits k n).takeWhile isDigit = fixedDigits k n :=
  List.takeWhile_eq_self_iff.2 fun _ => isDigit_of_mem_fixedDigits

theorem take_fixedDigits (k n : ℕ) (r : List Char) : (fixedDigits k n ++ r).take k = fixedDigits k n :=
  List.take_left' (length_fixedDigits k n)

/-- digits start with a digit, so nothing is skipped in front of them -/
theorem exists_skipBlanks_fixedDigits (k n : ℕ) (r : List Char) :
    ∃ c s, isDigit c = true ∧ fixedDigits (k + 1) n ++ r = c :: s ∧ skipBlanks (c :: s) = c :: s := by
  obtain ⟨c, ds, hds⟩ := List.exists_cons_of_length_eq_add_one (length_fixedDigits (k + 1) n)
  have hc : isDigit c = true := isDigit_of_mem_fixedDigits (k := k + 1) (n := n) (by simp [hds])
  refine ⟨c, ds ++ r, hc, by rw [hds, List.cons_append], List.dropWhile_cons_of_neg ?_⟩
  simp [isBlank_of_isDigit hc]

theorem readPart_fixedDigits {most n : ℕ} (h : 1 ≤ n) (hmost : n ≤ most) (hn : n < 100) (r : List Char) :
    readPart most (fixedDigits 2 n ++ r) = .ok (n, r) := by
  have hne : fixedDigits 2 n ≠ [] := by simp [fixedDigits]
  have hvalue : value (fixedDigits 2 n) = n := by
    rw [value_fixedDigits]
    exact Nat.mod_eq_of_lt hn
  have hdigits := readDigits_of_digits (r := r) hne (takeWhile_fixedDigits 2 n)
  obtain ⟨c, s, -, hcs, hskip⟩ := exists_skipBlanks_fixedDigits 1 n r
  rw [readPart, hcs, hskip, ← hcs, take_fixedDigits, hdigits, hvalue]
  simp [bind, Except.bind, h, hmost]

theorem readHyphen_cons (r : List Char) : readHyphen ('-' :: r) = .ok r := by
  have hskip : skipBlanks ('-' :: r) = '-' :: r := rfl
  simp [readHyphen, hskip]

/-! ## The year -/

theorem readYear_unsigned {n : ℕ} (hn : n < 10000) (r : List Char) :
    readYear (fixedDigits 4 n ++ r) = .ok ((n : ℤ), r) := by
  have hne : fixedDigits 4 n ≠ [] := by simp [fixedDigits]
  have hvalue : value (fixedDigits 4 n) = n := by
    rw [value_fixedDigits]
    exact Nat.mod_eq_of_lt hn
  have hdigits := readDigits_of_digits (r := r) hne (takeWhile_fixedDigits 4 n)
  obtain ⟨c, s, hc, hcs, hskip⟩ := exists_skipBlanks_fixedDigits 3 n r
  rw [readYear, hcs, hskip]
  split
  · rename_i heq
    exact absurd (List.cons.inj heq).1 (ne_of_isDigit hc rfl)
  · rename_i heq
    exact absurd (List.cons.inj heq).1 (ne_of_isDigit hc rfl)
  · rw [← hcs, take_fixedDigits, hdigits, hvalue]
    rfl

theorem isDigit_of_mem_atLeastFour {n : ℕ} {c : Char} (h : c ∈ atLeastFour n) : isDigit c = true := by
  rw [atLeastFour] at h
  split_ifs at h
  · exact isDigit_of_mem_fixedDigits h
  · exact isDigit_of_mem_digits h

theorem value_atLeastFour (n : ℕ) : value (atLeastFour n) = n := by
  rw [atLeastFour]
  split_ifs with h
  · rw [value_fixedDigits]
    exact Nat.mod_eq_of_lt h
  · exact value_digits n

theorem readDigits_atLeastFour (n : ℕ) (r : List Char) :
    readDigits (atLeastFour n ++ '-' :: r) (atLeastFour n ++ '-' :: r) = .ok (n, '-' :: r) := by
  have hne : atLeastFour n ≠ [] := by
    rw [atLeastFour]
    split_ifs
    · simp [fixedDigits]
    · exact digits_ne_nil n
  have hwindow : (atLeastFour n ++ '-' :: r).takeWhile isDigit = atLeastFour n := by
    rw [List.takeWhile_append_of_pos fun _ => isDigit_of_mem_atLeastFour, List.takeWhile_cons_of_neg (by decide),
      List.append_nil]
  rw [readDigits_of_digits hne hwindow, value_atLeastFour]

theorem readYear_yearChars {year : ℤ} (hfirst : firstYear ≤ year) (hlast : year ≤ lastYear) (r : List Char) :
    readYear (yearChars year ++ '-' :: r) = .ok (year, '-' :: r) := by
  simp only [firstYear, lastYear] at hfirst hlast
  have hlimit : year.natAbs < yearLimit := by
    have hyear : year.natAbs < 2147483648 := by omega
    exact hyear
  have hread := readDigits_atLeastFour year.natAbs r
  rw [yearChars]
  split_ifs with hplain hneg
  · rw [readYear_unsigned (by omega)]
    simp [abs_of_nonneg hplain.1]
  · have hskip : skipBlanks ('-' :: (atLeastFour year.natAbs ++ '-' :: r)) = '-' :: (atLeastFour year.natAbs ++ '-' :: r) :=
      rfl
    simp [readYear, hskip, hread, bind, Except.bind, hlimit.le, abs_of_neg hneg]
  · have hskip : skipBlanks ('+' :: (atLeastFour year.natAbs ++ '-' :: r)) = '+' :: (atLeastFour year.natAbs ++ '-' :: r) :=
      rfl
    simp [readYear, hskip, hread, bind, Except.bind, hlimit, abs_of_nonneg (not_lt.1 hneg)]

/-! ## The date -/

theorem daysIn_le (year : ℤ) (month : ℕ) : daysIn year month ≤ 31 := by
  rw [daysIn]
  split_ifs <;> decide

/-- **A date is read back from its text** -/
theorem ofText_toText (d : Date) : ofText d.toText = .ok d := by
  obtain ⟨year, month, day, hvalid⟩ := d
  have hvalid' := hvalid
  simp only [isDay, Bool.and_eq_true, decide_eq_true_eq] at hvalid'
  obtain ⟨⟨⟨⟨⟨hfirst, hlast⟩, hmonth⟩, hmonth'⟩, hday⟩, hday'⟩ := hvalid'
  have hdays := daysIn_le year month
  have hyear := readYear_yearChars hfirst hlast (fixedDigits 2 month ++ '-' :: fixedDigits 2 day)
  have hmonths := readPart_fixedDigits hmonth hmonth' (by omega) ('-' :: fixedDigits 2 day)
  have hend := readPart_fixedDigits hday (hday'.trans hdays) (by omega) []
  rw [List.append_nil] at hend
  have hblank : skipBlanks [] = [] := rfl
  simp [ofText, toText, toChars, ofChars, hyear, readHyphen_cons, hmonths, hend, hblank, hvalid, bind, Except.bind]

end Date

end LedgerTotals
