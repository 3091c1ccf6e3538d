/-
A string in quotation marks is read back: `readString_quoted`.

Each character takes the reader from the middle of the string to the middle of the string (`readQuoted_escaped`),
whether it stands for itself, has a short escape, or is written in hexadecimal digits.
-/
import Mathlib.Tactic
import LedgerTotals.Json.Quoted

namespace LedgerTotals.Json

theorem hexValue?_hexDigit {d : ℕ} (h : d < 16) : hexValue? (hexDigit d) = some d := by
  interval_cases d <;> rfl

/-- a control character in hexadecimal digits -/
theorem readQuoted_hex {n : ℕ} (h : n < 0x20) (acc r : List Char) :
    readQuoted .plain acc (['\\', 'u', '0', '0', hexDigit (n / 16), hexDigit (n % 16)] ++ r) =
      readQuoted .plain (Char.ofNat n :: acc) r := by
  have hzero : hexValue? '0' = some 0 := rfl
  have hhigh := hexValue?_hexDigit (by omega : n / 16 < 16)
  have hlow := hexValue?_hexDigit (by omega : n % 16 < 16)
  have hvalue : 16 * (n / 16) + n % 16 = n := by omega
  have hlone : ¬ (0xDC00 ≤ n ∧ n ≤ 0xDFFF) := by omega
  have hpair : ¬ (0xD800 ≤ n ∧ n ≤ 0xDBFF) := by omega
  simp [readQuoted, hzero, hhigh, hlow, hvalue, hlone, hpair]

/-- a character as it stands between quotation marks is read as that character -/
theorem readQuoted_escaped (acc : List Char) (c : Char) (r : List Char) :
    readQuoted .plain acc (escaped c ++ r) = readQuoted .plain (c :: acc) r := by
  have hshort : ∀ n, c.toNat = n → c = Char.ofNat n := fun n h => by rw [← h, Char.ofNat_toNat]
  rw [escaped]
  split_ifs with h₁ h₂ h₃ h₄ h₅ h₆ h₇ h₈
  · subst h₁; rfl
  · subst h₂; rfl
  · obtain rfl := hshort _ h₃; rfl
  · obtain rfl := hshort _ h₄; rfl
  · obtain rfl := hshort _ h₅; rfl
  · obtain rfl := hshort _ h₆; rfl
  · obtain rfl := hshort _ h₇; rfl
  · rw [readQuoted_hex h₈, Char.ofNat_toNat]
  · rw [List.singleton_append, readQuoted, if_neg h₁, if_neg h₂, if_neg h₈]

/-- what follows the opening quotation mark of a string is read as that string -/
theorem readString_escaped (s : String) (r : List Char) :
    readString (s.toList.flatMap escaped ++ '"' :: r) = .ok (s, r) := by
  have hrun : ∀ cs acc : List Char,
      readQuoted .plain acc (cs.flatMap escaped ++ '"' :: r) = .ok (acc.reverse ++ cs, r) := by
    intro cs
    induction cs with
    | nil => simp [readQuoted]
    | cons c cs ih =>
      intro acc
      rw [List.flatMap_cons, List.append_assoc, readQuoted_escaped, ih]
      simp
  rw [readString, hrun]
  simp [Except.map]

end LedgerTotals.Json
