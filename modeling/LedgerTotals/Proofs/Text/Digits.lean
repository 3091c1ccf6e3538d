/-
Digits and the numbers they stand for.

- `value_digits`, `value_fixedDigits`: what is written in digits is read back;
- `value_append`: digits that follow others push these up by a power of ten;
- `filter_grouped`: grouping adds commas and nothing else.
-/
import LedgerTotals.Proofs.Round
import LedgerTotals.Text.Digits

namespace LedgerTotals.Digits

/-! ## One digit -/

theorem toNat_digitChar {d : ℕ} (h : d < 10) : (digitChar d).toNat = 48 + d := by
  interval_cases d <;> rfl

theorem isDigit_digitChar {d : ℕ} (h : d < 10) : isDigit (digitChar d) = true := by
  simp only [isDigit, toNat_digitChar h, Bool.and_eq_true, decide_eq_true_eq]
  omega

theorem digitValue_digitChar {d : ℕ} (h : d < 10) : digitValue (digitChar d) = d := by
  rw [digitValue, toNat_digitChar h, Nat.add_sub_cancel_left]

/-- a digit is none of the other characters of an amount -/
theorem ne_of_isDigit {c d : Char} (hc : isDigit c = true) (hd : isDigit d = false) : c ≠ d := by
  rintro rfl
  rw [hc] at hd
  cases hd

/-! ## Runs of digits -/

theorem digits_eq (n : ℕ) :
    digits n = if n < 10 then [digitChar n] else digits (n / 10) ++ [digitChar (n % 10)] := by
  rw [digits]

theorem digits_ne_nil (n : ℕ) : digits n ≠ [] := by
  rw [digits_eq]
  split_ifs <;> simp

theorem isDigit_of_mem_digits {n : ℕ} {c : Char} (hc : c ∈ digits n) : isDigit c = true := by
  induction n using Nat.strong_induction_on with
  | _ n ih =>
    rw [digits_eq] at hc
    split_ifs at hc with h
    · rw [List.mem_singleton.1 hc]
      exact isDigit_digitChar h
    · rcases List.mem_append.1 hc with hc | hc
      · exact ih (n / 10) (by omega) hc
      · rw [List.mem_singleton.1 hc]
        exact isDigit_digitChar (Nat.mod_lt n (by decide))

theorem isDigit_of_mem_fixedDigits {k n : ℕ} {c : Char} (hc : c ∈ fixedDigits k n) : isDigit c = true := by
  induction k generalizing n with
  | zero => simp [fixedDigits] at hc
  | succ k ih =>
    rcases List.mem_append.1 hc with hc | hc
    · exact ih hc
    · rw [List.mem_singleton.1 hc]
      exact isDigit_digitChar (Nat.mod_lt n (by decide))

theorem value_digits (n : ℕ) : value (digits n) = n := by
  induction n using Nat.strong_induction_on with
  | _ n ih =>
    rw [digits_eq]
    split_ifs with h
    · simp [value, digitValue_digitChar h]
    · rw [value_append_one, ih (n / 10) (by omega), digitValue_digitChar (Nat.mod_lt n (by decide))]
      omega

theorem value_append (ds es : List Char) : value (ds ++ es) = value ds * pow10 es.length + value es := by
  induction es using List.reverseRecOn with
  | nil => simp [value, pow10]
  | append_singleton es c ih =>
    rw [← List.append_assoc, value_append_one, value_append_one, ih, List.length_append, List.length_singleton,
      pow10_add]
    simp only [pow10, Nat.pow_eq, pow_one]
    ring

theorem value_fixedDigits (k n : ℕ) : value (fixedDigits k n) = n % pow10 k := by
  induction k generalizing n with
  | zero => simp [fixedDigits, value, pow10, Nat.mod_one]
  | succ k ih =>
    rw [fixedDigits, value_append_one, ih, digitValue_digitChar (Nat.mod_lt n (by decide)), Nat.add_comm k 1, pow10_add,
      Nat.mod_mul]
    simp only [pow10, Nat.pow_eq, pow_one]
    omega

/-! ## Groups -/

theorem filter_grouped {ds : List Char} (h : ∀ c ∈ ds, isDigit c = true) : (grouped ds).filter (· ≠ ',') = ds := by
  induction ds with
  | nil => rfl
  | cons c r ih =>
    have hne : c ≠ ',' := ne_of_isDigit (h c List.mem_cons_self) rfl
    have htail := ih fun d hd => h d (List.mem_cons_of_mem _ hd)
    rw [grouped]
    split_ifs
    · simpa [hne] using htail
    · simpa [hne] using htail

theorem mem_grouped {ds : List Char} {c : Char} (h : c ∈ grouped ds) : c ∈ ds ∨ c = ',' := by
  induction ds with
  | nil => simp [grouped] at h
  | cons d r ih =>
    rw [grouped] at h
    split_ifs at h
    · rcases List.mem_cons.1 h with rfl | h
      · exact .inl List.mem_cons_self
      · rcases List.mem_cons.1 h with rfl | h
        · exact .inr rfl
        · exact (ih h).imp_left (List.mem_cons_of_mem _)
    · rcases List.mem_cons.1 h with rfl | h
      · exact .inl List.mem_cons_self
      · exact (ih h).imp_left (List.mem_cons_of_mem _)

theorem head?_grouped (ds : List Char) : (grouped ds).head? = ds.head? := by
  cases ds with
  | nil => rfl
  | cons c r =>
    rw [grouped]
    split_ifs <;> rfl

end LedgerTotals.Digits
