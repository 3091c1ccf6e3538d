/-
Powers of ten and rounded quotients, as numbers.

A quotient rounded to the even neighbour is `nearestEven` of the quotient as a rational, which never reverses an order
(`nearestEven_mono`) and is never off by more than a half (`abs_nearestEven_sub_le`).
-/
import Mathlib.Tactic
import Mathlib.Data.Rat.Floor
import LedgerTotals.Round

namespace LedgerTotals

theorem pow10_eq (k : ℕ) : pow10 k = 10 ^ k := rfl

theorem cast_pow10 (k : ℕ) : ((pow10 k : ℕ) : ℚ) = 10 ^ k := by
  simp [pow10]

theorem pow10_pos (k : ℕ) : 0 < pow10 k := Nat.pow_pos (by decide)

theorem pow10_add (j k : ℕ) : pow10 (j + k) = pow10 j * pow10 k := Nat.pow_add 10 j k

theorem roundHalfEven_mul (m : ℕ) {d : ℕ} (hd : 0 < d) : roundHalfEven (m * d) d = m := by
  simp [roundHalfEven, Nat.mul_mod_left, Nat.mul_div_cancel _ hd, hd]

/-- a half is rounded upwards -/
theorem roundHalfUp_eq_floor (n : ℕ) {d : ℕ} (hd : 0 < d) : (roundHalfUp n d : ℤ) = ⌊(n : ℚ) / d + 1 / 2⌋ := by
  have hne : (d : ℚ) ≠ 0 := by exact_mod_cast hd.ne'
  have hquot : (n : ℚ) / d + 1 / 2 = ((2 * n + d : ℕ) : ℤ) / ((2 * d : ℕ) : ℚ) := by
    push_cast
    field_simp
  rw [hquot, Rat.floor_intCast_div_natCast, roundHalfUp]
  exact_mod_cast rfl

/-! ## Halves to the even neighbour -/

/-- the whole number nearest to `q`, a half to the even neighbour -/
def nearestEven (q : ℚ) : ℤ :=
  if Int.fract q < 1 / 2 ∨ (Int.fract q = 1 / 2 ∧ ⌊q⌋ % 2 = 0) then ⌊q⌋ else ⌊q⌋ + 1

theorem roundHalfEven_eq_nearestEven (n : ℕ) {d : ℕ} (hd : 0 < d) :
    (roundHalfEven n d : ℤ) = nearestEven ((n : ℚ) / d) := by
  have hdq : (0 : ℚ) < d := by exact_mod_cast hd
  have hfloor : ⌊(n : ℚ) / d⌋ = ((n / d : ℕ) : ℤ) := by
    have := Rat.floor_intCast_div_natCast (n : ℤ) d
    rwa [Int.cast_natCast, ← Int.natCast_div] at this
  have hsplit : (n : ℚ) = d * (n / d : ℕ) + (n % d : ℕ) := by exact_mod_cast (Nat.div_add_mod n d).symm
  have hfract : Int.fract ((n : ℚ) / d) = (n % d : ℕ) / d := by
    rw [Int.fract, hfloor, eq_div_iff hdq.ne', sub_mul, div_mul_cancel₀ _ hdq.ne', Int.cast_natCast]
    linarith
  have hlt : ((n % d : ℕ) : ℚ) / d < 1 / 2 ↔ 2 * (n % d) < d := by
    rw [div_lt_div_iff₀ hdq two_pos, one_mul, mul_comm]
    exact_mod_cast Iff.rfl
  have heq : ((n % d : ℕ) : ℚ) / d = 1 / 2 ↔ 2 * (n % d) = d := by
    rw [div_eq_div_iff hdq.ne' two_ne_zero, one_mul, mul_comm]
    exact_mod_cast Iff.rfl
  have heven : ((n / d : ℕ) : ℤ) % 2 = 0 ↔ n / d % 2 = 0 := by omega
  simp only [roundHalfEven, nearestEven, hfract, hfloor, hlt, heq, heven]
  split_ifs <;> simp

theorem nearestEven_mono : Monotone nearestEven := by
  intro p q hpq
  rcases (Int.floor_mono hpq).eq_or_lt with hfloor | hfloor
  · -- between the same whole numbers, what is rounded down has everything below it rounded down
    have hfract : Int.fract p ≤ Int.fract q := by
      rw [Int.fract, Int.fract, hfloor]
      exact sub_le_sub_right hpq _
    rw [nearestEven, nearestEven, hfloor]
    split_ifs with hp hq hq
    · exact le_rfl
    · omega
    · refine absurd ?_ hp
      rcases hq with hq | ⟨hq, heven⟩
      · exact .inl (hfract.trans_lt hq)
      · rcases hfract.lt_or_eq with hlt | heq
        · exact .inl (hq ▸ hlt)
        · exact .inr ⟨heq.trans hq, heven⟩
    · exact le_rfl
  · rw [nearestEven, nearestEven]
    split_ifs <;> omega

theorem nearestEven_intCast (z : ℤ) : nearestEven z = z := by
  simp [nearestEven]

theorem abs_nearestEven_sub_le (q : ℚ) : |(nearestEven q : ℚ) - q| ≤ 1 / 2 := by
  have hsplit := Int.floor_add_fract q
  have hnonneg := Int.fract_nonneg q
  have hlt := Int.fract_lt_one q
  rw [nearestEven, abs_le]
  split_ifs with h
  · have hdown : Int.fract q ≤ 1 / 2 := h.elim le_of_lt fun h => h.1.le
    constructor <;> linarith
  · have hup : 1 / 2 ≤ Int.fract q := not_lt.1 fun hlt => h (.inl hlt)
    push_cast
    constructor <;> linarith

end LedgerTotals
