/-
Powers of ten, and quotients rounded to the nearest whole number. The two rules differ on halves
only: to the even neighbour, or upwards.
-/
namespace LedgerTotals

def pow10 (k : Nat) : Nat := Nat.pow 10 k

/-- the quotient `n / d` rounded to the nearest whole number, a half to the even neighbour -/
def roundHalfEven (n d : Nat) : Nat :=
  let q := n / d
  let r := n % d
  if 2 * r < d ∨ (2 * r = d ∧ q % 2 = 0) then q else q + 1

/-- the quotient `n / d` rounded to the nearest whole number, a half upwards -/
def roundHalfUp (n d : Nat) : Nat := (2 * n + d) / (2 * d)

theorem roundHalfUp_le_self (n d : Nat) (hd : 2 ≤ d) : roundHalfUp n d ≤ n := by
  cases n with
  | zero =>
    have : d / (2 * d) = 0 := Nat.div_eq_of_lt (by omega)
    simp [roundHalfUp, this]
  | succ n =>
    have h : (2 * (n + 1) + d) ≤ (n + 1) * (2 * d) := by
      have h1 : n * 2 ≤ n * d := Nat.mul_le_mul_left n hd
      have h2 : (n + 1) * (2 * d) = n * d + n * d + 2 * d := by grind
      omega
    exact Nat.div_le_of_le_mul (Nat.mul_comm (n + 1) (2 * d) ▸ h)

theorem two_le_pow10 {k : Nat} (h : 0 < k) : 2 ≤ pow10 k := by
  obtain ⟨j, rfl⟩ : ∃ j, k = j + 1 := ⟨k - 1, by omega⟩
  have h1 : pow10 (j + 1) = pow10 j * 10 := rfl
  have h2 : 0 < pow10 j := Nat.pow_pos (by decide)
  omega

end LedgerTotals
