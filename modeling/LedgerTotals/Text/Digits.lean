/-
Decimal digits: the digits of a natural number, written most significant first, and the number that
a run of digits stands for.

- `digits n` has no leading zero, save for the single digit of zero;
- `fixedDigits k n` has exactly `k` digits, of the last `k` places of `n`;
- `value` reads both back;
- `grouped` puts a comma before every group of three digits, counted from the right.
-/
namespace LedgerTotals.Digits

def digitChar (d : Nat) : Char := Char.ofNat (48 + d)

def isDigit (c : Char) : Bool := 48 ≤ c.toNat && c.toNat ≤ 57

def digitValue (c : Char) : Nat := c.toNat - 48

/-- the digits of `n`, most significant first, without leading zeros -/
def digits (n : Nat) : List Char :=
  if n < 10 then [digitChar n] else digits (n / 10) ++ [digitChar (n % 10)]

/-- the last `k` digits of `n`, with leading zeros where `n` is shorter -/
def fixedDigits : Nat → Nat → List Char
  | 0, _ => []
  | k + 1, n => fixedDigits k (n / 10) ++ [digitChar (n % 10)]

/-- the number that a run of digits stands for; no digits stand for zero -/
def value (ds : List Char) : Nat := ds.foldl (fun n c => 10 * n + digitValue c) 0

/-- a comma before every group of three digits, counted from the right -/
def grouped : List Char → List Char
  | [] => []
  | c :: r => if r.length % 3 = 0 ∧ r ≠ [] then c :: ',' :: grouped r else c :: grouped r

theorem value_append_one (ds : List Char) (c : Char) :
    value (ds ++ [c]) = 10 * value ds + digitValue c := by
  simp [value]

theorem length_fixedDigits (k n : Nat) : (fixedDigits k n).length = k := by
  induction k generalizing n with
  | zero => rfl
  | succ k ih => simp [fixedDigits, ih]

def text (n : Nat) : String := String.ofList (digits n)

end LedgerTotals.Digits
