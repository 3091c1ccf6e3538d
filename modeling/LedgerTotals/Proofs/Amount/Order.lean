/-
The order of amounts, and what equal amounts have in common.

Decimals are compared with their mantissas brought to a common scale, where they may outgrow 96 bits; that is the order
of the numbers (`Decimal.compare_eq`). Amounts are compared part by part. Their `key` has the parts in a lexicographic
product, so the order of amounts is that of the keys (`Amount.compare_eq`), and all that is known of linear orders holds
of it, except that amounts of one key can be stored in different ways.

- `Amount.equal_iff`: amounts are equal exactly if they have the same value and the same format, however the value is
  stored;
- `Amount.Interchangeable`: what a hasher takes in of two amounts, what is asked of them and what is shown is the same;
- `Decimal.rounded_mono`: rounding keeps the order of values.

Main result: `Amount.order_coherent`.
-/
import LedgerTotals.Amount.Hash
import LedgerTotals.Proofs.Amount.Shown

namespace LedgerTotals

namespace Decimal

/-! ## Decimals -/

/-- crosswise products are compared as the quotients are -/
theorem compare_eq (d e : Decimal) : d.compare e = Ord.compare d.toRat e.toRat := by
  have hd : (0 : ℚ) < 10 ^ d.scale := by positivity
  have he : (0 : ℚ) < 10 ^ e.scale := by positivity
  have hlt : d.coefficient * (pow10 e.scale : ℕ) < e.coefficient * (pow10 d.scale : ℕ) ↔ d.toRat < e.toRat := by
    rw [toRat, toRat, div_lt_div_iff₀ hd he, ← cast_pow10, ← cast_pow10]
    exact_mod_cast Iff.rfl
  have heq : d.coefficient * (pow10 e.scale : ℕ) = e.coefficient * (pow10 d.scale : ℕ) ↔ d.toRat = e.toRat := by
    rw [toRat, toRat, div_eq_div_iff hd.ne' he.ne', ← cast_pow10, ← cast_pow10]
    exact_mod_cast Iff.rfl
  rw [LinearOrder.compare_eq_compareOfLessAndEq, compareOfLessAndEq]
  simp only [compare, hlt, heq]

theorem equal_iff {d e : Decimal} : d.equal e = true ↔ d.toRat = e.toRat := by
  rw [equal, beq_iff_eq, compare_eq, compare_eq_iff_eq]

/-- **Rounding keeps the order** -/
theorem rounded_mono {d e : Decimal} (h : d.toRat ≤ e.toRat) : d.rounded.toRat ≤ e.rounded.toRat := by
  rw [toRat_rounded, toRat_rounded]
  have hcents : (nearestCent d.toRat : ℚ) ≤ nearestCent e.toRat := by exact_mod_cast nearestCent_mono h
  exact div_le_div_of_nonneg_right hcents (by norm_num)

end Decimal

/-! ## Formats -/

theorem Currency.rank_injective : Function.Injective Currency.rank := by
  intro s t h
  rcases s with _ | _ | _ <;> rcases t with _ | _ | _ <;> first | rfl | cases h

namespace AmountFormat

/-- the parts of a format in the order in which they count -/
def key (f : AmountFormat) : ℕ ×ₗ Bool := toLex (Currency.rank f.symbol, f.commas)

theorem key_injective : Function.Injective key := by
  intro f g h
  obtain ⟨hrank, hcommas⟩ := Prod.mk.inj (toLex.injective h)
  have hsymbol : f.symbol = g.symbol := Currency.rank_injective hrank
  calc f = ⟨f.symbol, f.commas⟩ := rfl
    _ = ⟨g.symbol, g.commas⟩ := by rw [hsymbol, hcommas]

end AmountFormat

namespace Amount

theorem formatOrder_eq (f g : AmountFormat) : formatOrder f g = Ord.compare f.key g.key := by
  have hkey : Ord.compare f.key g.key =
      (Ord.compare (Currency.rank f.symbol) (Currency.rank g.symbol)).then (Ord.compare f.commas g.commas) := by
    rw [Prod.Lex.compare_def]
    rfl
  rw [hkey, formatOrder]
  rcases lt_trichotomy (Currency.rank f.symbol) (Currency.rank g.symbol) with h | h | h
  · rw [if_pos h, compare_lt_iff_lt.2 h]
    rfl
  · rw [if_neg h.not_lt, if_neg h.not_gt, compare_eq_iff_eq.2 h]
    cases f.commas <;> cases g.commas <;> rfl
  · rw [if_neg h.not_gt, if_pos h, compare_gt_iff_gt.2 h]
    rfl

/-! ## Amounts -/

/-- value, symbol and commas, in the order in which they count -/
def key (a : Amount) : ℚ ×ₗ ℕ ×ₗ Bool := toLex (a.value.toRat, a.format.key)

/-- **Amounts are in the order of their keys** -/
theorem compare_eq (a b : Amount) : a.compare b = Ord.compare a.key b.key := by
  rw [Prod.Lex.compare_def, compare, Decimal.compare_eq, formatOrder_eq]
  rfl

theorem key_eq_iff {a b : Amount} : a.key = b.key ↔ a.value.toRat = b.value.toRat ∧ a.format = b.format := by
  rw [key, key, toLex.injective.eq_iff, Prod.mk.injEq, AmountFormat.key_injective.eq_iff]

theorem isLE_compare {a b : Amount} : (a.compare b).isLE = true ↔ a.key ≤ b.key := by
  rw [compare_eq, Ordering.isLE_iff_ne_gt]
  exact compare_le_iff_le

instance : Std.TransCmp compare := by
  have hkey : compare = compareOn key := funext fun a => funext fun b => compare_eq a b
  rw [hkey]
  infer_instance

/-- a value that is stored with another scale, or a zero with another sign, makes no difference -/
theorem equal_iff {a b : Amount} : a.equal b = true ↔ a.value.toRat = b.value.toRat ∧ a.format = b.format := by
  rw [equal, Bool.and_eq_true, beq_iff_eq, Decimal.equal_iff]

theorem equal_iff_compare {a b : Amount} : a.equal b = true ↔ a.compare b = .eq := by
  rw [equal_iff, compare_eq, compare_eq_iff_eq, key_eq_iff]

/-! ## Equal amounts -/

/-- no hash, no question and no text tells the amounts apart -/
structure Interchangeable {σ : Type} (hasher : Hasher σ) (a b : Amount) : Prop where
  hashed : ∀ state, hasher.amount a state = hasher.amount b state
  isZero : a.isZero = b.isZero
  isNegative : a.isNegative = b.isNegative
  rounded : a.rounded.toRat = b.rounded.toRat
  text : a.toText = b.toText

theorem interchangeable_of_equal {σ : Type} {hasher : Hasher σ}
    (hhasher : ∀ d e : Decimal, d.toRat = e.toRat → hasher.decimal d = hasher.decimal e) {a b : Amount}
    (h : a.equal b = true) : Interchangeable hasher a b := by
  obtain ⟨hvalue, hformat⟩ := equal_iff.1 h
  refine ⟨?_, ?_, ?_, ?_, ?_⟩
  · intro state
    rw [Hasher.amount, Hasher.amount, hhasher _ _ hvalue, hformat]
  · rw [Bool.eq_iff_iff, isZero, isZero, Decimal.isZero_iff, Decimal.isZero_iff, hvalue]
  · rw [Bool.eq_iff_iff, isNegative, isNegative, Decimal.isNegative_iff, Decimal.isNegative_iff, hvalue]
  · rw [rounded, rounded, Decimal.toRat_rounded, Decimal.toRat_rounded, hvalue]
  · rw [toText_eq, toText_eq, hvalue, hformat]

/-- **Comparing, equating, hashing and showing amounts agree with one another.** The comparison is a total order, by
value, then by symbol, none before dollar before euro, and then without commas before with them. The amounts that compare
equal are the equal ones, whichever scales and signs of zero they are stored with; nothing tells equal amounts apart,
provided that a hasher takes in the same of decimals that are the same number; and rounding keeps the order of values -/
theorem order_coherent {σ : Type} (hasher : Hasher σ)
    (hhasher : ∀ d e : Decimal, d.toRat = e.toRat → hasher.decimal d = hasher.decimal e) :
    (Currency.rank none < Currency.rank (some .dollar) ∧ Currency.rank (some .dollar) < Currency.rank (some .euro)) ∧
    (∀ a b : Amount, a.compare b =
      Ord.compare (toLex (a.value.toRat, toLex (Currency.rank a.format.symbol, a.format.commas)))
        (toLex (b.value.toRat, toLex (Currency.rank b.format.symbol, b.format.commas)))) ∧
    (∀ a b : Amount, b.compare a = (a.compare b).swap) ∧
    (∀ a b : Amount, (a.compare b).isLE ∨ (b.compare a).isLE) ∧
    (∀ a b c : Amount, (a.compare b).isLE → (b.compare c).isLE → (a.compare c).isLE) ∧
    (∀ a b : Amount, a.equal b = true ↔ a.compare b = .eq) ∧
    (∀ a b : Amount, a.equal b = true ↔ a.value.toRat = b.value.toRat ∧ a.format = b.format) ∧
    (∀ a b : Amount, a.equal b = true → Interchangeable hasher a b) ∧
    (∀ a b : Amount, a.value.toRat ≤ b.value.toRat → a.rounded.toRat ≤ b.rounded.toRat) := by
  refine ⟨⟨by decide, by decide⟩, compare_eq, ?_, ?_, ?_, ?_, ?_, ?_, ?_⟩
  · intro a b
    exact Std.OrientedCmp.eq_swap
  · intro a b
    rw [isLE_compare, isLE_compare]
    exact le_total a.key b.key
  · intro a b c hab hbc
    exact Std.TransCmp.isLE_trans hab hbc
  · intro a b
    exact equal_iff_compare
  · intro a b
    exact equal_iff
  · intro a b h
    exact interchangeable_of_equal hhasher h
  · intro a b h
    exact Decimal.rounded_mono h

/-- the least number of places after the point that the number needs -/
def leastPlaces (q : ℚ) : ℕ :=
  ((List.range Decimal.maxScale).find? fun s => Decimal.HasPlaces s q).getD Decimal.maxScale

/-- a hasher that writes down words: of a decimal its digits without zeros at the end, 32 bits at a time, and then its
scale and sign -/
def words : Hasher (List ℕ) where
  decimal d state :=
    let scale := leastPlaces d.toRat
    let digits := (|d.toRat| * 10 ^ scale).num.natAbs
    state ++ [digits % 2 ^ 32, digits / 2 ^ 32 % 2 ^ 32, digits / 2 ^ 64,
      (if d.toRat < 0 then 2 ^ 31 else 0) + scale * 2 ^ 16]
  variant n state := state ++ [n]
  char c state := state ++ [c.toNat]
  flag b state := state ++ [b.toNat]

theorem order_coherent_zeros :
    let short : Amount := ⟨⟨false, 10, 1, by decide, by decide⟩, ⟨some .euro, true⟩⟩
    let long : Amount := ⟨⟨false, 1000, 3, by decide, by decide⟩, ⟨some .euro, true⟩⟩
    let negativeZero : Amount := ⟨⟨true, 0, 2, by decide, by decide⟩, .plain⟩
    Interchangeable words short long ∧ Interchangeable words negativeZero .zero := by
  intro short long negativeZero
  have hwords : ∀ d e : Decimal, d.toRat = e.toRat → words.decimal d = words.decimal e := by
    intro d e h
    simp only [words, h]
  obtain ⟨-, -, -, -, -, -, -, hequal, -⟩ := order_coherent words hwords
  exact ⟨hequal short long (by decide), hequal negativeZero .zero (by decide)⟩

end Amount

end LedgerTotals
