/-
Debit and credit are dual.

The code treats the two sides alike but for zeros, which are debits whatever their sign. Amounts with all signs turned
around therefore come to the same totals with debit and credit exchanged, up to the spelling of zeros (`Dual`).

- `Decimal.map_toRat_sub?_comm`: the difference taken the other way round is the negated number, also where it is
  rounded, and there is one exactly if there is one the other way;
- `Dual.include?`, `Dual.ofBatch?`, `Dual.post?`: what goes through goes through with the signs turned around;
- `Dual.sinks_eq`: how dual totals are shown.
-/
import LedgerTotals.Proofs.Totals.Alike

namespace LedgerTotals

/-! ## Decimals with the other sign -/

namespace Decimal

theorem involutive_neg : Function.Involutive neg := by
  rintro ⟨negative, m, s, hm, hs⟩
  cases negative <;> rfl

@[simp] theorem isZero_neg (d : Decimal) : d.neg.isZero = d.isZero := rfl

/-- below zero there is a sign to take off -/
theorem neg_of_isNegative {d : Decimal} (h : d.isNegative = true) : d.neg = d.abs := by
  obtain ⟨negative, m, s, hm, hs⟩ := d
  cases negative with
  | true => rfl
  | false => cases h

/-- a decimal that is not negative either becomes negative or is a zero -/
theorem isNegative_neg {d : Decimal} (h : d.isNegative = false) (hzero : d.isZero = false) :
    d.neg.isNegative = true ∧ d.neg.abs = d := by
  obtain ⟨negative, m, s, hm, hs⟩ := d
  cases negative with
  | true => simp [isNegative, hzero] at h
  | false => exact ⟨by simpa [isNegative, neg, isZero] using hzero, rfl⟩

/-- the search for a scale does not look at the sign -/
theorem fitFrom?_not (negative : Bool) (n exact places : ℕ) (hp : places ≤ maxScale) :
    fitFrom? (!negative) n exact places hp = (fitFrom? negative n exact places hp).map neg := by
  induction places with
  | zero =>
    unfold fitFrom?
    split_ifs <;> rfl
  | succ places ih =>
    unfold fitFrom?
    split_ifs
    · rfl
    · exact ih (Nat.le_of_succ_le hp)

/-- rounding treats both signs alike -/
theorem map_toRat_fit?_neg (z : ℤ) (s : ℕ) (hs : s ≤ maxScale) :
    (fit? (-z) s hs).map toRat = (fit? z s hs).map fun d => -d.toRat := by
  by_cases hz : z = 0
  · -- a zero has no sign, so both sides are the same decimal here
    have hrep : Representable (((0 : ℤ) : ℚ) / 10 ^ s) := ⟨.zero, by simp⟩
    obtain ⟨d, hd, hzero⟩ := fit?_exact hs hrep
    have hd' : d.toRat = 0 := by rw [hzero, Int.cast_zero, zero_div]
    rw [hz, neg_zero, hd, Option.map_some, Option.map_some, hd', neg_zero]
  · have hsign : decide (-z < 0) = !decide (z < 0) := by
      rw [← decide_not]
      exact decide_eq_decide.2 (by omega)
    rw [fit?, fit?, hsign, Int.natAbs_neg, fitFrom?_not, Option.map_map]
    exact congrFun (congrArg Option.map (funext toRat_neg)) _

/-- **A difference taken the other way round** is the negated number -/
theorem map_toRat_sub?_comm (a b : Decimal) : (b.sub? a).map toRat = (a.sub? b).map fun d => -d.toRat := by
  by_cases ha : a.isZero = true
  · rw [sub?, sub?, if_pos ha, if_pos ha]
    split_ifs with hb
    · rw [Option.map_some, Option.map_some, isZero_iff.1 hb, isZero_iff.1 ha, neg_zero]
    · rw [Option.map_some, Option.map_some, toRat_neg, neg_neg]
  · by_cases hb : b.isZero = true
    · rw [map_toRat_sub?_of_isZero hb, sub?, if_neg ha, if_pos hb, Option.map_some]
    · have hscale : b.commonScale a = a.commonScale b := Nat.max_comm _ _
      have hflip : b.atScale (a.commonScale b) - a.atScale (a.commonScale b) =
          -(a.atScale (a.commonScale b) - b.atScale (a.commonScale b)) := by ring
      simp only [sub?, if_neg ha, if_neg hb, hscale, hflip, map_toRat_fit?_neg]

end Decimal

/-! ## Totals with the sides exchanged -/

namespace Totals

open Decimal

def swapped (t : Totals) : Totals := ⟨t.credit, t.debit⟩

/-- each side of the one is the other side of the other, but for the spelling of zeros -/
def Dual (t u : Totals) : Prop := t.Alike u.swapped

theorem Dual.symm {t u : Totals} (h : t.Dual u) : u.Dual t := ⟨Alike.credit h |>.symm, Alike.debit h |>.symm⟩

theorem dual_zero : zero.Dual zero := Alike.refl zero

/-- an amount that goes through goes through on the other side with the other sign; a zero is a debit either way, and
leaves both sides as they are -/
theorem Dual.include? {t u t' : Totals} (h : t.Dual u) {d : Decimal} (ht : t.include? d = some t') :
    ∃ u', u.include? d.neg = some u' ∧ t'.Dual u' := by
  cases hneg : d.isNegative with
  | true =>
    have hpos : d.neg.isNegative = false := by
      rw [neg_of_isNegative hneg]
      rfl
    rw [include?_of_neg hneg, Option.map_eq_some_iff] at ht
    obtain ⟨c, hc, rfl⟩ := ht
    obtain ⟨c', hc', halike⟩ := h.credit.add? (.refl d.abs) hc
    refine ⟨{ u with debit := c' }, ?_, h.debit, halike⟩
    rw [include?_of_nonneg hpos, neg_of_isNegative hneg, show u.debit.add? d.abs = some c' from hc', Option.map_some]
  | false =>
    rw [include?_of_nonneg hneg, Option.map_eq_some_iff] at ht
    obtain ⟨c, hc, rfl⟩ := ht
    cases hzero : d.isZero with
    | true =>
      have hpos : d.neg.isNegative = false := by simp [isNegative, hzero]
      obtain ⟨c₁, hc₁, halike⟩ := alike_add?_of_isZero t.debit hzero
      obtain ⟨c₂, hc₂, halike₂⟩ := alike_add?_of_isZero u.debit (show d.neg.isZero = true from hzero)
      obtain rfl := Option.some.inj (hc.symm.trans hc₁)
      refine ⟨{ u with debit := c₂ }, ?_, halike.symm.trans h.debit, h.credit.trans halike₂⟩
      rw [include?_of_nonneg hpos, hc₂, Option.map_some]
    | false =>
      obtain ⟨hneg', habs⟩ := isNegative_neg hneg hzero
      obtain ⟨c', hc', halike⟩ := h.debit.add? (.refl d) hc
      refine ⟨{ u with credit := c' }, ?_, halike, h.credit⟩
      rw [include?_of_neg hneg', habs, show u.credit.add? d = some c' from hc', Option.map_some]

/-- a batch that can be summed can be summed with the signs turned around -/
theorem Dual.ofBatch? {ds : List Decimal} {t : Totals} (h : ofBatch? ds = some t) :
    ∃ u, Totals.ofBatch? (ds.map neg) = some u ∧ t.Dual u := by
  induction ds using List.reverseRecOn generalizing t with
  | nil =>
    obtain rfl := Option.some.inj h
    exact ⟨zero, rfl, dual_zero⟩
  | append_singleton ds d ih =>
    rw [ofBatch?_snoc, Option.bind_eq_some_iff] at h
    obtain ⟨s, hs, ht⟩ := h
    obtain ⟨s', hs', hdual⟩ := ih hs
    obtain ⟨u, hu, hdual'⟩ := hdual.include? ht
    refine ⟨u, ?_, hdual'⟩
    rw [List.map_append, List.map_singleton, ofBatch?_snoc, hs', Option.bind_some, hu]

theorem post?_swapped (batch t : Totals) : batch.swapped.post? t.swapped = (batch.post? t).map swapped := by
  unfold post? swapped
  cases t.debit.add? batch.debit <;> cases t.credit.add? batch.credit <;> rfl

/-- what goes through at running totals goes through at dual ones -/
theorem Dual.post? {t u t' batch batch' : Totals} (h : t.Dual u) (hbatch : batch.Dual batch')
    (ht : batch.post? t = some t') : ∃ u', batch'.post? u = some u' ∧ t'.Dual u' := by
  obtain ⟨v, hv, halike⟩ := Alike.post? h hbatch ht
  rw [post?_swapped, Option.map_eq_some_iff] at hv
  obtain ⟨u', hu', rfl⟩ := hv
  exact ⟨u', hu', halike⟩

/-! ## How dual totals are shown -/

/-- dual totals have opposite balances -/
theorem Dual.map_toRat_sub? {t u : Totals} (h : t.Dual u) :
    (u.debit.sub? u.credit).map toRat = (t.debit.sub? t.credit).map fun d => -d.toRat := by
  have hsame : (t.debit.sub? t.credit).map toRat = (u.credit.sub? u.debit).map toRat :=
    h.debit.map_toRat_sub? h.credit
  have hneg := congrArg (Option.map fun q : ℚ => -q) hsame
  rw [Option.map_map, Option.map_map] at hneg
  rw [map_toRat_sub?_comm u.credit u.debit]
  exact hneg.symm

theorem Dual.toRat_balance {t u : Totals} (h : t.Dual u) : u.balance.toRat = -t.balance.toRat := by
  have hdifference := h.map_toRat_sub?
  unfold balance
  cases ht : t.debit.sub? t.credit with
  | none =>
    rw [ht, Option.map_none, Option.map_eq_none_iff] at hdifference
    rw [hdifference, Option.getD_none, toRat_zero, neg_zero]
  | some d =>
    rw [ht, Option.map_some, Option.map_eq_some_iff] at hdifference
    obtain ⟨e, he, hvalue⟩ := hdifference
    rw [he, Option.getD_some, Option.getD_some, hvalue]

end Totals

/-- a minus sign taken off the front of a text, or put there if there is none -/
def toggleSign (s : String) : String :=
  match Amount.splitSign s.toList with
  | (true, r) => String.ofList r
  | (false, r) => String.ofList ('-' :: r)

/-- the negated cents are shown with the sign toggled -/
theorem centsText_neg (f : AmountFormat) {c : ℤ} (hc : c ≠ 0) : centsText f (-c) = toggleSign (centsText f c) := by
  obtain ⟨⟨d, r, hdr, hd⟩, -⟩ := wholeChars_spec f c.natAbs
  have hsplit : Amount.splitSign ((f.symbol.map Currency.symbol).toList ++
      (Amount.wholeChars f c.natAbs ++ '.' :: Digits.fixedDigits 2 c.natAbs)) =
      (false, (f.symbol.map Currency.symbol).toList ++
        (Amount.wholeChars f c.natAbs ++ '.' :: Digits.fixedDigits 2 c.natAbs)) := by
    rw [hdr, List.cons_append]
    exact splitSign_unsigned f.symbol _ (Digits.ne_of_isDigit hd rfl)
  unfold toggleSign centsText
  rw [String.toList_ofList, centsChars, centsChars, Int.natAbs_neg]
  rcases lt_or_gt_of_ne hc with hneg | hpos
  · rw [if_neg (by omega), if_pos hneg]
    rfl
  · rw [if_pos (by omega), if_neg (by omega), List.nil_append, hsplit]
    rfl

/-- the sinks with debit and credit exchanged, and the sign of the total toggled unless it is shown as zero -/
def Sinks.mirrored (format : AmountFormat) (s : Sinks) : Sinks :=
  ⟨s.credit, s.debit, if s.total = Amount.toText ⟨.zero, format⟩ then s.total else toggleSign s.total⟩

/-- **Dual totals are shown in mirrored sinks** -/
theorem Totals.Dual.sinks_eq {t u : Totals} (h : t.Dual u) (format : AmountFormat) :
    u.sinks format = (t.sinks format).mirrored format := by
  have hzero : Amount.toText ⟨.zero, format⟩ = centsText format 0 := by
    rw [Amount.toText_eq, Decimal.toRat_zero, nearestCent_of_cents (z := 0) (by norm_num)]
  have hdebit : u.debit.toRat = t.credit.toRat := (Alike.credit h).toRat_eq.symm
  have hcredit : u.credit.toRat = t.debit.toRat := (Alike.debit h).toRat_eq.symm
  unfold Sinks.mirrored sinks
  simp only [hzero, Amount.toText_eq, hdebit, hcredit, h.toRat_balance, nearestCent_neg, centsText_inj, Sinks.mk.injEq,
    true_and]
  split_ifs with hbalance
  · rw [hbalance, neg_zero]
  · exact centsText_neg format hbalance

end LedgerTotals
