/-
Totals that are spelled alike but for zeros.

A zero has many spellings: with or without a sign, and with any number of places. Adding to a zero gives the other
operand as it stands, so the spelling of a zero is forgotten at the first sum that is added to it. Totals that are alike
(`Totals.Alike`) take the same batches, stay alike (`Alike.post?`), and are shown by the same texts (`Alike.sinks_eq`).
To add nothing makes no difference to them (`alike_post?_zero`).
-/
import LedgerTotals.Proofs.Amount.Shown
import LedgerTotals.Proofs.Totals

namespace LedgerTotals

/-! ## Decimals -/

namespace Decimal

/-- the same decimal, or two zeros -/
def Alike (a b : Decimal) : Prop := a = b ∨ a.isZero = true ∧ b.isZero = true

theorem Alike.refl (a : Decimal) : a.Alike a := .inl rfl

theorem Alike.symm {a b : Decimal} (h : a.Alike b) : b.Alike a := by
  rcases h with rfl | ⟨ha, hb⟩
  · exact .refl a
  · exact .inr ⟨hb, ha⟩

theorem Alike.trans {a b c : Decimal} (hab : a.Alike b) (hbc : b.Alike c) : a.Alike c := by
  rcases hab with rfl | ⟨ha, hb⟩
  · exact hbc
  · rcases hbc with rfl | ⟨-, hc⟩
    · exact .inr ⟨ha, hb⟩
    · exact .inr ⟨ha, hc⟩

theorem Alike.toRat_eq {a b : Decimal} (h : a.Alike b) : a.toRat = b.toRat := by
  rcases h with rfl | ⟨ha, hb⟩
  · rfl
  · rw [isZero_iff.1 ha, isZero_iff.1 hb]

/-- to add a zero makes no difference -/
theorem alike_add?_of_isZero (a : Decimal) {x : Decimal} (hx : x.isZero = true) :
    ∃ c, a.add? x = some c ∧ a.Alike c := by
  by_cases ha : a.isZero = true
  · exact ⟨x, by rw [Decimal.add?, if_pos ha], .inr ⟨ha, hx⟩⟩
  · exact ⟨a, by rw [Decimal.add?, if_neg ha, if_pos hx], .refl a⟩

/-- what goes through at one goes through at the other -/
theorem Alike.add? {a b x y c : Decimal} (h : a.Alike b) (hx : x.Alike y) (hc : a.add? x = some c) :
    ∃ d, b.add? y = some d ∧ c.Alike d := by
  rcases hx with rfl | ⟨hx, hy⟩
  · rcases h with rfl | ⟨ha, hb⟩
    · exact ⟨c, hc, .refl c⟩
    · rw [Decimal.add?, if_pos ha] at hc
      obtain rfl := Option.some.inj hc
      exact ⟨x, by rw [Decimal.add?, if_pos hb], .refl x⟩
  · obtain ⟨c', hc', hac⟩ := alike_add?_of_isZero a hx
    obtain ⟨d, hd, hbd⟩ := alike_add?_of_isZero b hy
    obtain rfl := Option.some.inj (hc.symm.trans hc')
    exact ⟨d, hd, hac.symm.trans (h.trans hbd)⟩

theorem map_toRat_sub?_of_isZero {a : Decimal} (ha : a.isZero = true) (b : Decimal) :
    (a.sub? b).map toRat = some (-b.toRat) := by
  rw [sub?, if_pos ha, Option.map_some]
  split_ifs with hb
  · rw [isZero_iff.1 hb, neg_zero]
  · rw [toRat_neg]

/-- differences are the same numbers -/
theorem Alike.map_toRat_sub? {a a' b b' : Decimal} (ha : a.Alike a') (hb : b.Alike b') :
    (a.sub? b).map toRat = (a'.sub? b').map toRat := by
  rcases ha with rfl | ⟨ha, ha'⟩
  · by_cases hzero : a.isZero = true
    · rw [map_toRat_sub?_of_isZero hzero, map_toRat_sub?_of_isZero hzero, hb.toRat_eq]
    · rcases hb with rfl | ⟨hb, hb'⟩
      · rfl
      · rw [sub?, sub?, if_neg hzero, if_neg hzero, if_pos hb, if_pos hb']
  · rw [map_toRat_sub?_of_isZero ha, map_toRat_sub?_of_isZero ha', hb.toRat_eq]

end Decimal

namespace Totals

open Decimal

/-- the same totals but for the spelling of zeros -/
structure Alike (t u : Totals) : Prop where
  debit : t.debit.Alike u.debit
  credit : t.credit.Alike u.credit

theorem Alike.refl (t : Totals) : t.Alike t := ⟨.refl _, .refl _⟩

theorem Alike.symm {t u : Totals} (h : t.Alike u) : u.Alike t := ⟨h.debit.symm, h.credit.symm⟩

theorem Alike.trans {t u v : Totals} (htu : t.Alike u) (huv : u.Alike v) : t.Alike v :=
  ⟨htu.debit.trans huv.debit, htu.credit.trans huv.credit⟩

theorem Alike.post? {t u t' batch batch' : Totals} (h : t.Alike u) (hbatch : batch.Alike batch')
    (ht : batch.post? t = some t') : ∃ u', batch'.post? u = some u' ∧ t'.Alike u' := by
  obtain ⟨hd, hc⟩ := post?_eq_some_iff.1 ht
  obtain ⟨debit, hdebit, hdalike⟩ := h.debit.add? hbatch.debit hd
  obtain ⟨credit, hcredit, hcalike⟩ := h.credit.add? hbatch.credit hc
  exact ⟨⟨debit, credit⟩, post?_eq_some_iff.2 ⟨hdebit, hcredit⟩, hdalike, hcalike⟩

theorem Alike.isSome_post? {t u : Totals} (h : t.Alike u) (batch : Totals) :
    (batch.post? t).isSome = (batch.post? u).isSome := by
  rw [Bool.eq_iff_iff, Option.isSome_iff_exists, Option.isSome_iff_exists]
  constructor
  · rintro ⟨t', ht⟩
    obtain ⟨u', hu, -⟩ := h.post? (.refl batch) ht
    exact ⟨u', hu⟩
  · rintro ⟨u', hu⟩
    obtain ⟨t', ht, -⟩ := h.symm.post? (.refl batch) hu
    exact ⟨t', ht⟩

/-- an empty batch goes through everywhere, and makes no difference -/
theorem alike_post?_zero (t : Totals) : ∃ u, zero.post? t = some u ∧ t.Alike u := by
  obtain ⟨debit, hdebit, hdalike⟩ := alike_add?_of_isZero t.debit (x := .zero) rfl
  obtain ⟨credit, hcredit, hcalike⟩ := alike_add?_of_isZero t.credit (x := .zero) rfl
  exact ⟨⟨debit, credit⟩, post?_eq_some_iff.2 ⟨hdebit, hcredit⟩, hdalike, hcalike⟩

/-- totals that are alike are shown by the same texts -/
theorem Alike.sinks_eq {t u : Totals} (h : t.Alike u) (format : AmountFormat) : t.sinks format = u.sinks format := by
  have hdifference := h.debit.map_toRat_sub? h.credit
  have hbalance : t.balance.toRat = u.balance.toRat := by
    have hmap : ∀ v : Totals, v.balance.toRat = ((v.debit.sub? v.credit).map toRat).getD 0 := by
      intro v
      rw [balance]
      cases v.debit.sub? v.credit with
      | none => exact toRat_zero
      | some d => rfl
    rw [hmap, hmap, hdifference]
  have hfigures : t.figures = u.figures := by
    rw [figures, figures, h.debit.toRat_eq, h.credit.toRat_eq, hbalance]
  rw [Totals.sinks_eq, Totals.sinks_eq, hfigures]

end Totals

end LedgerTotals
