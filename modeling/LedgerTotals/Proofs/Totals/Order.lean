/-
Running totals in order of size.

- `unsigned_of_ofBatch?`: neither sum of a batch is below zero;
- `post?_mono`: a posting keeps the order of two running totals, and goes through at the smaller one if it does at the
  larger one, even where the two are rounded at different scales;
- `atMost_of_post?`: a posting lowers nothing;
- `TooLarge`: why a posting does not go through. What is too large for the smaller of two running totals is too large
  for the larger (`TooLarge.of_atMost`).
-/
import LedgerTotals.Proofs.Decimal.Order
import LedgerTotals.Proofs.Totals

namespace LedgerTotals

open Decimal

namespace Totals

/-- neither the debit nor the credit is below zero -/
structure Unsigned (t : Totals) : Prop where
  debit : 0 ≤ t.debit.toRat
  credit : 0 ≤ t.credit.toRat

/-- neither the debit nor the credit is above that of `u` -/
structure AtMost (t u : Totals) : Prop where
  debit : t.debit.toRat ≤ u.debit.toRat
  credit : t.credit.toRat ≤ u.credit.toRat

theorem AtMost.refl (t : Totals) : t.AtMost t := ⟨le_rfl, le_rfl⟩

theorem AtMost.trans {t u v : Totals} (htu : t.AtMost u) (huv : u.AtMost v) : t.AtMost v :=
  ⟨htu.debit.trans huv.debit, htu.credit.trans huv.credit⟩

theorem Unsigned.of_atMost {t u : Totals} (ht : t.Unsigned) (h : t.AtMost u) : u.Unsigned :=
  ⟨ht.debit.trans h.debit, ht.credit.trans h.credit⟩

theorem unsigned_zero : zero.Unsigned := ⟨toRat_zero.ge, toRat_zero.ge⟩

theorem Unsigned.zero_atMost {t : Totals} (ht : t.Unsigned) : zero.AtMost t :=
  ⟨toRat_zero.trans_le ht.debit, toRat_zero.trans_le ht.credit⟩

/-- the difference of unsigned totals never leaves the range of decimals -/
theorem Unsigned.sub?_eq {t : Totals} (ht : t.Unsigned) : t.debit.sub? t.credit = some t.balance := by
  obtain ⟨difference, hdifference⟩ := Option.isSome_iff_exists.1 (sub?_isSome ht.debit ht.credit)
  rw [balance, hdifference, Option.getD_some]

/-! ## A batch -/

theorem Unsigned.include? {t u : Totals} (ht : t.Unsigned) {d : Decimal} (h : t.include? d = some u) : u.Unsigned := by
  cases hneg : d.isNegative
  · rw [include?_of_nonneg hneg, Option.map_eq_some_iff] at h
    obtain ⟨c, hc, rfl⟩ := h
    exact ⟨add?_nonneg ht.debit (isNegative_eq_false_iff.1 hneg) hc, ht.credit⟩
  · rw [include?_of_neg hneg, Option.map_eq_some_iff] at h
    obtain ⟨c, hc, rfl⟩ := h
    have habs : 0 ≤ d.abs.toRat := by rw [toRat_abs]; exact abs_nonneg _
    exact ⟨ht.debit, add?_nonneg ht.credit habs hc⟩

theorem unsigned_of_ofBatch? {ds : List Decimal} {t : Totals} (h : ofBatch? ds = some t) : t.Unsigned := by
  induction ds using List.reverseRecOn generalizing t with
  | nil =>
    cases h
    exact unsigned_zero
  | append_singleton ds d ih =>
    rw [ofBatch?_snoc, Option.bind_eq_some_iff] at h
    obtain ⟨u, hu, ht⟩ := h
    exact (ih hu).include? ht

/-! ## Posting -/

/-- **Posting keeps the order** of running totals: what goes through at the larger one goes through at the smaller -/
theorem post?_mono {batch t u u' : Totals} (hbatch : batch.Unsigned) (ht : t.Unsigned) (htu : t.AtMost u)
    (h : batch.post? u = some u') : ∃ t', batch.post? t = some t' ∧ t'.AtMost u' := by
  obtain ⟨hd, hc⟩ := post?_eq_some_iff.1 h
  obtain ⟨d, hd', hdle⟩ := add?_mono ht.debit hbatch.debit htu.debit le_rfl hd
  obtain ⟨c, hc', hcle⟩ := add?_mono ht.credit hbatch.credit htu.credit le_rfl hc
  exact ⟨⟨d, c⟩, post?_eq_some_iff.2 ⟨hd', hc'⟩, hdle, hcle⟩

/-- a posting lowers nothing -/
theorem atMost_of_post? {batch t u : Totals} (hbatch : batch.Unsigned) (ht : t.Unsigned) (h : batch.post? t = some u) :
    t.AtMost u := by
  obtain ⟨hd, hc⟩ := post?_eq_some_iff.1 h
  exact ⟨le_add? ht.debit hbatch.debit hd, le_add? ht.credit hbatch.credit hc⟩

/-! ## What is too large -/

/-- a sum that it takes to post the amounts is out of range: one of the batch by itself, from zero, or one of the batch
with a running total -/
inductive TooLarge (amounts : List Decimal) (t : Totals) : Prop where
  | ownDebit (h : sum? (debits amounts) = none)
  | ownCredit (h : sum? (credits amounts) = none)
  | debit (own : Decimal) (hown : sum? (debits amounts) = some own) (h : t.debit.add? own = none)
  | credit (own : Decimal) (hown : sum? (credits amounts) = some own) (h : t.credit.add? own = none)

theorem not_tooLarge_iff {amounts : List Decimal} {t : Totals} :
    ¬ TooLarge amounts t ↔ ∃ batch, ofBatch? amounts = some batch ∧ (batch.post? t).isSome := by
  constructor
  · intro h
    have hfound : ∀ {o : Option Decimal}, o ≠ none → ∃ d, o = some d := Option.ne_none_iff_exists'.1
    obtain ⟨debit, hdebit⟩ := hfound fun hnone => h (.ownDebit hnone)
    obtain ⟨credit, hcredit⟩ := hfound fun hnone => h (.ownCredit hnone)
    obtain ⟨d, hd⟩ := hfound fun hnone => h (.debit debit hdebit hnone)
    obtain ⟨c, hc⟩ := hfound fun hnone => h (.credit credit hcredit hnone)
    refine ⟨⟨debit, credit⟩, ofBatch?_eq_some_iff.2 ⟨hdebit, hcredit⟩, ?_⟩
    exact Option.isSome_iff_exists.2 ⟨⟨d, c⟩, post?_eq_some_iff.2 ⟨hd, hc⟩⟩
  · rintro ⟨batch, hbatch, hpost⟩ h
    obtain ⟨hdebit, hcredit⟩ := ofBatch?_eq_some_iff.1 hbatch
    obtain ⟨u, hu⟩ := Option.isSome_iff_exists.1 hpost
    obtain ⟨hd, hc⟩ := post?_eq_some_iff.1 hu
    cases h with
    | ownDebit hnone => simp [hnone] at hdebit
    | ownCredit hnone => simp [hnone] at hcredit
    | debit own hown hnone =>
      obtain rfl := Option.some.inj (hown.symm.trans hdebit)
      simp [hnone] at hd
    | credit own hown hnone =>
      obtain rfl := Option.some.inj (hown.symm.trans hcredit)
      simp [hnone] at hc

theorem not_tooLarge_iff_of_batch {amounts : List Decimal} {batch t : Totals} (h : ofBatch? amounts = some batch) :
    ¬ TooLarge amounts t ↔ (batch.post? t).isSome := by
  simp [not_tooLarge_iff, h]

instance (amounts : List Decimal) (t : Totals) : Decidable (TooLarge amounts t) :=
  decidable_of_iff (¬ ∃ batch ∈ ofBatch? amounts, (batch.post? t).isSome) (not_iff_comm.1 not_tooLarge_iff)

/-- **What is too large for the smaller** of two running totals **is too large for the larger** -/
theorem TooLarge.of_atMost {amounts : List Decimal} {t u : Totals} (h : TooLarge amounts t) (ht : t.Unsigned)
    (htu : t.AtMost u) : TooLarge amounts u := by
  by_contra hu
  obtain ⟨batch, hbatch, hpost⟩ := not_tooLarge_iff.1 hu
  obtain ⟨u', hu'⟩ := Option.isSome_iff_exists.1 hpost
  obtain ⟨t', ht', -⟩ := post?_mono (unsigned_of_ofBatch? hbatch) ht htu hu'
  exact not_tooLarge_iff.2 ⟨batch, hbatch, Option.isSome_iff_exists.2 ⟨t', ht'⟩⟩ h

end Totals

end LedgerTotals
