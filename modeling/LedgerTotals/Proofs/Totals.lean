/-
Batches and running totals, operation by operation.

- `ofBatch?_eq_some_iff`: a batch is two runs of additions, one over its debits and one over its credits, each from
  zero and in order;
- `post?_eq_some_iff`: posting is one addition to the debit and one to the credit;
- `roll?` posts batch after batch to one pair of running totals; `roll?_exact` says what it comes to where no sum on
  the way is lost.
-/
import LedgerTotals.Totals
import LedgerTotals.Proofs.Figures

namespace LedgerTotals

open Decimal

theorem mapM_eq_some_iff {α β : Type} {f : α → Option β} {l : List α} {r : List β} :
    l.mapM f = some r ↔ List.Forall₂ (fun a b => f a = some b) l r := by
  induction l generalizing r with
  | nil => simp [eq_comm]
  | cons a l ih =>
    rw [List.mapM_cons, List.forall₂_cons_left_iff]
    constructor
    · intro h
      obtain ⟨b, hb, h⟩ := Option.bind_eq_some_iff.1 h
      obtain ⟨bs, hbs, h⟩ := Option.bind_eq_some_iff.1 h
      exact ⟨b, bs, hb, ih.1 hbs, (Option.some.inj h).symm⟩
    · rintro ⟨b, bs, hb, hbs, rfl⟩
      simp [hb, ih.2 hbs]

namespace Totals

/-- the amounts of a batch that are not negative -/
def debits (ds : List Decimal) : List Decimal := ds.filter (! ·.isNegative)

/-- the absolute values of the negative amounts of a batch -/
def credits (ds : List Decimal) : List Decimal := (ds.filter (·.isNegative)).map Decimal.abs

/-- what the totals show: their difference is the total -/
def figures (t : Totals) : Figures := ⟨t.debit.toRat, t.credit.toRat, t.balance.toRat⟩

theorem map_toRat_debits (ds : List Decimal) : (debits ds).map toRat = Figures.debits (ds.map toRat) := by
  rw [debits, Figures.debits, List.filter_map]
  congr 1
  apply List.filter_congr
  intro d _
  cases h : d.isNegative
  · simpa using isNegative_eq_false_iff.1 h
  · simpa using isNegative_iff.1 h

theorem map_toRat_credits (ds : List Decimal) : (credits ds).map toRat = Figures.credits (ds.map toRat) := by
  rw [credits, Figures.credits, List.filter_map, List.map_map, List.map_map]
  have hfilter : ds.filter (·.isNegative) = ds.filter ((fun q => decide (q < 0)) ∘ toRat) := by
    apply List.filter_congr
    intro d _
    rw [Bool.eq_iff_iff, isNegative_iff]
    simp
  rw [hfilter]
  exact List.map_congr_left fun d _ => toRat_abs d

/-! ## A batch -/

theorem ofBatch?_snoc (ds : List Decimal) (d : Decimal) :
    ofBatch? (ds ++ [d]) = (ofBatch? ds).bind (·.include? d) := by
  simp [ofBatch?, List.foldlM_append]

theorem include?_of_neg {t : Totals} {d : Decimal} (h : d.isNegative = true) :
    t.include? d = (t.credit.add? d.abs).map fun c => ⟨t.debit, c⟩ := by
  simp [include?, h]

theorem include?_of_nonneg {t : Totals} {d : Decimal} (h : d.isNegative = false) :
    t.include? d = (t.debit.add? d).map fun c => ⟨c, t.credit⟩ := by
  simp [include?, h]

/-- the two sides of a batch do not touch each other -/
theorem ofBatch?_eq_some_iff {ds : List Decimal} {t : Totals} :
    ofBatch? ds = some t ↔ sum? (debits ds) = some t.debit ∧ sum? (credits ds) = some t.credit := by
  induction ds using List.reverseRecOn generalizing t with
  | nil =>
    obtain ⟨d, c⟩ := t
    simp [ofBatch?, debits, credits, sum?, zero]
  | append_singleton ds d ih =>
    rw [ofBatch?_snoc]
    cases hneg : d.isNegative
    · have hdebits : debits (ds ++ [d]) = debits ds ++ [d] := by simp [debits, hneg]
      have hcredits : credits (ds ++ [d]) = credits ds := by simp [credits, hneg]
      rw [hdebits, hcredits, sum?_snoc, Option.bind_eq_some_iff, Option.bind_eq_some_iff]
      constructor
      · rintro ⟨u, hu, ht⟩
        rw [include?_of_nonneg hneg, Option.map_eq_some_iff] at ht
        obtain ⟨c, hc, rfl⟩ := ht
        obtain ⟨hd, hcr⟩ := ih.1 hu
        exact ⟨⟨u.debit, hd, hc⟩, hcr⟩
      · rintro ⟨⟨c, hd, hc⟩, hcr⟩
        refine ⟨⟨c, t.credit⟩, ih.2 ⟨hd, hcr⟩, ?_⟩
        rw [include?_of_nonneg hneg, Option.map_eq_some_iff]
        exact ⟨t.debit, hc, rfl⟩
    · have hdebits : debits (ds ++ [d]) = debits ds := by simp [debits, hneg]
      have hcredits : credits (ds ++ [d]) = credits ds ++ [d.abs] := by simp [credits, hneg]
      rw [hdebits, hcredits, sum?_snoc, Option.bind_eq_some_iff, Option.bind_eq_some_iff]
      constructor
      · rintro ⟨u, hu, ht⟩
        rw [include?_of_neg hneg, Option.map_eq_some_iff] at ht
        obtain ⟨c, hc, rfl⟩ := ht
        obtain ⟨hd, hcr⟩ := ih.1 hu
        exact ⟨hd, ⟨u.credit, hcr, hc⟩⟩
      · rintro ⟨hd, c, hcr, hc⟩
        refine ⟨⟨t.debit, c⟩, ih.2 ⟨hd, hcr⟩, ?_⟩
        rw [include?_of_neg hneg, Option.map_eq_some_iff]
        exact ⟨t.credit, hc, rfl⟩

/-! ## Totals that are exact -/

/-- debit and credit are exactly those of the amounts -/
structure SumsTo (t : Totals) (qs : List ℚ) : Prop where
  debit : t.debit.toRat = (Figures.ofAmounts qs).debit
  credit : t.credit.toRat = (Figures.ofAmounts qs).credit

theorem sumsTo_zero : SumsTo zero [] := ⟨toRat_zero, toRat_zero⟩

/-- a batch comes to its exact sums if no sum on either side is lost on the way -/
theorem ofBatch?_exact {ds : List Decimal} (hd : Lossless (Figures.debits (ds.map toRat)))
    (hc : Lossless (Figures.credits (ds.map toRat))) : ∃ t, ofBatch? ds = some t ∧ t.SumsTo (ds.map toRat) := by
  rw [← map_toRat_debits] at hd
  rw [← map_toRat_credits] at hc
  obtain ⟨debit, hdebit, hdval⟩ := sum?_exact hd
  obtain ⟨credit, hcredit, hcval⟩ := sum?_exact hc
  rw [map_toRat_debits] at hdval
  rw [map_toRat_credits] at hcval
  exact ⟨⟨debit, credit⟩, ofBatch?_eq_some_iff.2 ⟨hdebit, hcredit⟩, hdval, hcval⟩

theorem balance_exact {t : Totals} (h : Representable (t.debit.toRat - t.credit.toRat)) :
    t.balance.toRat = t.debit.toRat - t.credit.toRat := by
  obtain ⟨c, hc, hval⟩ := sub?_exact h
  rw [balance, hc, Option.getD_some, hval]

/-- exact totals whose difference is representable show the figures of the amounts -/
theorem SumsTo.figures {t : Totals} {qs : List ℚ} (h : t.SumsTo qs) (hrep : Representable qs.sum) :
    t.figures = Figures.ofAmounts qs := by
  have htotal : t.debit.toRat - t.credit.toRat = qs.sum := by
    rw [h.debit, h.credit, ← Figures.ofAmounts_total]
    rfl
  have hbalance : t.balance.toRat = qs.sum := by
    rw [balance_exact (htotal ▸ hrep), htotal]
  rw [Totals.figures, h.debit, h.credit, hbalance]
  rfl

/-! ## Posting -/

theorem post?_eq_some_iff {batch t u : Totals} :
    batch.post? t = some u ↔ t.debit.add? batch.debit = some u.debit ∧ t.credit.add? batch.credit = some u.credit := by
  rw [post?]
  cases t.debit.add? batch.debit with
  | none => simp
  | some d =>
    cases t.credit.add? batch.credit with
    | none => simp
    | some c => cases u; simp

/-- a posting is exact if some decimal stands for either sum -/
theorem post?_exact {batch t : Totals} {ps qs : List ℚ} (ht : t.SumsTo ps) (hbatch : batch.SumsTo qs)
    (hd : Representable (Figures.ofAmounts (ps ++ qs)).debit)
    (hc : Representable (Figures.ofAmounts (ps ++ qs)).credit) :
    ∃ u, batch.post? t = some u ∧ u.SumsTo (ps ++ qs) := by
  have hdsum : (Figures.ofAmounts (ps ++ qs)).debit = t.debit.toRat + batch.debit.toRat := by
    rw [Figures.ofAmounts_append, ht.debit, hbatch.debit]
  have hcsum : (Figures.ofAmounts (ps ++ qs)).credit = t.credit.toRat + batch.credit.toRat := by
    rw [Figures.ofAmounts_append, ht.credit, hbatch.credit]
  obtain ⟨d, hd, hdval⟩ := add?_exact (hdsum ▸ hd)
  obtain ⟨c, hc, hcval⟩ := add?_exact (hcsum ▸ hc)
  exact ⟨⟨d, c⟩, post?_eq_some_iff.2 ⟨hd, hc⟩, hdval.trans hdsum.symm, hcval.trans hcsum.symm⟩

theorem post?_exact_of_fitsAt {s : ℕ} (hs : s ≤ maxScale) {batch t : Totals} {ps qs : List ℚ} (ht : t.SumsTo ps)
    (hbatch : batch.SumsTo qs) (h : FitsAt s (ps ++ qs)) : ∃ u, batch.post? t = some u ∧ u.SumsTo (ps ++ qs) :=
  post?_exact ht hbatch (h.debits.representable hs) (h.credits.representable hs)

/-! ## Batch after batch -/

/-- batches posted one after the other to running totals; `none` if one of them does not go through -/
def roll? (t : Totals) (batches : List (List Decimal)) : Option Totals :=
  batches.foldlM (fun t ds => (ofBatch? ds).bind (·.post? t)) t

theorem roll?_append (t : Totals) (bs cs : List (List Decimal)) :
    roll? t (bs ++ cs) = (roll? t bs).bind (roll? · cs) := by
  simp [roll?, List.foldlM_append]

theorem roll?_cons (t : Totals) (ds : List Decimal) (bs : List (List Decimal)) :
    roll? t (ds :: bs) = ((ofBatch? ds).bind (·.post? t)).bind (roll? · bs) := rfl

/-- running totals come to the exact sums of all amounts if no sum on the way is lost -/
theorem roll?_exact {batches : List (List Decimal)} (h : Figures.ExactRoll (batches.map (·.map toRat))) :
    ∃ t, roll? zero batches = some t ∧ t.SumsTo (batches.flatten.map toRat) := by
  induction batches using List.reverseRecOn with
  | nil => exact ⟨zero, rfl, sumsTo_zero⟩
  | append_singleton bs ds ih =>
    have hflat : (bs ++ [ds]).flatten.map toRat = ((bs ++ [ds]).map (·.map toRat)).flatten := List.map_flatten
    have hsplit : (bs ++ [ds]).flatten.map toRat = bs.flatten.map toRat ++ ds.map toRat := by simp
    -- the running sums after the last batch are sums on the way
    have hd := h.debits_running _ (List.prefix_refl _)
    have hc := h.credits_running _ (List.prefix_refl _)
    rw [← Figures.ofAmounts_debit_flatten, ← hflat, hsplit] at hd
    rw [← Figures.ofAmounts_credit_flatten, ← hflat, hsplit] at hc
    rw [List.map_append] at h
    obtain ⟨t, ht, hsum⟩ := ih h.of_append
    have hlast : ds.map toRat ∈ bs.map (·.map toRat) ++ [ds].map (·.map toRat) := by simp
    obtain ⟨own, hown, hosum⟩ := ofBatch?_exact (h.debits_own _ hlast) (h.credits_own _ hlast)
    obtain ⟨u, hu, husum⟩ := post?_exact hsum hosum hd hc
    refine ⟨u, ?_, hsplit ▸ husum⟩
    rw [roll?_append, ht, Option.bind_some, roll?_cons, hown, Option.bind_some, hu]
    rfl

theorem roll?_exact_of_fitsAt {s : ℕ} (hs : s ≤ maxScale) {batches : List (List Decimal)}
    (h : FitsAt s (batches.flatten.map toRat)) :
    ∃ t, roll? zero batches = some t ∧ t.SumsTo (batches.flatten.map toRat) := by
  rw [List.map_flatten] at h
  exact roll?_exact (h.exactRoll hs)

/-! ## Below a line of totals -/

/-- batches posted one after the other to a line of running totals -/
def rollAll? (line : List Totals) (batches : List (List Decimal)) : Option (List Totals) :=
  batches.foldlM (fun line ds => (ofBatch? ds).bind (·.postAll? line)) line

theorem rollAll?_nil (line : List Totals) : rollAll? line [] = some line := rfl

theorem rollAll?_cons (line : List Totals) (ds : List Decimal) (bs : List (List Decimal)) :
    rollAll? line (ds :: bs) = ((ofBatch? ds).bind (·.postAll? line)).bind (rollAll? · bs) := rfl

/-- below two running totals each of them rolls on by itself -/
theorem rollAll?_pair (t g : Totals) (bs : List (List Decimal)) :
    rollAll? [t, g] bs = (roll? t bs).bind fun t' => (roll? g bs).map fun g' => [t', g'] := by
  induction bs generalizing t g with
  | nil => rfl
  | cons ds bs ih =>
    rw [rollAll?_cons, roll?_cons, roll?_cons]
    cases ofBatch? ds with
    | none => rfl
    | some own =>
      simp only [Option.bind_some, postAll?, List.mapM_cons, List.mapM_nil]
      cases own.post? t with
      | none => rfl
      | some t₁ =>
        cases own.post? g with
        | none => simp
        | some g₁ => simpa using ih t₁ g₁

end Totals

end LedgerTotals
