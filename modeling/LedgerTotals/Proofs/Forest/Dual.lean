/-
Debit and credit are dual, over whole histories.

Two histories that differ in the sign of every amount build forests of one shape, in which the totals of each account
are dual (`Dual`). Every operation keeps that, whether it goes through or stops, and it goes through in both or in
neither: overflow and rounding look at sizes alone. Main result: `run_negated`.
-/
import LedgerTotals.Proofs.Forest.Order
import LedgerTotals.Proofs.Totals.Dual

namespace LedgerTotals

namespace Forest

open Totals

/-! ## Histories with the signs turned around -/

/-- the operation with the sign of every amount turned around -/
def Step.negated : Step → Step
  | .root => .root
  | .child i => .child i
  | .post i amounts => .post i (amounts.map Decimal.neg)

theorem Step.negated_negated (s : Step) : s.negated.negated = s := by
  cases s with
  | root => rfl
  | child i => rfl
  | post i amounts => simp [negated, Decimal.involutive_neg.comp_self]

/-- which operations of a history go through -/
def outcomes (f : Forest) : List Step → List Bool
  | [] => []
  | s :: steps => (f.step? s).isSome :: outcomes (f.step s) steps

/-! ## Dual forests -/

/-- the accounts stand above each other in the same way, and their totals are dual -/
structure Dual (f g : Forest) : Prop where
  left : WellFormed f
  right : WellFormed g
  ancestors : f.accounts.map (·.ancestors) = g.accounts.map (·.ancestors)
  totals : ∀ j, (f.totalsAt j).Dual (g.totalsAt j)

theorem dual_empty : Dual empty empty := ⟨wellFormed_empty, wellFormed_empty, rfl, fun _ => dual_zero⟩

theorem Dual.symm {f g : Forest} (h : Dual f g) : Dual g f :=
  ⟨h.right, h.left, h.ancestors.symm, fun j => (h.totals j).symm⟩

theorem line_of_ancestors {f g : Forest} (h : f.accounts.map (·.ancestors) = g.accounts.map (·.ancestors)) (i : ℕ) :
    f.line i = g.line i := by
  have hline : ∀ k : Forest, k.line i = ((k.accounts.map (·.ancestors))[i]?.map (i :: ·)).getD [] := by
    intro k
    rw [line, account?, List.getElem?_map]
    cases k.accounts[i]? <;> rfl
  rw [hline, hline, h]

theorem Dual.append {f g : Forest} (h : Dual f g) {a b : Account} (ha : a.totals = .zero) (hb : b.totals = .zero)
    (hsame : a.ancestors = b.ancestors) (hanc : a.ancestors = [] ∨ ∃ p, a.ancestors = f.line p) :
    Dual ⟨f.accounts ++ [a]⟩ ⟨g.accounts ++ [b]⟩ := by
  refine ⟨h.left.append hanc, h.right.append ?_, ?_, fun j => ?_⟩
  · rw [← hsame]
    exact hanc.imp_right fun ⟨p, hp⟩ => ⟨p, hp.trans (line_of_ancestors h.ancestors p)⟩
  · rw [List.map_append, List.map_append, h.ancestors, List.map_singleton, List.map_singleton, hsame]
  · rw [totalsAt_new ha, totalsAt_new hb]
    exact h.totals j

/-- a posting that goes through goes through with the signs turned around, at every account of the line -/
theorem Dual.post {f g f' : Forest} (h : Dual f g) {i : ℕ} {amounts : List Decimal} (hf : f.post? i amounts = some f') :
    ∃ g', g.post? i (amounts.map Decimal.neg) = some g' ∧ Dual f' g' := by
  have hline := line_of_ancestors h.ancestors i
  obtain ⟨batch, hbatch, hon, hoff⟩ := totals_of_post? h.left hf
  obtain ⟨batch', hbatch', hdual⟩ := Dual.ofBatch? hbatch
  have hsome : (g.post? i (amounts.map Decimal.neg)).isSome := by
    refine post?_isSome_iff.2 ⟨batch', hbatch', fun j hj => ?_⟩
    rw [← hline] at hj
    obtain ⟨u, hu, -⟩ := (h.totals j).post? hdual (hon j hj)
    rw [hu, Option.isSome_some]
  obtain ⟨g', hg⟩ := Option.isSome_iff_exists.1 hsome
  refine ⟨g', hg, ?_⟩
  obtain ⟨batch'', hbatch'', hon', hoff'⟩ := totals_of_post? h.right hg
  obtain rfl := Option.some.inj (hbatch'.symm.trans hbatch'')
  obtain ⟨_, totals, -, -, rfl⟩ := post?_eq_some_iff.1 hf
  obtain ⟨_, totals', -, -, rfl⟩ := post?_eq_some_iff.1 hg
  refine ⟨h.left.setTotals _ _, h.right.setTotals _ _, ?_, fun j => ?_⟩
  · rw [ancestors_setTotals, ancestors_setTotals, h.ancestors]
  · by_cases hj : j ∈ f.line i
    · obtain ⟨u, hu, hdual'⟩ := (h.totals j).post? hdual (hon j hj)
      rw [← Option.some.inj ((hon' j (hline ▸ hj)).symm.trans hu)] at hdual'
      exact hdual'
    · -- an account off the line is what it was
      unfold totalsAt
      rw [hoff j hj, hoff' j (hline ▸ hj)]
      exact h.totals j

/-- an operation that goes through goes through with the signs turned around -/
theorem Dual.step? {f g f' : Forest} (h : Dual f g) {s : Step} (hf : f.step? s = some f') :
    ∃ g', g.step? s.negated = some g' ∧ Dual f' g' := by
  cases s with
  | root =>
    obtain rfl := Option.some.inj hf
    exact ⟨_, rfl, h.append rfl rfl rfl (.inl rfl)⟩
  | child p =>
    obtain rfl := Option.some.inj hf
    exact ⟨_, rfl, h.append rfl rfl (line_of_ancestors h.ancestors p) (.inr ⟨p, rfl⟩)⟩
  | post i amounts => exact h.post hf

theorem Dual.isSome_step? {f g : Forest} (h : Dual f g) (s : Step) :
    (g.step? s.negated).isSome = (f.step? s).isSome := by
  rw [Bool.eq_iff_iff, Option.isSome_iff_exists, Option.isSome_iff_exists]
  constructor
  · rintro ⟨g', hg⟩
    obtain ⟨f', hf, -⟩ := h.symm.step? hg
    exact ⟨f', s.negated_negated ▸ hf⟩
  · rintro ⟨f', hf⟩
    obtain ⟨g', hg, -⟩ := h.step? hf
    exact ⟨g', hg⟩

/-- one operation, whether it goes through or stops -/
theorem Dual.step {f g : Forest} (h : Dual f g) (s : Step) : Dual (f.step s) (g.step s.negated) := by
  rw [step_eq, step_eq]
  cases hf : f.step? s with
  | none =>
    have hg : g.step? s.negated = none := by
      rw [← Option.isNone_iff_eq_none, ← Option.not_isSome, h.isSome_step?, hf, Option.isSome_none, Bool.not_false]
    rw [hg]
    exact h
  | some f' =>
    obtain ⟨g', hg, hdual⟩ := h.step? hf
    rw [hg]
    exact hdual

theorem Dual.run {f g : Forest} (h : Dual f g) (steps : List Step) :
    Dual (f.run steps) (g.run (steps.map Step.negated)) := by
  induction steps generalizing f g with
  | nil => exact h
  | cons s steps ih => exact ih (h.step s)

theorem Dual.outcomes_eq {f g : Forest} (h : Dual f g) (steps : List Step) :
    g.outcomes (steps.map Step.negated) = f.outcomes steps := by
  induction steps generalizing f g with
  | nil => rfl
  | cons s steps ih =>
    rw [List.map_cons, outcomes, outcomes, h.isSome_step?, ih (h.step s)]

/-! ## Main result -/

/-- the totals `u` mirror `t`: the sides are exchanged, two zeros apart that may be spelled differently, the balance is
there in both and is the negated number, and the texts are mirrored in every format -/
structure Mirrored (t u : Totals) : Prop where
  debit : u.debit.Alike t.credit
  credit : u.credit.Alike t.debit
  balance : t.debit.sub? t.credit = some t.balance ∧ u.debit.sub? u.credit = some u.balance ∧
    u.balance.toRat = -t.balance.toRat
  sinks : ∀ format, u.sinks format = (t.sinks format).mirrored format

/-- **Debit and credit are dual.** In the history with the sign of every amount turned around the same operations go
through, the accounts stand above each other in the same way, and the totals of every account are mirrored, whatever is
rounded and whatever stops on the way -/
theorem run_negated (steps : List Step) :
    empty.outcomes (steps.map Step.negated) = empty.outcomes steps ∧
      (empty.run (steps.map Step.negated)).accounts.map (·.ancestors) = (empty.run steps).accounts.map (·.ancestors) ∧
      ∀ j, Mirrored ((empty.run steps).totalsAt j) ((empty.run (steps.map Step.negated)).totalsAt j) := by
  have hdual := dual_empty.run steps
  have hleft : ∀ j, ((empty.run steps).totalsAt j).Unsigned := (layered_empty.run steps).unsigned
  have hright : ∀ j, ((empty.run (steps.map Step.negated)).totalsAt j).Unsigned :=
    (layered_empty.run (steps.map Step.negated)).unsigned
  refine ⟨dual_empty.outcomes_eq steps, hdual.ancestors.symm, fun j => ?_⟩
  have htotals := hdual.totals j
  exact ⟨htotals.symm.debit, htotals.symm.credit, ⟨(hleft j).sub?_eq, (hright j).sub?_eq, htotals.toRat_balance⟩,
    htotals.sinks_eq⟩

/-- a root with nearly all that a decimal holds, in credit; a second posting is rounded, a third stops, and zeros of
either sign are posted below it -/
example : empty.outcomes [.root, .child 0,
    .post 0 [⟨true, Decimal.capacity - 1, 1, Decimal.capacity_pred_lt, Decimal.one_le_maxScale⟩],
    .post 1 [⟨true, 5, 2, by decide, Decimal.two_le_maxScale⟩, ⟨true, 0, 1, by decide, Decimal.one_le_maxScale⟩],
    .post 0 [⟨true, Decimal.capacity - 1, 0, Decimal.capacity_pred_lt, Nat.zero_le _⟩]] =
    [true, true, true, true, false] := by
  decide +kernel

end Forest

end LedgerTotals
