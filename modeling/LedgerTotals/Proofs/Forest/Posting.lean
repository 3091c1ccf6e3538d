/-
What posting a batch does to a forest.

Posting either goes through at every account from the one named up to the root, or changes nothing at all.

- `post?_isSome_iff`: it goes through if the batch can be summed and every account on the way can take it;
- `totals_of_post?`: if it goes through, each of those accounts has the batch added and all others are as before.

Main result: `post_all_or_nothing`, which says both of every forest that operations can build.
-/
import LedgerTotals.Proofs.Forest.Shape

namespace LedgerTotals

/-! ## Looking up by key -/

/-- a key finds a value that stands against it -/
theorem lookup_zip_of_forall₂ {α β : Type} [BEq α] [LawfulBEq α] {R : α → β → Prop} {l : List α} {r : List β}
    (h : List.Forall₂ R l r) {a : α} (ha : a ∈ l) : ∃ b, (l.zip r).lookup a = some b ∧ R a b := by
  induction h with
  | nil => simp at ha
  | @cons a' b' l r hR _ ih =>
    rw [List.zip_cons_cons, List.lookup_cons]
    cases hbeq : a == a'
    · have hne : a ≠ a' := fun heq => by simp [heq] at hbeq
      exact ih ((List.mem_cons.1 ha).resolve_left hne)
    · exact ⟨b', rfl, eq_of_beq hbeq ▸ hR⟩

theorem lookup_zip_of_not_mem {α β : Type} [BEq α] [LawfulBEq α] {l : List α} {r : List β} {a : α} (ha : a ∉ l) :
    (l.zip r).lookup a = none := by
  rw [List.lookup_eq_none_iff]
  rintro ⟨a', b⟩ hmem
  have hne : a ≠ a' := fun heq => ha (heq ▸ (List.of_mem_zip hmem).1)
  simpa using hne

namespace Forest

/-! ## One posting -/

theorem postAll?_lineTotals {f : Forest} {i : ℕ} {batch : Totals} {totals : List Totals} :
    Totals.postAll? batch (f.lineTotals i) = some totals ↔
      List.Forall₂ (fun j t => batch.post? (f.totalsAt j) = some t) (f.line i) totals := by
  rw [Totals.postAll?, mapM_eq_some_iff, lineTotals, List.forall₂_map_left_iff]

/-- a posting goes through if the batch can be summed and every account on the way up can take it -/
theorem post?_isSome_iff {f : Forest} {i : ℕ} {amounts : List Decimal} :
    (f.post? i amounts).isSome ↔ ∃ batch, Totals.ofBatch? amounts = some batch ∧
      ∀ j ∈ f.line i, (batch.post? (f.totalsAt j)).isSome := by
  constructor
  · intro h
    obtain ⟨g, hg⟩ := Option.isSome_iff_exists.1 h
    obtain ⟨batch, totals, hbatch, htotals, -⟩ := post?_eq_some_iff.1 hg
    refine ⟨batch, hbatch, fun j hj => ?_⟩
    obtain ⟨t, -, ht⟩ := lookup_zip_of_forall₂ (postAll?_lineTotals.1 htotals) hj
    exact Option.isSome_iff_exists.2 ⟨t, ht⟩
  · rintro ⟨batch, hbatch, hline⟩
    have hforall : List.Forall₂ (fun j t => batch.post? (f.totalsAt j) = some t) (f.line i)
        ((f.line i).map fun j => (batch.post? (f.totalsAt j)).getD .zero) := by
      rw [List.forall₂_map_right_iff, List.forall₂_same]
      intro j hj
      obtain ⟨t, ht⟩ := Option.isSome_iff_exists.1 (hline j hj)
      rw [ht, Option.getD_some]
    exact Option.isSome_iff_exists.2 ⟨_, post?_eq_some_iff.2 ⟨batch, _, hbatch, postAll?_lineTotals.2 hforall, rfl⟩⟩

/-- after a posting that goes through, the accounts on the way up have the batch added and no other is touched -/
theorem totals_of_post? {f g : Forest} (hf : WellFormed f) {i : ℕ} {amounts : List Decimal}
    (h : f.post? i amounts = some g) : ∃ batch, Totals.ofBatch? amounts = some batch ∧
      (∀ j ∈ f.line i, batch.post? (f.totalsAt j) = some (g.totalsAt j)) ∧
      ∀ j ∉ f.line i, g.account? j = f.account? j := by
  obtain ⟨batch, totals, hbatch, htotals, rfl⟩ := post?_eq_some_iff.1 h
  refine ⟨batch, hbatch, fun j hj => ?_, fun j hj => ?_⟩
  · obtain ⟨t, hlookup, ht⟩ := lookup_zip_of_forall₂ (postAll?_lineTotals.1 htotals) hj
    obtain ⟨a, ha⟩ := account?_isSome (hf.line_lt hj)
    have hnew : (f.setTotals (f.line i) totals).account? j = some { a with totals := t } := by
      rw [account?_setTotals, ha, Option.map_some, hlookup, Option.getD_some]
    rw [ht, totalsAt_of_account? hnew]
  · rw [account?_setTotals, lookup_zip_of_not_mem hj]
    simp

theorem step_of_post? {f g : Forest} {i : ℕ} {amounts : List Decimal} (h : f.post? i amounts = some g) :
    f.step (.post i amounts) = g := by
  rw [step, posted_snd, h, Option.getD_some]

/-! ## All or nothing -/

/-- **Posting is all or nothing.** In every reachable forest, posting a batch to account i goes through exactly if the
debits and the credits of the batch can each be summed from zero and both sums can be added, on the right, to the
running totals of i and of every account above it. If it goes through, those additions are the new totals of these
accounts, and every other account is left as before. If it stops, every account is left as before. -/
theorem post_all_or_nothing (f : Forest) (hf : f.Reachable) (i : ℕ) (amounts : List Decimal) :
    ((f.posted i amounts).1.isOk ↔ ∃ debit credit, Decimal.sum? (Totals.debits amounts) = some debit ∧
      Decimal.sum? (Totals.credits amounts) = some credit ∧ ∀ j, f.AtOrAbove i j →
        ((f.totalsAt j).debit.add? debit).isSome ∧ ((f.totalsAt j).credit.add? credit).isSome) ∧
    ((f.posted i amounts).1.isOk →
      ∃ debit credit, Decimal.sum? (Totals.debits amounts) = some debit ∧
        Decimal.sum? (Totals.credits amounts) = some credit ∧
        (∀ j, f.AtOrAbove i j →
          (f.totalsAt j).debit.add? debit = some ((f.posted i amounts).2.totalsAt j).debit ∧
          (f.totalsAt j).credit.add? credit = some ((f.posted i amounts).2.totalsAt j).credit) ∧
        ∀ j, ¬ f.AtOrAbove i j → (f.posted i amounts).2.account? j = f.account? j) ∧
    (¬ (f.posted i amounts).1.isOk → ∀ j, (f.posted i amounts).2.account? j = f.account? j) := by
  have hw := hf.wellFormed
  rw [posted_isOk, posted_snd]
  refine ⟨?_, fun hok => ?_, fun hstop j => ?_⟩
  · rw [post?_isSome_iff]
    constructor
    · rintro ⟨batch, hbatch, hline⟩
      obtain ⟨hd, hc⟩ := Totals.ofBatch?_eq_some_iff.1 hbatch
      refine ⟨batch.debit, batch.credit, hd, hc, fun j hj => ?_⟩
      obtain ⟨t, ht⟩ := Option.isSome_iff_exists.1 (hline j (hw.mem_line_iff.2 hj))
      obtain ⟨htd, htc⟩ := Totals.post?_eq_some_iff.1 ht
      simp [htd, htc]
    · rintro ⟨debit, credit, hd, hc, hline⟩
      refine ⟨⟨debit, credit⟩, Totals.ofBatch?_eq_some_iff.2 ⟨hd, hc⟩, fun j hj => ?_⟩
      obtain ⟨hjd, hjc⟩ := hline j (hw.mem_line_iff.1 hj)
      obtain ⟨d, hd'⟩ := Option.isSome_iff_exists.1 hjd
      obtain ⟨c, hc'⟩ := Option.isSome_iff_exists.1 hjc
      exact Option.isSome_iff_exists.2 ⟨⟨d, c⟩, Totals.post?_eq_some_iff.2 ⟨hd', hc'⟩⟩
  · obtain ⟨g, hg⟩ := Option.isSome_iff_exists.1 hok
    obtain ⟨batch, hbatch, hon, hoff⟩ := totals_of_post? hw hg
    obtain ⟨hd, hc⟩ := Totals.ofBatch?_eq_some_iff.1 hbatch
    rw [hg, Option.getD_some]
    exact ⟨batch.debit, batch.credit, hd, hc,
      fun j hj => Totals.post?_eq_some_iff.1 (hon j (hw.mem_line_iff.2 hj)),
      fun j hj => hoff j fun hmem => hj (hw.mem_line_iff.1 hmem)⟩
  · rw [Option.not_isSome_iff_eq_none.1 hstop, Option.getD_none]

/-- a root and two accounts below it, one of which has taken all that a decimal holds -/
def crowded : Forest :=
  empty.run [.root, .child 0, .child 0,
    .post 1 [⟨false, Decimal.capacity - 1, 0, Decimal.capacity_pred_lt, Nat.zero_le _⟩]]

theorem post_all_or_nothing_crowded :
    crowded.Reachable ∧ ¬ (crowded.posted 2 [⟨false, 1, 0, by decide, by decide⟩]).1.isOk ∧
      ∀ j, (crowded.posted 2 [⟨false, 1, 0, by decide, by decide⟩]).2.account? j = crowded.account? j := by
  have hreach : crowded.Reachable := ⟨_, rfl⟩
  have hstop : ¬ (crowded.posted 2 [⟨false, 1, 0, by decide, by decide⟩]).1.isOk := by decide +kernel
  exact ⟨hreach, hstop, (post_all_or_nothing crowded hreach 2 _).2.2 hstop⟩

end Forest

end LedgerTotals
