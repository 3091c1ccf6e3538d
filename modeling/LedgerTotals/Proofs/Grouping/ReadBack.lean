/-
A grouped page reads back exactly.

A row shows the amount of its transaction with all its digits, and that text is read as the decimal it was written from
(`Amount.ofText_toText`). So a pass over a grouped page adds the very amounts of the transactions, and meets no text
that is not an amount and no total without a place.
-/
import LedgerTotals.Proofs.Amount.Plain
import LedgerTotals.Proofs.Grouping
import LedgerTotals.Proofs.Rollup.Readable

namespace LedgerTotals.Grouping

open Rollup

variable {side : Side} {ts : List Transaction} {c : Category}

theorem ofText_toRow (x : Transaction) : Amount.ofText x.toRow.amount = .ok ⟨x.amount.value, .plain⟩ :=
  Amount.ofText_toText x.amount.value

theorem mem_trees_page {t : Tree} : t ∈ (page ts).trees ↔ ∃ side, t = tree side ts := by
  constructor
  · intro ht
    have htrees : t = tree .imported ts ∨ t = tree .assigned ts := by
      simpa [page, Page.pushTree, Page.empty] using ht
    rcases htrees with rfl | rfl
    · exact ⟨.imported, rfl⟩
    · exact ⟨.assigned, rfl⟩
  · rintro ⟨side, rfl⟩
    cases side <;> simp [page, Page.pushTree, Page.empty]

/-! ## What the rows are read as -/

theorem amountTexts_of_mem_tree (h : c ∈ (tree side ts).categories) :
    c.amountTexts = (ts.filter fun x => x.placement = (side, c.label)).map fun x => x.toRow.amount := by
  rw [Category.amountTexts, rows_of_mem_tree h, rowsFor, List.map_map]
  rfl

theorem readable_tree (side : Side) (ts : List Transaction) : (tree side ts).Readable := by
  intro c hc text htext
  rw [amountTexts_of_mem_tree hc] at htext
  obtain ⟨x, -, rfl⟩ := List.mem_map.1 htext
  rw [isMalformed, ofText_toRow]

theorem decimals_of_mem_tree (h : c ∈ (tree side ts).categories) :
    c.decimals = (ts.filter fun x => x.placement = (side, c.label)).map (·.amount.value) := by
  rw [Category.decimals, amountTexts_of_mem_tree h, List.map_map]
  refine List.map_congr_left fun x _ => ?_
  rw [Function.comp_apply, Amount.valueOf, ofText_toRow]

/-! ## Places for totals -/

theorem hasSinks_page (ts : List Transaction) (names : List String) : (page ts).HasSinks names := by
  refine ⟨rfl, fun t ht => ?_⟩
  obtain ⟨name, -, hfind⟩ := List.mem_filterMap.1 ht
  obtain ⟨side, rfl⟩ := mem_trees_page.1 (List.mem_of_find?_eq_some hfind)
  refine ⟨rfl, fun c hc => ?_⟩
  obtain ⟨g, -, rfl⟩ := List.mem_map.1 hc
  rfl

theorem readable_namedTrees (ts : List Transaction) (names : List String) :
    ∀ t ∈ (page ts).namedTrees names, t.Readable := by
  intro t ht
  obtain ⟨name, -, hfind⟩ := List.mem_filterMap.1 ht
  obtain ⟨side, rfl⟩ := mem_trees_page.1 (List.mem_of_find?_eq_some hfind)
  exact readable_tree side ts

/-! ## The page -/

/-- **A grouped page reads back exactly.** The text of each row is read as the amount of its transaction, with its sign,
mantissa and scale, and these are the numbers that a pass adds. Whatever the names and the options, nothing is reported
but names without a tree and overflows, and the policy for texts that are not amounts makes no difference -/
theorem page_readBack (ts : List Transaction) :
    (∀ x ∈ ts, Amount.ofText x.toRow.amount = .ok ⟨x.amount.value, .plain⟩) ∧
      (∀ t ∈ (page ts).trees, ∃ side : Side, t.name = side.name ∧ ∀ c ∈ t.categories,
        let filed := ts.filter fun x => x.placement = (side, c.label)
        c.rows = filed.map Transaction.toRow ∧ ∀ policy, amounts? policy c = some (filed.map (·.amount.value))) ∧
      ∀ (options : Options) (names : List String),
        (∀ i ∈ (renderPage options (page ts) names).report.issues,
          (∃ name ∈ names, i = .missingTree name) ∨ ∃ name label, i = .overflow name label) ∧
        renderPage { options with malformed := .zero } (page ts) names =
          renderPage { options with malformed := .reject } (page ts) names := by
  refine ⟨fun x _ => ofText_toRow x, fun t ht => ?_, fun options names => ⟨fun i hi => ?_, ?_⟩⟩
  · obtain ⟨side, rfl⟩ := mem_trees_page.1 ht
    refine ⟨side, rfl, fun c hc => ⟨rows_of_mem_tree hc, fun policy => ?_⟩⟩
    rw [amounts?_of_readable (readable_tree side ts c hc), decimals_of_mem_tree hc]
  · rcases of_mem_issues (readable_namedTrees ts names) (hasSinks_page ts names) hi with
      ⟨name, hname, -, rfl⟩ | ⟨x, -, rfl⟩
    · exact .inl ⟨name, hname, rfl⟩
    · exact .inr ⟨x.tree, x.category.label, rfl⟩
  · exact renderPage_policy options (readable_namedTrees ts names) .zero .reject

end LedgerTotals.Grouping
