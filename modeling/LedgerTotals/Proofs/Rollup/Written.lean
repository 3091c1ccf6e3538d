/-
What a pass writes, place by place.

`writes` tells for each place of a page the texts that a pass has for it; a place without them is left alone. It looks
at the page through its stages and through the names of its trees alone, so not at any text that is written over.

- `sinksAt_renderPage`: every place of the rendered page holds what is written there, over what it held before.
-/
import LedgerTotals.Proofs.Rollup.Stages

namespace LedgerTotals.Rollup

open Page

/-- the texts that a pass writes at a place, if it writes there -/
def writes (options : Options) (page : Page) (names : List String) : Slot → Option Sinks
  | .page => some ((afterAll (allVerdicts (pageStages options page names)) .zero).sinks options.format)
  | .tree i => (page.leads? i).bind fun name =>
    (stagesOf (pageStages options page names) name).getLast?.map fun s =>
      (afterAll s.verdicts .zero).sinks options.format
  | .category i k => (page.leads? i).bind fun name =>
    newTexts options.format (stagesOf (pageStages options page names) name) k

/-- **What stands in a rendered page**: at each place the texts that are written there, else those from before -/
theorem sinksAt_renderPage (options : Options) (page : Page) (names : List String) (x : Slot) :
    (renderPage options page names).page.sinksAt x =
      Sinks.overwrite (writes options page names x) (page.sinksAt x) := by
  have htree : ∀ (i : ℕ) t, page.trees[i]? = some t → (renderPage options page names).page.trees[i]? =
      some (if page.indexOf? t.name = some i then rendered options page names t else t) := by
    intro i t ht
    rw [getElem?_renderPage, ht, Option.map_some]
  have hnone : ∀ i : ℕ, page.trees[i]? = none → (renderPage options page names).page.trees[i]? = none := by
    intro i hi
    rw [getElem?_renderPage, hi, Option.map_none]
  cases x with
  | page => exact grandTotal_renderPage options page names
  | tree i =>
    simp only [sinksAt, writes, leads?]
    cases ht : page.trees[i]? with
    | none =>
      rw [hnone i ht]
      rfl
    | some t =>
      rw [htree i t ht, Option.map_some, Option.bind_some, Option.bind_some]
      by_cases hfirst : page.indexOf? t.name = some i
      · rw [if_pos hfirst, Option.filter_some_pos (by simpa using hfirst), Option.bind_some, rendered, total_written,
          total_iterate_renumberTree]
      · rw [if_neg hfirst, Option.filter_some_neg (by simpa using hfirst), Option.bind_none, Sinks.overwrite_none]
  | category i k =>
    simp only [sinksAt, writes, leads?]
    cases ht : page.trees[i]? with
    | none =>
      rw [hnone i ht]
      rfl
    | some t =>
      rw [htree i t ht, Option.map_some, Option.bind_some, Option.bind_some]
      by_cases hfirst : page.indexOf? t.name = some i
      · rw [if_pos hfirst, Option.filter_some_pos (by simpa using hfirst), Option.bind_some, getElem?_rendered]
        cases t.categories[k]? <;> rfl
      · rw [if_neg hfirst, Option.filter_some_neg (by simpa using hfirst), Option.bind_none, Sinks.overwrite_none]

end LedgerTotals.Rollup
