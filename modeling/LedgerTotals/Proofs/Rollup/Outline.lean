/-
A report under other labels.

The outline of a page keeps the names of the trees, the amount texts and the places for totals, with labels of one's own
choice, and nothing else: no row id, date or description, and no text in a sink (`Page.outline`). A report with these
labels in its issues says what a report on the outline says (`Stage.relabel_report`).

- `treeReport_outline`: the same for the report on one tree;
- `outline_renumberTree`: a choice of labels that forgets the numbers in front sees no renumbering.
-/
import LedgerTotals.Proofs.Numbering
import LedgerTotals.Proofs.Rollup.Stages

namespace LedgerTotals

/-! ## Outlines -/

def Row.bare (r : Row) : Row := .ofAmount r.amount

def Sinks.bare (s : Option Sinks) : Option Sinks := s.map fun _ => .empty

/-- the amounts of the category under a label of choice, and whether it has sinks -/
def Category.outline (f : String → String) (c : Category) : Category :=
  ⟨f c.label, c.rows.map Row.bare, Sinks.bare c.totals⟩

/-- the name of the tree, the outlines of its categories, and whether it has sinks -/
def Tree.outline (f : String → String) (t : Tree) : Tree :=
  ⟨t.name, Sinks.bare t.total, t.categories.map (Category.outline f)⟩

def Page.outline (f : String → String) (p : Page) : Page := ⟨p.trees.map (Tree.outline f), Sinks.bare p.grandTotal⟩

theorem Sinks.isSome_bare (s : Option Sinks) : (bare s).isSome = s.isSome := Option.isSome_map

theorem Category.amountTexts_outline (f : String → String) (c : Category) :
    (c.outline f).amountTexts = c.amountTexts := by
  simp [outline, amountTexts, Row.bare, Row.ofAmount]

theorem Page.findTree?_outline (f : String → String) (p : Page) (name : String) :
    (p.outline f).findTree? name = (p.findTree? name).map (Tree.outline f) := List.find?_map ..

/-! ## Labels in reports -/

def Issue.relabel (f : String → String) : Issue → Issue
  | .missingTree tree => .missingTree tree
  | .malformedAmount tree label text => .malformedAmount tree (f label) text
  | .overflow tree label => .overflow tree (f label)
  | .missingSink tree label => .missingSink tree (label.map f)

namespace Report

def relabel (f : String → String) (r : Report) : Report := { r with issues := r.issues.map (Issue.relabel f) }

theorem relabel_merge (f : String → String) (a b : Report) :
    (a.merge b).relabel f = (a.relabel f).merge (b.relabel f) := by
  simp [relabel, merge]

theorem relabel_foldr (f : String → String) (rs : List Report) :
    (rs.foldr merge empty).relabel f = (rs.map (relabel f)).foldr merge empty := by
  induction rs with
  | nil => rfl
  | cons r rs ih => rw [List.foldr_cons, relabel_merge, ih, List.map_cons, List.foldr_cons]

end Report

namespace Rollup

/-- under another label a category is reported like its outline -/
theorem Verdict.relabel_report (f : String → String) (tree : String) (c : Category) (v : Verdict) :
    (v.report tree c).relabel f = v.report tree (c.outline f) := by
  have hmalformed : (malformedIssues tree c).map (Issue.relabel f) = malformedIssues tree (c.outline f) := by
    rw [malformedIssues, malformedIssues, c.amountTexts_outline, List.map_map]
    rfl
  have hsinks : (c.outline f).totals.isSome = c.totals.isSome := Sinks.isSome_bare c.totals
  have hrows : (c.outline f).rows.length = c.rows.length := List.length_map ..
  have hlabel : (c.outline f).label = f c.label := rfl
  cases v with
  | rejected => simp [Report.relabel, report, rendered, added, issues, hmalformed]
  | overflow => simp [Report.relabel, report, rendered, added, issues, hmalformed, Issue.relabel, hlabel]
  | taken own =>
    cases htotals : c.totals.isSome <;>
      simp [Report.relabel, report, rendered, added, issues, hmalformed, hsinks, hrows, htotals, Issue.relabel, hlabel]

theorem treeReport_outline (f : String → String) (t : Tree) (vs : List Verdict) :
    (treeReport t vs).relabel f = treeReport (t.outline f) vs := by
  have hcategories : (reportAll t.name t.categories vs).relabel f =
      reportAll t.name (t.categories.map (Category.outline f)) vs := by
    rw [reportAll, reportAll, Report.relabel_foldr, List.map_zipWith, List.zipWith_map_left]
    simp only [Verdict.relabel_report]
  have htotal : (t.outline f).total.isSome = t.total.isSome := Sinks.isSome_bare t.total
  rw [treeReport, treeReport, Report.relabel_merge, Report.relabel_merge, hcategories, htotal]
  cases t.total.isSome <;> rfl

/-- **A report under other labels** is a report on the outline -/
theorem Stage.relabel_report (f : String → String) (page : Page) (s : Stage) :
    (s.report page).relabel f = s.report (page.outline f) := by
  have hfind := page.findTree?_outline f s.name
  rw [report, report, hfind]
  cases page.findTree? s.name with
  | none => rfl
  | some t => exact treeReport_outline f t s.verdicts

/-- no label is in the issue about the grand total -/
theorem relabel_missingGrandTotal (f : String → String) (page : Page) :
    (Report.ofIssues (missingGrandTotal page).1).relabel f = .ofIssues (missingGrandTotal page).1 := by
  rw [missingGrandTotal]
  split_ifs <;> rfl

/-! ## Numbers in front of labels -/

/-- a choice of labels that forgets the numbers in front sees no renumbering -/
theorem outline_renumberTree {mode : RenumberMode} {f g : String → String}
    (h : ∀ (k : ℕ) label, f (Numbering.numbered mode k label) = g label) (t : Tree) :
    (Numbering.renumberTree mode t).outline f = t.outline g := by
  have hcategories : (Numbering.renumberAll mode t.categories).map (Category.outline f) =
      t.categories.map (Category.outline g) := by
    refine List.ext_getElem? fun k => ?_
    rw [Numbering.renumberAll, List.getElem?_map, List.getElem?_mapIdx, List.getElem?_map, Option.map_map]
    refine congrArg (fun m => t.categories[k]?.map m) (funext fun c => ?_)
    simp only [Function.comp_apply, Category.outline, h]
  simp only [Tree.outline, Numbering.renumberTree, hcategories]

end Rollup

end LedgerTotals
