/-
Which category an issue is about.

An issue names a category by its tree and its label, and who reads the report looks for that label on the page that the
pass leaves behind. Labels are numbered first and categories are visited later, and a name that is listed again has its
tree numbered and visited again; so it is not plain that the label is found there, and found once.

Here is the pass once more, noting for each issue of a category where it came up: the name of the tree and the position
of the category that was being visited (`origins`). Without the notes it is the report (`map_issue_origins`).

- `nodup_labels_renderPage`: after the pass no two categories of a listed tree have one label;
- `quotesFrom_of_mem_treesOrigins`: an issue quotes the label that stands at its position once all labels are numbered;
- `renderPage_origins`: main result. That label still stands there after the pass, and nowhere else in the tree.
-/
import LedgerTotals.Proofs.Rollup.Sites

namespace LedgerTotals

/-- an issue, and where it came up: the name of the tree, and the position of the category that was visited -/
structure Origin where
  tree : String
  index : ℕ
  issue : Issue
  deriving DecidableEq

/-- the labels in the first tree of the name, by their positions -/
def Page.labelsOf? (p : Page) (name : String) : Option (List String) :=
  (p.findTree? name).map fun t => t.categories.map (·.label)

/-- the issue quotes the label that stands at its position on the page -/
def Origin.QuotesFrom (o : Origin) (p : Page) : Prop :=
  ∃ labels label, p.labelsOf? o.tree = some labels ∧ labels[o.index]? = some label ∧
    o.issue.about? = some (o.tree, label)

/-- the category that an issue came up at, in its tree before a pass and after it: it has kept its rows, the issue quotes
the label that it has got, and no other category of the tree has that label -/
structure Origin.Identifies (o : Origin) (t u : Tree) (c d : Category) : Prop where
  before : t.categories[o.index]? = some c
  after : u.categories[o.index]? = some d
  rows : d.rows = c.rows
  quoted : o.issue.about? = some (o.tree, d.label)
  only : ∀ k e, u.categories[k]? = some e → e.label = d.label → k = o.index

theorem Page.labelsOf?_overwriteAll (p : Page) (news : List (String × TreeTexts)) (name : String) :
    (p.overwriteAll news).labelsOf? name = p.labelsOf? name :=
  p.map_findTree?_overwriteAll (fun new t => Category.map_overwriteAll Category.label_overwrite new.categories t.categories)
    news name

namespace Rollup

/-! ## Where issues come up -/

/-- the issues that come up as the categories are visited from position `k` on -/
def visitOrigins (options : Options) (tree : String) : ℕ → List Totals → List Category → List Origin
  | _, _, [] => []
  | k, line, c :: cs =>
    let head := visit options tree line c
    head.report.issues.map (Origin.mk tree k) ++ visitOrigins options tree (k + 1) head.line cs

/-- the issues of categories that come up in the first tree of the name -/
def treeOrigins (options : Options) (page : Page) (grand : Totals) (name : String) : List Origin :=
  match page.findTree? name with
  | none => []
  | some tree => visitOrigins options name 0 [.zero, grand] tree.categories

/-- the issues of categories that come up in one tree after the other -/
def treesOrigins (options : Options) : Page → Totals → List String → List Origin
  | _, _, [] => []
  | page, grand, name :: names =>
    let head := renderTree options page grand name
    treeOrigins options page grand name ++ treesOrigins options head.page (head.line.headD .zero) names

/-- the issues of categories that come up in a pass over a page -/
def origins (options : Options) (page : Page) (names : List String) : List Origin :=
  treesOrigins options (renumberTrees options.renumber page names) .zero names

/-! ## The issues are those of the report -/

theorem map_issue_visitOrigins (options : Options) (tree : String) (k : ℕ) (line : List Totals) (cs : List Category) :
    (visitOrigins options tree k line cs).map Origin.issue = (visitAll options tree line cs).report.issues := by
  induction cs generalizing k line with
  | nil => rfl
  | cons c cs ih => simp [visitOrigins, visitAll, Report.merge, ih, Function.comp_def]

/-- an issue that comes up in a visit is about the category that is visited -/
theorem about?_of_mem_visit {options : Options} {tree : String} {line : List Totals} {c : Category} {i : Issue}
    (hi : i ∈ (visit options tree line c).report.issues) : i.about? = some (tree, c.label) := by
  rw [visit_eq] at hi
  exact Site.about?_of_mem_issues (x := ⟨tree, c, verdict options.malformed line c⟩) hi

theorem map_issue_treeOrigins (options : Options) (page : Page) (grand : Totals) (name : String) :
    (treeOrigins options page grand name).map Origin.issue =
      (renderTree options page grand name).report.issues.filter Issue.isOfCategory := by
  cases hfind : page.findTree? name with
  | none =>
    rw [treeOrigins, hfind, renderTree_of_none options grand hfind]
    rfl
  | some t =>
    obtain rfl : t.name = name := by simpa using List.find?_some hfind
    have htotal : (if t.total.isSome then [] else [Issue.missingSink (some t.name) none]).filter Issue.isOfCategory =
        [] := by
      split_ifs <;> rfl
    simp only [treeOrigins, hfind, map_issue_visitOrigins, visitAll_eq, renderTree_of_some options grand hfind, treeReport,
      Report.merge, Report.ofIssues, List.filter_append, filter_issues_reportAll, htotal, List.nil_append, List.append_nil]

theorem map_issue_treesOrigins (options : Options) (page : Page) (grand : Totals) (names : List String) :
    (treesOrigins options page grand names).map Origin.issue =
      (renderTrees options page grand names).report.issues.filter Issue.isOfCategory := by
  induction names generalizing page grand with
  | nil => rfl
  | cons name names ih =>
    simp only [treesOrigins, renderTrees, Report.merge, List.map_append, List.filter_append, map_issue_treeOrigins, ih]

/-- **Every issue of a category has its origin**, and in their order the origins make up the report -/
theorem map_issue_origins (options : Options) (page : Page) (names : List String) :
    (origins options page names).map Origin.issue =
      (renderPage options page names).report.issues.filter Issue.isOfCategory := by
  have hmissing : ∀ p : Page, (missingGrandTotal p).1.filter Issue.isOfCategory = [] := by
    intro p
    rw [missingGrandTotal]
    split_ifs <;> rfl
  simp only [origins, map_issue_treesOrigins, renderPage, Report.merge, Report.ofIssues, List.filter_append, hmissing,
    List.append_nil]

/-! ## Labels by position -/

/-- the labels that a pass leaves behind are those that it numbers at first -/
theorem labelsOf?_renderPage (options : Options) (page : Page) (names : List String) (name : String) :
    (renderPage options page names).page.labelsOf? name =
      (renumberTrees options.renumber page names).labelsOf? name := by
  obtain ⟨hpage, -, -⟩ := renderPage_eq options page names
  rw [hpage]
  exact Page.labelsOf?_overwriteAll _ _ name

/-- after a pass the labels of a listed tree are distinct, whatever they were before -/
theorem nodup_labels_renderPage (options : Options) (page : Page) {names : List String} {name : String}
    (hname : name ∈ names) {labels : List String}
    (h : (renderPage options page names).page.labelsOf? name = some labels) : labels.Nodup := by
  rw [labelsOf?_renderPage, Page.labelsOf?, Option.map_eq_some_iff] at h
  obtain ⟨t, ht, rfl⟩ := h
  have hnodup := nodup_labels_sequence options.renumber page hname
  rwa [Page.sequence_of_some ht] at hnodup

/-! ## Positions of origins -/

theorem position_of_mem_visitOrigins {options : Options} {tree : String} {k : ℕ} {line : List Totals} {cs : List Category}
    {o : Origin} (ho : o ∈ visitOrigins options tree k line cs) :
    ∃ j c, cs[j]? = some c ∧ o.index = k + j ∧ o.tree = tree ∧ o.issue.about? = some (tree, c.label) := by
  induction cs generalizing k line with
  | nil => cases ho
  | cons c cs ih =>
    rcases List.mem_append.1 ho with ho | ho
    · obtain ⟨i, hi, rfl⟩ := List.mem_map.1 ho
      exact ⟨0, c, rfl, rfl, rfl, about?_of_mem_visit hi⟩
    · obtain ⟨j, d, hd, hindex, htree, habout⟩ := ih ho
      exact ⟨j + 1, d, hd, by omega, htree, habout⟩

theorem quotesFrom_of_mem_treeOrigins {options : Options} {page : Page} {grand : Totals} {name : String} {o : Origin}
    (ho : o ∈ treeOrigins options page grand name) : o.QuotesFrom page ∧ o.tree = name := by
  cases hfind : page.findTree? name with
  | none =>
    rw [treeOrigins, hfind] at ho
    cases ho
  | some t =>
    rw [treeOrigins, hfind] at ho
    obtain ⟨j, c, hc, hindex, htree, habout⟩ := position_of_mem_visitOrigins ho
    rw [Nat.zero_add] at hindex
    refine ⟨⟨t.categories.map (·.label), c.label, ?_, ?_, ?_⟩, htree⟩
    · rw [htree, Page.labelsOf?, hfind, Option.map_some]
    · rw [hindex, List.getElem?_map, hc, Option.map_some]
    · rw [htree, habout]

/-- what is written on the way leaves the labels where they are, so each origin is found on the page from the outset -/
theorem quotesFrom_of_mem_treesOrigins {options : Options} {page : Page} {grand : Totals} {names : List String} {o : Origin}
    (ho : o ∈ treesOrigins options page grand names) : o.QuotesFrom page ∧ o.tree ∈ names := by
  induction names generalizing page grand with
  | nil => cases ho
  | cons name names ih =>
    rcases List.mem_append.1 ho with ho | ho
    · obtain ⟨hquotes, htree⟩ := quotesFrom_of_mem_treeOrigins ho
      exact ⟨hquotes, by simp [htree]⟩
    · obtain ⟨⟨labels, label, hlabels, hlabel, habout⟩, htree⟩ := ih ho
      rw [renderTree_eq] at hlabels
      refine ⟨⟨labels, label, ?_, hlabel, habout⟩, List.mem_cons_of_mem _ htree⟩
      rw [← hlabels]
      exact (Page.labelsOf?_overwriteAll page [_] o.tree).symm

/-! ## The page after the pass -/

/-- **Issues identify their categories.** After a pass the labels within each listed tree are distinct. Every issue of a
category has an origin, and in the first tree of the name that it quotes, the category it came up at is the one with the
label that it quotes -/
theorem renderPage_origins (options : Options) (page : Page) (names : List String) :
    let out := renderPage options page names
    (∀ name ∈ names, ∀ t, out.page.findTree? name = some t → (t.categories.map (·.label)).Nodup) ∧
      (origins options page names).map Origin.issue = out.report.issues.filter Issue.isOfCategory ∧
      ∀ o ∈ origins options page names, ∃ t u c d, page.findTree? o.tree = some t ∧
        out.page.findTree? o.tree = some u ∧ o.Identifies t u c d := by
  intro out
  have hlabels : ∀ {name t}, out.page.findTree? name = some t →
      out.page.labelsOf? name = some (t.categories.map (·.label)) := by
    intro name t ht
    rw [Page.labelsOf?, ht, Option.map_some]
  refine ⟨?_, map_issue_origins options page names, ?_⟩
  · intro name hname t ht
    exact nodup_labels_renderPage options page hname (hlabels ht)
  · intro o ho
    obtain ⟨⟨labels, label, hfound, hlabel, habout⟩, htree⟩ := quotesFrom_of_mem_treesOrigins ho
    rw [← labelsOf?_renderPage] at hfound
    have hnodup := nodup_labels_renderPage options page htree hfound
    obtain ⟨u, hu, rfl⟩ := Option.map_eq_some_iff.1 hfound
    obtain ⟨d, hd, rfl⟩ := Option.map_eq_some_iff.1 ((List.getElem?_map ..).symm.trans hlabel)
    obtain ⟨t, ht, rfl⟩ := Option.map_eq_some_iff.1 ((findTree?_renderPage options page names o.tree).symm.trans hu)
    obtain ⟨c, hc, rfl⟩ := Option.map_eq_some_iff.1 ((getElem?_rendered options page names t o.index).symm.trans hd)
    refine ⟨t, _, c, _, ht, hu, hc, hd, rfl, habout, ?_⟩
    intro k e he hsame
    have hlt := (List.getElem?_eq_some_iff.1 hlabel).1
    have hboth : ((rendered options page names t).categories.map (·.label))[o.index]? =
        ((rendered options page names t).categories.map (·.label))[k]? := by
      rw [hlabel, List.getElem?_map, he, Option.map_some, hsame]
    exact ((List.getElem?_inj hlt hnodup).1 hboth).symm

/-- labels that are one once their numbers are gone, in a tree that is listed twice -/
example :
    let page := Page.empty.pushTree (.new importedName [.new "2.Notes" [.ofAmount "n/a"], .new "1.Notes" [.ofAmount "-"]])
    (origins ⟨.replace, .zero, .plain⟩ page [importedName, importedName]).map (fun o => (o.index, o.issue)) =
      [(0, .malformedAmount importedName "1.Notes" "n/a"), (1, .malformedAmount importedName "2.Notes" "-"),
        (0, .malformedAmount importedName "1.Notes" "n/a"), (1, .malformedAmount importedName "2.Notes" "-")] := by
  decide +kernel

end Rollup

end LedgerTotals
