/-
To count what is not a number as zero is to write a zero in its place.

A page is mended by writing `0` for every text under the names that is not an amount (`Page.mended`). The pass over a
page under the policy of zeros, and the pass over the mended page under either policy, come to the same labels and texts;
the reports are the same but for the issues about such texts, of which the second has none (`renderPage_mended`).

- `amounts?_mended`: the texts of a mended category count as the numbers that they counted as before, so the verdicts on
  it are the same, and with them the stages (`stages_mended`);
- `rendered_mended`, `Stage.report_mended`: to mend commutes with what a pass writes and with what it reports.
-/
import LedgerTotals.Proofs.Rollup.Accounting
import LedgerTotals.Proofs.Rollup.Written

namespace LedgerTotals

/-! ## Mended pages -/

/-- the row with `0` for its amount if that is not an amount -/
def Row.mended (r : Row) : Row := if Rollup.isMalformed r.amount then { r with amount := "0" } else r

def Category.mended (c : Category) : Category := { c with rows := c.rows.map Row.mended }

def Tree.mended (t : Tree) : Tree := { t with categories := t.categories.map Category.mended }

/-- the page with the trees mended that the names stand for -/
def Page.mended (p : Page) (names : List String) : Page := p.updateTrees (names.map fun name => (name, Tree.mended))

/-- the report without the issues about texts that are not amounts -/
def Report.withoutMalformed (r : Report) : Report := { r with issues := r.issues.filter (! ·.isMalformedAmount) }

namespace Rollup

/-! ## Rows -/

theorem isMalformed_mended (r : Row) : isMalformed r.mended.amount = false := by
  have hzero : isMalformed "0" = false := by decide +kernel
  unfold Row.mended
  split_ifs with h
  · exact hzero
  · exact Bool.eq_false_iff.2 h

/-- under either policy a mended row counts as the row does where what is not an amount counts as zero -/
theorem counted?_mended (policy : MalformedPolicy) (r : Row) :
    counted? policy r.mended.amount = counted? .zero r.amount := by
  have hzero : counted? policy "0" = some .zero := by cases policy <;> decide +kernel
  cases h : Amount.ofText r.amount with
  | error e =>
    have hmalformed : isMalformed r.amount = true := by rw [isMalformed, h]
    rw [Row.mended, if_pos hmalformed, hzero]
    simp only [counted?, h]
  | ok a =>
    have hread : ¬ isMalformed r.amount = true := by simp [isMalformed, h]
    rw [Row.mended, if_neg hread]
    simp only [counted?, h]

end Rollup

theorem Row.mended_mended (r : Row) : r.mended.mended = r.mended := by
  rw [mended, Rollup.isMalformed_mended]
  rfl

/-! ## Categories -/

theorem Category.mended_mended (c : Category) : c.mended.mended = c.mended := by
  simp [mended, Row.mended_mended]

namespace Rollup

theorem amounts?_mended (policy : MalformedPolicy) (c : Category) : amounts? policy c.mended = amounts? .zero c := by
  have hrows : (fun r : Row => counted? policy r.mended.amount) = fun r => counted? .zero r.amount :=
    funext fun r => counted?_mended policy r
  simp only [amounts?, Category.amountTexts, Category.mended, List.map_map, List.mapM_map, Function.comp_def, hrows]

theorem malformedIssues_mended (tree : String) (c : Category) : malformedIssues tree c.mended = [] := by
  have hnone : c.mended.amountTexts.filter isMalformed = [] := by
    simp [Category.amountTexts, Category.mended, isMalformed_mended]
  rw [malformedIssues, hnone, List.map_nil]

/-- of a mended category is reported what was reported before, save for the texts that were not amounts -/
theorem Verdict.issues_mended (tree : String) (c : Category) (v : Verdict) :
    v.issues tree c.mended = (v.issues tree c).filter (! ·.isMalformedAmount) := by
  have hnone := malformedIssues_mended tree c
  have hfilter : (malformedIssues tree c).filter (! ·.isMalformedAmount) = [] := by
    refine List.filter_eq_nil_iff.2 fun i hi => ?_
    obtain ⟨text, -, rfl⟩ := List.mem_map.1 hi
    exact Bool.false_ne_true
  cases v with
  | rejected => exact hnone.trans hfilter.symm
  | overflow =>
    rw [issues, issues, hnone, List.filter_append, hfilter]
    rfl
  | taken own =>
    have htotals : c.mended.totals = c.totals := rfl
    rw [issues, issues, hnone, List.filter_append, hfilter, htotals]
    cases c.totals.isSome <;> rfl

theorem Verdict.report_mended (tree : String) (c : Category) (v : Verdict) :
    v.report tree c.mended = (v.report tree c).withoutMalformed := by
  have hrendered : v.rendered c.mended = v.rendered c := by cases v <;> rfl
  have hadded : v.added c.mended = v.added c := by cases v <;> simp [added, Category.mended]
  rw [report, report, issues_mended, hrendered, hadded, Report.withoutMalformed]

end Rollup

/-! ## Trees -/

namespace Tree

theorem mended_mended (t : Tree) : t.mended.mended = t.mended := by
  simp [mended, Category.mended_mended]

theorem overwrite_mended (new : TreeTexts) (t : Tree) : (t.overwrite new).mended = t.mended.overwrite new := by
  have hcategories : (Category.overwriteAll new.categories t.categories).map Category.mended =
      Category.overwriteAll new.categories (t.categories.map Category.mended) := by
    refine List.ext_getElem? fun k => ?_
    rw [List.getElem?_map, Category.getElem?_overwriteAll, Category.getElem?_overwriteAll, List.getElem?_map,
      Option.map_map, Option.map_map]
    rfl
  simp only [overwrite, mended, hcategories]

theorem renumberTree_mended (mode : RenumberMode) (t : Tree) :
    (Numbering.renumberTree mode t).mended = Numbering.renumberTree mode t.mended := by
  have hcategories : (Numbering.renumberAll mode t.categories).map Category.mended =
      Numbering.renumberAll mode (t.categories.map Category.mended) := by
    refine List.ext_getElem? fun k => ?_
    rw [Numbering.renumberAll, Numbering.renumberAll, List.getElem?_map, List.getElem?_mapIdx, List.getElem?_mapIdx,
      List.getElem?_map, Option.map_map, Option.map_map]
    rfl
  simp only [Numbering.renumberTree, mended, hcategories]

end Tree

/-! ## Reports -/

namespace Report

theorem withoutMalformed_merge (a b : Report) :
    (a.merge b).withoutMalformed = a.withoutMalformed.merge b.withoutMalformed := by
  simp [withoutMalformed, merge]

theorem withoutMalformed_foldr (rs : List Report) :
    (rs.foldr merge empty).withoutMalformed = (rs.map withoutMalformed).foldr merge empty := by
  induction rs with
  | nil => rfl
  | cons r rs ih => rw [List.foldr_cons, withoutMalformed_merge, ih, List.map_cons, List.foldr_cons]

theorem withoutMalformed_ofIssues {issues : List Issue} (h : ∀ i ∈ issues, i.isMalformedAmount = false) :
    (ofIssues issues).withoutMalformed = ofIssues issues := by
  have hfilter : issues.filter (! ·.isMalformedAmount) = issues := by
    rw [List.filter_eq_self]
    intro i hi
    rw [h i hi, Bool.not_false]
  simp only [withoutMalformed, ofIssues, hfilter]

end Report

namespace Rollup

theorem treeReport_mended (t : Tree) (vs : List Verdict) : treeReport t.mended vs = (treeReport t vs).withoutMalformed := by
  have hcategories : reportAll t.name (t.categories.map Category.mended) vs =
      (reportAll t.name t.categories vs).withoutMalformed := by
    rw [reportAll, reportAll, Report.withoutMalformed_foldr, List.map_zipWith, List.zipWith_map_left]
    simp only [Verdict.report_mended]
  have htotal : ∀ i ∈ if t.total.isSome then [] else [Issue.missingSink (some t.name) none],
      i.isMalformedAmount = false := by
    cases t.total.isSome <;> simp [Issue.isMalformedAmount]
  rw [treeReport, treeReport, Report.withoutMalformed_merge, Report.withoutMalformed_merge,
    Report.withoutMalformed_ofIssues htotal, ← hcategories]
  rfl

end Rollup

/-! ## The trees of the names -/

namespace Page

/-- a tree that is mended once is mended for good -/
theorem iterate_mended {names : List String} {name : String} (h : name ∈ names) :
    Tree.mended^[names.count name] = Tree.mended := by
  obtain ⟨times, htimes⟩ := Nat.exists_eq_succ_of_ne_zero (List.count_pos_iff.2 h).ne'
  funext t
  rw [htimes, Function.iterate_succ_apply, Function.iterate_fixed (Tree.mended_mended t)]

theorem updatesOf_mended {names : List String} (t : Tree) :
    updatesOf (names.map fun name => (name, Tree.mended)) t.name t = if t.name ∈ names then t.mended else t := by
  rw [updatesOf_map]
  split_ifs with h
  · rw [iterate_mended h]
  · rw [List.count_eq_zero_of_not_mem h]
    rfl

theorem getElem?_mended (p : Page) (names : List String) (i : ℕ) : (p.mended names).trees[i]? =
    p.trees[i]?.map fun t => if p.indexOf? t.name = some i ∧ t.name ∈ names then t.mended else t := by
  rw [mended, getElem?_updateTrees (name_of_mem_map Tree.mended (fun _ => rfl) names)]
  simp only [updatesOf_mended, ite_and]

theorem indexOf?_mended (p : Page) (names : List String) (name : String) :
    (p.mended names).indexOf? name = p.indexOf? name :=
  indexOf?_updateTrees (name_of_mem_map Tree.mended (fun _ => rfl) names) p name

theorem findTree?_mended (p : Page) {names : List String} {name : String} (h : name ∈ names) :
    (p.mended names).findTree? name = (p.findTree? name).map Tree.mended := by
  rw [mended, findTree?_updateTrees_map Tree.mended fun _ => rfl, iterate_mended h]

theorem grandTotal_mended (p : Page) (names : List String) : (p.mended names).grandTotal = p.grandTotal := by
  induction names generalizing p with
  | nil => rfl
  | cons name names ih => exact ih _

def labels (p : Page) : List (List String) := p.trees.map fun t => t.categories.map (·.label)

theorem labels_mended (p : Page) (names : List String) : (p.mended names).labels = p.labels := by
  refine List.ext_getElem? fun i => ?_
  rw [labels, labels, List.getElem?_map, List.getElem?_map, getElem?_mended, Option.map_map]
  refine congrArg (fun f => p.trees[i]?.map f) (funext fun t => ?_)
  rw [Function.comp_apply]
  split_ifs
  · simp [Tree.mended, Category.mended]
  · rfl

theorem sinksAt_mended (p : Page) (names : List String) (x : Slot) : (p.mended names).sinksAt x = p.sinksAt x := by
  cases x with
  | page => exact p.grandTotal_mended names
  | tree i =>
    rw [sinksAt, sinksAt, getElem?_mended]
    cases p.trees[i]? with
    | none => rfl
    | some t =>
      simp only [Option.map_some, Option.bind_some]
      split_ifs <;> rfl
  | category i k =>
    rw [sinksAt, sinksAt, getElem?_mended]
    cases p.trees[i]? with
    | none => rfl
    | some t =>
      simp only [Option.map_some, Option.bind_some]
      split_ifs
      · rw [Tree.mended, List.getElem?_map]
        cases t.categories[k]? <;> rfl
      · rfl

end Page

namespace Rollup

/-! ## The pass -/

/-- the mended page has the same stages under either policy -/
theorem stages_mended (policy : MalformedPolicy) (page : Page) (names : List String) (grand : Totals) :
    stages policy (page.mended names) grand names = stages .zero page grand names := by
  refine stages_of_amounts (fun name hname => ?_) grand
  have hfind := page.findTree?_mended hname
  cases hpage : page.findTree? name with
  | none =>
    rw [hpage, Option.map_none] at hfind
    simp [Page.sequence, Page.namedTrees, hpage, hfind]
  | some t =>
    rw [hpage, Option.map_some] at hfind
    rw [Page.sequence_of_some hfind, Page.sequence_of_some hpage, Tree.mended, List.map_map]
    exact List.map_congr_left fun c _ => amounts?_mended policy c

theorem iterate_renumberTree_mended (mode : RenumberMode) (times : ℕ) (t : Tree) :
    ((Numbering.renumberTree mode)^[times] t).mended = (Numbering.renumberTree mode)^[times] t.mended :=
  (Function.Semiconj.iterate_right (fun u => Tree.renumberTree_mended mode u) times) t

theorem written_mended (format : AmountFormat) (ss : List Stage) (t : Tree) :
    (written format ss t).mended = written format ss t.mended := by
  induction ss generalizing t with
  | nil => rfl
  | cons s ss ih =>
    rw [written, List.foldl_cons, ← written, ih, Tree.overwrite_mended]
    rfl

section Policy

variable (options : Options) (page : Page) (names : List String)

/-- a tree is rendered and mended in any order -/
theorem rendered_mended (t : Tree) : rendered options (page.mended names) names t.mended =
    (rendered { options with malformed := .zero } page names t).mended := by
  have hstages : pageStages options (page.mended names) names =
      pageStages { options with malformed := .zero } page names := stages_mended options.malformed page names .zero
  rw [rendered, rendered, written_mended, iterate_renumberTree_mended, hstages]
  rfl

theorem trees_mended : (renderPage options (page.mended names) names).page.trees =
    ((renderPage { options with malformed := .zero } page names).page.mended names).trees := by
  refine List.ext_getElem? fun i => ?_
  rw [getElem?_renderPage, Page.getElem?_mended, Page.getElem?_mended, getElem?_renderPage, Option.map_map,
    Option.map_map]
  refine congrArg (fun f => page.trees[i]?.map f) (funext fun t => ?_)
  simp only [Function.comp_apply, Page.indexOf?_mended, indexOf?_renderPage]
  by_cases hfirst : page.indexOf? t.name = some i
  · by_cases hname : t.name ∈ names
    · have hmended : t.mended.name = t.name := rfl
      simp only [hfirst, hname, and_self, if_true, hmended, name_rendered, rendered_mended]
    · simp only [hfirst, hname, and_false, if_true, if_false, rendered_of_notMem hname]
  · simp only [hfirst, false_and, if_false]

theorem report_stage_mended {s : Stage} (hs : s.name ∈ names) :
    s.report (renumberTrees options.renumber (page.mended names) names) =
      (s.report (renumberTrees options.renumber page names)).withoutMalformed := by
  have hfind := findTree?_renumberTrees options.renumber (page.mended names) names s.name
  have hfind' := findTree?_renumberTrees options.renumber page names s.name
  rw [page.findTree?_mended hs] at hfind
  cases hpage : page.findTree? s.name with
  | none =>
    rw [hpage] at hfind hfind'
    simp only [Option.map_none] at hfind hfind'
    rw [Stage.report, Stage.report, hfind, hfind', Report.withoutMalformed_ofIssues (by simp [Issue.isMalformedAmount])]
  | some t =>
    rw [hpage, Option.map_some] at hfind hfind'
    rw [Option.map_some, ← iterate_renumberTree_mended] at hfind
    rw [Stage.report, Stage.report, hfind, hfind']
    exact treeReport_mended _ s.verdicts

theorem report_mended : (renderPage options (page.mended names) names).report =
    (renderPage { options with malformed := .zero } page names).report.withoutMalformed := by
  obtain ⟨-, -, hreport⟩ := renderPage_eq options (page.mended names) names
  obtain ⟨-, -, hreport'⟩ := renderPage_eq { options with malformed := .zero } page names
  have hmissing : ∀ i ∈ (missingGrandTotal page).1, i.isMalformedAmount = false := by
    cases h : page.grandTotal.isSome <;> simp [missingGrandTotal, h, Issue.isMalformedAmount]
  have hgrand : missingGrandTotal (page.mended names) = missingGrandTotal page := by
    rw [missingGrandTotal, missingGrandTotal, page.grandTotal_mended]
  rw [hreport, hreport', Report.withoutMalformed_merge, Report.withoutMalformed_foldr,
    Report.withoutMalformed_ofIssues hmissing, hgrand, List.map_map, pageStages, stages_mended]
  refine congrArg (fun rs => (List.foldr Report.merge .empty rs).merge _) (List.map_congr_left fun s hs => ?_)
  have hs' : s ∈ pageStages { options with malformed := .zero } page names := hs
  exact report_stage_mended options page names (name_mem_of_mem_stages hs')

theorem line_mended : (renderPage options (page.mended names) names).line =
    (renderPage { options with malformed := .zero } page names).line := by
  obtain ⟨-, hline, -⟩ := renderPage_eq options (page.mended names) names
  obtain ⟨-, hline', -⟩ := renderPage_eq { options with malformed := .zero } page names
  rw [hline, hline', pageStages, stages_mended]

end Policy

/-- the second pass comes to the labels and the texts of the first, and reports what the first did, save for the texts
that are not amounts -/
structure SameMended (names : List String) (first second : Pass) : Prop where
  labels : second.page.labels = first.page.labels
  sinks : ∀ x, second.page.sinksAt x = first.page.sinksAt x
  page : second.page = first.page.mended names
  line : second.line = first.line
  report : second.report = first.report.withoutMalformed
  noneMalformed : ∀ i ∈ second.report.issues, i.isMalformedAmount = false

/-- **To count as zero is to replace by zero.** A pass that counts what is not an amount as zero, and a pass under either
policy over the page in which `0` stands for each such text under the names, come to the same labels, the same texts in
all places and the same totals; their reports are the same but for the issues about such texts, of which the second has
none -/
theorem renderPage_mended (options : Options) (page : Page) (names : List String) :
    SameMended names (renderPage { options with malformed := .zero } page names)
      (renderPage options (page.mended names) names) := by
  have hgrand : (renderPage options (page.mended names) names).page.grandTotal =
      (renderPage { options with malformed := .zero } page names).page.grandTotal := by
    rw [grandTotal_renderPage, grandTotal_renderPage, page.grandTotal_mended, pageStages, stages_mended]
  have hpage : (renderPage options (page.mended names) names).page =
      (renderPage { options with malformed := .zero } page names).page.mended names := by
    have hgrand' := Page.grandTotal_mended (renderPage { options with malformed := .zero } page names).page names
    exact congrArg₂ Page.mk (trees_mended options page names) (hgrand.trans hgrand'.symm)
  have hreport := report_mended options page names
  exact
    { labels := by rw [hpage, Page.labels_mended]
      sinks := fun x => by rw [hpage, Page.sinksAt_mended]
      page := hpage
      line := line_mended options page names
      report := hreport
      noneMalformed := fun i hi => by
        rw [hreport, Report.withoutMalformed, List.mem_filter] at hi
        simpa using hi.2 }

end Rollup

end LedgerTotals
