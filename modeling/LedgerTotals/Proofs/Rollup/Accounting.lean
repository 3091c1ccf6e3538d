/-
The report accounts for everything under the names.

Every listed name has a tree that is processed or an issue. Every category of a processed tree is in one of four
classes, which the page and the issues tell (`Class.Fits`): it is rendered, it has no place for its texts, it overflowed,
or it was rejected. Every text that is not an amount has its issue.

Main result: `renderPage_accounts`, for names that are listed once.
-/
import LedgerTotals.Proofs.Rollup.Footing
import LedgerTotals.Proofs.Rollup.Sites

namespace LedgerTotals

open Totals

/-! ## Classes of categories -/

def Issue.isMissingTree : Issue → Bool
  | .missingTree _ => true
  | _ => false

def Issue.isMalformedAmount : Issue → Bool
  | .malformedAmount .. => true
  | _ => false

/-- how often the report says of the category that it would overflow a total -/
def Report.overflows (r : Report) (tree : String) (c : Category) : ℕ := r.issues.count (.overflow tree c.label)

/-- how often the report says of the category that it has no place for its texts -/
def Report.sinkless (r : Report) (tree : String) (c : Category) : ℕ :=
  r.issues.count (.missingSink (some tree) (some c.label))

/-- there are texts, and they are those of the sums of the category's own amounts -/
def Category.ShowsOwn (format : AmountFormat) (c : Category) : Prop :=
  c.totals.isSome ∧ c.totals = (ofBatch? c.decimals).map fun own => own.sinks format

instance (format : AmountFormat) (c : Category) : Decidable (c.ShowsOwn format) :=
  inferInstanceAs (Decidable (_ ∧ _))

namespace Rollup

/-- what can become of a category -/
inductive Class where
  /-- its amounts are added, and its sums are shown -/
  | rendered
  /-- its amounts are added, but there is no place to show its sums -/
  | sinkless
  /-- left out, because a total would overflow -/
  | overflowed
  /-- left out, because a text is not an amount -/
  | rejected
  deriving DecidableEq

/-- the marks of each class, on the rendered page and in the report -/
def Class.Fits (options : Options) (r : Report) (tree : String) (c : Category) : Class → Prop
  | rendered =>
    ¬ c.Rejected options.malformed ∧ r.overflows tree c = 0 ∧ r.sinkless tree c = 0 ∧ c.ShowsOwn options.format
  | sinkless => ¬ c.Rejected options.malformed ∧ r.overflows tree c = 0 ∧ r.sinkless tree c = 1 ∧ c.totals = none
  | overflowed => ¬ c.Rejected options.malformed ∧ r.overflows tree c = 1 ∧ r.sinkless tree c = 0
  | rejected => c.Rejected options.malformed ∧ r.overflows tree c = 0 ∧ r.sinkless tree c = 0

instance (options : Options) (r : Report) (tree : String) (c : Category) (k : Class) :
    Decidable (k.Fits options r tree c) :=
  match k with
  | .rendered => inferInstanceAs (Decidable (_ ∧ _ ∧ _ ∧ _))
  | .sinkless => inferInstanceAs (Decidable (_ ∧ _ ∧ _ ∧ _))
  | .overflowed => inferInstanceAs (Decidable (_ ∧ _ ∧ _))
  | .rejected => inferInstanceAs (Decidable (_ ∧ _ ∧ _))

/-- the class that a verdict puts a category in -/
def Verdict.classOf (c : Category) : Verdict → Class
  | rejected => .rejected
  | overflow => .overflowed
  | taken _ => if c.totals.isSome then .rendered else .sinkless

theorem Verdict.count_overflow_issues (tree : String) (c : Category) (v : Verdict) :
    (v.issues tree c).count (.overflow tree c.label) = if v = .overflow then 1 else 0 := by
  have hmalformed : (malformedIssues tree c).count (.overflow tree c.label) = 0 :=
    List.count_eq_zero.2 (by simp [malformedIssues])
  cases v with
  | rejected => simp [issues, hmalformed]
  | overflow => simp [issues, hmalformed]
  | taken own => cases h : c.totals.isSome <;> simp [issues, hmalformed, h]

theorem Verdict.count_sinkless_issues (tree : String) (c : Category) (v : Verdict) :
    (v.issues tree c).count (.missingSink (some tree) (some c.label)) = if v.classOf c = .sinkless then 1 else 0 := by
  have hmalformed : (malformedIssues tree c).count (.missingSink (some tree) (some c.label)) = 0 :=
    List.count_eq_zero.2 (by simp [malformedIssues])
  cases v with
  | rejected => simp [issues, classOf, hmalformed]
  | overflow => simp [issues, classOf, hmalformed]
  | taken own => cases h : c.totals.isSome <;> simp [issues, classOf, hmalformed, h]

theorem Verdict.filter_malformed_issues (tree : String) (c : Category) (v : Verdict) :
    (v.issues tree c).filter Issue.isMalformedAmount = malformedIssues tree c := by
  have hmalformed : (malformedIssues tree c).filter Issue.isMalformedAmount = malformedIssues tree c := by
    simp [malformedIssues, List.filter_map, Function.comp_def, Issue.isMalformedAmount]
  cases v with
  | rejected => exact hmalformed
  | overflow => simp [issues, hmalformed, Issue.isMalformedAmount]
  | taken own => cases h : c.totals.isSome <;> simp [issues, hmalformed, h, Issue.isMalformedAmount]

section Nodup

variable {names : List String} (hnames : names.Nodup)
include hnames

theorem overflows_site (options : Options) (page : Page) {x : Site} (hx : x ∈ pageSites options page names) :
    (renderPage options page names).report.overflows x.tree x.category = if x.verdict = .overflow then 1 else 0 := by
  rw [Report.overflows, count_issues hnames options page hx rfl]
  exact Verdict.count_overflow_issues ..

theorem sinkless_site (options : Options) (page : Page) {x : Site} (hx : x ∈ pageSites options page names) :
    (renderPage options page names).report.sinkless x.tree x.category =
      if x.verdict.classOf x.category = .sinkless then 1 else 0 := by
  rw [Report.sinkless, count_issues hnames options page hx rfl]
  exact Verdict.count_sinkless_issues ..

/-- **The class of a site** is the one that its verdict puts it in, and no other -/
theorem fits_site_iff (options : Options) (page : Page) {x : Site} (hx : x ∈ pageSites options page names) (k : Class) :
    k.Fits options (renderPage options page names).report (x.placed options.format).1 (x.placed options.format).2 ↔
      k = x.verdict.classOf x.category := by
  obtain ⟨line, hverdict⟩ := exists_line_of_mem_pageSites hx
  have hoverflows : (renderPage options page names).report.overflows (x.placed options.format).1
      (x.placed options.format).2 = _ := overflows_site hnames options page hx
  have hsinkless : (renderPage options page names).report.sinkless (x.placed options.format).1
      (x.placed options.format).2 = _ := sinkless_site hnames options page hx
  have hrejected : (x.placed options.format).2.Rejected options.malformed ↔ x.verdict = .rejected := by
    rw [hverdict, verdict_eq_rejected_iff]
    rfl
  obtain ⟨tree, c, v⟩ := x
  cases v with
  | rejected => cases k <;> simp [Class.Fits, hoverflows, hsinkless, hrejected, Verdict.classOf]
  | overflow => cases k <;> simp [Class.Fits, hoverflows, hsinkless, hrejected, Verdict.classOf]
  | taken own =>
    have hown : ofBatch? c.decimals = some own := (sums_of_verdict hverdict.symm).2
    have hdecimals : (Site.placed options.format ⟨tree, c, .taken own⟩).2.decimals = c.decimals := rfl
    have htexts : (Site.placed options.format ⟨tree, c, .taken own⟩).2.totals =
        c.totals.map fun _ => own.sinks options.format := rfl
    cases htotals : c.totals <;> cases k <;>
      simp [Class.Fits, Category.ShowsOwn, hoverflows, hsinkless, hrejected, Verdict.classOf, hdecimals, htexts, htotals,
        hown]

end Nodup

/-! ## Trees -/

theorem Stage.trees_report (page : Page) (s : Stage) :
    (s.report page).treesProcessed = (page.namedTrees [s.name]).length ∧
      (s.report page).treesProcessed + (s.report page).issues.countP Issue.isMissingTree = 1 := by
  cases hfind : page.findTree? s.name with
  | none => simp [report, Page.namedTrees, hfind, Report.ofIssues, Report.empty, Issue.isMissingTree]
  | some t =>
    have hprocessed : (s.report page).treesProcessed = 1 := by
      simp [report, hfind, treeReport, Report.merge, Report.ofIssues, Report.empty, treesProcessed_reportAll]
    have hnone : (s.report page).issues.countP Issue.isMissingTree = 0 := by
      rw [List.countP_eq_zero, issues_report_of_some hfind]
      intro i hi hmissing
      rcases List.mem_append.1 hi with hi | hi
      · obtain ⟨x, -, hi⟩ := List.mem_flatMap.1 hi
        have habout := Site.about?_of_mem_issues hi
        cases i <;> simp [Issue.isMissingTree, Issue.about?] at hmissing habout
      · split_ifs at hi
        · cases hi
        · rw [List.mem_singleton.1 hi] at hmissing
          cases hmissing
    rw [hprocessed, hnone]
    simp [Page.namedTrees, hfind]

theorem trees_stages (page : Page) (ss : List Stage) :
    let r := (ss.map (Stage.report page)).foldr Report.merge .empty
    r.treesProcessed = (page.namedTrees (ss.map (·.name))).length ∧
      r.treesProcessed + r.issues.countP Issue.isMissingTree = ss.length := by
  induction ss with
  | nil => exact ⟨rfl, rfl⟩
  | cons s ss ih =>
    obtain ⟨hprocessed, hone⟩ := s.trees_report page
    obtain ⟨hprocessed', hall⟩ := ih
    simp only [List.map_cons, List.foldr_cons, Report.merge, List.countP_append, List.length_cons]
    rw [Page.namedTrees_cons, List.length_append]
    omega

theorem treesProcessed_renderPage (options : Options) (page : Page) (names : List String) :
    let r := (renderPage options page names).report
    r.treesProcessed = (page.namedTrees names).length ∧
      r.treesProcessed + r.issues.countP Issue.isMissingTree = names.length := by
  obtain ⟨-, -, hreport⟩ := renderPage_eq options page names
  obtain ⟨hprocessed, hall⟩ := trees_stages (renumberTrees options.renumber page names) (pageStages options page names)
  have hnames := map_name_stages options.malformed page .zero names
  have hlength := congrArg List.length hnames
  have hframes := congrArg List.length
    (Page.namedTrees_of_frame (frame_renumberTrees options.renumber page names) names)
  have hmissing : (missingGrandTotal page).1.countP Issue.isMissingTree = 0 := by
    rw [missingGrandTotal]
    split_ifs <;> rfl
  rw [hnames] at hprocessed
  rw [List.length_map] at hlength
  rw [List.length_map, List.length_map] at hframes
  have hprocessed' : (renderPage options page names).report.treesProcessed = (page.namedTrees names).length := by
    rw [hreport]
    exact hprocessed.trans hframes
  refine ⟨hprocessed', ?_⟩
  rw [hprocessed', hreport, Report.merge, List.countP_append, Report.ofIssues, hmissing, ← hframes, ← hprocessed,
    ← hlength]
  exact hall

/-! ## Clean reports -/

theorem malformedIssues_eq_nil_iff {tree : String} {c : Category} : malformedIssues tree c = [] ↔ c.Readable := by
  simp [malformedIssues, Category.Readable, List.filter_eq_nil_iff]

/-- nothing is reported of a category that can be read, is not too large, and has a place for its texts -/
theorem Verdict.issues_eq_nil_iff {policy : MalformedPolicy} {line : List Totals} {tree : String} {c : Category}
    {v : Verdict} (h : v = verdict policy line c) :
    v.issues tree c = [] ↔ c.Readable ∧ v ≠ .overflow ∧ c.totals.isSome := by
  cases v with
  | rejected =>
    have hrejected := verdict_eq_rejected_iff.1 h.symm
    refine iff_of_false (fun hnil => ?_) fun hclean => hclean.1.not_rejected policy hrejected
    exact (malformedIssues_eq_nil_iff.1 hnil).not_rejected policy hrejected
  | overflow => simp [issues]
  | taken own => cases htotals : c.totals.isSome <;> simp [issues, malformedIssues_eq_nil_iff, htotals]

/-- nothing is reported of a tree that is there, has a place for its total, and of whose categories nothing is -/
theorem Stage.issues_eq_nil_iff {page : Page} {s : Stage} :
    (s.report page).issues = [] ↔
      ∃ t, page.findTree? s.name = some t ∧ t.total.isSome ∧ ∀ x ∈ s.sites page, x.issues = [] := by
  cases hfind : page.findTree? s.name with
  | none => simp [report, hfind, Report.ofIssues]
  | some t =>
    rw [issues_report_of_some hfind, List.append_eq_nil_iff, List.flatMap_eq_nil_iff]
    cases htotal : t.total.isSome <;> simp [htotal]

theorem issues_renderPage_eq_nil_iff (options : Options) (page : Page) (names : List String) :
    (renderPage options page names).report.issues = [] ↔
      (∀ s ∈ pageStages options page names, (s.report (renumberTrees options.renumber page names)).issues = []) ∧
        page.grandTotal.isSome := by
  obtain ⟨-, -, hreport⟩ := renderPage_eq options page names
  rw [hreport, Report.merge, List.append_eq_nil_iff, issues_foldr_merge, List.flatMap_eq_nil_iff, List.forall_mem_map]
  refine and_congr Iff.rfl ?_
  cases hgrand : page.grandTotal.isSome <;> simp [missingGrandTotal, Report.ofIssues, hgrand]

/-- where all batches go through, no category is left out -/
theorem verdicts_of_roll? {policy : MalformedPolicy} {g : Totals} {cs : List Category} (h : ∀ c ∈ cs, c.Readable)
    (hroll : (roll? g (cs.map Category.decimals)).isSome) : ∀ v ∈ verdicts policy [g] cs, ∃ own, v = .taken own := by
  induction cs generalizing g with
  | nil => simp [verdicts]
  | cons c cs ih =>
    obtain ⟨last, hlast⟩ := Option.isSome_iff_exists.1 hroll
    rw [List.map_cons, roll?_cons, Option.bind_eq_some_iff] at hlast
    obtain ⟨g', hg', hrest⟩ := hlast
    obtain ⟨own, hown, hpost⟩ := Option.bind_eq_some_iff.1 hg'
    have hverdict : verdict policy [g] c = .taken own := by
      simp [verdict_eq, amounts?_of_readable (h c List.mem_cons_self), hown, isSome_postAll?_singleton, hpost]
    have htail := ih (fun d hd => h d (List.mem_cons_of_mem _ hd)) (Option.isSome_iff_exists.2 ⟨last, hrest⟩)
    intro v hv
    rcases List.mem_cons.1 hv with rfl | hv
    · exact ⟨own, hverdict⟩
    · simp only [hverdict, List.map_cons, List.map_nil, Verdict.after, hpost, Option.getD_some] at hv
      exact htail v hv

/-- the categories of a listed tree are at the sites of its stage -/
theorem exists_site {options : Options} {page : Page} {names : List String} {s : Stage}
    (hs : s ∈ pageStages options page names) {c : Category}
    (hc : c ∈ (renumberTrees options.renumber page names).sequence [s.name]) :
    ∃ x ∈ s.sites (renumberTrees options.renumber page names), x.category = c := by
  rw [← map_category_sites hs] at hc
  exact List.mem_map.1 hc

/-- where nothing is reported, a listed tree is there, with a place for every text -/
theorem hasSinks_of_issues_eq_nil {options : Options} {page : Page} {names : List String}
    (h : (renderPage options page names).report.issues = []) {name : String} (hname : name ∈ names) :
    ∃ t, (renumberTrees options.renumber page names).findTree? name = some t ∧ t.HasSinks := by
  obtain ⟨s, hs, rfl⟩ := exists_stage options page hname
  obtain ⟨hstages, -⟩ := (issues_renderPage_eq_nil_iff options page names).1 h
  obtain ⟨t, ht, htotal, hsites⟩ := Stage.issues_eq_nil_iff.1 (hstages s hs)
  refine ⟨t, ht, htotal, fun c hc => ?_⟩
  rw [← Page.sequence_of_some ht] at hc
  obtain ⟨x, hx, rfl⟩ := exists_site hs hc
  obtain ⟨line, hverdict⟩ := exists_line_of_mem_pageSites (List.mem_flatMap.2 ⟨s, hs, hx⟩)
  exact ((Verdict.issues_eq_nil_iff hverdict).1 (hsites x hx)).2.2

/-- where all batches go through, no site overflows -/
theorem ne_overflow_of_roll? {options : Options} {page : Page} {names : List String}
    (hreadable : ∀ t ∈ page.namedTrees names, t.Readable) (hroll : (roll? .zero (page.batches names)).isSome)
    {s : Stage} (hs : s ∈ pageStages options page names) {v : Verdict} (hv : v ∈ s.verdicts) : v ≠ .overflow := by
  have hreadable' : ∀ c ∈ page.sequence names, c.Readable := by
    intro c hc
    obtain ⟨t, ht, hc⟩ := List.mem_flatMap.1 hc
    exact hreadable t ht c hc
  have hmem : v ∈ verdicts options.malformed [.zero] (page.sequence names) := by
    rw [← allVerdicts_stages options.malformed page unsigned_zero]
    exact List.mem_flatMap.2 ⟨s, hs, hv⟩
  rw [← Page.map_decimals_sequence] at hroll
  obtain ⟨own, rfl⟩ := verdicts_of_roll? hreadable' hroll v hmem
  exact Verdict.noConfusion

/-- **A clean report** says that all listed trees are there, that all their amounts can be read and added, and that
there is a place for every text -/
theorem issues_eq_nil_iff (options : Options) (page : Page) (names : List String) :
    (renderPage options page names).report.issues = [] ↔
      (∀ name ∈ names, (page.findTree? name).isSome) ∧ (∀ t ∈ page.namedTrees names, t.Readable) ∧
        (roll? .zero (page.batches names)).isSome ∧ page.HasSinks names := by
  have hframe := frame_renumberTrees options.renumber page names
  have hfind := findTree?_renumberTrees options.renumber page names
  set renumbered := renumberTrees options.renumber page names
  constructor
  · intro hclean
    have hcomplete : (renderPage options page names).report.Complete := by
      intro i hi
      rw [hclean] at hi
      cases hi
    obtain ⟨hsettles, grand, hgrand⟩ := of_renderPage_complete hcomplete
    have hplace : renumbered.HasSinks names := by
      refine ⟨(congrArg Prod.snd hframe).trans ((issues_renderPage_eq_nil_iff options page names).1 hclean).2, ?_⟩
      intro t ht
      obtain ⟨name, hname, ht⟩ := List.mem_filterMap.1 ht
      obtain ⟨t', ht', hsinks⟩ := hasSinks_of_issues_eq_nil hclean hname
      rwa [Option.some.inj (ht.symm.trans ht')]
    refine ⟨?_, fun t ht => (hsettles t ht).readable, Option.isSome_iff_exists.2 ⟨grand, hgrand⟩,
      hplace.of_frame hframe.symm⟩
    intro name hname
    obtain ⟨t, ht, -⟩ := hasSinks_of_issues_eq_nil hclean hname
    rw [hfind] at ht
    exact Option.isSome_map.symm.trans (congrArg Option.isSome ht)
  · rintro ⟨hexists, hreadable, hroll, hsinks⟩
    have hreadable' : ∀ t ∈ renumbered.namedTrees names, t.Readable :=
      forall_of_frames (fun _ _ => Tree.Readable.of_frame) (Page.namedTrees_of_frame hframe names) hreadable
    have hsinks' : renumbered.HasSinks names := hsinks.of_frame hframe
    refine (issues_renderPage_eq_nil_iff options page names).2 ⟨fun s hs => ?_, hsinks.grandTotal⟩
    have hname := name_mem_of_mem_stages hs
    obtain ⟨t, ht⟩ : ∃ t, renumbered.findTree? s.name = some t := by
      obtain ⟨t, ht⟩ := Option.isSome_iff_exists.1 (hexists s.name hname)
      exact ⟨_, by rw [hfind, ht, Option.map_some]⟩
    have hmem : t ∈ renumbered.namedTrees names := List.mem_filterMap.2 ⟨s.name, hname, ht⟩
    refine Stage.issues_eq_nil_iff.2 ⟨t, ht, (hsinks'.trees t hmem).total, fun x hx => ?_⟩
    obtain ⟨line, hverdict⟩ := exists_line_of_mem_pageSites (List.mem_flatMap.2 ⟨s, hs, hx⟩)
    have hc : x.category ∈ t.categories := by
      rw [← Page.sequence_of_some ht, ← map_category_sites hs]
      exact List.mem_map_of_mem hx
    refine (Verdict.issues_eq_nil_iff hverdict).2 ⟨hreadable' t hmem _ hc, ?_, (hsinks'.trees t hmem).categories _ hc⟩
    exact ne_overflow_of_roll? hreadable hroll hs (verdict_mem_of_mem_sites hx)

/-! ## The account -/

/-- the report of a pass accounts for all the names, for all categories under them, and for all their amounts -/
structure Accounts (options : Options) (page : Page) (names : List String) (out : Pass) : Prop where
  processed : out.report.treesProcessed = (page.namedTrees names).length
  trees : out.report.treesProcessed + out.report.issues.countP Issue.isMissingTree = names.length
  classes : ∀ x ∈ out.page.placed names, ∃! k : Class, k.Fits options out.report x.1 x.2
  rendered : out.report.nodesRendered =
    (out.page.placed names).countP fun x => Class.rendered.Fits options out.report x.1 x.2
  added : out.report.amountsAdded = (((out.page.placed names).filter fun x =>
    Class.rendered.Fits options out.report x.1 x.2 ∨ Class.sinkless.Fits options out.report x.1 x.2).map
      fun x => x.2.rows.length).sum
  malformed : out.report.issues.filter Issue.isMalformedAmount = (out.page.placed names).flatMap fun x =>
    (x.2.amountTexts.filter isMalformed).map fun text => .malformedAmount x.1 x.2.label text
  clean : out.report.isClean = true ↔ (∀ name ∈ names, (page.findTree? name).isSome) ∧
    (∀ t ∈ page.namedTrees names, t.Readable) ∧ (roll? .zero (page.batches names)).isSome ∧ page.HasSinks names

theorem Verdict.sum_rendered (xs : List Site) : (xs.map fun x => x.verdict.rendered x.category).sum =
    xs.countP fun x => x.verdict.classOf x.category = .rendered := by
  induction xs with
  | nil => rfl
  | cons x xs ih =>
    obtain ⟨tree, c, v⟩ := x
    rw [List.map_cons, List.sum_cons, ih, List.countP_cons, Nat.add_comm]
    cases v with
    | rejected => rfl
    | overflow => rfl
    | taken own => cases htotals : c.totals.isSome <;> simp [rendered, classOf, htotals]

theorem Verdict.sum_added (xs : List Site) : (xs.map fun x => x.verdict.added x.category).sum =
    ((xs.filter fun x => x.verdict.classOf x.category = .rendered ∨ x.verdict.classOf x.category = .sinkless).map
      fun x => x.category.rows.length).sum := by
  induction xs with
  | nil => rfl
  | cons x xs ih =>
    obtain ⟨tree, c, v⟩ := x
    rw [List.map_cons, List.sum_cons, ih, List.filter_cons]
    cases v with
    | rejected => simp [added, classOf]
    | overflow => simp [added, classOf]
    | taken own => cases htotals : c.totals.isSome <;> simp [added, classOf, htotals]

/-- **The account.** If no name is listed twice, the report accounts for everything under the names -/
theorem renderPage_accounts (options : Options) (page : Page) {names : List String} (hnames : names.Nodup) :
    Accounts options page names (renderPage options page names) := by
  have hreported := reported_renderPage options page names
  have hplaced := placed_renderPage hnames options page
  have hfits := fun x hx => fits_site_iff hnames options page (x := x) hx
  obtain ⟨hprocessed, htrees⟩ := treesProcessed_renderPage options page names
  refine ⟨hprocessed, htrees, ?_, ?_, ?_, ?_, ?_⟩
  · intro y hy
    rw [hplaced] at hy
    obtain ⟨x, hx, rfl⟩ := List.mem_map.1 hy
    exact ⟨x.verdict.classOf x.category, (hfits x hx _).2 rfl, fun k hk => (hfits x hx k).1 hk⟩
  · rw [hreported.nodesRendered, Verdict.sum_rendered, hplaced, List.countP_map]
    refine List.countP_congr fun x hx => ?_
    simp [hfits x hx, eq_comm]
  · rw [hreported.amountsAdded, Verdict.sum_added, hplaced, List.filter_map, List.map_map]
    refine congrArg (fun xs : List Site => (xs.map fun x => x.category.rows.length).sum) ?_
    refine List.filter_congr fun x hx => ?_
    simp [hfits x hx, eq_comm]
  · have hmalformed : ∀ i : Issue, i.isMalformedAmount = (i.isMalformedAmount && i.isOfCategory) := by
      intro i
      cases i <;> rfl
    rw [List.filter_congr fun i _ => hmalformed i, ← List.filter_filter, hreported.issues, List.filter_flatMap, hplaced,
      List.flatMap_map]
    exact List.flatMap_congr fun x _ => Verdict.filter_malformed_issues x.tree x.category x.verdict
  · rw [Report.isClean, List.isEmpty_iff]
    exact issues_eq_nil_iff options page names

/-- a page with a category of each class, and a name without a tree -/
theorem renderPage_accounts_filling :
    let options : Options := ⟨.replace, .reject, .plain⟩
    let names := [importedName, assignedName, "savings"]
    let out := renderPage options (cutAt 3) names
    names.Nodup ∧ Accounts options (cutAt 3) names out ∧
      (out.page.placed names).map (fun x => [Class.rendered, .sinkless, .overflowed, .rejected].filter fun k =>
        k.Fits options out.report x.1 x.2) = [[.rendered], [.rendered], [.overflowed], [.sinkless], [.rejected]] := by
  have hnames : [importedName, assignedName, "savings"].Nodup := by decide
  exact ⟨hnames, renderPage_accounts ⟨.replace, .reject, .plain⟩ (cutAt 3) hnames, by decide +kernel⟩

end Rollup

end LedgerTotals
