/-
The categories a pass comes to, one by one.

A site is a category where the pass comes to it, with its number in its label, the name of its tree, and the verdict on
it. What is written to categories, counted and reported of them is that of the sites, in their order.

If no name is listed twice, no two sites have one tree and one label (`nodup_key_pageSites`). An issue that names both
is then about one site, and whether it is reported is a matter of the verdict on that site alone (`count_issues`).
-/
import LedgerTotals.Proofs.Numbering
import LedgerTotals.Proofs.Rollup.Stages

namespace LedgerTotals

/-! ## Lists without repeated keys -/

/-- a key belongs to one element -/
theorem filter_key_eq_singleton {α κ : Type} [BEq κ] [LawfulBEq κ] (key : α → κ) {l : List α} {a : α}
    (h : (l.map key).Nodup) (ha : a ∈ l) : l.filter (fun b => key b == key a) = [a] := by
  obtain ⟨front, back, rfl⟩ := List.append_of_mem ha
  simp only [List.map_append, List.map_cons, List.nodup_append, List.nodup_cons] at h
  have hfront : front.filter (fun b => key b == key a) = [] := by
    refine List.filter_eq_nil_iff.2 fun b hb heq => ?_
    exact h.2.2 _ (List.mem_map_of_mem hb) _ List.mem_cons_self (eq_of_beq heq)
  have hback : back.filter (fun b => key b == key a) = [] := by
    refine List.filter_eq_nil_iff.2 fun b hb heq => h.2.1.1 ?_
    rw [← eq_of_beq heq]
    exact List.mem_map_of_mem hb
  rw [List.filter_append, List.filter_cons_of_pos (by simp), hfront, hback, List.nil_append]

/-- what comes from elements of one key only is counted at the element of that key -/
theorem count_flatMap_of_key {α β κ : Type} [BEq β] [LawfulBEq β] {key : α → κ} {l : List α} {a : α} {f : α → List β}
    {x : β} (h : (l.map key).Nodup) (ha : a ∈ l) (hx : ∀ b ∈ l, x ∈ f b → key b = key a) :
    (l.flatMap f).count x = (f a).count x := by
  obtain ⟨front, back, rfl⟩ := List.append_of_mem ha
  simp only [List.map_append, List.map_cons, List.nodup_append, List.nodup_cons] at h
  have hfront : (front.flatMap f).count x = 0 := by
    refine List.count_eq_zero.2 fun hmem => ?_
    obtain ⟨b, hb, hxb⟩ := List.mem_flatMap.1 hmem
    exact h.2.2 _ (List.mem_map_of_mem hb) _ List.mem_cons_self (hx b (by simp [hb]) hxb)
  have hback : (back.flatMap f).count x = 0 := by
    refine List.count_eq_zero.2 fun hmem => ?_
    obtain ⟨b, hb, hxb⟩ := List.mem_flatMap.1 hmem
    refine h.2.1.1 ?_
    rw [← hx b (by simp [hb]) hxb]
    exact List.mem_map_of_mem hb
  rw [List.flatMap_append, List.flatMap_cons, List.count_append, List.count_append, hfront, hback, Nat.zero_add,
    Nat.add_zero]

theorem zipWith_left {α β γ : Type} (f : α → γ) {as : List α} {bs : List β} (h : as.length = bs.length) :
    List.zipWith (fun a _ => f a) as bs = as.map f :=
  calc List.zipWith (fun a _ => f a) as bs = (as.zip bs).map fun x => f x.1 := by rw [List.zip, List.map_zipWith]
    _ = ((as.zip bs).map Prod.fst).map f := by rw [List.map_map]; rfl
    _ = as.map f := by rw [List.map_fst_zip h.le]

/-- the name of the tree and the label, if the issue is about one category -/
def Issue.about? : Issue → Option (String × String)
  | .malformedAmount tree label _ => some (tree, label)
  | .overflow tree label => some (tree, label)
  | .missingSink (some tree) (some label) => some (tree, label)
  | _ => none

theorem Issue.isOfCategory_of_about? {i : Issue} {key : String × String} (h : i.about? = some key) :
    i.isOfCategory = true := by
  unfold about? at h
  split at h
  · rfl
  · rfl
  · rfl
  · cases h

namespace Rollup

/-! ## Sites -/

/-- the name of a tree, one of its categories, and the verdict on it -/
structure Site where
  tree : String
  category : Category
  verdict : Verdict

namespace Site

def issues (x : Site) : List Issue := x.verdict.issues x.tree x.category

/-- the name of the tree and the label, which together tell the site -/
def key (x : Site) : String × String := (x.tree, x.category.label)

/-- the name of the tree, and the category after the pass -/
def placed (format : AmountFormat) (x : Site) : String × Category :=
  (x.tree, x.category.overwrite (x.verdict.shown format))

end Site

/-- what is reported of a site is about its category -/
theorem Site.about?_of_mem_issues {x : Site} {i : Issue} (hi : i ∈ x.issues) : i.about? = some x.key := by
  obtain ⟨tree, c, v⟩ := x
  have hmalformed : ∀ j ∈ malformedIssues tree c, j.about? = some (tree, c.label) := by
    intro j hj
    obtain ⟨text, -, rfl⟩ := List.mem_map.1 hj
    rfl
  cases v with
  | rejected => exact hmalformed i hi
  | overflow =>
    rcases List.mem_append.1 hi with hi | hi
    · exact hmalformed i hi
    · rw [List.mem_singleton.1 hi]
      rfl
  | taken own =>
    rcases List.mem_append.1 hi with hi | hi
    · exact hmalformed i hi
    · split_ifs at hi
      · cases hi
      · rw [List.mem_singleton.1 hi]
        rfl

/-- the sites of a stage, on a page -/
def Stage.sites (page : Page) (s : Stage) : List Site := List.zipWith (Site.mk s.name) (page.sequence [s.name]) s.verdicts

/-- the sites of a pass over a page, with the labels as they are numbered -/
def pageSites (options : Options) (page : Page) (names : List String) : List Site :=
  (pageStages options page names).flatMap (Stage.sites (renumberTrees options.renumber page names))

/-! ## Reports -/

theorem Stage.sites_of_none {page : Page} {s : Stage} (h : page.findTree? s.name = none) : s.sites page = [] := by
  simp [sites, Page.sequence, Page.namedTrees, h]

theorem Stage.sites_of_some {page : Page} {s : Stage} {t : Tree} (h : page.findTree? s.name = some t) :
    s.sites page = List.zipWith (Site.mk s.name) t.categories s.verdicts := by
  rw [sites, Page.sequence_of_some h]

theorem Stage.issues_report_of_some {page : Page} {s : Stage} {t : Tree} (h : page.findTree? s.name = some t) :
    (s.report page).issues =
      (s.sites page).flatMap Site.issues ++ if t.total.isSome then [] else [.missingSink (some t.name) none] := by
  obtain ⟨name, vs⟩ := s
  obtain rfl : t.name = name := by simpa using List.find?_some h
  rw [sites_of_some h, List.flatMap_def, List.map_zipWith, report, h]
  exact congrArg (· ++ _) (issues_reportAll t.name t.categories vs)

/-- of its categories a stage reports what is reported of its sites -/
theorem Stage.issues_report (page : Page) (s : Stage) :
    (s.report page).issues.filter Issue.isOfCategory = (s.sites page).flatMap Site.issues := by
  have hsites : ((s.sites page).flatMap Site.issues).filter Issue.isOfCategory = (s.sites page).flatMap Site.issues := by
    rw [List.filter_eq_self]
    intro i hi
    obtain ⟨x, -, hi⟩ := List.mem_flatMap.1 hi
    exact Issue.isOfCategory_of_about? (Site.about?_of_mem_issues hi)
  cases hfind : page.findTree? s.name with
  | none =>
    rw [sites_of_none hfind, report, hfind]
    rfl
  | some t =>
    have htotal : (if t.total.isSome then [] else [Issue.missingSink (some t.name) none]).filter Issue.isOfCategory =
        [] := by
      split_ifs <;> rfl
    rw [issues_report_of_some hfind, List.filter_append, hsites, htotal, List.append_nil]

theorem Stage.nodesRendered_report (page : Page) (s : Stage) :
    (s.report page).nodesRendered = ((s.sites page).map fun x => x.verdict.rendered x.category).sum := by
  cases hfind : page.findTree? s.name with
  | none =>
    rw [sites_of_none hfind, report, hfind]
    rfl
  | some t =>
    rw [sites_of_some hfind, List.map_zipWith, report, hfind]
    simp [treeReport, Report.merge, Report.ofIssues, Report.empty, nodesRendered_reportAll]

theorem Stage.amountsAdded_report (page : Page) (s : Stage) :
    (s.report page).amountsAdded = ((s.sites page).map fun x => x.verdict.added x.category).sum := by
  cases hfind : page.findTree? s.name with
  | none =>
    rw [sites_of_none hfind, report, hfind]
    rfl
  | some t =>
    rw [sites_of_some hfind, List.map_zipWith, report, hfind]
    simp [treeReport, Report.merge, Report.ofIssues, Report.empty, amountsAdded_reportAll]

/-- a report says this of the categories at the sites -/
structure Reported (r : Report) (xs : List Site) : Prop where
  issues : r.issues.filter Issue.isOfCategory = xs.flatMap Site.issues
  nodesRendered : r.nodesRendered = (xs.map fun x => x.verdict.rendered x.category).sum
  amountsAdded : r.amountsAdded = (xs.map fun x => x.verdict.added x.category).sum

theorem reported_stages (page : Page) (ss : List Stage) :
    Reported ((ss.map (Stage.report page)).foldr Report.merge .empty) (ss.flatMap (Stage.sites page)) := by
  induction ss with
  | nil => exact ⟨rfl, rfl, rfl⟩
  | cons s ss ih =>
    refine ⟨?_, ?_, ?_⟩
    · simp [Report.merge, Stage.issues_report, ih.issues]
    · simp [Report.merge, Stage.nodesRendered_report, ih.nodesRendered]
    · simp [Report.merge, Stage.amountsAdded_report, ih.amountsAdded]

/-- **The report of a page** accounts for its sites -/
theorem reported_renderPage (options : Options) (page : Page) (names : List String) :
    Reported (renderPage options page names).report (pageSites options page names) := by
  obtain ⟨-, -, hreport⟩ := renderPage_eq options page names
  have hstages := reported_stages (renumberTrees options.renumber page names) (pageStages options page names)
  have hmissing : (missingGrandTotal page).1.filter Issue.isOfCategory = [] := by
    rw [missingGrandTotal]
    split_ifs <;> rfl
  rw [hreport]
  refine ⟨?_, hstages.nodesRendered, hstages.amountsAdded⟩
  simp only [Report.merge, Report.ofIssues, List.filter_append, hmissing, List.append_nil, hstages.issues, pageSites]

theorem issues_foldr_merge (rs : List Report) : (rs.foldr Report.merge .empty).issues = rs.flatMap (·.issues) := by
  induction rs with
  | nil => rfl
  | cons r rs ih => simp [Report.merge, ih]

/-! ## Verdicts on sites -/

theorem findTree?_renumberTrees (mode : RenumberMode) (page : Page) (names : List String) (name : String) :
    (renumberTrees mode page names).findTree? name =
      (page.findTree? name).map (Numbering.renumberTree mode)^[names.count name] := by
  have hsteps : renumberTrees mode page names =
      page.updateTrees (names.map fun other => (other, Numbering.renumberTree mode)) := by
    rw [renumberTrees, Page.updateTrees, List.foldl_map]
    rfl
  rw [hsteps]
  exact Page.findTree?_updateTrees_map (Numbering.renumberTree mode) (fun _ => rfl) page names name

/-- the verdict on a site is that on its category, below some running totals -/
theorem exists_line_of_mem_pageSites {options : Options} {page : Page} {names : List String} {x : Site}
    (hx : x ∈ pageSites options page names) : ∃ line, x.verdict = verdict options.malformed line x.category := by
  obtain ⟨s, hs, hx⟩ := List.mem_flatMap.1 hx
  obtain ⟨g, hverdicts⟩ := exists_line_of_mem_stages hs
  rw [← verdicts_of_frames (Page.frames_sequence (frame_renumberTrees options.renumber page names) [s.name])]
    at hverdicts
  obtain ⟨k, hk⟩ := List.mem_iff_getElem?.1 hx
  obtain ⟨c, v, hc, hv, rfl⟩ := List.getElem?_zipWith_eq_some.1 hk
  rw [hverdicts] at hv
  exact exists_line_of_getElem?_verdicts hc hv

/-- what the frames of the categories of a page decide holds at every site -/
theorem forall_category_pageSites {P : Category → Prop} (hP : ∀ c d : Category, P d → c.frame = d.frame → P c)
    {options : Options} {page : Page} {names : List String} (h : ∀ c ∈ page.sequence names, P c) {x : Site}
    (hx : x ∈ pageSites options page names) : P x.category := by
  obtain ⟨s, hs, hx⟩ := List.mem_flatMap.1 hx
  obtain ⟨k, hk⟩ := List.mem_iff_getElem?.1 hx
  obtain ⟨c, v, hc, -, rfl⟩ := List.getElem?_zipWith_eq_some.1 hk
  have hframes := Page.frames_sequence (frame_renumberTrees options.renumber page names) [s.name]
  refine forall_of_frames hP hframes (fun d hd => h d ?_) c (List.mem_of_getElem? hc)
  obtain ⟨t, ht, hd⟩ := List.mem_flatMap.1 hd
  obtain ⟨name, hname, hfind⟩ := List.mem_filterMap.1 ht
  rw [List.mem_singleton.1 hname] at hfind
  exact List.mem_flatMap.2 ⟨t, List.mem_filterMap.2 ⟨s.name, name_mem_of_mem_stages hs, hfind⟩, hd⟩

/-- **Where an issue comes from**: a name without a tree, a site, or a total without a place to show it -/
theorem mem_issues_renderPage {options : Options} {page : Page} {names : List String} {i : Issue}
    (hi : i ∈ (renderPage options page names).report.issues) :
    (∃ name ∈ names, page.findTree? name = none ∧ i = .missingTree name) ∨
      (∃ x ∈ pageSites options page names, i ∈ x.issues) ∨
      (∃ name ∈ names, ∃ t, page.findTree? name = some t ∧ t.total.isSome = false ∧ i = .missingSink (some name) none) ∨
      page.grandTotal.isSome = false ∧ i = .missingSink none none := by
  obtain ⟨-, -, hreport⟩ := renderPage_eq options page names
  simp only [hreport, Report.merge, Report.ofIssues, issues_foldr_merge, List.flatMap_map, List.mem_append,
    List.mem_flatMap] at hi
  rcases hi with ⟨s, hs, hi⟩ | hi
  · have hfind := findTree?_renumberTrees options.renumber page names s.name
    have hname := name_mem_of_mem_stages hs
    cases hpage : page.findTree? s.name with
    | none =>
      rw [hpage, Option.map_none] at hfind
      rw [Stage.report, hfind] at hi
      exact .inl ⟨s.name, hname, hpage, List.mem_singleton.1 hi⟩
    | some t =>
      rw [hpage, Option.map_some] at hfind
      rw [Stage.issues_report_of_some hfind, total_iterate_renumberTree, List.mem_append] at hi
      rcases hi with hi | hi
      · obtain ⟨x, hx, hi⟩ := List.mem_flatMap.1 hi
        exact .inr (.inl ⟨x, List.mem_flatMap.2 ⟨s, hs, hx⟩, hi⟩)
      · have hiterate : ((Numbering.renumberTree options.renumber)^[names.count s.name] t).name = s.name := by
          simpa using List.find?_some hfind
        cases htotal : t.total.isSome with
        | true => simp [htotal] at hi
        | false =>
          simp only [htotal, Bool.false_eq_true, if_false, List.mem_singleton, hiterate] at hi
          exact .inr (.inr (.inl ⟨s.name, hname, t, hpage, htotal, hi⟩))
  · cases hgrand : page.grandTotal.isSome with
    | true => simp [missingGrandTotal, hgrand] at hi
    | false =>
      simp only [missingGrandTotal, hgrand, Bool.false_eq_true, if_false, List.mem_singleton] at hi
      exact .inr (.inr (.inr ⟨rfl, hi⟩))

/-- there is a verdict for each category of a stage -/
theorem length_verdicts_of_mem_stages {options : Options} {page : Page} {names : List String} {s : Stage}
    (hs : s ∈ pageStages options page names) :
    ((renumberTrees options.renumber page names).sequence [s.name]).length = s.verdicts.length := by
  obtain ⟨g, hverdicts⟩ := exists_line_of_mem_stages hs
  have hframes := Page.frames_sequence (frame_renumberTrees options.renumber page names) [s.name]
  rw [hverdicts, length_verdicts]
  simpa using congrArg List.length hframes

theorem map_category_sites {options : Options} {page : Page} {names : List String} {s : Stage}
    (hs : s ∈ pageStages options page names) :
    (s.sites (renumberTrees options.renumber page names)).map Site.category =
      (renumberTrees options.renumber page names).sequence [s.name] := by
  rw [Stage.sites, List.map_zipWith]
  exact (zipWith_left id (length_verdicts_of_mem_stages hs)).trans (List.map_id _)

theorem verdict_mem_of_mem_sites {page : Page} {s : Stage} {x : Site} (hx : x ∈ s.sites page) :
    x.verdict ∈ s.verdicts := by
  obtain ⟨k, hk⟩ := List.mem_iff_getElem?.1 hx
  obtain ⟨c, v, -, hv, rfl⟩ := List.getElem?_zipWith_eq_some.1 hk
  exact List.mem_of_getElem? hv

/-- the labels of a listed tree are distinct -/
theorem nodup_labels_sequence (mode : RenumberMode) (page : Page) {names : List String} {name : String}
    (h : name ∈ names) : (((renumberTrees mode page names).sequence [name]).map (·.label)).Nodup := by
  have hfind := findTree?_renumberTrees mode page names name
  cases hpage : page.findTree? name with
  | none =>
    rw [hpage, Option.map_none] at hfind
    simp [Page.sequence, Page.namedTrees, hfind]
  | some t =>
    obtain ⟨times, htimes⟩ := Nat.exists_eq_succ_of_ne_zero (List.count_pos_iff.2 h).ne'
    rw [hpage, Option.map_some, htimes, Function.iterate_succ_apply'] at hfind
    rw [Page.sequence_of_some hfind]
    exact Numbering.nodup_labels_renumberAll mode _

/-- the amounts that are added, stage by stage -/
theorem amountsAdded_renderPage (options : Options) (page : Page) (names : List String) :
    (renderPage options page names).report.amountsAdded = ((pageStages options page names).map fun s =>
      (List.zipWith Verdict.added (page.sequence [s.name]) s.verdicts).sum).sum := by
  have hreported := reported_renderPage options page names
  rw [hreported.amountsAdded, pageSites, List.map_flatMap, List.flatMap_def, List.sum_flatten, List.map_map]
  refine congrArg List.sum (List.map_congr_left fun s _ => ?_)
  -- how much is added to the totals depends on the number of rows
  have hadded : ∀ cs : List Category, List.zipWith Verdict.added cs s.verdicts =
      List.zipWith (fun rows (v : Verdict) => v.added ⟨"", rows, none⟩) (cs.map (·.rows)) s.verdicts := by
    intro cs
    rw [List.zipWith_map_left]
    refine congrArg (fun f => List.zipWith f cs s.verdicts) (funext fun c => funext fun v => ?_)
    cases v <;> rfl
  have hrows := map_of_frames (f := fun c : Category => c.rows) (fun _ _ h => congrArg Prod.fst h)
    (Page.frames_sequence (frame_renumberTrees options.renumber page names) [s.name])
  rw [Function.comp_apply, Stage.sites, List.map_zipWith, hadded, hrows, ← hadded]

/-! ## Names that are listed once -/

section Nodup

variable {names : List String} (hnames : names.Nodup)

include hnames

theorem stagesOf_eq_singleton {options : Options} {page : Page} {s : Stage} (hs : s ∈ pageStages options page names) :
    stagesOf (pageStages options page names) s.name = [s] := by
  refine filter_key_eq_singleton Stage.name ?_ hs
  rwa [map_name_stages]

/-- **A site is told by the name of its tree and its label** -/
theorem nodup_key_pageSites (options : Options) (page : Page) : ((pageSites options page names).map Site.key).Nodup := by
  have hkeys : ∀ s ∈ pageStages options page names,
      (s.sites (renumberTrees options.renumber page names)).map Site.key =
        ((renumberTrees options.renumber page names).sequence [s.name]).map fun c => (s.name, c.label) := by
    intro s hs
    rw [Stage.sites, List.map_zipWith]
    exact zipWith_left (fun c => (s.name, c.label)) (length_verdicts_of_mem_stages hs)
  have hdistinct : (pageStages options page names).Pairwise fun s s' => s.name ≠ s'.name := by
    rw [← map_name_stages options.malformed page .zero names] at hnames
    exact List.pairwise_map.1 hnames
  rw [pageSites, List.map_flatMap, List.nodup_flatMap]
  refine ⟨?_, ?_⟩
  · intro s hs
    have hlabels := nodup_labels_sequence options.renumber page (name_mem_of_mem_stages hs)
    rw [hkeys s hs]
    refine List.Nodup.of_map Prod.snd ?_
    rwa [List.map_map]
  · refine hdistinct.imp_of_mem fun {s s'} hs hs' hne => ?_
    intro key hkey hkey'
    simp only [hkeys s hs] at hkey
    simp only [hkeys s' hs'] at hkey'
    obtain ⟨c, -, rfl⟩ := List.mem_map.1 hkey
    obtain ⟨d, -, hsame⟩ := List.mem_map.1 hkey'
    exact hne (congrArg Prod.fst hsame).symm

/-- the rendered trees hold the categories of the sites -/
theorem placed_renderPage (options : Options) (page : Page) :
    (renderPage options page names).page.placed names =
      (pageSites options page names).map (Site.placed options.format) := by
  have hstage : ∀ s ∈ pageStages options page names,
      (renderPage options page names).page.placed [s.name] =
        (s.sites (renumberTrees options.renumber page names)).map (Site.placed options.format) := by
    intro s hs
    have hfind := findTree?_renderPage options page names s.name
    have hfind' := findTree?_renumberTrees options.renumber page names s.name
    have hlength := length_verdicts_of_mem_stages hs
    cases hpage : page.findTree? s.name with
    | none =>
      rw [hpage, Option.map_none] at hfind hfind'
      rw [Stage.sites_of_none hfind']
      simp [Page.placed, Page.namedTrees, hfind]
    | some t =>
      have hname : t.name = s.name := by simpa using List.find?_some hpage
      have hcount : names.count s.name = 1 := List.count_eq_one_of_mem hnames (name_mem_of_mem_stages hs)
      rw [hpage, Option.map_some, hcount, Function.iterate_one] at hfind'
      rw [hpage, Option.map_some, rendered, hname, stagesOf_eq_singleton hnames hs, hcount, Function.iterate_one] at hfind
      rw [Page.sequence_of_some hfind'] at hlength
      have hwritten : written options.format [s] (Numbering.renumberTree options.renumber t) =
          (Numbering.renumberTree options.renumber t).overwrite (treeTexts options.format s.verdicts) := rfl
      rw [Stage.sites_of_some hfind', Page.placed_of_some hfind, hwritten, Tree.name_overwrite, Tree.overwrite, treeTexts,
        Category.overwriteAll_eq_zipWith (by rw [List.length_map, hlength]), List.zipWith_map_right, List.map_zipWith,
        List.map_zipWith, ← hname]
      rfl
  have hnames' : ∀ f : String → List (String × Category),
      names.flatMap f = (pageStages options page names).flatMap fun s => f s.name := by
    intro f
    conv_lhs => rw [← map_name_stages options.malformed page .zero names]
    rw [List.flatMap_map]
  rw [Page.placed_eq_flatMap, hnames', pageSites, List.map_flatMap]
  exact List.flatMap_congr hstage

/-- **The issues of one site.** An issue about its category is reported as often as the verdict on the site says -/
theorem count_issues (options : Options) (page : Page) {x : Site} (hx : x ∈ pageSites options page names) {i : Issue}
    (hi : i.about? = some x.key) : (renderPage options page names).report.issues.count i = x.issues.count i := by
  have hreported := reported_renderPage options page names
  rw [← List.count_filter (Issue.isOfCategory_of_about? hi), hreported.issues]
  refine count_flatMap_of_key (nodup_key_pageSites hnames options page) hx ?_
  intro y _ hy
  rw [Site.about?_of_mem_issues hy] at hi
  exact Option.some.inj hi

end Nodup

end Rollup

end LedgerTotals
