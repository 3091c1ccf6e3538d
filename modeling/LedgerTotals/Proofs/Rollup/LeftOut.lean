/-
A category that is left out is invisible.

A category is left out because a text rejects it or because it would overflow a total. Nothing of it may stay behind: if
its rows are taken away before the pass, all others come out as they did with the rows (`renderPage_emptied`).

The two passes are compared verdict by verdict. Where the first leaves a category out, the second adds an empty batch to
all running totals, so these stay alike (`Totals.Alike`), and totals that are alike give the same verdicts.
-/
import LedgerTotals.Proofs.Rollup.Accounting
import LedgerTotals.Proofs.Totals.Alike

namespace LedgerTotals

open Totals

def Category.emptied (c : Category) : Category := { c with rows := [] }

namespace Rollup

/-! ## One category -/

namespace Verdict

/-- the category, without its rows unless it is taken into the totals -/
def kept : Verdict → Category → Category
  | taken _, c => c
  | _, c => c.emptied

/-- the verdict on what is kept: an empty batch is always taken -/
def again : Verdict → Verdict
  | taken own => taken own
  | _ => taken .zero

theorem exists_again (v : Verdict) : ∃ own, v.again = taken own := by
  cases v with
  | taken own => exact ⟨own, rfl⟩
  | rejected => exact ⟨.zero, rfl⟩
  | overflow => exact ⟨.zero, rfl⟩

theorem totals_kept (v : Verdict) (c : Category) : (v.kept c).totals = c.totals := by
  cases v <;> rfl

theorem added_kept (v : Verdict) (c : Category) : v.again.added (v.kept c) = v.added c := by
  cases v <;> rfl

theorem shown_eq_none_iff {format : AmountFormat} {v : Verdict} : v.shown format = none ↔ ∀ own, v ≠ taken own := by
  cases v <;> simp [shown]

theorem alike_after (v : Verdict) {t u : Totals} (h : t.Alike u) : (v.after t).Alike (v.again.after u) := by
  have hempty : t.Alike ((taken .zero).after u) := by
    obtain ⟨u', hu', halike⟩ := alike_post?_zero u
    rw [after, hu', Option.getD_some]
    exact h.trans halike
  cases v with
  | rejected => exact hempty
  | overflow => exact hempty
  | taken own =>
    have hsame := h.isSome_post? own
    rw [again, after, after]
    cases ht : own.post? t with
    | none =>
      rw [ht, Option.isSome_none, eq_comm, Option.isSome_eq_false_iff, Option.isNone_iff_eq_none] at hsame
      rw [hsame]
      exact h
    | some t' =>
      obtain ⟨u', hu', halike⟩ := h.post? (.refl own) ht
      rw [hu']
      exact halike

theorem alike_afterAll (vs : List Verdict) {t u : Totals} (h : t.Alike u) :
    (afterAll vs t).Alike (afterAll (vs.map again) u) := by
  induction vs generalizing t u with
  | nil => exact h
  | cons v vs ih => exact ih (v.alike_after h)

end Verdict

theorem isSome_postAll?_iff {own : Totals} {line : List Totals} :
    (own.postAll? line).isSome ↔ ∀ t ∈ line, (own.post? t).isSome := by
  induction line with
  | nil => simp [postAll?]
  | cons t line ih =>
    rw [List.forall_mem_cons, ← ih, postAll?, List.mapM_cons, postAll?]
    cases own.post? t with
    | none => simp
    | some t' => cases List.mapM (post? own) line <;> simp

/-- running totals that are alike take the same batches -/
theorem isSome_postAll?_alike {line line' : List Totals} (h : List.Forall₂ Alike line line') (own : Totals) :
    (own.postAll? line).isSome = (own.postAll? line').isSome := by
  rw [Bool.eq_iff_iff, isSome_postAll?_iff, isSome_postAll?_iff]
  induction h with
  | nil => rfl
  | cons halike _ ih => rw [List.forall_mem_cons, List.forall_mem_cons, halike.isSome_post? own, ih]

/-- below running totals that are alike the verdict is the same -/
theorem verdict_alike (policy : MalformedPolicy) {line line' : List Totals} (h : List.Forall₂ Alike line line')
    (c : Category) : verdict policy line c = verdict policy line' c := by
  simp only [verdict_eq, isSome_postAll?_alike h]

/-- an empty category is always taken -/
theorem verdict_emptied (policy : MalformedPolicy) (line : List Totals) (c : Category) :
    verdict policy line c.emptied = .taken .zero := by
  have hamounts : amounts? policy c.emptied = some [] := rfl
  have hsums : ofBatch? [] = some Totals.zero := rfl
  have hpost : (Totals.zero.postAll? line).isSome = true := by
    refine isSome_postAll?_iff.2 fun t _ => ?_
    obtain ⟨u, hu, -⟩ := alike_post?_zero t
    rw [hu]
    rfl
  simp only [verdict_eq, hamounts, hsums, hpost, if_true]

/-! ## One category after the other -/

/-- **Two passes in step.** Without the rows of those that were left out, below running totals that are alike, all others
get the verdicts they had, and those that were left out are taken with nothing in them -/
theorem verdicts_again (policy : MalformedPolicy) {line line' : List Totals} (h : List.Forall₂ Alike line line')
    (cs : List Category) :
    let vs := verdicts policy line cs
    verdicts policy line' (List.zipWith Verdict.kept vs cs) = vs.map Verdict.again := by
  induction cs generalizing line line' with
  | nil => rfl
  | cons c cs ih =>
    obtain ⟨v, hv⟩ : ∃ v, verdict policy line c = v := ⟨_, rfl⟩
    have hline : List.Forall₂ Alike (line.map v.after) (line'.map v.again.after) := by
      rw [List.forall₂_map_left_iff, List.forall₂_map_right_iff]
      exact h.imp fun t u htu => v.alike_after htu
    have hhead : verdict policy line' (v.kept c) = v.again := by
      have hv' := (verdict_alike policy h c).symm.trans hv
      cases v with
      | rejected => exact verdict_emptied policy line' c
      | overflow => exact verdict_emptied policy line' c
      | taken own => exact hv'
    simp only [verdicts, hv, List.zipWith_cons_cons, List.map_cons, hhead, ih hline]

theorem zipWith_added_kept (vs : List Verdict) (cs : List Category) :
    List.zipWith Verdict.added (List.zipWith Verdict.kept vs cs) (vs.map Verdict.again) =
      List.zipWith Verdict.added cs vs := by
  induction vs generalizing cs with
  | nil => simp
  | cons v vs ih =>
    cases cs with
    | nil => rfl
    | cons c cs => simp [ih, Verdict.added_kept]

/-! ## The stages -/

def Stage.again (s : Stage) : Stage := ⟨s.name, s.verdicts.map Verdict.again⟩

theorem stages_again (policy : MalformedPolicy) {page rest : Page} {grand grand' : Totals} {names : List String}
    (h : ∀ s ∈ stages policy page grand names,
      rest.sequence [s.name] = List.zipWith Verdict.kept s.verdicts (page.sequence [s.name]))
    (hgrand : grand.Alike grand') :
    stages policy rest grand' names = (stages policy page grand names).map Stage.again := by
  induction names generalizing grand grand' with
  | nil => rfl
  | cons name names ih =>
    rw [stages, List.forall_mem_cons] at h
    obtain ⟨hhead, htail⟩ := h
    have hline : List.Forall₂ Alike [Totals.zero, grand] [Totals.zero, grand'] :=
      .cons (.refl _) (.cons hgrand .nil)
    have hverdicts := verdicts_again policy hline (page.sequence [name])
    simp only [stages, List.map_cons, hhead, hverdicts]
    exact congrArg₂ List.cons rfl (ih htail (Verdict.alike_afterAll _ hgrand))

/-! ## The page without what is left out -/

/-- the pass with this report leaves the category at a position of a tree out: a text rejects it, or the report says that
it would overflow a total -/
def LeftOut (options : Options) (r : Report) (tree : String) (k : ℕ) (c : Category) : Prop :=
  c.Rejected options.malformed ∨ .overflow tree (Numbering.numbered options.renumber k c.label) ∈ r.issues

instance (options : Options) (r : Report) (tree : String) (k : ℕ) (c : Category) :
    Decidable (LeftOut options r tree k c) := inferInstanceAs (Decidable (_ ∨ _))

/-- the tree without the rows of the categories that are left out -/
def emptiedTree (options : Options) (r : Report) (t : Tree) : Tree :=
  { t with categories := t.categories.mapIdx fun k c => if LeftOut options r t.name k c then c.emptied else c }

/-- the page without the rows of the categories that are left out, in the trees of the names -/
def emptied (options : Options) (r : Report) (page : Page) (names : List String) : Page :=
  names.foldl (fun p name => p.updateTree name (emptiedTree options r)) page

theorem grandTotal_emptied (options : Options) (r : Report) (page : Page) (names : List String) :
    (emptied options r page names).grandTotal = page.grandTotal := by
  induction names generalizing page with
  | nil => rfl
  | cons name names ih => exact ih _

/-- the page without the rows of what a pass over it leaves out -/
abbrev remainder (options : Options) (page : Page) (names : List String) : Page :=
  emptied options (renderPage options page names).report page names

/-- there is a verdict for each category of a listed tree -/
theorem exists_verdict {options : Options} {page : Page} {names : List String} {s : Stage}
    (hs : s ∈ pageStages options page names) {t : Tree} (ht : page.findTree? s.name = some t) {k : ℕ} {c : Category}
    (hc : t.categories[k]? = some c) : ∃ v, s.verdicts[k]? = some v := by
  obtain ⟨g, hverdicts⟩ := exists_line_of_mem_stages hs
  have hlt := (List.getElem?_eq_some_iff.1 hc).1
  rw [Page.sequence_of_some ht] at hverdicts
  rw [← length_verdicts options.malformed [.zero, g] t.categories, ← hverdicts] at hlt
  exact ⟨_, List.getElem?_eq_getElem hlt⟩

theorem emptied_eq (options : Options) (r : Report) (page : Page) (names : List String) :
    emptied options r page names = page.updateTrees (names.map fun name => (name, emptiedTree options r)) := by
  rw [emptied, Page.updateTrees, List.foldl_map]

section Nodup

variable {names : List String} (hnames : names.Nodup)

include hnames

theorem findTree?_emptied (options : Options) (r : Report) (page : Page) {name : String} (hname : name ∈ names) :
    (emptied options r page names).findTree? name = (page.findTree? name).map (emptiedTree options r) := by
  rw [emptied_eq, Page.findTree?_updateTrees_map (emptiedTree options r) fun _ => rfl,
    List.count_eq_one_of_mem hnames hname, Function.iterate_one]

/-- a category is left out exactly if its verdict does not take it -/
theorem leftOut_iff {options : Options} {page : Page} {s : Stage} (hs : s ∈ pageStages options page names) {t : Tree}
    (ht : page.findTree? s.name = some t) {k : ℕ} {c : Category} (hc : t.categories[k]? = some c) {v : Verdict}
    (hv : s.verdicts[k]? = some v) :
    LeftOut options (renderPage options page names).report s.name k c ↔ ∀ own, v ≠ .taken own := by
  have hfind := findTree?_renumberTrees options.renumber page names s.name
  rw [ht, Option.map_some, List.count_eq_one_of_mem hnames (name_mem_of_mem_stages hs), Function.iterate_one] at hfind
  have hsite : (⟨s.name, { c with label := Numbering.numbered options.renumber k c.label }, v⟩ : Site) ∈
      pageSites options page names := by
    refine List.mem_flatMap.2 ⟨s, hs, List.mem_iff_getElem?.2 ⟨k, ?_⟩⟩
    rw [Stage.sites_of_some hfind, List.getElem?_zipWith_eq_some]
    refine ⟨_, v, ?_, hv, rfl⟩
    rw [Numbering.getElem?_renumberTree, hc]
    rfl
  obtain ⟨line, hverdict⟩ := exists_line_of_mem_pageSites hsite
  have hrejected : c.Rejected options.malformed ↔ v = .rejected := by
    rw [show v = _ from hverdict, verdict_eq_rejected_iff]
    rfl
  have hoverflow : Issue.overflow s.name (Numbering.numbered options.renumber k c.label) ∈
      (renderPage options page names).report.issues ↔ v = .overflow := by
    have hcount : (renderPage options page names).report.issues.count
        (.overflow s.name (Numbering.numbered options.renumber k c.label)) = if v = .overflow then 1 else 0 :=
      overflows_site hnames options page hsite
    rw [← List.count_pos_iff, hcount]
    split_ifs with h <;> simp [h]
  rw [LeftOut, hrejected, hoverflow]
  cases v <;> simp

/-- what is left without the rows of what is left out -/
theorem kept_eq {options : Options} {page : Page} {s : Stage} (hs : s ∈ pageStages options page names) {t : Tree}
    (ht : page.findTree? s.name = some t) {k : ℕ} {c : Category} (hc : t.categories[k]? = some c) {v : Verdict}
    (hv : s.verdicts[k]? = some v) :
    (if LeftOut options (renderPage options page names).report s.name k c then c.emptied else c) = v.kept c := by
  have hleftOut := leftOut_iff hnames hs ht hc hv
  cases v with
  | rejected => exact if_pos (hleftOut.2 fun _ => Verdict.noConfusion)
  | overflow => exact if_pos (hleftOut.2 fun _ => Verdict.noConfusion)
  | taken own => exact if_neg fun h => hleftOut.1 h own rfl

/-- the categories of a tree that are kept in the second pass -/
theorem sequence_remainder {options : Options} {page : Page} {s : Stage} (hs : s ∈ pageStages options page names) :
    (remainder options page names).sequence [s.name] = List.zipWith Verdict.kept s.verdicts (page.sequence [s.name]) := by
  have hfind := findTree?_emptied hnames options (renderPage options page names).report page (name_mem_of_mem_stages hs)
  cases ht : page.findTree? s.name with
  | none =>
    rw [ht, Option.map_none] at hfind
    simp [Page.sequence, Page.namedTrees, hfind, ht]
  | some t =>
    rw [ht, Option.map_some] at hfind
    have hname : t.name = s.name := by simpa using List.find?_some ht
    rw [Page.sequence_of_some hfind, Page.sequence_of_some ht]
    refine List.ext_getElem? fun k => ?_
    rw [emptiedTree, List.getElem?_mapIdx, List.getElem?_zipWith, hname]
    cases hc : t.categories[k]? with
    | none => cases s.verdicts[k]? <;> rfl
    | some c =>
      obtain ⟨v, hv⟩ := exists_verdict hs ht hc
      rw [hv, Option.map_some, kept_eq hnames hs ht hc hv]

theorem stages_remainder (options : Options) (page : Page) :
    pageStages options (remainder options page names) names = (pageStages options page names).map Stage.again :=
  stages_again options.malformed (fun _ hs => sequence_remainder hnames hs) (.refl _)

theorem again_mem_stages {options : Options} {page : Page} {s : Stage} (hs : s ∈ pageStages options page names) :
    s.again ∈ pageStages options (remainder options page names) names := by
  rw [stages_remainder hnames]
  exact List.mem_map_of_mem hs

/-! ## Two passes -/

/-- the second pass leaves nothing out -/
theorem not_leftOut_remainder {options : Options} {page : Page} {name : String} (hname : name ∈ names) {t : Tree}
    (ht : (remainder options page names).findTree? name = some t) {k : ℕ} {c : Category}
    (hc : t.categories[k]? = some c) :
    ¬ LeftOut options (renderPage options (remainder options page names) names).report name k c := by
  obtain ⟨s, hs, rfl⟩ := exists_stage options page hname
  have ht' : (remainder options page names).findTree? s.again.name = some t := ht
  obtain ⟨v, hv⟩ := exists_verdict (again_mem_stages hnames hs) ht' hc
  obtain ⟨w, -, hw⟩ : ∃ w, s.verdicts[k]? = some w ∧ w.again = v := by
    rwa [Stage.again, List.getElem?_map, Option.map_eq_some_iff] at hv
  obtain ⟨own, hown⟩ := w.exists_again
  intro hleftOut
  exact (leftOut_iff hnames (again_mem_stages hnames hs) ht' hc hv).1 hleftOut own (hw.symm.trans hown)

/-- the total of a rendered tree is that of its stage -/
theorem total_rendered {options : Options} {page : Page} {s : Stage} (hs : s ∈ pageStages options page names) {t : Tree}
    (hname : t.name = s.name) : (rendered options page names t).total =
      Sinks.overwrite (some ((afterAll s.verdicts .zero).sinks options.format)) t.total := by
  rw [rendered, total_written, hname, stagesOf_eq_singleton hnames hs, total_iterate_renumberTree]
  rfl

/-- the texts of a category in a rendered tree are those of its verdict -/
theorem exists_category_of_verdict {options : Options} {page : Page} {s : Stage} (hs : s ∈ pageStages options page names)
    {t : Tree} (hname : t.name = s.name) {k : ℕ} {c : Category} (hc : t.categories[k]? = some c) {v : Verdict}
    (hv : s.verdicts[k]? = some v) : ∃ d, (rendered options page names t).categories[k]? = some d ∧
      d.totals = Sinks.overwrite (v.shown options.format) c.totals := by
  have hnew : newTexts options.format [s] k = v.shown options.format := by
    rw [newTexts, List.foldl_cons, List.foldl_nil, hv, Option.bind_some, Option.or_none]
  have hcategory := exists_category_rendered options page names hc
  rwa [hname, stagesOf_eq_singleton hnames hs, hnew] at hcategory

/-- in both passes a tree has one total -/
theorem total_rendered_remainder {options : Options} {page : Page} {s : Stage}
    (hs : s ∈ pageStages options page names) {t : Tree} (hname : t.name = s.name) (r : Report) :
    (rendered options (remainder options page names) names (emptiedTree options r t)).total =
      (rendered options page names t).total := by
  have halike := Verdict.alike_afterAll s.verdicts (.refl .zero)
  have hname' : (emptiedTree options r t).name = s.again.name := hname
  rw [total_rendered hnames (again_mem_stages hnames hs) hname', total_rendered hnames hs hname, halike.sinks_eq]
  rfl

/-- a category that was left out kept its texts, and any other has the same in both passes -/
theorem category_rendered_remainder {options : Options} {page : Page} {s : Stage}
    (hs : s ∈ pageStages options page names) {t : Tree} (ht : page.findTree? s.name = some t) {k : ℕ} {c : Category}
    (hc : t.categories[k]? = some c) :
    let r := (renderPage options page names).report
    ∃ d e, (rendered options page names t).categories[k]? = some d ∧
      (rendered options (remainder options page names) names (emptiedTree options r t)).categories[k]? = some e ∧
        if LeftOut options r s.name k c then d.totals = c.totals else e.totals = d.totals := by
  intro r
  have hname : t.name = s.name := by simpa using List.find?_some ht
  have hname' : (emptiedTree options r t).name = s.again.name := hname
  obtain ⟨v, hv⟩ := exists_verdict hs ht hc
  have hc' : (emptiedTree options r t).categories[k]? = some (v.kept c) := by
    rw [emptiedTree, List.getElem?_mapIdx, hc, Option.map_some, hname, kept_eq hnames hs ht hc hv]
  have hv' : s.again.verdicts[k]? = some v.again := by
    rw [Stage.again, List.getElem?_map, hv, Option.map_some]
  obtain ⟨d, hd, hdtotals⟩ := exists_category_of_verdict hnames hs hname hc hv
  obtain ⟨e, he, hetotals⟩ := exists_category_of_verdict hnames (again_mem_stages hnames hs) hname' hc' hv'
  refine ⟨d, e, hd, he, ?_⟩
  split_ifs with hleftOut
  · have hnone : v.shown options.format = none :=
      Verdict.shown_eq_none_iff.2 ((leftOut_iff hnames hs ht hc hv).1 hleftOut)
    rw [hdtotals, hnone, Sinks.overwrite_none]
  · obtain ⟨own, rfl⟩ : ∃ own, v = .taken own := by
      simpa using mt (leftOut_iff hnames hs ht hc hv).2 hleftOut
    rw [hetotals, hdtotals, Verdict.totals_kept]
    rfl

theorem grandTotal_remainder (options : Options) (page : Page) :
    (renderPage options (remainder options page names) names).page.grandTotal =
      (renderPage options page names).page.grandTotal := by
  have halike := Verdict.alike_afterAll (allVerdicts (pageStages options page names)) (.refl .zero)
  have hverdicts : allVerdicts (pageStages options (remainder options page names) names) =
      (allVerdicts (pageStages options page names)).map Verdict.again := by
    rw [stages_remainder hnames, allVerdicts, allVerdicts, List.flatMap_map, List.map_flatMap]
    rfl
  rw [grandTotal_renderPage, grandTotal_renderPage, hverdicts, ← halike.sinks_eq, grandTotal_emptied]

theorem amountsAdded_remainder (options : Options) (page : Page) :
    (renderPage options (remainder options page names) names).report.amountsAdded =
      (renderPage options page names).report.amountsAdded := by
  rw [amountsAdded_renderPage, amountsAdded_renderPage, stages_remainder hnames, List.map_map]
  refine congrArg List.sum (List.map_congr_left fun s hs => ?_)
  have hsequence := sequence_remainder hnames hs
  simp only [Function.comp_apply, Stage.again, hsequence, zipWith_added_kept]

end Nodup

/-- a tree that is not the first of a listed name is there with all its rows -/
theorem getElem?_emptied_other (options : Options) (r : Report) {page : Page} {names : List String} {i : ℕ} {t : Tree}
    (ht : page.trees[i]? = some t) (hother : t.name ∉ names ∨ page.indexOf? t.name ≠ some i) :
    (emptied options r page names).trees[i]? = some t := by
  rw [emptied_eq, Page.getElem?_updateTrees (Page.name_of_mem_map (emptiedTree options r) (fun _ => rfl) names), ht,
    Option.map_some, Page.updatesOf_map]
  rcases hother with hname | hfirst
  · rw [List.count_eq_zero_of_not_mem hname, Function.iterate_zero, id, ite_self]
  · rw [if_neg hfirst]

/-- the second pass, over the page without the rows of what the first left out, leaves nothing out; it shows and adds
what the first did, and what the first left out kept its texts there -/
structure SameWithout (options : Options) (page : Page) (names : List String) (first second : Pass) : Prop where
  nothingLeftOut : ∀ name ∈ names, ∀ t, (emptied options first.report page names).findTree? name = some t →
    ∀ (k : ℕ) (c : Category), t.categories[k]? = some c → ¬ LeftOut options second.report name k c
  trees : ∀ name ∈ names, ∀ t, page.findTree? name = some t →
    ∃ u v, first.page.findTree? name = some u ∧ second.page.findTree? name = some v ∧ v.total = u.total ∧
      ∀ (k : ℕ) (c : Category), t.categories[k]? = some c →
        ∃ d e, u.categories[k]? = some d ∧ v.categories[k]? = some e ∧
          if LeftOut options first.report name k c then d.totals = c.totals else e.totals = d.totals
  others : ∀ i t, page.trees[i]? = some t → t.name ∉ names ∨ page.indexOf? t.name ≠ some i →
    first.page.trees[i]? = some t ∧ second.page.trees[i]? = some t
  grandTotal : second.page.grandTotal = first.page.grandTotal
  amountsAdded : second.report.amountsAdded = first.report.amountsAdded

/-- **What is left out is invisible.** If no name is listed twice, a pass over the page without the rows of the
categories that were left out leaves nothing out, and comes to the same totals everywhere else -/
theorem renderPage_emptied (options : Options) (page : Page) {names : List String} (hnames : names.Nodup) :
    let first := renderPage options page names
    SameWithout options page names first (renderPage options (emptied options first.report page names) names) := by
  intro first
  refine ⟨?_, ?_, ?_, ?_, ?_⟩
  · intro name hname t ht k c hc
    exact not_leftOut_remainder hnames hname ht hc
  · intro name hname t ht
    obtain ⟨s, hs, rfl⟩ := exists_stage options page hname
    have htname : t.name = s.name := by simpa using List.find?_some ht
    refine ⟨rendered options page names t,
      rendered options (remainder options page names) names (emptiedTree options first.report t), ?_, ?_, ?_, ?_⟩
    · rw [findTree?_renderPage, ht, Option.map_some]
    · rw [findTree?_renderPage, findTree?_emptied hnames options _ page hname, ht, Option.map_some, Option.map_some]
    · exact total_rendered_remainder hnames hs htname first.report
    · intro k c hc
      exact category_rendered_remainder hnames hs ht hc
  · intro i t ht hother
    have hindex : (remainder options page names).indexOf? t.name = page.indexOf? t.name := by
      rw [remainder, emptied_eq]
      exact Page.indexOf?_updateTrees (Page.name_of_mem_map (emptiedTree options _) (fun _ => rfl) names) page t.name
    refine ⟨getElem?_renderPage_other options ht hother, ?_⟩
    refine getElem?_renderPage_other options (getElem?_emptied_other options first.report ht hother) ?_
    exact hother.imp_right fun hfirst h => hfirst (hindex.symm.trans h)
  · exact grandTotal_remainder hnames options page
  · exact amountsAdded_remainder hnames options page

/-- one category that overflows and one that is rejected, in different trees -/
theorem renderPage_emptied_filling :
    let options : Options := ⟨.replace, .reject, .plain⟩
    let names := [importedName, assignedName]
    let first := renderPage options (cutAt 3) names
    names.Nodup ∧ LeftOut options first.report importedName 2 (.new "Refunds" [.ofAmount "5"]) ∧
      LeftOut options first.report assignedName 1 (.new "Notes" [.ofAmount "0", .ofAmount "n/a"]) ∧
      SameWithout options (cutAt 3) names first (renderPage options (emptied options first.report (cutAt 3) names) names) := by
  have hnames : [importedName, assignedName].Nodup := by decide
  exact ⟨hnames, by decide +kernel, by decide +kernel, renderPage_emptied ⟨.replace, .reject, .plain⟩ (cutAt 3) hnames⟩

end Rollup

end LedgerTotals
