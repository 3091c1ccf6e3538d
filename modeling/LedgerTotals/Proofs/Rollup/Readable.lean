/-
Pages on which every text under the names is an amount.

The policy for texts that are not amounts has nothing to decide there.

- `renderPage_policy`: both policies give the same pass, journal included;
- `of_mem_issues`: if there is a place for every total too, nothing is reported but trees that are not there and
  categories that overflow.
-/
import LedgerTotals.Proofs.Rollup.Footing
import LedgerTotals.Proofs.Rollup.Sites

namespace LedgerTotals.Rollup

/-! ## The journal -/

theorem malformedLine?_eq_none {text : String} (h : isMalformed text = false) (policy : MalformedPolicy)
    (label : String) : malformedLine? policy label text = none := by
  unfold isMalformed at h
  unfold malformedLine?
  cases hread : Amount.ofText text with
  | ok a => rfl
  | error e =>
    rw [hread] at h
    cases h

theorem Verdict.journal_of_readable {c : Category} (h : c.Readable) (policy policy' : MalformedPolicy) (tree : String) :
    Verdict.journal policy tree c = Verdict.journal policy' tree c := by
  have hnone : ∀ policy, c.amountTexts.filterMap (malformedLine? policy c.label) = [] := fun policy =>
    List.filterMap_eq_nil_iff.2 fun text htext => malformedLine?_eq_none (h text htext) policy c.label
  funext v
  cases v <;> simp only [journal, hnone]

theorem journalAll_of_readable {cs : List Category} (h : ∀ c ∈ cs, c.Readable) (policy policy' : MalformedPolicy)
    (tree : String) (vs : List Verdict) : journalAll policy tree cs vs = journalAll policy' tree cs vs := by
  have hline : ∀ policy, journalAll policy tree cs vs =
      (List.zipWith (fun f v => f v) (cs.map (Verdict.journal policy tree)) vs).flatten := fun policy => by
    rw [List.zipWith_map_left, journalAll]
  rw [hline, hline, List.map_congr_left fun c hc => Verdict.journal_of_readable (h c hc) policy policy' tree]

theorem Stage.journal_of_readable {page : Page} {s : Stage} (h : ∀ t, page.findTree? s.name = some t → t.Readable)
    (policy policy' : MalformedPolicy) : s.journal policy page = s.journal policy' page := by
  rw [journal, journal]
  cases hfind : page.findTree? s.name with
  | none => rfl
  | some t => simp only [treeJournal, journalAll_of_readable (h t hfind) policy policy']

/-! ## The pass -/

theorem renderTrees_policy (options : Options) {page : Page} {names : List String}
    (h : ∀ t ∈ page.namedTrees names, t.Readable) (policy policy' : MalformedPolicy) :
    renderTrees { options with malformed := policy } page .zero names =
      renderTrees { options with malformed := policy' } page .zero names := by
  have hname : ∀ name ∈ names, ∀ t, page.findTree? name = some t → t.Readable := fun name hname t ht =>
    h t (List.mem_filterMap.2 ⟨name, hname, ht⟩)
  have hamounts : ∀ name ∈ names, (page.sequence [name]).map (amounts? policy) =
      (page.sequence [name]).map (amounts? policy') := by
    intro name hmem
    refine List.map_congr_left fun c hc => ?_
    have hread : c.Readable := by
      cases hfind : page.findTree? name with
      | none => simp [Page.sequence, Page.namedTrees, hfind] at hc
      | some t =>
        rw [Page.sequence_of_some hfind] at hc
        exact hname name hmem t hfind c hc
    rw [amounts?_of_readable hread, amounts?_of_readable hread]
  have hjournal : ∀ s ∈ pageStages { options with malformed := policy' } page names,
      s.journal policy page = s.journal policy' page := fun s hs =>
    Stage.journal_of_readable (hname s.name (name_mem_of_mem_stages hs)) policy policy'
  simp only [renderTrees_eq, stages_of_amounts hamounts, List.flatMap_congr hjournal]

/-- **The policy has nothing to decide** where every text is an amount -/
theorem renderPage_policy (options : Options) {page : Page} {names : List String}
    (h : ∀ t ∈ page.namedTrees names, t.Readable) (policy policy' : MalformedPolicy) :
    renderPage { options with malformed := policy } page names =
      renderPage { options with malformed := policy' } page names := by
  have hframes := Page.namedTrees_of_frame (frame_renumberTrees options.renumber page names) names
  have hread : ∀ t ∈ (renumberTrees options.renumber page names).namedTrees names, t.Readable :=
    forall_of_frames (fun _ _ => Tree.Readable.of_frame) hframes h
  simp only [renderPage, renderTrees_policy options hread policy policy']

/-! ## The issues -/

/-- where every text is an amount, and every total has its place, the issues are about names and overflows -/
theorem of_mem_issues {options : Options} {page : Page} {names : List String}
    (hread : ∀ t ∈ page.namedTrees names, t.Readable) (hsinks : page.HasSinks names) {i : Issue}
    (hi : i ∈ (renderPage options page names).report.issues) :
    (∃ name ∈ names, page.findTree? name = none ∧ i = .missingTree name) ∨
      ∃ x ∈ pageSites options page names, i = .overflow x.tree x.category.label := by
  rcases mem_issues_renderPage hi with hmissing | ⟨x, hx, hi⟩ | ⟨name, hname, t, hfind, htotal, -⟩ | ⟨hgrand, -⟩
  · exact .inl hmissing
  · refine .inr ⟨x, hx, ?_⟩
    have hcategory : x.category.Readable ∧ x.category.totals.isSome := by
      refine forall_category_pageSites (P := fun c => c.Readable ∧ c.totals.isSome) (fun c d hd hframe => ?_)
        (fun c hc => ?_) hx
      · exact ⟨hd.1.of_frame hframe, (congrArg Prod.snd hframe).trans hd.2⟩
      · obtain ⟨t, ht, hc⟩ := List.mem_flatMap.1 hc
        exact ⟨hread t ht c hc, (hsinks.trees t ht).categories c hc⟩
    obtain ⟨tree, c, v⟩ := x
    have hmalformed : malformedIssues tree c = [] :=
      List.map_eq_nil_iff.2 (List.filter_eq_nil_iff.2 fun text htext => by simp [hcategory.1 text htext])
    cases v with
    | rejected => simp [Site.issues, Verdict.issues, hmalformed] at hi
    | overflow => simpa [Site.issues, Verdict.issues, hmalformed] using hi
    | taken own => simp [Site.issues, Verdict.issues, hmalformed, hcategory.2] at hi
  · rw [(hsinks.trees t (List.mem_filterMap.2 ⟨name, hname, hfind⟩)).total] at htotal
    cases htotal
  · rw [hsinks.grandTotal] at hgrand
    cases hgrand

end LedgerTotals.Rollup
