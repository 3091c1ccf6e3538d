/-
Rendering a page a second time.

What a pass writes depends on nothing that it writes: neither the verdicts nor the reports look at the texts in the
sinks (`renderTrees_overwriteAll`). Labels that are numbered in place keep their numbers. So a second pass over the
outcome of the first writes the same texts in the same places.

Main result: `renderPage_again`, in the mode that replaces the numbers of the labels.
-/
import LedgerTotals.Proofs.Numbering
import LedgerTotals.Proofs.Rollup.Stages

namespace LedgerTotals.Rollup

/-! ## Texts do not matter to a pass -/

/-- over whatever texts, a pass over the trees writes the same texts, and says the same -/
theorem renderTrees_overwriteAll (options : Options) (page : Page) (grand : Totals) (names : List String) :
    ∃ news line report journal, ∀ others, renderTrees options (page.overwriteAll others) grand names =
      ⟨(page.overwriteAll others).overwriteAll news, line, report, journal⟩ := by
  refine ⟨(stages options.malformed page grand names).map (Stage.texts options.format),
    (renderTrees options page grand names).line, (renderTrees options page grand names).report,
    (renderTrees options page grand names).journal, fun others => ?_⟩
  have hreport := funext (Stage.report_overwriteAll page others)
  have hjournal := funext (Stage.journal_overwriteAll options.malformed page others)
  simp only [renderTrees_eq, stages_of_frame (page.frame_overwriteAll others), hreport, hjournal]

/-! ## The grand total does not matter to the trees -/

theorem showGrandTotal_showGrandTotal (format : AmountFormat) (totals : Totals) (page : Page) :
    showGrandTotal format totals (showGrandTotal format totals page) = showGrandTotal format totals page := by
  simp [showGrandTotal, Function.comp_def]

theorem missingGrandTotal_showGrandTotal (format : AmountFormat) (totals : Totals) (page : Page) :
    missingGrandTotal (showGrandTotal format totals page) = missingGrandTotal page := by
  simp [missingGrandTotal, showGrandTotal]

theorem renderTree_showGrandTotal (options : Options) (format : AmountFormat) (shown : Totals) (page : Page)
    (grand : Totals) (name : String) :
    renderTree options (showGrandTotal format shown page) grand name =
      { renderTree options page grand name with
        page := showGrandTotal format shown (renderTree options page grand name).page } := by
  cases hfind : page.findTree? name with
  | none =>
    have hfind' : (showGrandTotal format shown page).findTree? name = none := hfind
    rw [renderTree_of_none options grand hfind, renderTree_of_none options grand hfind']
  | some t =>
    have hfind' : (showGrandTotal format shown page).findTree? name = some t := hfind
    rw [renderTree_of_some options grand hfind, renderTree_of_some options grand hfind']
    rfl

theorem renderTrees_showGrandTotal (options : Options) (format : AmountFormat) (shown : Totals) (page : Page)
    (grand : Totals) (names : List String) :
    renderTrees options (showGrandTotal format shown page) grand names =
      { renderTrees options page grand names with
        page := showGrandTotal format shown (renderTrees options page grand names).page } := by
  induction names generalizing page grand with
  | nil => rfl
  | cons name names ih => simp only [renderTrees, renderTree_showGrandTotal, ih]

/-! ## What is said of the numbering -/

theorem entry_of_frame {p q : Page} (h : p.frame = q.frame) (name : String) :
    Numbering.entry p name = Numbering.entry q name := by
  have hfind := Page.frame_findTree? h name
  rw [Numbering.entry, Numbering.entry]
  cases hp : p.findTree? name with
  | none =>
    rw [hp, Option.map_none, eq_comm, Option.map_eq_none_iff] at hfind
    rw [hfind]
  | some t =>
    rw [hp, Option.map_some, eq_comm, Option.map_eq_some_iff] at hfind
    obtain ⟨u, hu, hframe⟩ := hfind
    have hlength := congrArg List.length (Tree.frames_categories hframe)
    rw [List.length_map, List.length_map] at hlength
    simp only [hu, hlength]

theorem renumberEntries_of_frame (mode : RenumberMode) {p q : Page} (h : p.frame = q.frame) (names : List String) :
    renumberEntries mode p names = renumberEntries mode q names := by
  induction names generalizing p q with
  | nil => rfl
  | cons name names ih =>
    have hp : (Numbering.renumber mode p name).frame = p.frame := frame_renumberTrees mode p [name]
    have hq : (Numbering.renumber mode q name).frame = q.frame := frame_renumberTrees mode q [name]
    rw [renumberEntries, renumberEntries, entry_of_frame h, ih (hp.trans (h.trans hq.symm))]

/-! ## The page -/

/-- **Rendering again.** If numbers are replaced, a second pass over the outcome of a first one gives the same page and
the same report, whatever the page and the names -/
theorem renderPage_again (policy : MalformedPolicy) (format : AmountFormat) (page : Page) (names : List String) :
    renderPage ⟨.replace, policy, format⟩ (renderPage ⟨.replace, policy, format⟩ page names).page names =
      renderPage ⟨.replace, policy, format⟩ page names := by
  obtain ⟨news, line, report, journal, hrun⟩ :=
    renderTrees_overwriteAll ⟨.replace, policy, format⟩ (renumberTrees .replace page names) .zero names
  have hfirst := hrun []
  have hagain := hrun news
  rw [Page.overwriteAll_self] at hagain
  set written := (renumberTrees .replace page names).overwriteAll news with hwritten
  have hfirst' : renderTrees ⟨.replace, policy, format⟩ (renumberTrees .replace page names) .zero names =
    ⟨written, line, report, journal⟩ := hfirst
  have hnumbered : (showGrandTotal format (line.headD .zero) written).Numbered names :=
    (numbered_renumberTrees page names).overwriteAll news
  have hframe : (showGrandTotal format (line.headD .zero) written).frame = page.frame := by
    rw [frame_showGrandTotal, hwritten, Page.frame_overwriteAll, frame_renumberTrees]
  simp only [renderPage, hfirst', renumberTrees_eq_self hnumbered, renderTrees_showGrandTotal, hagain,
    renumberEntries_of_frame _ hframe, missingGrandTotal_showGrandTotal, showGrandTotal_showGrandTotal]

end LedgerTotals.Rollup
