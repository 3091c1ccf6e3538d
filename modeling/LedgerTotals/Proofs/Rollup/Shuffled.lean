/-
Order does not change the figures.

Where the amounts fit one scale, no order makes a sum overflow or has one rounded. So the texts are those of the exact
sums (`writes_of_fitsAt`), and what is reported of a category is a matter of its own texts. Neither depends on the
order of the rows, of the categories or of the names.

- `exactTexts_shuffled`: the texts at each place, followed to where the place has moved;
- `tally_stage_shuffled`: what is reported of a name, with the labels as they are without numbers in front;
- `renderPage_shuffled`: main result.
-/
import LedgerTotals.Proofs.Page.Shuffled
import LedgerTotals.Proofs.Rollup.Fitting
import LedgerTotals.Proofs.Rollup.Outline

namespace LedgerTotals

open Decimal Totals

/-! ## Reports in whatever order -/

/-- the label without the number in front -/
def Numbering.unnumbered (label : String) : String := String.ofList (stripPosition label.toList)

/-- what a label keeps when it is renumbered, as a text -/
def Numbering.keptLabel (mode : RenumberMode) (label : String) : String := String.ofList (kept mode label)

theorem Numbering.unnumbered_numbered (mode : RenumberMode) (k : ℕ) (label : String) :
    unnumbered (numbered mode k label) = keptLabel mode label := by
  rw [unnumbered, numbered, String.toList_ofList, stripPosition_digits, keptLabel]

namespace Report

/-- the counters, and the issues in whatever order -/
def tally (r : Report) : ℕ × ℕ × ℕ × Multiset Issue := (r.treesProcessed, r.nodesRendered, r.amountsAdded, r.issues)

theorem tally_merge (a b : Report) : (a.merge b).tally = a.tally + b.tally := by
  simp [tally, merge]

theorem tally_foldr (rs : List Report) : (rs.foldr merge empty).tally = (rs.map tally).sum := by
  induction rs with
  | nil => rfl
  | cons r rs ih => rw [List.foldr_cons, tally_merge, ih, List.map_cons, List.sum_cons]

end Report

/-! ## Sums over a page -/

theorem coe_flatMap {α β : Type} (l : List α) (f : α → List β) :
    ((l.flatMap f : List β) : Multiset β) = (l.map fun a => (f a : Multiset β)).sum := by
  induction l with
  | nil => rfl
  | cons a l ih => rw [List.flatMap_cons, ← Multiset.coe_add, ih, List.map_cons, List.sum_cons]

namespace Page.Shuffled

variable {σ : ℕ → Equiv.Perm ℕ} {p q : Page} (h : p.Shuffled σ q)

include h

/-- the categories under a name are matched up -/
theorem rel_sequence {name : String} {i : ℕ} (hi : ∀ j, p.indexOf? name = some j → j = i) (k : ℕ) :
    Option.Rel Category.Shuffled (p.sequence [name])[k]? (q.sequence [name])[σ i k]? := by
  rcases h.findTree? name with ⟨hp, hq⟩ | ⟨j, t, u, hj, hp, hq, htu⟩
  · simp [sequence, namedTrees, hp, hq]
  · obtain rfl := hi j hj
    rw [sequence_of_some hp, sequence_of_some hq]
    exact htu.categories k

/-- what matched categories have in common adds up to the same over the page, whatever the order of the names -/
theorem sum_sequence {M : Type} [AddCommMonoid M] {names names' : List String} (hperm : names.Perm names')
    {f g : Category → M} (hfg : ∀ c d, c.Shuffled d → f c = g d) :
    ((p.sequence names).map f).sum = ((q.sequence names').map g).sum := by
  have hnames : ∀ (r : Page) (f : Category → M) (names : List String),
      ((r.sequence names).map f).sum = (names.map fun name => ((r.sequence [name]).map f).sum).sum := by
    intro r f names
    induction names with
    | nil => rfl
    | cons name names ih => rw [sequence_cons, List.map_append, List.sum_append, ih, List.map_cons, List.sum_cons]
  have htree : ∀ name, ((p.sequence [name]).map f).sum = ((q.sequence [name]).map g).sum := by
    intro name
    refine sum_map_of_rel (h.rel_sequence (i := (p.indexOf? name).getD 0) fun j hj => ?_) fun c _ d => hfg c d
    rw [hj, Option.getD_some]
  calc ((p.sequence names).map f).sum = (names.map fun name => ((p.sequence [name]).map f).sum).sum := hnames p f names
    _ = (names.map fun name => ((q.sequence [name]).map g).sum).sum := by simp only [htree]
    _ = (names'.map fun name => ((q.sequence [name]).map g).sum).sum := (hperm.map _).sum_eq
    _ = ((q.sequence names').map g).sum := (hnames q g names').symm

/-- runs of numbers that are the same but for their order make up the same numbers -/
theorem flatMap_sequence_perm {β : Type} {names names' : List String} (hperm : names.Perm names') {f : Category → List β}
    (hf : ∀ c d, c.Shuffled d → (f c).Perm (f d)) :
    ((p.sequence names).flatMap f).Perm ((q.sequence names').flatMap f) := by
  rw [← Multiset.coe_eq_coe, coe_flatMap, coe_flatMap]
  exact h.sum_sequence hperm fun c d hcd => Multiset.coe_eq_coe.2 (hf c d hcd)

end Page.Shuffled

theorem Category.Shuffled.posted {c d : Category} (h : c.Shuffled d) (policy : MalformedPolicy) :
    (c.posted policy).Perm (d.posted policy) := by
  unfold Category.posted
  by_cases hrejected : c.Rejected policy
  · rw [if_pos hrejected, if_pos ((h.rejected_iff policy).1 hrejected)]
  · rw [if_neg hrejected, if_neg (mt (h.rejected_iff policy).2 hrejected)]
    exact h.amounts

namespace Rollup

open Page

/-! ## Texts -/

section Texts

variable {σ : ℕ → Equiv.Perm ℕ} {p q : Page} (h : p.Shuffled σ q)

include h

theorem exactSinks_shuffled (options : Options) {names names' : List String} (hperm : names.Perm names') :
    exactSinks options (p.sequence names) = exactSinks options (q.sequence names') := by
  rw [exactSinks, exactSinks, Figures.ofAmounts_perm (h.flatMap_sequence_perm hperm fun c d hcd => hcd.posted _)]

/-- **The texts at each place**, followed to where it has moved -/
theorem exactTexts_shuffled (options : Options) {names names' : List String} (hperm : names.Perm names') (x : Slot) :
    exactTexts options p names x = exactTexts options q names' (x.moved σ) := by
  have hlisted : ∀ i, (p.leads? i).filter (· ∈ names) = (q.leads? i).filter (· ∈ names') := by
    intro i
    rw [h.leads?]
    simp only [hperm.mem_iff]
  cases x with
  | page => exact congrArg some (exactSinks_shuffled h options hperm)
  | tree i =>
    simp only [exactTexts, Slot.moved, hlisted, exactSinks_shuffled h options (List.Perm.refl [_])]
  | category i k =>
    simp only [exactTexts, Slot.moved, hlisted]
    cases hlead : (q.leads? i).filter (· ∈ names') with
    | none => rfl
    | some name =>
      obtain ⟨hleads, -⟩ := Option.filter_eq_some_iff.1 hlead
      have hindex := indexOf?_of_leads? ((h.leads? i).trans hleads)
      refine bind_eq_of_rel (h.rel_sequence (fun j hj => Option.some.inj (hj.symm.trans hindex)) k) fun c _ d hcd => ?_
      have hsinks : exactSinks options [c] = exactSinks options [d] := by
        rw [exactSinks, exactSinks, List.flatMap_singleton, List.flatMap_singleton,
          Figures.ofAmounts_perm (hcd.posted options.malformed)]
      simp only [hcd.rejected_iff options.malformed, hsinks]

end Texts

/-! ## Reports -/

/-- each category is reported for its own texts -/
theorem tally_report_shuffled {s : ℕ} (hs : s ≤ maxScale) (policy : MalformedPolicy) (tree : String)
    (f : String → String) {c d : Category} (hfits : FitsAt s c.amounts) (hcd : c.Shuffled d) :
    ((verdict policy [] c).report tree (c.outline f)).tally =
      ((verdict policy [] d).report tree (d.outline f)).tally := by
  have hlabel : (c.outline f).label = (d.outline f).label := congrArg f hcd.label
  have hsinks : (c.outline f).totals.isSome = (d.outline f).totals.isSome := by
    rw [Category.outline, Category.outline, hcd.totals]
  have hrows : (c.outline f).rows.length = (d.outline f).rows.length := (hcd.rows.map _).length_eq
  have hmalformed : (malformedIssues tree (c.outline f) : Multiset Issue) = malformedIssues tree (d.outline f) := by
    rw [Multiset.coe_eq_coe, malformedIssues, malformedIssues, Category.amountTexts_outline,
      Category.amountTexts_outline, hlabel]
    exact (hcd.amountTexts.filter _).map _
  by_cases hrejected : c.Rejected policy
  · have hrejected' := (hcd.rejected_iff policy).1 hrejected
    rw [verdict_eq_rejected_iff.2 hrejected, verdict_eq_rejected_iff.2 hrejected']
    exact congrArg (fun issues => (0, 0, 0, issues)) hmalformed
  · have hkept' := mt (hcd.rejected_iff policy).2 hrejected
    obtain ⟨own, -, hown⟩ := exists_own_of_fitsAt hs hrejected hfits
    obtain ⟨own', -, hown'⟩ := exists_own_of_fitsAt hs hkept' (hfits.of_subperm hcd.amounts.symm.subperm)
    rw [hown [] rfl, hown' [] rfl]
    simp only [Verdict.report, Verdict.rendered, Verdict.added, Verdict.issues, Report.tally, hsinks, hrows, hlabel,
      ← Multiset.coe_add, hmalformed]

theorem tally_treeReport (policy : MalformedPolicy) (f : String → String) (t : Tree) :
    (treeReport (t.outline f) (t.categories.map (verdict policy []))).tally =
      (1, 0, 0, 0) + (t.categories.map fun c => ((verdict policy [] c).report t.name (c.outline f)).tally).sum +
        (Report.ofIssues (if t.total.isSome then [] else [.missingSink (some t.name) none])).tally := by
  have htotal : (t.outline f).total.isSome = t.total.isSome := Sinks.isSome_bare t.total
  have hcategories : (reportAll t.name (t.categories.map (Category.outline f))
      (t.categories.map (verdict policy []))).tally =
        (t.categories.map fun c => ((verdict policy [] c).report t.name (c.outline f)).tally).sum := by
    rw [reportAll, Report.tally_foldr, List.zipWith_map, List.zipWith_self, List.map_map]
    rfl
  rw [treeReport, Report.tally_merge, Report.tally_merge, htotal, ← hcategories]
  rfl

section Reports

variable {σ : ℕ → Equiv.Perm ℕ} {p q : Page} (h : p.Shuffled σ q) {s : ℕ} (hs : s ≤ maxScale)

include h hs

/-- **One name** is reported the same -/
theorem tally_stage_shuffled (policy : MalformedPolicy) (f : String → String) {names : List String}
    (hfits : FitsAt s (p.amounts names)) {name : String} (hname : name ∈ names) :
    ((aloneStage policy p name).report (p.outline f)).tally =
      ((aloneStage policy q name).report (q.outline f)).tally := by
  rw [Stage.report, Stage.report, findTree?_outline, findTree?_outline, aloneStage, aloneStage]
  rcases h.findTree? name with ⟨hp, hq⟩ | ⟨i, t, u, -, hp, hq, htu⟩
  · simp only [hp, hq, Option.map_none]
  · have hsequence := sequence_of_some hp
    simp only [hp, hq, Option.map_some, hsequence, sequence_of_some hq]
    rw [tally_treeReport, tally_treeReport, htu.name, htu.total]
    have hcategories := sum_map_of_rel htu.categories
      (f := fun c => ((verdict policy [] c).report u.name (c.outline f)).tally)
      (g := fun c => ((verdict policy [] c).report u.name (c.outline f)).tally) fun c hc d hcd => by
        refine tally_report_shuffled hs policy u.name f (fitsAt_category hfits ?_) hcd
        rw [← hsequence] at hc
        exact (p.sequence_sublist (List.singleton_sublist.2 hname)).subset hc
    rw [hcategories]

end Reports

/-- a report, name by name, without the numbers in front of labels -/
theorem tally_report_of_fitsAt {s : ℕ} (hs : s ≤ maxScale) (options : Options) {page : Page} {names : List String}
    (hnames : names.Nodup) (hfits : FitsAt s (page.amounts names)) :
    let outline := page.outline (Numbering.keptLabel options.renumber)
    ((renderPage options page names).report.relabel Numbering.unnumbered).tally =
      (names.map fun name => ((aloneStage options.malformed page name).report outline).tally).sum +
        (Report.ofIssues (missingGrandTotal page).1).tally := by
  intro outline
  obtain ⟨-, -, hreport⟩ := renderPage_eq options page names
  have houtline : Tree.outline Numbering.unnumbered ∘ Numbering.renumberTree options.renumber =
      Tree.outline (Numbering.keptLabel options.renumber) :=
    funext (outline_renumberTree (Numbering.unnumbered_numbered options.renumber))
  have hstage : ∀ name ∈ names, ((aloneStage options.malformed page name).report
      (renumberTrees options.renumber page names)).relabel Numbering.unnumbered =
        (aloneStage options.malformed page name).report outline := by
    intro name hname
    have hfind := findTree?_renumberTrees options.renumber page names name
    rw [List.count_eq_one_of_mem hnames hname, Function.iterate_one] at hfind
    rw [Stage.relabel_report, Stage.report, Stage.report, findTree?_outline, findTree?_outline, aloneStage, hfind,
      Option.map_map, houtline]
  rw [hreport, Report.relabel_merge, Report.relabel_foldr, relabel_missingGrandTotal, Report.tally_merge,
    Report.tally_foldr, pageStages_of_fitsAt hs hfits, List.map_map, List.map_map, List.map_map]
  refine congrArg (fun tallies => List.sum tallies + _) (List.map_congr_left fun name hname => ?_)
  exact congrArg Report.tally (hstage name hname)

/-! ## Two passes -/

/-- **Order does not change the figures.** Two pages that differ in the order of the rows in their categories and of the
categories in their trees, rendered for names in either order, show the same texts at each place, followed to where it
has moved; the reports are the same but for the order of the issues and the numbers in front of labels. This holds where
the amounts fit one scale, whatever else is among them: a text that is no amount counts as nothing there -/
theorem renderPage_shuffled (options : Options) {σ : ℕ → Equiv.Perm ℕ} {p q : Page} (h : p.Shuffled σ q)
    {names names' : List String} (hnames : names.Nodup) (hperm : names.Perm names') {s : ℕ} (hs : s ≤ maxScale)
    (hfits : FitsAt s (p.amounts names)) :
    let out := renderPage options p names
    let out' := renderPage options q names'
    (∀ x, writes options p names x = writes options q names' (x.moved σ)) ∧
      (∀ x, out.page.sinksAt x = out'.page.sinksAt (x.moved σ)) ∧
      (out.report.relabel Numbering.unnumbered).tally = (out'.report.relabel Numbering.unnumbered).tally := by
  intro out out'
  have hnames' : names'.Nodup := hperm.nodup_iff.1 hnames
  have hfits' : FitsAt s (q.amounts names') := by
    rw [p.amounts_eq_flatMap] at hfits
    rw [q.amounts_eq_flatMap]
    exact hfits.of_subperm (h.flatMap_sequence_perm hperm fun c d hcd => hcd.amounts).symm.subperm
  have hwrites : ∀ x, writes options p names x = writes options q names' (x.moved σ) := by
    intro x
    rw [writes_of_fitsAt hs hfits hnames, writes_of_fitsAt hs hfits' hnames']
    exact exactTexts_shuffled h options hperm x
  refine ⟨hwrites, ?_, ?_⟩
  · intro x
    rw [sinksAt_renderPage, sinksAt_renderPage, hwrites, h.sinksAt]
  · have hmissing : missingGrandTotal p = missingGrandTotal q := by
      rw [missingGrandTotal, missingGrandTotal, h.grandTotal]
    rw [tally_report_of_fitsAt hs options hnames hfits, tally_report_of_fitsAt hs options hnames' hfits', hmissing]
    refine congrArg (· + _) ?_
    rw [← (hperm.map _).sum_eq]
    refine congrArg List.sum (List.map_congr_left fun name hname => ?_)
    exact tally_stage_shuffled h hs options.malformed _ hfits hname

/-- income and fees: a text that is no amount, places after the point, and labels that are numbered already -/
def heaped : Page :=
  (Page.empty.pushTree (.new importedName [.new "1.Deposits" [.ofAmount "2.50", .ofAmount "0.125", .ofAmount "-1"],
    { Category.new "2.Fees" [.ofAmount "-3", .ofAmount "n/a"] with totals := none }])).pushTree
      (.new assignedName [.new "Interest" [.ofAmount "0.004"], .new "Rent" []])

/-- the same with the two categories of each tree exchanged, and rows as well -/
def turned : Page :=
  (Page.empty.pushTree (.new importedName [
    { Category.new "2.Fees" [.ofAmount "n/a", .ofAmount "-3"] with totals := none },
    .new "1.Deposits" [.ofAmount "-1", .ofAmount "2.50", .ofAmount "0.125"]])).pushTree
      (.new assignedName [.new "Rent" [], .new "Interest" [.ofAmount "0.004"]])

/-- each tree has its two categories exchanged -/
theorem shuffled_turned : heaped.Shuffled (fun _ => Equiv.swap 0 1) turned := by
  have hpast : ∀ k : ℕ, Equiv.swap 0 1 (k + 2) = k + 2 := fun k =>
    Equiv.swap_apply_of_ne_of_ne (by omega) (by omega)
  refine ⟨fun i => ?_, rfl⟩
  rcases i with _ | _ | i
  · refine .some ⟨rfl, rfl, fun k => ?_⟩
    rcases k with _ | _ | k
    · exact .some ⟨rfl, by decide, rfl⟩
    · exact .some ⟨rfl, by decide, rfl⟩
    · rw [hpast]
      exact .none
  · refine .some ⟨rfl, rfl, fun k => ?_⟩
    rcases k with _ | _ | k
    · exact .some ⟨rfl, by decide, rfl⟩
    · exact .some ⟨rfl, by decide, rfl⟩
    · rw [hpast]
      exact .none
  · exact .none

/-- the deposits come to the same in their second place as in their first, and the fees are rejected in either -/
theorem renderPage_shuffled_turned :
    let options : Options := ⟨.replace, .reject, .plain⟩
    let names := [importedName, assignedName]
    let out := renderPage options heaped names
    let out' := renderPage options turned names.reverse
    names.Nodup ∧ names.Perm names.reverse ∧ FitsAt 3 (heaped.amounts names) ∧
      out.page.sinksAt (.category 0 0) = some ⟨"2.63", "1.00", "1.63"⟩ ∧
      (∀ x, out.page.sinksAt x = out'.page.sinksAt (x.moved fun _ => Equiv.swap 0 1)) ∧
      out.report.issues = [.malformedAmount importedName "2.Fees" "n/a"] ∧
      (out.report.relabel Numbering.unnumbered).tally = (out'.report.relabel Numbering.unnumbered).tally := by
  intro options names out out'
  have hnames : names.Nodup := by decide
  have hperm : names.Perm names.reverse := by decide
  have hfits : FitsAt 3 (heaped.amounts names) := by decide +kernel
  obtain ⟨-, hsinks, hreports⟩ := renderPage_shuffled options shuffled_turned hnames hperm (by decide) hfits
  exact ⟨hnames, hperm, hfits, by decide +kernel, hsinks, by decide +kernel, hreports⟩

end Rollup

end LedgerTotals
