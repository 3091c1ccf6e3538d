/-
Trees and pages after a pass that leaves no amount out.

- `renderTrees_accepted`: trees that settle are settled, and their batches roll the grand total on;
- `renderPage_accepted`: the page then shows that grand total, and under every name a settled tree;
- `of_renderPage_complete`: a page whose report is complete was such a page.
-/
import LedgerTotals.Proofs.Rollup.Walk

namespace LedgerTotals

open Totals

namespace Page

/-! ## Settled pages -/

def settleTrees (format : AmountFormat) (p : Page) (names : List String) : Page :=
  names.foldl (fun p name => p.updateTree name (Tree.settled format)) p

theorem frame_settleTrees (format : AmountFormat) (p : Page) (names : List String) :
    (p.settleTrees format names).frame = p.frame := by
  induction names generalizing p with
  | nil => rfl
  | cons name names ih => exact (ih _).trans (frame_updateTree (Tree.frame_settled format) p name)

theorem findTree?_settleTrees (format : AmountFormat) (p : Page) (names : List String) (name : String) :
    (p.settleTrees format names).findTree? name =
      if name ∈ names then (p.findTree? name).map (Tree.settled format) else p.findTree? name := by
  have hname : ∀ t : Tree, (t.settled format).name = t.name := fun _ => rfl
  induction names generalizing p with
  | nil => simp [settleTrees]
  | cons n names ih =>
    have hcons : p.settleTrees format (n :: names) = (p.updateTree n (Tree.settled format)).settleTrees format names :=
      rfl
    rw [hcons, ih]
    by_cases heq : name = n
    · rw [heq, findTree?_updateTree_self hname]
      -- a name that comes again finds a tree that is settled already
      simp [Function.comp_def, Tree.settled_settled]
    · simp [findTree?_updateTree_ne hname p heq, heq]

theorem namedTrees_settleTrees (format : AmountFormat) (p : Page) (names : List String) :
    (p.settleTrees format names).namedTrees names = (p.namedTrees names).map (Tree.settled format) := by
  rw [namedTrees, namedTrees, List.map_filterMap]
  refine List.filterMap_congr fun name hname => ?_
  rw [findTree?_settleTrees, if_pos hname]

theorem settles_of_frame {p q : Page} (h : p.frame = q.frame) {names : List String} :
    (∀ t ∈ q.namedTrees names, t.Settles) → ∀ t ∈ p.namedTrees names, t.Settles :=
  forall_of_frames (fun _ _ => Tree.Settles.of_frame) (namedTrees_of_frame h names)

end Page

namespace Rollup

/-! ## One tree -/

theorem renderTree_found (options : Options) {page : Page} {grand grand' : Totals} {name : String} {t : Tree}
    (hfind : page.findTree? name = some t) (h : t.Settles) (hroll : roll? grand t.batches = some grand') :
    (renderTree options page grand name).line = [grand'] ∧
      (renderTree options page grand name).page = page.updateTree name (Tree.settled options.format) := by
  obtain ⟨own, hown⟩ := Option.isSome_iff_exists.1 h.sums
  have hline : rollAll? [.zero, grand] (t.categories.map Category.decimals) = some [own, grand'] := by
    rw [rollAll?_pair, ← Tree.batches, hown, hroll]
    rfl
  obtain ⟨hline, hcats⟩ := visitAll_accepted options name h.readable hline
  refine ⟨?_, ?_⟩
  · simp [renderTree, aggregate, hfind, hline]
  · simp only [renderTree, aggregate, hfind, hline, hcats, List.headD_cons]
    refine (Page.updateTree_updateTree (f := fun u => { u with categories := t.categories.map _ })
      (fun _ => rfl) page name).trans ?_
    refine Page.updateTree_congr fun u hu => ?_
    obtain rfl : t = u := Option.some.inj (hfind.symm.trans hu)
    simp [showTotal, Tree.settled, hown]

/-- trees that settle are settled, and their batches roll the grand total on; a name without a tree changes nothing -/
theorem renderTree_accepted (options : Options) {page : Page} {grand grand' : Totals} {name : String}
    (h : ∀ t ∈ page.namedTrees [name], t.Settles) (hroll : roll? grand (page.batches [name]) = some grand') :
    (renderTree options page grand name).line = [grand'] ∧
      (renderTree options page grand name).page = page.settleTrees options.format [name] := by
  cases hfind : page.findTree? name with
  | none =>
    have hbatches : page.batches [name] = [] := by simp [Page.batches, Page.namedTrees, hfind]
    rw [hbatches] at hroll
    obtain rfl : grand = grand' := Option.some.inj hroll
    rw [renderTree_of_none options grand hfind]
    exact ⟨rfl, (Page.updateTree_of_findTree?_none hfind).symm⟩
  | some t =>
    have htrees : page.namedTrees [name] = [t] := by simp [Page.namedTrees, hfind]
    have hbatches : page.batches [name] = t.batches := by simp [Page.batches, htrees]
    exact renderTree_found options hfind (h t (by simp [htrees])) (hbatches ▸ hroll)

theorem of_renderTree_complete {options : Options} {page : Page} {grand : Totals} {name : String}
    (h : (renderTree options page grand name).report.Complete) :
    (∀ t ∈ page.namedTrees [name], t.Settles) ∧ ∃ grand', roll? grand (page.batches [name]) = some grand' := by
  cases hfind : page.findTree? name with
  | none => simp [Page.batches, Page.namedTrees, hfind, roll?]
  | some t =>
    have htrees : page.namedTrees [name] = [t] := by simp [Page.namedTrees, hfind]
    have hbatches : page.batches [name] = t.batches := by simp [Page.batches, htrees]
    simp only [renderTree, aggregate, hfind, Report.complete_merge] at h
    obtain ⟨hread, line, hline⟩ := of_visitAll_complete h.1.2
    rw [rollAll?_pair, ← Tree.batches, Option.bind_eq_some_iff] at hline
    obtain ⟨own, hown, hgrand⟩ := hline
    obtain ⟨grand', hgrand, -⟩ := Option.map_eq_some_iff.1 hgrand
    rw [htrees, hbatches, List.forall_mem_singleton]
    exact ⟨⟨hread, Option.isSome_iff_exists.2 ⟨own, hown⟩⟩, grand', hgrand⟩

/-! ## One tree after the other -/

theorem roll?_batches_cons {page : Page} {grand grand' : Totals} {name : String} {names : List String} :
    roll? grand (page.batches (name :: names)) = some grand' ↔
      ∃ mid, roll? grand (page.batches [name]) = some mid ∧ roll? mid (page.batches names) = some grand' := by
  rw [Page.batches_cons, roll?_append, Option.bind_eq_some_iff]

theorem renderTrees_accepted (options : Options) {page : Page} {grand grand' : Totals} {names : List String}
    (h : ∀ t ∈ page.namedTrees names, t.Settles) (hroll : roll? grand (page.batches names) = some grand') :
    (renderTrees options page grand names).line = [grand'] ∧
      (renderTrees options page grand names).page = page.settleTrees options.format names := by
  induction names generalizing page grand with
  | nil =>
    obtain rfl : grand = grand' := Option.some.inj hroll
    exact ⟨rfl, rfl⟩
  | cons name names ih =>
    rw [Page.namedTrees_cons, List.forall_mem_append] at h
    obtain ⟨mid, hhead, htail⟩ := roll?_batches_cons.1 hroll
    obtain ⟨hline, hpage⟩ := renderTree_accepted options h.1 hhead
    -- the rest of the trees are where they were, in a page of the same frame
    have hframe := page.frame_settleTrees options.format [name]
    rw [← Page.batches_of_frame hframe] at htail
    obtain ⟨hline', hpage'⟩ := ih (Page.settles_of_frame hframe h.2) htail
    simp only [renderTrees, hline, hpage, List.headD_cons]
    exact ⟨hline', hpage'⟩

theorem of_renderTrees_complete {options : Options} {page : Page} {grand : Totals} {names : List String}
    (h : (renderTrees options page grand names).report.Complete) :
    (∀ t ∈ page.namedTrees names, t.Settles) ∧ ∃ grand', roll? grand (page.batches names) = some grand' := by
  induction names generalizing page grand with
  | nil => exact ⟨by simp [Page.namedTrees], grand, rfl⟩
  | cons name names ih =>
    simp only [renderTrees, Report.complete_merge] at h
    obtain ⟨hsettles, mid, hhead⟩ := of_renderTree_complete h.1
    obtain ⟨hline, hpage⟩ := renderTree_accepted options hsettles hhead
    rw [hline, hpage] at h
    obtain ⟨hrest, grand', htail⟩ := ih h.2
    have hframe := page.frame_settleTrees options.format [name]
    rw [Page.batches_of_frame hframe] at htail
    rw [Page.namedTrees_cons, List.forall_mem_append]
    exact ⟨⟨hsettles, Page.settles_of_frame hframe.symm hrest⟩, grand', roll?_batches_cons.2 ⟨mid, hhead, htail⟩⟩

/-! ## The page -/

theorem frame_renumberTrees (mode : RenumberMode) (page : Page) (names : List String) :
    (renumberTrees mode page names).frame = page.frame := by
  have hlabels : ∀ cs : List Category, (Numbering.renumberAll mode cs).map Category.frame = cs.map Category.frame := by
    intro cs
    refine List.ext_getElem (by simp [Numbering.renumberAll]) fun i _ _ => ?_
    simp [Numbering.renumberAll, Category.frame]
  have htree : ∀ t : Tree, (Numbering.renumberTree mode t).frame = t.frame := by
    intro t
    simp only [Tree.frame, Numbering.renumberTree, hlabels]
  induction names generalizing page with
  | nil => rfl
  | cons name names ih => exact (ih _).trans (Page.frame_updateTree htree page name)

theorem frame_showGrandTotal (format : AmountFormat) (totals : Totals) (page : Page) :
    (showGrandTotal format totals page).frame = page.frame := by
  simp [Page.frame, showGrandTotal]

/-- a page whose named trees settle, and roll on to a grand total, is settled and shows that total -/
theorem renderPage_accepted (options : Options) {page : Page} {grand : Totals} {names : List String}
    (h : ∀ t ∈ page.namedTrees names, t.Settles) (hroll : roll? .zero (page.batches names) = some grand) :
    (renderPage options page names).page = showGrandTotal options.format grand
      ((renumberTrees options.renumber page names).settleTrees options.format names) := by
  have hframe := frame_renumberTrees options.renumber page names
  rw [← Page.batches_of_frame hframe] at hroll
  obtain ⟨hline, hpage⟩ := renderTrees_accepted options (Page.settles_of_frame hframe h) hroll
  simp only [renderPage, hline, hpage, List.headD_cons]

theorem of_renderPage_complete {options : Options} {page : Page} {names : List String}
    (h : (renderPage options page names).report.Complete) :
    (∀ t ∈ page.namedTrees names, t.Settles) ∧ ∃ grand, roll? .zero (page.batches names) = some grand := by
  simp only [renderPage, Report.complete_merge] at h
  obtain ⟨hsettles, hroll⟩ := of_renderTrees_complete h.1
  have hframe := frame_renumberTrees options.renumber page names
  rw [Page.batches_of_frame hframe] at hroll
  exact ⟨Page.settles_of_frame hframe.symm hsettles, hroll⟩

end Rollup

end LedgerTotals
