/-
A pass over a page, name by name.

A stage is one name of the list with the verdicts on the categories of its tree, below the grand total that the stage
before it leaves (`stages`). A name that comes up again has a stage each time.

- `renderTrees_eq`: a pass writes the texts of the stages one after the other, and merges their reports;
- `renderPage_eq`: rendering a page is to renumber, to write, and to show the grand total;
- `getElem?_renderPage`: what becomes of the tree at each position of the page.
-/
import LedgerTotals.Proofs.Page.Places
import LedgerTotals.Proofs.Rollup.Regroup

namespace LedgerTotals

open Totals

namespace Rollup

/-! ## Texts do not matter to a report -/

theorem treeReport_overwrite (new : TreeTexts) (t : Tree) : treeReport (t.overwrite new) = treeReport t := by
  funext vs
  have hcategories : reportAll t.name (t.overwrite new).categories vs = reportAll t.name t.categories vs := by
    have hone := fun new c v => Verdict.report_overwrite t.name new c v
    rw [reportAll, reportAll, Tree.overwrite, Category.zipWith_overwriteAll hone]
  simp only [treeReport, Tree.name_overwrite, Tree.isSome_total_overwrite, hcategories]

theorem treeJournal_overwrite (policy : MalformedPolicy) (new : TreeTexts) (t : Tree) :
    treeJournal policy (t.overwrite new) = treeJournal policy t := by
  funext vs
  have hcategories : journalAll policy t.name (t.overwrite new).categories vs =
      journalAll policy t.name t.categories vs := by
    have hone := fun new c v => Verdict.journal_overwrite policy t.name new c v
    rw [journalAll, journalAll, Tree.overwrite, Category.zipWith_overwriteAll hone]
  simp only [treeJournal, Tree.name_overwrite, Tree.isSome_total_overwrite, hcategories]

/-! ## Stages -/

/-- one name of the list, with the verdicts on the categories of its tree; none if there is no such tree -/
structure Stage where
  name : String
  verdicts : List Verdict
  deriving DecidableEq

namespace Stage

def texts (format : AmountFormat) (s : Stage) : String × TreeTexts := (s.name, treeTexts format s.verdicts)

def report (page : Page) (s : Stage) : Report :=
  match page.findTree? s.name with
  | none => .ofIssues [.missingTree s.name]
  | some t => treeReport t s.verdicts

def journal (policy : MalformedPolicy) (page : Page) (s : Stage) : List Entry :=
  match page.findTree? s.name with
  | none => [⟨.debug, "No '" ++ s.name ++ "' tree to aggregate"⟩]
  | some t => treeJournal policy t s.verdicts

/-- what is reported does not depend on texts -/
theorem report_overwriteAll (page : Page) (news : List (String × TreeTexts)) (s : Stage) :
    s.report (page.overwriteAll news) = s.report page := by
  have hmap := page.map_findTree?_overwriteAll treeReport_overwrite news s.name
  rw [report, report]
  cases hfind : page.findTree? s.name with
  | none =>
    rw [hfind, Option.map_none, Option.map_eq_none_iff] at hmap
    rw [hmap]
  | some t =>
    rw [hfind, Option.map_some, Option.map_eq_some_iff] at hmap
    obtain ⟨u, hu, hsame⟩ := hmap
    simp only [hu, hsame]

theorem journal_overwriteAll (policy : MalformedPolicy) (page : Page) (news : List (String × TreeTexts)) (s : Stage) :
    s.journal policy (page.overwriteAll news) = s.journal policy page := by
  have hmap := page.map_findTree?_overwriteAll (treeJournal_overwrite policy) news s.name
  rw [journal, journal]
  cases hfind : page.findTree? s.name with
  | none =>
    rw [hfind, Option.map_none, Option.map_eq_none_iff] at hmap
    rw [hmap]
  | some t =>
    rw [hfind, Option.map_some, Option.map_eq_some_iff] at hmap
    obtain ⟨u, hu, hsame⟩ := hmap
    simp only [hu, hsame]

end Stage

/-- the names in their order, each below the grand total that the one before it leaves -/
def stages (policy : MalformedPolicy) (page : Page) : Totals → List String → List Stage
  | _, [] => []
  | grand, name :: names =>
    let vs := verdicts policy [.zero, grand] (page.sequence [name])
    ⟨name, vs⟩ :: stages policy page (afterAll vs grand) names

def allVerdicts (ss : List Stage) : List Verdict := ss.flatMap (·.verdicts)

@[simp] theorem map_name_stages (policy : MalformedPolicy) (page : Page) (grand : Totals) (names : List String) :
    (stages policy page grand names).map (·.name) = names := by
  induction names generalizing grand with
  | nil => rfl
  | cons name names ih => simp [stages, ih]

/-- stages depend on the numbers that the texts of the named trees count as -/
theorem stages_of_amounts {policy policy' : MalformedPolicy} {p q : Page} {names : List String}
    (h : ∀ name ∈ names, (p.sequence [name]).map (amounts? policy) = (q.sequence [name]).map (amounts? policy'))
    (grand : Totals) : stages policy p grand names = stages policy' q grand names := by
  induction names generalizing grand with
  | nil => rfl
  | cons name names ih =>
    have hverdicts := verdicts_of_amounts (h name List.mem_cons_self) [.zero, grand]
    simp only [stages, hverdicts, ih fun other hother => h other (List.mem_cons_of_mem _ hother)]

/-- stages depend on the frame alone -/
theorem stages_of_frame {p q : Page} (h : p.frame = q.frame) (policy : MalformedPolicy) (grand : Totals)
    (names : List String) : stages policy p grand names = stages policy q grand names :=
  stages_of_amounts (fun name _ =>
    map_of_frames (fun _ _ hframe => amounts?_of_frame hframe policy) (Page.frames_sequence h [name])) grand

/-- what the stages of a tree have in common: a verdict for each of its categories, below some totals -/
theorem exists_line_of_mem_stages {policy : MalformedPolicy} {page : Page} {grand : Totals} {names : List String}
    {s : Stage} (hs : s ∈ stages policy page grand names) :
    ∃ g, s.verdicts = verdicts policy [.zero, g] (page.sequence [s.name]) := by
  induction names generalizing grand with
  | nil => cases hs
  | cons name names ih =>
    rcases List.mem_cons.1 hs with rfl | hs
    · exact ⟨grand, rfl⟩
    · exact ih hs

/-- the verdicts of all the stages are those of one running total over the sequence of categories -/
theorem allVerdicts_stages (policy : MalformedPolicy) (page : Page) {grand : Totals} (hgrand : grand.Unsigned)
    (names : List String) :
    allVerdicts (stages policy page grand names) = verdicts policy [grand] (page.sequence names) := by
  induction names generalizing grand with
  | nil => rfl
  | cons name names ih =>
    have hhead := verdicts_pair policy unsigned_zero hgrand.zero_atMost (page.sequence [name])
    have hrest := ih (unsigned_afterAll policy hgrand (page.sequence [name]))
    rw [page.sequence_cons name names, verdicts_append]
    simp only [stages, allVerdicts, List.flatMap_cons, hhead]
    rw [← allVerdicts, hrest, List.map_singleton]

/-! ## The pass over the trees -/

theorem renderTree_eq (options : Options) (page : Page) (grand : Totals) (name : String) :
    renderTree options page grand name =
      let s : Stage := ⟨name, verdicts options.malformed [.zero, grand] (page.sequence [name])⟩
      ⟨page.overwrite (s.texts options.format), [afterAll s.verdicts grand], s.report page,
        s.journal options.malformed page⟩ := by
  cases hfind : page.findTree? name with
  | none =>
    have hsequence : page.sequence [name] = [] := by simp [Page.sequence, Page.namedTrees, hfind]
    have hpage : ∀ new, page.overwrite (name, new) = page := fun new => Page.updateTree_of_findTree?_none hfind
    simp only [renderTree_of_none options grand hfind, Stage.texts, Stage.report, Stage.journal, hfind, hsequence, hpage]
    rfl
  | some t =>
    simp only [renderTree_of_some options grand hfind, Stage.texts, Stage.report, Stage.journal, hfind,
      Page.sequence_of_some hfind]

theorem frame_renderTree (options : Options) (page : Page) (grand : Totals) (name : String) :
    (renderTree options page grand name).page.frame = page.frame := by
  rw [renderTree_eq]
  exact page.frame_overwriteAll [_]

/-- **The pass over the trees** writes the texts of the stages one after the other, and merges their reports -/
theorem renderTrees_eq (options : Options) (page : Page) (grand : Totals) (names : List String) :
    renderTrees options page grand names =
      let ss := stages options.malformed page grand names
      ⟨page.overwriteAll (ss.map (Stage.texts options.format)), [afterAll (allVerdicts ss) grand],
        (ss.map (Stage.report page)).foldr Report.merge .empty, ss.flatMap (Stage.journal options.malformed page)⟩ := by
  induction names generalizing page grand with
  | nil => rfl
  | cons name names ih =>
    -- what the first stage writes does not matter to the others
    have hframe : ∀ new, (page.overwrite new).frame = page.frame := fun new => page.frame_overwriteAll [new]
    have hreport : ∀ new, Stage.report (page.overwrite new) = Stage.report page :=
      fun new => funext (Stage.report_overwriteAll page [new])
    have hjournal : ∀ new, Stage.journal options.malformed (page.overwrite new) = Stage.journal options.malformed page :=
      fun new => funext (Stage.journal_overwriteAll options.malformed page [new])
    simp only [renderTrees, renderTree_eq, ih, List.headD_cons, stages_of_frame (hframe _), hreport, hjournal, stages,
      List.map_cons, List.foldr_cons, List.flatMap_cons, allVerdicts, afterAll_append]
    rfl

/-! ## The page -/

/-- the stages of a page, from nothing -/
abbrev pageStages (options : Options) (page : Page) (names : List String) : List Stage :=
  stages options.malformed page .zero names

/-- a listed name has a stage -/
theorem exists_stage (options : Options) (page : Page) {names : List String} {name : String} (h : name ∈ names) :
    ∃ s ∈ pageStages options page names, s.name = name := by
  rw [← map_name_stages options.malformed page .zero names] at h
  exact List.mem_map.1 h

theorem name_mem_of_mem_stages {options : Options} {page : Page} {names : List String} {s : Stage}
    (hs : s ∈ pageStages options page names) : s.name ∈ names := by
  have hname := List.mem_map_of_mem (f := Stage.name) hs
  rwa [map_name_stages] at hname

/-- rendering a page renumbers it, writes the texts of its stages, and shows the grand total that they come to -/
theorem renderPage_eq (options : Options) (page : Page) (names : List String) :
    let ss := pageStages options page names
    let renumbered := renumberTrees options.renumber page names
    let grand := afterAll (allVerdicts ss) .zero
    (renderPage options page names).page =
        showGrandTotal options.format grand (renumbered.overwriteAll (ss.map (Stage.texts options.format))) ∧
      (renderPage options page names).line = [grand] ∧
      (renderPage options page names).report = ((ss.map (Stage.report renumbered)).foldr Report.merge .empty).merge
        (.ofIssues (missingGrandTotal page).1) := by
  have hstages := stages_of_frame (frame_renumberTrees options.renumber page names) options.malformed .zero names
  have hgrand : ∀ news, ((renumberTrees options.renumber page names).overwriteAll news).grandTotal.isSome =
      page.grandTotal.isSome := fun news => by
    rw [← grandTotal_renumberTrees options.renumber page names]
    exact congrArg Prod.snd ((renumberTrees options.renumber page names).frame_overwriteAll news)
  simp only [renderPage, renderTrees_eq, hstages, List.headD_cons, missingGrandTotal, hgrand, and_self]

theorem grandTotal_renderPage (options : Options) (page : Page) (names : List String) :
    (renderPage options page names).page.grandTotal = page.grandTotal.map fun _ =>
      (afterAll (allVerdicts (pageStages options page names)) .zero).sinks options.format := by
  obtain ⟨hpage, -, -⟩ := renderPage_eq options page names
  rw [hpage, showGrandTotal, Page.grandTotal_overwriteAll, grandTotal_renumberTrees]

/-! ## One tree -/

/-- the tree with the texts of stages in it, one after the other -/
def written (format : AmountFormat) (ss : List Stage) (t : Tree) : Tree :=
  ss.foldl (fun t s => t.overwrite (treeTexts format s.verdicts)) t

def stagesOf (ss : List Stage) (name : String) : List Stage := ss.filter (·.name == name)

/-- the tree renumbered as often as its name is listed, with the texts of its stages -/
def rendered (options : Options) (page : Page) (names : List String) (t : Tree) : Tree :=
  written options.format (stagesOf (pageStages options page names) t.name)
    ((Numbering.renumberTree options.renumber)^[names.count t.name] t)

/-- the text that stages give the category at a position: the last of them that takes it into the totals -/
def newTexts (format : AmountFormat) (ss : List Stage) (i : ℕ) : Option Sinks :=
  ss.foldl (fun new s => (s.verdicts[i]?.bind (Verdict.shown format)).or new) none

theorem join_getElem?_map_shown (format : AmountFormat) (vs : List Verdict) (i : ℕ) :
    (vs.map (Verdict.shown format))[i]?.join = vs[i]?.bind (Verdict.shown format) := by
  rw [List.getElem?_map]
  cases vs[i]? <;> rfl

theorem total_written (format : AmountFormat) (ss : List Stage) (t : Tree) : (written format ss t).total =
    Sinks.overwrite (ss.getLast?.map fun s => (afterAll s.verdicts .zero).sinks format) t.total := by
  induction ss using List.reverseRecOn with
  | nil => simp [written]
  | append_singleton ss s ih =>
    rw [written, List.foldl_append, List.foldl_cons, List.foldl_nil, ← written, List.getLast?_concat, Option.map_some]
    simp only [Tree.overwrite, treeTexts, ih, Sinks.overwrite_overwrite, Option.some_or]

theorem getElem?_written (format : AmountFormat) (ss : List Stage) (t : Tree) (i : ℕ) :
    (written format ss t).categories[i]? = t.categories[i]?.map fun c => c.overwrite (newTexts format ss i) := by
  induction ss using List.reverseRecOn with
  | nil => simp [written, newTexts, Option.map_id']
  | append_singleton ss s ih =>
    rw [written, newTexts, List.foldl_append, List.foldl_cons, List.foldl_nil, ← written, List.foldl_append,
      List.foldl_cons, List.foldl_nil, ← newTexts]
    simp only [Tree.overwrite, treeTexts, Category.getElem?_overwriteAll, ih, Option.map_map, Function.comp_def,
      Category.overwrite_overwrite, join_getElem?_map_shown]

@[simp] theorem name_written (format : AmountFormat) (ss : List Stage) (t : Tree) : (written format ss t).name = t.name := by
  induction ss generalizing t with
  | nil => rfl
  | cons s ss ih => exact ih _

/-! ## The tree at each position -/

/-- the steps from a page to the rendered page, apart from the grand total: first the numbers, then the texts -/
def steps (options : Options) (page : Page) (names : List String) : List (String × (Tree → Tree)) :=
  (names.map fun name => (name, Numbering.renumberTree options.renumber)) ++
    (pageStages options page names).map fun s => (s.name, Tree.overwrite (treeTexts options.format s.verdicts))

theorem name_of_mem_steps {options : Options} {page : Page} {names : List String} {x : String × (Tree → Tree)}
    (hx : x ∈ steps options page names) (t : Tree) : (x.2 t).name = t.name := by
  rcases List.mem_append.1 hx with hx | hx
  · obtain ⟨name, -, rfl⟩ := List.mem_map.1 hx
    rfl
  · obtain ⟨s, -, rfl⟩ := List.mem_map.1 hx
    rfl

theorem trees_renderPage (options : Options) (page : Page) (names : List String) :
    (renderPage options page names).page.trees = (page.updateTrees (steps options page names)).trees := by
  obtain ⟨hpage, -, -⟩ := renderPage_eq options page names
  rw [hpage, steps, Page.updateTrees, List.foldl_append, List.foldl_map, List.foldl_map, showGrandTotal, renumberTrees,
    Page.overwriteAll, List.foldl_map]
  rfl

theorem updatesOf_steps (options : Options) (page : Page) (names : List String) (t : Tree) :
    Page.updatesOf (steps options page names) t.name t = rendered options page names t := by
  rw [steps, Page.updatesOf_append, Page.updatesOf_map, Page.updatesOf, rendered, written, stagesOf, List.filter_map,
    List.foldl_map]
  rfl

/-- **Each position of a rendered page**: the first tree of a name is rendered, and every other tree is as it was -/
theorem getElem?_renderPage (options : Options) (page : Page) (names : List String) (i : ℕ) :
    (renderPage options page names).page.trees[i]? =
      page.trees[i]?.map fun t => if page.indexOf? t.name = some i then rendered options page names t else t := by
  rw [trees_renderPage, Page.getElem?_updateTrees fun x hx => name_of_mem_steps hx]
  simp only [updatesOf_steps]

/-- a pass keeps all names where they stand -/
theorem indexOf?_renderPage (options : Options) (page : Page) (names : List String) (name : String) :
    (renderPage options page names).page.indexOf? name = page.indexOf? name := by
  rw [Page.indexOf?, trees_renderPage]
  exact Page.indexOf?_updateTrees (fun _ hx => name_of_mem_steps hx) page name

theorem findTree?_renderPage (options : Options) (page : Page) (names : List String) (name : String) :
    (renderPage options page names).page.findTree? name = (page.findTree? name).map (rendered options page names) := by
  rw [Page.findTree?, trees_renderPage]
  refine (Page.findTree?_updateTrees (fun x hx => name_of_mem_steps hx) page name).trans ?_
  cases hfind : page.findTree? name with
  | none => rfl
  | some t =>
    obtain rfl : t.name = name := by simpa using List.find?_some hfind
    rw [Option.map_some, Option.map_some, updatesOf_steps]

@[simp] theorem name_rendered (options : Options) (page : Page) (names : List String) (t : Tree) :
    (rendered options page names t).name = t.name := by
  have hname : ∀ (times : ℕ) (u : Tree), ((Numbering.renumberTree options.renumber)^[times] u).name = u.name := by
    intro times
    induction times with
    | zero => exact fun _ => rfl
    | succ times ih => exact fun u => ih _
  rw [rendered, name_written, hname]

theorem stagesOf_eq_nil {options : Options} {page : Page} {names : List String} {name : String} (h : name ∉ names) :
    stagesOf (pageStages options page names) name = [] := by
  refine List.filter_eq_nil_iff.2 fun s hs heq => h ?_
  rw [← eq_of_beq heq]
  exact name_mem_of_mem_stages hs

/-- a tree whose name is not listed stays as it is -/
theorem rendered_of_notMem {options : Options} {page : Page} {names : List String} {t : Tree} (h : t.name ∉ names) :
    rendered options page names t = t := by
  rw [rendered, stagesOf_eq_nil h, List.count_eq_zero_of_not_mem h]
  rfl

/-- a tree that is not the first of a listed name stays as it is -/
theorem getElem?_renderPage_other (options : Options) {page : Page} {names : List String} {i : ℕ} {t : Tree}
    (ht : page.trees[i]? = some t) (hother : t.name ∉ names ∨ page.indexOf? t.name ≠ some i) :
    (renderPage options page names).page.trees[i]? = some t := by
  rw [getElem?_renderPage, ht, Option.map_some]
  rcases hother with hname | hfirst
  · rw [rendered_of_notMem hname, ite_self]
  · rw [if_neg hfirst]

theorem total_iterate_renumberTree (mode : RenumberMode) (times : ℕ) (t : Tree) :
    ((Numbering.renumberTree mode)^[times] t).total = t.total := by
  induction times generalizing t with
  | zero => rfl
  | succ times ih => exact ih _

theorem getElem?_iterate_renumberTree (mode : RenumberMode) (times : ℕ) (t : Tree) (i : ℕ) :
    ((Numbering.renumberTree mode)^[times] t).categories[i]? =
      t.categories[i]?.map fun c => { c with label := (Numbering.numbered mode i)^[times] c.label } := by
  induction times generalizing t with
  | zero => exact Option.map_id'.symm
  | succ times ih =>
    rw [Function.iterate_succ_apply, ih]
    simp only [Numbering.renumberTree, Numbering.renumberAll, List.getElem?_mapIdx, Option.map_map, Function.comp_def,
      Function.iterate_succ_apply]

/-- the category at each position of a rendered tree -/
theorem getElem?_rendered (options : Options) (page : Page) (names : List String) (t : Tree) (i : ℕ) :
    (rendered options page names t).categories[i]? = t.categories[i]?.map fun c =>
      { c with label := (Numbering.numbered options.renumber i)^[names.count t.name] c.label }.overwrite
        (newTexts options.format (stagesOf (pageStages options page names) t.name) i) := by
  rw [rendered, getElem?_written, getElem?_iterate_renumberTree, Option.map_map]
  rfl

/-- the texts of a category in a rendered tree -/
theorem exists_category_rendered (options : Options) (page : Page) (names : List String) {t : Tree} {k : ℕ} {c : Category}
    (hc : t.categories[k]? = some c) : ∃ d, (rendered options page names t).categories[k]? = some d ∧
      d.totals = Sinks.overwrite (newTexts options.format (stagesOf (pageStages options page names) t.name) k) c.totals := by
  have hrendered := getElem?_rendered options page names t k
  rw [hc, Option.map_some] at hrendered
  exact ⟨_, hrendered, rfl⟩

end Rollup

end LedgerTotals
