/-
Figures do not depend on presentation.

The bare page is the outline without labels: the names of the trees, the amount texts and the places for totals are all
that is left of the page (`Page.bare`). A pass decides what it writes from the bare page alone (`writes_of_bare`), and
what it reports tells pages with one bare page apart by labels only (`report_bare`).

- `bare_of_frame`: renumbering and writing leave the bare page as it is;
- `renderPage_presentation`: main result, also across modes of renumbering.
-/
import LedgerTotals.Proofs.Rollup.Outline
import LedgerTotals.Proofs.Rollup.Written

namespace LedgerTotals

/-! ## Bare pages -/

/-- the amounts of the category, and whether it has sinks -/
def Category.bare (c : Category) : Category := c.outline fun _ => ""

def Tree.bare (t : Tree) : Tree := t.outline fun _ => ""

def Page.bare (p : Page) : Page := p.outline fun _ => ""

def Report.unlabelled (r : Report) : Report := r.relabel fun _ => ""

theorem Sinks.bare_of_isSome {s s' : Option Sinks} (h : s.isSome = s'.isSome) : bare s = bare s' := by
  cases s with
  | none =>
    cases s' with
    | none => rfl
    | some y => cases h
  | some x =>
    cases s' with
    | none => cases h
    | some y => rfl

theorem Category.bare_of_frame {c d : Category} (h : c.frame = d.frame) : c.bare = d.bare := by
  have hrows : c.rows = d.rows := congrArg Prod.fst h
  rw [bare, bare, outline, outline, hrows, Sinks.bare_of_isSome (congrArg Prod.snd h)]

theorem Tree.bare_of_frame {t u : Tree} (h : t.frame = u.frame) : t.bare = u.bare := by
  have hname : t.name = u.name := congrArg Prod.fst h
  have htotal : t.total.isSome = u.total.isSome := congrArg (·.2.1) h
  have hcategories : t.categories.map (Category.outline fun _ => "") =
      u.categories.map (Category.outline fun _ => "") :=
    map_of_frames (fun _ _ => Category.bare_of_frame) (frames_categories h)
  rw [bare, bare, outline, outline, hname, Sinks.bare_of_isSome htotal, hcategories]

namespace Page

/-- what leaves the frame alone leaves the bare page alone -/
theorem bare_of_frame {p q : Page} (h : p.frame = q.frame) : p.bare = q.bare := by
  have htrees : p.trees.map (Tree.outline fun _ => "") = q.trees.map (Tree.outline fun _ => "") :=
    map_of_frames (fun _ _ => Tree.bare_of_frame) (congrArg Prod.fst h)
  rw [bare, bare, outline, outline, htrees, Sinks.bare_of_isSome (congrArg Prod.snd h)]

theorem sequence_bare (p : Page) (name : String) : p.bare.sequence [name] = (p.sequence [name]).map Category.bare := by
  have hfind : p.bare.findTree? name = (p.findTree? name).map Tree.bare := p.findTree?_outline (fun _ => "") name
  cases hpage : p.findTree? name with
  | none =>
    rw [hpage, Option.map_none] at hfind
    simp [sequence, namedTrees, hpage, hfind]
  | some t =>
    rw [hpage, Option.map_some] at hfind
    rw [sequence_of_some hfind, sequence_of_some hpage]
    rfl

theorem names_bare (p : Page) : p.bare.trees.map (·.name) = p.trees.map (·.name) := by
  simp [bare, outline, Tree.outline]

end Page

namespace Rollup

open Page

/-! ## What a pass decides -/

theorem amounts?_bare (policy : MalformedPolicy) (c : Category) : amounts? policy c.bare = amounts? policy c := by
  rw [amounts?, amounts?, Category.bare, c.amountTexts_outline]

theorem stages_of_bare {p q : Page} (h : p.bare = q.bare) (policy : MalformedPolicy) (grand : Totals)
    (names : List String) : stages policy p grand names = stages policy q grand names := by
  refine stages_of_amounts (fun name _ => ?_) grand
  have hbare : ∀ r : Page, (r.sequence [name]).map (amounts? policy) =
      (r.bare.sequence [name]).map (amounts? policy) := by
    intro r
    rw [sequence_bare, List.map_map]
    exact List.map_congr_left fun c _ => (amounts?_bare policy c).symm
  rw [hbare p, hbare q, h]

/-- what is written at each place depends on the bare page alone -/
theorem writes_of_bare (options : Options) {p q : Page} (h : p.bare = q.bare) (names : List String) :
    writes options p names = writes options q names := by
  have hnames : p.trees.map (·.name) = q.trees.map (·.name) := by rw [← names_bare, h, names_bare]
  funext x
  cases x <;> simp only [writes, pageStages, stages_of_bare h, leads?_of_names hnames]

/-! ## What a pass reports -/

/-- without labels the report depends on the bare page and its stages alone -/
theorem report_bare (options : Options) (page : Page) (names : List String) :
    (renderPage options page names).report.unlabelled =
      (((pageStages options page names).map (Stage.report page.bare)).foldr Report.merge .empty).merge
        (.ofIssues (missingGrandTotal page.bare).1) := by
  obtain ⟨-, -, hreport⟩ := renderPage_eq options page names
  have hbare : (renumberTrees options.renumber page names).bare = page.bare :=
    bare_of_frame (frame_renumberTrees options.renumber page names)
  have hgrand : page.bare.grandTotal.isSome = page.grandTotal.isSome := Sinks.isSome_bare page.grandTotal
  have hstages : ∀ s : Stage, (s.report (renumberTrees options.renumber page names)).relabel (fun _ => "") =
      s.report page.bare := by
    intro s
    rw [Stage.relabel_report, ← hbare]
    rfl
  rw [hreport, Report.unlabelled, Report.relabel_merge, Report.relabel_foldr, relabel_missingGrandTotal, List.map_map,
    missingGrandTotal, missingGrandTotal, hgrand]
  simp only [Function.comp_def, hstages]

/-! ## Two passes -/

/-- **Figures do not depend on presentation.** Two pages that differ in labels, in row ids, dates and descriptions, and
in the texts of their sinks, rendered under options that differ in the mode of renumbering, have the same texts written
at the same places, with the same grand total; the reports are the same but for the labels in the issues -/
theorem renderPage_presentation (options : Options) (mode : RenumberMode) {p q : Page} (h : p.bare = q.bare)
    (names : List String) :
    let options' := { options with renumber := mode }
    let out := renderPage options p names
    let out' := renderPage options' q names
    writes options p names = writes options' q names ∧
      (∀ x, out.page.sinksAt x = Sinks.overwrite (writes options p names x) (p.sinksAt x)) ∧
      (∀ x, out'.page.sinksAt x = Sinks.overwrite (writes options' q names x) (q.sinksAt x)) ∧
      out.line = out'.line ∧ out.report.unlabelled = out'.report.unlabelled := by
  intro options' out out'
  have hstages : pageStages options p names = pageStages options' q names :=
    stages_of_bare h options.malformed .zero names
  have hshown := sinksAt_renderPage options p names
  have hshown' := sinksAt_renderPage options' q names
  refine ⟨writes_of_bare options h names, hshown, hshown', ?_, ?_⟩
  · obtain ⟨-, hline, -⟩ := renderPage_eq options p names
    obtain ⟨-, hline', -⟩ := renderPage_eq options' q names
    rw [hline, hline', hstages]
  · rw [report_bare, report_bare, hstages, h]

/-- a page with a text that is not an amount and a category without sinks -/
def plainPage : Page :=
  Page.empty.pushTree (.new importedName [.new "Deposits" [.ofAmount "2.50", .ofAmount "n/a"],
    { Category.new "Fees" [.ofAmount "-1"] with totals := none }])

/-- the same amounts under other labels, with a row in full and with texts from another time -/
def dressedPage : Page :=
  { Page.empty with grandTotal := some ⟨"1", "2", "3"⟩ }.pushTree
    (.new importedName [⟨"7.Income", [⟨some "t1", some ⟨2022, 1, 31, rfl⟩, some "Salary", "2.50"⟩, .ofAmount "n/a"],
      some ⟨"9.99", "0.00", "9.99"⟩⟩, ⟨"Charges", [.ofAmount "-1"], none⟩])

/-- both are rendered with the same texts, once with numbers in front of the labels, once in their place -/
theorem renderPage_presentation_dressed :
    let names := [importedName, "spare", importedName]
    plainPage.bare = dressedPage.bare ∧
      writes ⟨.prepend, .zero, .plain⟩ plainPage names = writes ⟨.replace, .zero, .plain⟩ dressedPage names ∧
      writes ⟨.prepend, .zero, .plain⟩ plainPage names (.category 0 0) = some ⟨"2.50", "0.00", "2.50"⟩ ∧
      (renderPage ⟨.prepend, .zero, .plain⟩ plainPage names).report.unlabelled =
        (renderPage ⟨.replace, .zero, .plain⟩ dressedPage names).report.unlabelled := by
  intro names
  have hbare : plainPage.bare = dressedPage.bare := by decide +kernel
  obtain ⟨hwrites, -, -, -, hreport⟩ := renderPage_presentation ⟨.prepend, .zero, .plain⟩ .replace hbare names
  exact ⟨hbare, hwrites, by decide +kernel, hreport⟩

end Rollup

end LedgerTotals
