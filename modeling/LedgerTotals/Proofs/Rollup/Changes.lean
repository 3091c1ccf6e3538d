/-
What a pass changes on a page, and what it leaves alone.

A pass looks a tree up by its name several times: to number its labels, to visit its categories, to show its total.
Each time it reaches the first tree of the name, however often the name is listed and however many trees share it.

Main result: `renderPage_changes`. Trees, categories, rows and places for texts stay where they are. Trees that are not
the first of a listed name are wholly unchanged. In the others only labels and texts change, the texts of categories
only where these were taken into the totals. The pass over one tree changes texts of its categories and nothing else.
-/
import LedgerTotals.Proofs.Rollup.Stages

namespace LedgerTotals

open Totals

/-- all that changes in a tree: the labels, by their position, and texts in places that are there -/
structure Tree.ChangedTo (relabel : ℕ → String → String) (total : Option Sinks) (new : ℕ → Option Sinks) (t u : Tree) :
    Prop where
  name : u.name = t.name
  total : u.total = Sinks.overwrite total t.total
  categories : ∀ k, u.categories[k]? =
    t.categories[k]?.map fun c =>
      { label := relabel k c.label, rows := c.rows, totals := Sinks.overwrite (new k) c.totals : Category }

namespace Rollup

/-! ## Texts that are written -/

/-- one of the verdicts at the position takes the category into the totals -/
def TakenAt (ss : List Stage) (k : ℕ) : Prop := ∃ s ∈ ss, ∃ own, s.verdicts[k]? = some (.taken own)

theorem isSome_shown_iff {format : AmountFormat} {v : Verdict} : (v.shown format).isSome ↔ ∃ own, v = .taken own := by
  cases v <;> simp [Verdict.shown]

theorem isSome_bind_shown_iff {format : AmountFormat} {v : Option Verdict} :
    (v.bind (Verdict.shown format)).isSome ↔ ∃ own, v = some (.taken own) := by
  cases v with
  | none => simp
  | some v => simp [isSome_shown_iff]

/-- a category gets new texts exactly if a stage takes it -/
theorem isSome_newTexts_iff {format : AmountFormat} {ss : List Stage} {k : ℕ} :
    (newTexts format ss k).isSome ↔ TakenAt ss k := by
  induction ss using List.reverseRecOn with
  | nil => simp [newTexts, TakenAt]
  | append_singleton ss s ih =>
    rw [newTexts, List.foldl_append, List.foldl_cons, List.foldl_nil, ← newTexts, Option.isSome_or, Bool.or_eq_true, ih,
      isSome_bind_shown_iff]
    simp only [TakenAt, List.mem_append, List.mem_singleton]
    constructor
    · rintro (⟨own, hown⟩ | ⟨s', hs', hown⟩)
      · exact ⟨s, .inr rfl, own, hown⟩
      · exact ⟨s', .inl hs', hown⟩
    · rintro ⟨s', hs' | rfl, hown⟩
      · exact .inr ⟨s', hs', hown⟩
      · exact .inl hown

/-- new texts are those of a stage that takes the category -/
theorem exists_taken_of_newTexts {format : AmountFormat} {ss : List Stage} {k : ℕ} {texts : Sinks}
    (h : newTexts format ss k = some texts) :
    ∃ s ∈ ss, ∃ own, s.verdicts[k]? = some (.taken own) ∧ texts = own.sinks format := by
  induction ss using List.reverseRecOn with
  | nil => cases h
  | append_singleton ss s ih =>
    rw [newTexts, List.foldl_append, List.foldl_cons, List.foldl_nil, ← newTexts, Option.or_eq_some_iff] at h
    rcases h with hlast | ⟨-, hrest⟩
    · obtain ⟨v, hv, hshown⟩ := Option.bind_eq_some_iff.1 hlast
      cases v with
      | rejected => cases hshown
      | overflow => cases hshown
      | taken own =>
        obtain rfl := Option.some.inj hshown
        exact ⟨s, by simp, own, hv, rfl⟩
    · obtain ⟨s', hs', hown⟩ := ih hrest
      exact ⟨s', List.mem_append_left _ hs', hown⟩

/-! ## The pass over one tree -/

/-- in the first tree of the name new texts stand in the categories that are taken; nothing else is new -/
structure ChangesTexts (policy : MalformedPolicy) (line : List Totals) (name : String) (p q : Page) : Prop where
  grandTotal : q.grandTotal = p.grandTotal
  others : ∀ i, p.indexOf? name ≠ some i → q.trees[i]? = p.trees[i]?
  first : ∀ i t, p.indexOf? name = some i → p.trees[i]? = some t →
    ∃ u new, q.trees[i]? = some u ∧ t.ChangedTo (fun _ label => label) none new u ∧
      ∀ k, (new k).isSome ↔ ∃ own, (verdicts policy line t.categories)[k]? = some (.taken own)

theorem aggregate_of_some (options : Options) {page : Page} (line : List Totals) {name : String} {t : Tree}
    (h : page.findTree? name = some t) : (aggregate options page line name).page =
      page.overwrite (name, ⟨none, (verdicts options.malformed line t.categories).map (Verdict.shown options.format)⟩) := by
  simp only [aggregate, h, visitAll_eq]
  refine Page.updateTree_congr fun u hu => ?_
  obtain rfl : t = u := Option.some.inj (h.symm.trans hu)
  simp [Tree.overwrite]

theorem aggregate_changes (options : Options) (page : Page) (line : List Totals) (name : String) :
    ChangesTexts options.malformed line name page (aggregate options page line name).page := by
  have hfirst : ∀ {i t}, page.indexOf? name = some i → page.trees[i]? = some t → page.findTree? name = some t := by
    intro i t hi ht
    rw [Page.findTree?_eq_bind, hi, Option.bind_some, ht]
  cases hfind : page.findTree? name with
  | none =>
    have hpage : (aggregate options page line name).page = page := by rw [aggregate, hfind]
    rw [hpage]
    refine ⟨rfl, fun _ _ => rfl, fun i t hi ht => ?_⟩
    rw [hfirst hi ht] at hfind
    cases hfind
  | some t =>
    rw [aggregate_of_some options line hfind, Page.overwrite]
    refine ⟨rfl, fun i hi => ?_, fun i u hi hu => ?_⟩
    · simp only [Page.getElem?_updateTree, if_neg hi, Option.map_id']
    · obtain rfl : u = t := Option.some.inj ((hfirst hi hu).symm.trans hfind)
      set vs := verdicts options.malformed line u.categories
      refine ⟨u.overwrite ⟨none, vs.map (Verdict.shown options.format)⟩,
        fun k => vs[k]?.bind (Verdict.shown options.format), ?_, ⟨rfl, rfl, fun k => ?_⟩, fun k => isSome_bind_shown_iff⟩
      · simp only [Page.getElem?_updateTree, hu, hi, Option.map_some, if_true]
      · rw [Tree.overwrite, Category.getElem?_overwriteAll, join_getElem?_map_shown]
        rfl

/-! ## The page -/

/-- the trees of listed names are numbered and have new texts, in the categories that a stage takes and in their totals;
so has the page in its own; nothing else is new -/
structure ChangesLabelsAndTexts (options : Options) (names : List String) (p q : Page) : Prop where
  frame : q.frame = p.frame
  others : ∀ i t, p.trees[i]? = some t → t.name ∉ names ∨ p.indexOf? t.name ≠ some i → q.trees[i]? = some t
  named : ∀ i t, p.trees[i]? = some t → t.name ∈ names → p.indexOf? t.name = some i →
    ∃ u total new, q.trees[i]? = some u ∧
      t.ChangedTo (fun k => (Numbering.numbered options.renumber k)^[names.count t.name]) (some total) new u ∧
      ∀ k, (new k).isSome ↔ TakenAt (stagesOf (pageStages options p names) t.name) k
  grandTotal : ∃ total, q.grandTotal = Sinks.overwrite (some total) p.grandTotal

/-- a tree of a listed name gets numbers as often as the name is listed, and new texts -/
theorem changedTo_rendered (options : Options) (page : Page) {names : List String} {t : Tree} (h : t.name ∈ names) :
    ∃ total, t.ChangedTo (fun k => (Numbering.numbered options.renumber k)^[names.count t.name]) (some total)
      (newTexts options.format (stagesOf (pageStages options page names) t.name)) (rendered options page names t) := by
  obtain ⟨s, hs, hname⟩ := exists_stage options page h
  have hstages : stagesOf (pageStages options page names) t.name ≠ [] := by
    refine List.ne_nil_of_mem (a := s) ?_
    simpa [stagesOf, hname] using hs
  obtain ⟨last, hlast⟩ := Option.isSome_iff_exists.1 (List.getLast?_isSome.2 hstages)
  refine ⟨(afterAll last.verdicts .zero).sinks options.format, name_rendered .., ?_, fun k => ?_⟩
  · rw [rendered, total_written, hlast, total_iterate_renumberTree]
    rfl
  · exact getElem?_rendered options page names t k

/-- **What a pass changes** on a page, and what the pass over one tree changes by itself -/
theorem renderPage_changes (options : Options) (page : Page) (names : List String) :
    ChangesLabelsAndTexts options names page (renderPage options page names).page ∧
      ∀ line name, ChangesTexts options.malformed line name page (aggregate options page line name).page := by
  refine ⟨⟨?_, ?_, ?_, ?_⟩, fun line name => aggregate_changes options page line name⟩
  · obtain ⟨hpage, -, -⟩ := renderPage_eq options page names
    rw [hpage, frame_showGrandTotal, Page.frame_overwriteAll, frame_renumberTrees]
  · intro i t ht hother
    exact getElem?_renderPage_other options ht hother
  · intro i t ht hname hfirst
    obtain ⟨total, hchanged⟩ := changedTo_rendered options page hname
    refine ⟨_, total, _, ?_, hchanged, fun k => isSome_newTexts_iff⟩
    rw [getElem?_renderPage, ht, Option.map_some, if_pos hfirst]
  · exact ⟨_, grandTotal_renderPage options page names⟩

/-- two trees of one name, and one whose name is not listed -/
def namesakes : Page :=
  ((Page.empty.pushTree (.new importedName [.new "Deposits" [.ofAmount "2.50"], .new "2.Notes" [.ofAmount "n/a"]])).pushTree
    (.new importedName [.new "Deposits" [.ofAmount "4"]])).pushTree (.new assignedName [.new "Rent" [.ofAmount "-9"]])

/-- a name that is listed twice: its first tree is numbered twice, a category that is rejected keeps its texts, and the
namesake is left alone -/
theorem renderPage_changes_namesakes :
    let options : Options := ⟨.prepend, .reject, .plain⟩
    let names := [importedName, importedName]
    let out := (renderPage options namesakes names).page
    ChangesLabelsAndTexts options names namesakes out ∧
      out.trees.map (fun t => t.categories.map fun c => (c.label, c.totals)) =
        [[("1.1.Deposits", some ⟨"2.50", "0.00", "2.50"⟩), ("2.2.2.Notes", some .empty)],
          [("Deposits", some .empty)], [("Rent", some .empty)]] := by
  obtain ⟨hpage, -⟩ := renderPage_changes ⟨.prepend, .reject, .plain⟩ namesakes [importedName, importedName]
  exact ⟨hpage, by decide +kernel⟩

end Rollup

end LedgerTotals
