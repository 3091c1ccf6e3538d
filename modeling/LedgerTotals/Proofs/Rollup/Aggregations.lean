/-
Which rows a grand total is made of.

A pass looks up each listed name and adds up the tree that it finds, and nothing in it asks whether that tree has been
added up before. Here is the pass once more, noting for each name which tree is aggregated, by its position on the page,
and which of its rows are counted (`aggregations`).

- `renderPage_madeOf`: the notes are complete. The grand total comes of the rows that are noted and of no others, and
  each of them stands on the page and counts as what its text says;
- `map_tree_aggregations`: each name aggregates the tree that it stands for on the page at the outset;
- `nodup_trees_aggregations`, `nodup_spots_aggregations`: if no name is listed twice, then no tree is aggregated twice,
  and no row counts twice.

Main result: `renderPage_countsOnce`.
-/
import LedgerTotals.Proofs.Rollup.Sites

namespace LedgerTotals

open Totals

/-! ## Rows by their positions -/

/-- the position of a tree on a page, of a category in it, and of a row in that category -/
structure Spot where
  tree : ℕ
  category : ℕ
  row : ℕ
  deriving DecidableEq

namespace Page

def rowAt? (p : Page) (x : Spot) : Option Row :=
  p.trees[x.tree]?.bind fun t => t.categories[x.category]?.bind fun c => c.rows[x.row]?

/-- rows are part of the frame -/
theorem rowAt?_eq (p : Page) (x : Spot) :
    p.rowAt? x = p.frame.1[x.tree]?.bind fun t => t.2.2[x.category]?.bind fun c => c.1[x.row]? := by
  simp only [rowAt?, frame, Tree.frame, Category.frame, List.getElem?_map, Option.bind_map, Function.comp_def]

theorem rowAt?_of_frame {p q : Page} (h : p.frame = q.frame) (x : Spot) : p.rowAt? x = q.rowAt? x := by
  rw [rowAt?_eq, rowAt?_eq, h]

theorem names_of_frame {p q : Page} (h : p.frame = q.frame) : p.trees.map (·.name) = q.trees.map (·.name) :=
  map_of_frames (fun _ _ hframe => congrArg Prod.fst hframe) (congrArg Prod.fst h)

theorem indexOf?_of_frame {p q : Page} (h : p.frame = q.frame) (name : String) : p.indexOf? name = q.indexOf? name :=
  indexOf?_of_names (names_of_frame h) name

/-- a name stands for a tree exactly if it has a position -/
theorem exists_indexOf? {p : Page} {name : String} {t : Tree} (h : p.findTree? name = some t) :
    ∃ i, p.indexOf? name = some i ∧ p.trees[i]? = some t := by
  rw [findTree?_eq_bind] at h
  exact Option.bind_eq_some_iff.1 h

theorem indexOf?_of_findTree?_none {p : Page} {name : String} (h : p.findTree? name = none) :
    p.indexOf? name = none := by
  rw [findTree?, List.find?_eq_none] at h
  rw [indexOf?, List.findIdx?_eq_none_iff]
  intro t ht
  simpa using h t ht

/-- two names do not stand for one tree -/
theorem eq_of_indexOf? {p : Page} {name other : String} {i : ℕ} (h : p.indexOf? name = some i)
    (h' : p.indexOf? other = some i) : name = other := by
  obtain ⟨hlt, -⟩ := List.findIdx?_eq_some_iff_findIdx_eq.1 h
  have ht : p.trees[i]? = some p.trees[i] := List.getElem?_eq_getElem hlt
  rw [← name_of_indexOf? h ht, ← name_of_indexOf? h' ht]

end Page

namespace Rollup

/-! ## The pass with notes -/

/-- a row that is counted: the position of its category, its own, and the number that it counts as -/
structure CountedRow where
  category : ℕ
  row : ℕ
  value : Decimal
  deriving DecidableEq

/-- a tree that is aggregated: its position, and a batch of rows for each category that is taken into the totals -/
structure Aggregation where
  tree : ℕ
  batches : List (List CountedRow)
  deriving DecidableEq

namespace Aggregation

/-- the numbers that are added, batch by batch -/
def values (a : Aggregation) : List (List Decimal) := a.batches.map fun rows => rows.map (·.value)

/-- where the rows stand that are counted -/
def spots (a : Aggregation) : List Spot := a.batches.flatten.map fun x => ⟨a.tree, x.category, x.row⟩

end Aggregation

/-- the rows that the visit of a category at position `k` counts: one batch of all of them, or none -/
def countedRows (policy : MalformedPolicy) (k : ℕ) (line : List Totals) (c : Category) : List (List CountedRow) :=
  match outcome policy line c, amounts? policy c with
  | .added .., some amounts => [amounts.mapIdx (CountedRow.mk k)]
  | _, _ => []

/-- the rows that are counted as the categories are visited from position `k` on -/
def visitCounted (options : Options) (tree : String) : ℕ → List Totals → List Category → List (List CountedRow)
  | _, _, [] => []
  | k, line, c :: cs =>
    countedRows options.malformed k line c ++ visitCounted options tree (k + 1) (visit options tree line c).line cs

/-- the aggregation of the first tree of the name, if there is one -/
def aggregation? (options : Options) (page : Page) (grand : Totals) (name : String) : Option Aggregation :=
  match page.indexOf? name, page.findTree? name with
  | some i, some tree => some ⟨i, visitCounted options name 0 [.zero, grand] tree.categories⟩
  | _, _ => none

/-- the aggregations of one tree after the other -/
def treesAggregations (options : Options) : Page → Totals → List String → List Aggregation
  | _, _, [] => []
  | page, grand, name :: names =>
    let head := renderTree options page grand name
    (aggregation? options page grand name).toList ++ treesAggregations options head.page (head.line.headD .zero) names

def aggregations (options : Options) (page : Page) (names : List String) : List Aggregation :=
  treesAggregations options (renumberTrees options.renumber page names) .zero names

/-! ## What a visit counts -/

/-- either the rows of the category are one batch that rolls the line on, or nothing is counted and the line stays -/
theorem countedRows_cases (options : Options) (tree : String) (k : ℕ) (line : List Totals) (c : Category) :
    (∃ amounts, amounts? options.malformed c = some amounts ∧
        countedRows options.malformed k line c = [amounts.mapIdx (CountedRow.mk k)] ∧
        rollAll? line [amounts] = some (visit options tree line c).line ∧
        (visit options tree line c).report.amountsAdded = amounts.length) ∨
      (countedRows options.malformed k line c = [] ∧ (visit options tree line c).line = line ∧
        (visit options tree line c).report.amountsAdded = 0) := by
  cases houtcome : outcome options.malformed line c with
  | rejected =>
    right
    simp only [countedRows, visit, houtcome, true_and]
    rfl
  | overflow =>
    right
    simp only [countedRows, visit, houtcome, true_and]
    rfl
  | added count own line' =>
    left
    obtain ⟨amounts, hamounts, hown, hpost, rfl⟩ := outcome_eq_added_iff.1 houtcome
    refine ⟨amounts, hamounts, ?_, ?_, ?_⟩
    · simp only [countedRows, houtcome, hamounts]
    · simp only [visit, houtcome, apply_ite Walk.line, ite_self]
      rw [rollAll?_cons, hown, Option.bind_some, hpost, Option.bind_some, rollAll?_nil]
    · simp only [visit, houtcome]
      split_ifs <;> rfl

theorem map_value_mapIdx (k : ℕ) (amounts : List Decimal) :
    (amounts.mapIdx (CountedRow.mk k)).map (·.value) = amounts := by
  refine List.ext_getElem? fun i => ?_
  simp [List.getElem?_mapIdx, Function.comp_def]

/-- the batches that are noted roll the line on as the visits do, and hold as many rows as amounts are added -/
theorem visitAll_counted (options : Options) (tree : String) (k : ℕ) (line : List Totals) (cs : List Category) :
    rollAll? line ((visitCounted options tree k line cs).map fun rows => rows.map (·.value)) =
        some (visitAll options tree line cs).line ∧
      (visitAll options tree line cs).report.amountsAdded = (visitCounted options tree k line cs).flatten.length := by
  induction cs generalizing k line with
  | nil => exact ⟨rfl, rfl⟩
  | cons c cs ih =>
    obtain ⟨hline, hadded⟩ := ih (k + 1) (visit options tree line c).line
    simp only [visitCounted, visitAll, Report.merge, List.map_append, List.flatten_append, List.length_append]
    rcases countedRows_cases options tree k line c with ⟨amounts, -, hrows, hroll, hcount⟩ | ⟨hrows, hstays, hcount⟩
    · rw [hrows, hcount, hadded]
      refine ⟨?_, by simp⟩
      rw [List.map_singleton, map_value_mapIdx, List.singleton_append, rollAll?_cons]
      rw [rollAll?_cons] at hroll
      simp only [rollAll?_nil, Option.bind_fun_some] at hroll
      rw [hroll, Option.bind_some, hline]
    · rw [hrows, hcount, hadded]
      refine ⟨?_, by simp⟩
      rw [List.map_nil, List.nil_append, ← hline, hstays]

/-- what a category counts are its rows, each with the number that its text counts as -/
theorem of_mem_countedRows {policy : MalformedPolicy} {k : ℕ} {line : List Totals} {c : Category}
    {rows : List CountedRow} (hrows : rows ∈ countedRows policy k line c) {x : CountedRow} (hx : x ∈ rows) :
    x.category = k ∧ ∃ r, c.rows[x.row]? = some r ∧ counted? policy r.amount = some x.value := by
  unfold countedRows at hrows
  split at hrows
  · rename_i amounts _ hamounts
    rw [List.mem_singleton.1 hrows] at hx
    obtain ⟨i, hi, rfl⟩ := List.mem_mapIdx.1 hx
    refine ⟨rfl, ?_⟩
    -- the texts and their numbers stand side by side
    have hboth := mapM_eq_some_iff.1 hamounts
    have hlt : i < c.amountTexts.length := hboth.length_eq ▸ hi
    have hcounted := hboth.get hlt hi
    rw [Category.amountTexts, List.length_map] at hlt
    refine ⟨c.rows[i], List.getElem?_eq_getElem hlt, ?_⟩
    simpa [Category.amountTexts] using hcounted
  · cases hrows

theorem of_mem_visitCounted {options : Options} {tree : String} {k : ℕ} {line : List Totals} {cs : List Category}
    {rows : List CountedRow} (hrows : rows ∈ visitCounted options tree k line cs) {x : CountedRow} (hx : x ∈ rows) :
    ∃ j c r, x.category = k + j ∧ cs[j]? = some c ∧ c.rows[x.row]? = some r ∧
      counted? options.malformed r.amount = some x.value := by
  induction cs generalizing k line with
  | nil => cases hrows
  | cons c cs ih =>
    rcases List.mem_append.1 hrows with hrows | hrows
    · obtain ⟨hcategory, r, hr, hvalue⟩ := of_mem_countedRows hrows hx
      exact ⟨0, c, r, hcategory, rfl, hr, hvalue⟩
    · obtain ⟨j, d, r, hcategory, hd, hr, hvalue⟩ := ih hrows
      exact ⟨j + 1, d, r, by omega, hd, hr, hvalue⟩

/-- no row of a category comes up twice in its visit -/
theorem nodup_countedRows (policy : MalformedPolicy) (k : ℕ) (line : List Totals) (c : Category) :
    ((countedRows policy k line c).flatten.map fun x => (x.category, x.row)).Nodup := by
  unfold countedRows
  split
  · rename_i amounts _ _
    rw [List.flatten_singleton]
    refine List.Nodup.of_map Prod.snd ?_
    have hrows : ((amounts.mapIdx (CountedRow.mk k)).map fun x => (x.category, x.row)).map Prod.snd =
        List.range amounts.length := by
      refine List.ext_getElem (by simp) fun i _ _ => ?_
      simp
    rw [hrows]
    exact List.nodup_range
  · exact List.nodup_nil

/-- no row of a tree comes up twice in the visits of its categories -/
theorem nodup_visitCounted (options : Options) (tree : String) (k : ℕ) (line : List Totals) (cs : List Category) :
    ((visitCounted options tree k line cs).flatten.map fun x => (x.category, x.row)).Nodup := by
  induction cs generalizing k line with
  | nil => exact List.nodup_nil
  | cons c cs ih =>
    rw [visitCounted, List.flatten_append, List.map_append, List.nodup_append]
    refine ⟨nodup_countedRows options.malformed k line c, ih _ _, ?_⟩
    -- the categories that follow stand further on
    intro place hplace other hother heq
    obtain ⟨x, hx, rfl⟩ := List.mem_map.1 hplace
    obtain ⟨y, hy, rfl⟩ := List.mem_map.1 hother
    obtain ⟨rows, hrows, hx⟩ := List.mem_flatten.1 hx
    obtain ⟨rows', hrows', hy⟩ := List.mem_flatten.1 hy
    obtain ⟨hcategory, -⟩ := of_mem_countedRows hrows hx
    obtain ⟨j, -, -, hcategory', -⟩ := of_mem_visitCounted hrows' hy
    have hsame := congrArg Prod.fst heq
    simp only at hsame
    omega

/-! ## What a pass counts -/

/-- the pass brings the grand total from `grand` to where it leaves it by adding the rows of these aggregations, and no
others; each of them stands on the page and counts as what its text says -/
structure MadeOf (policy : MalformedPolicy) (page : Page) (grand : Totals) (as : List Aggregation) (pass : Pass) :
    Prop where
  treesProcessed : pass.report.treesProcessed = as.length
  amountsAdded : pass.report.amountsAdded = (as.flatMap Aggregation.spots).length
  line : ∃ last, roll? grand (as.flatMap Aggregation.values) = some last ∧ pass.line = [last]
  rows : ∀ a ∈ as, ∀ rows ∈ a.batches, ∀ x ∈ rows,
    ∃ r, page.rowAt? ⟨a.tree, x.category, x.row⟩ = some r ∧ counted? policy r.amount = some x.value

theorem aggregation?_of_none (options : Options) {page : Page} (grand : Totals) {name : String}
    (h : page.findTree? name = none) : aggregation? options page grand name = none := by
  rw [aggregation?, Page.indexOf?_of_findTree?_none h]

theorem aggregation?_of_some (options : Options) {page : Page} (grand : Totals) {name : String} {t : Tree}
    (h : page.findTree? name = some t) : ∃ i, page.indexOf? name = some i ∧ page.trees[i]? = some t ∧
      aggregation? options page grand name = some ⟨i, visitCounted options name 0 [.zero, grand] t.categories⟩ := by
  obtain ⟨i, hindex, ht⟩ := Page.exists_indexOf? h
  refine ⟨i, hindex, ht, ?_⟩
  rw [aggregation?, hindex, h]

theorem renderTree_madeOf (options : Options) (page : Page) (grand : Totals) (name : String) :
    MadeOf options.malformed page grand (aggregation? options page grand name).toList
      (renderTree options page grand name) := by
  cases hfind : page.findTree? name with
  | none =>
    rw [aggregation?_of_none options grand hfind, renderTree_of_none options grand hfind]
    exact ⟨rfl, rfl, ⟨grand, rfl, rfl⟩, by simp⟩
  | some t =>
    obtain ⟨i, -, ht, hsome⟩ := aggregation?_of_some options grand hfind
    obtain ⟨hroll, hadded⟩ := visitAll_counted options name 0 [.zero, grand] t.categories
    rw [rollAll?_pair, Option.bind_eq_some_iff] at hroll
    obtain ⟨own, -, hroll⟩ := hroll
    obtain ⟨last, hlast, hline⟩ := Option.map_eq_some_iff.1 hroll
    rw [hsome, Option.toList_some]
    refine ⟨?_, ?_, ⟨last, ?_, ?_⟩, ?_⟩
    · rw [renderTree_of_some options grand hfind]
      simp [treeReport, Report.merge, Report.ofIssues, Report.empty, treesProcessed_reportAll]
    · rw [List.flatMap_singleton, Aggregation.spots, List.length_map, ← hadded]
      simp [renderTree, aggregate, hfind, Report.merge, Report.ofIssues, Report.empty]
    · rw [List.flatMap_singleton]
      exact hlast
    · simp only [renderTree, aggregate, hfind, ← hline, List.drop_succ_cons, List.drop_zero]
    · intro a ha rows hrows x hx
      rw [List.mem_singleton.1 ha] at hrows ⊢
      obtain ⟨j, c, r, hcategory, hc, hr, hvalue⟩ := of_mem_visitCounted hrows hx
      rw [Nat.zero_add] at hcategory
      refine ⟨r, ?_, hvalue⟩
      simp [Page.rowAt?, ht, hcategory, hc, hr]

/-- rows stand where they stood on a page of the same frame -/
theorem MadeOf.rows_of_frame {policy : MalformedPolicy} {p q : Page} {grand : Totals} {as : List Aggregation}
    {pass : Pass} (h : MadeOf policy p grand as pass) (hframe : p.frame = q.frame) : MadeOf policy q grand as pass := by
  refine ⟨h.treesProcessed, h.amountsAdded, h.line, ?_⟩
  intro a ha rows hrows x hx
  rw [← Page.rowAt?_of_frame hframe]
  exact h.rows a ha rows hrows x hx

theorem renderTrees_madeOf (options : Options) (page : Page) (grand : Totals) (names : List String) :
    MadeOf options.malformed page grand (treesAggregations options page grand names)
      (renderTrees options page grand names) := by
  induction names generalizing page grand with
  | nil => exact ⟨rfl, rfl, ⟨grand, rfl, rfl⟩, nofun⟩
  | cons name names ih =>
    have hhead := renderTree_madeOf options page grand name
    obtain ⟨mid, hmid, hline⟩ := hhead.line
    have hrest := (ih (renderTree options page grand name).page mid).rows_of_frame
      (frame_renderTree options page grand name)
    obtain ⟨last, hlast, hline'⟩ := hrest.line
    simp only [treesAggregations, renderTrees, hline, List.headD_cons]
    refine ⟨?_, ?_, ⟨last, ?_, hline'⟩, ?_⟩
    · rw [Report.merge, hhead.treesProcessed, hrest.treesProcessed, List.length_append]
    · rw [Report.merge, hhead.amountsAdded, hrest.amountsAdded, List.flatMap_append, List.length_append]
    · rw [List.flatMap_append, roll?_append, hmid, Option.bind_some, hlast]
    · intro a ha
      rcases List.mem_append.1 ha with ha | ha
      · exact hhead.rows a ha
      · exact hrest.rows a ha

/-- **What a grand total is made of.** The rows that are noted are rows of the page, they count as what their texts say,
and posted batch by batch they come to the grand total that the page shows -/
theorem renderPage_madeOf (options : Options) (page : Page) (names : List String) :
    let pass := renderPage options page names
    MadeOf options.malformed page .zero (aggregations options page names) pass ∧
      pass.page.grandTotal = page.grandTotal.map fun _ => (pass.line.headD .zero).sinks options.format := by
  intro pass
  have htrees := (renderTrees_madeOf options (renumberTrees options.renumber page names) .zero names).rows_of_frame
    (frame_renumberTrees options.renumber page names)
  obtain ⟨-, hline, -⟩ := renderPage_eq options page names
  refine ⟨⟨?_, ?_, htrees.line, htrees.rows⟩, ?_⟩
  · exact htrees.treesProcessed
  · exact htrees.amountsAdded
  · simp only [pass, hline, List.headD_cons]
    exact grandTotal_renderPage options page names

/-! ## Names that are listed once -/

theorem map_tree_treesAggregations (options : Options) (page : Page) (grand : Totals) (names : List String) :
    (treesAggregations options page grand names).map (·.tree) = names.filterMap page.indexOf? := by
  induction names generalizing page grand with
  | nil => rfl
  | cons name names ih =>
    have hindex : (renderTree options page grand name).page.indexOf? = page.indexOf? :=
      funext (Page.indexOf?_of_frame (frame_renderTree options page grand name))
    have hhead : (aggregation? options page grand name).map (·.tree) = page.indexOf? name := by
      cases hfind : page.findTree? name with
      | none => rw [aggregation?_of_none options grand hfind, Page.indexOf?_of_findTree?_none hfind, Option.map_none]
      | some t =>
        obtain ⟨i, hi, -, hsome⟩ := aggregation?_of_some options grand hfind
        rw [hsome, hi, Option.map_some]
    rw [treesAggregations, List.map_append, ih, hindex, List.filterMap_cons, ← hhead]
    cases aggregation? options page grand name <;> rfl

/-- each name aggregates the tree that it stands for on the page at the outset, as often as it is listed -/
theorem map_tree_aggregations (options : Options) (page : Page) (names : List String) :
    (aggregations options page names).map (·.tree) = names.filterMap page.indexOf? := by
  have hindex : (renumberTrees options.renumber page names).indexOf? = page.indexOf? :=
    funext (Page.indexOf?_of_frame (frame_renumberTrees options.renumber page names))
  rw [aggregations, map_tree_treesAggregations, hindex]

theorem nodup_spots_of_mem {options : Options} {page : Page} {grand : Totals} {names : List String} {a : Aggregation}
    (ha : a ∈ treesAggregations options page grand names) : a.spots.Nodup := by
  induction names generalizing page grand with
  | nil => cases ha
  | cons name names ih =>
    rcases List.mem_append.1 ha with ha | ha
    · cases hfind : page.findTree? name with
      | none =>
        rw [aggregation?_of_none options grand hfind] at ha
        cases ha
      | some t =>
        obtain ⟨i, -, -, hsome⟩ := aggregation?_of_some options grand hfind
        rw [hsome, Option.toList_some, List.mem_singleton] at ha
        rw [ha, Aggregation.spots]
        have hrows := nodup_visitCounted options name 0 [.zero, grand] t.categories
        refine List.Nodup.of_map (fun x : Spot => (x.category, x.row)) ?_
        rwa [List.map_map]
    · exact ih ha

/-- the pass shows a grand total of rows of the page, and counts none of them twice, since each name that is listed
aggregates the tree that it stands for and no two of them aggregate the same -/
structure CountsOnce (options : Options) (page : Page) (names : List String) (pass : Pass) : Prop
    extends MadeOf options.malformed page .zero (aggregations options page names) pass where
  shown : pass.page.grandTotal = page.grandTotal.map fun _ => (pass.line.headD .zero).sinks options.format
  named : (aggregations options page names).map (·.tree) = names.filterMap page.indexOf?
  trees : ((aggregations options page names).map (·.tree)).Nodup
  spots : ((aggregations options page names).flatMap Aggregation.spots).Nodup

section Nodup

variable {names : List String} (hnames : names.Nodup)
include hnames

/-- **No tree twice** -/
theorem nodup_trees_aggregations (options : Options) (page : Page) :
    ((aggregations options page names).map (·.tree)).Nodup := by
  rw [map_tree_aggregations]
  exact hnames.filterMap fun name other i hi hi' => Page.eq_of_indexOf? hi hi'

/-- **No row twice** -/
theorem nodup_spots_aggregations (options : Options) (page : Page) :
    ((aggregations options page names).flatMap Aggregation.spots).Nodup := by
  rw [List.nodup_flatMap]
  refine ⟨fun a ha => nodup_spots_of_mem ha, ?_⟩
  have htrees := List.pairwise_map.1 (nodup_trees_aggregations hnames options page)
  refine htrees.imp fun {a b} hne => ?_
  -- a spot tells its tree
  intro x hx hx'
  obtain ⟨_, -, rfl⟩ := List.mem_map.1 hx
  obtain ⟨_, -, hsame⟩ := List.mem_map.1 hx'
  exact hne (congrArg Spot.tree hsame).symm

/-- **Nothing counts twice** if no name is listed twice -/
theorem renderPage_countsOnce (options : Options) (page : Page) :
    CountsOnce options page names (renderPage options page names) := by
  obtain ⟨hmadeOf, hshown⟩ := renderPage_madeOf options page names
  exact {
    toMadeOf := hmadeOf
    shown := hshown
    named := map_tree_aggregations options page names
    trees := nodup_trees_aggregations hnames options page
    spots := nodup_spots_aggregations hnames options page }

end Nodup

/-- two rows of a tree whose name is listed twice count twice each -/
example :
    let page : Page := ⟨[⟨"assigned", none, [.new "4100" [.ofAmount "1", .ofAmount "2"]]⟩], none⟩
    (aggregations ⟨.prepend, .zero, .plain⟩ page ["assigned", "assigned"]).flatMap Aggregation.spots =
      [⟨0, 0, 0⟩, ⟨0, 0, 1⟩, ⟨0, 0, 0⟩, ⟨0, 0, 1⟩] := by
  decide +kernel

end Rollup

end LedgerTotals
