/-
A rendered page foots: the texts on it add up.

`Category.Foots`, `Tree.Foots` and `Page.Foots` speak of the numbers that the texts stand for. In every place the total
is the debit less the credit. A category shows the figures of its own amounts, and each figure of a tree or of the page
is the sum of that figure over the parts below.

Main result: `renderPage_foots`, for pages with all their sinks whose amounts are in whole cents and not too large.
-/
import LedgerTotals.Proofs.Rollup.GrandTotal

namespace LedgerTotals

open Decimal Totals

/-! ## Pages that foot -/

/-- there are sinks, their texts stand for the figures, and the total is the debit less the credit -/
structure Shows (sinks : Option Sinks) (x : Figures) : Prop where
  display : ∃ s, sinks = some s ∧ s.Display x
  balanced : x.total = x.debit - x.credit

/-- the category shows the figures of its own amounts -/
structure Category.Foots (c : Category) (x : Figures) : Prop where
  shows : Shows c.totals x
  own : x = Figures.ofAmounts c.amounts

/-- the tree shows figures that are the sums of those that its categories show -/
structure Tree.Foots (t : Tree) (x : Figures) : Prop where
  shows : Shows t.total x
  parts : ∃ ys, List.Forall₂ Category.Foots t.categories ys ∧ x = Figures.sum ys

/-- the page shows figures that are the sums of those that the named trees show -/
def Page.Foots (p : Page) (names : List String) : Prop :=
  ∃ x ys, Shows p.grandTotal x ∧ List.Forall₂ Tree.Foots (p.namedTrees names) ys ∧ x = Figures.sum ys

structure Tree.HasSinks (t : Tree) : Prop where
  total : t.total.isSome
  categories : ∀ c ∈ t.categories, c.totals.isSome

structure Page.HasSinks (p : Page) (names : List String) : Prop where
  grandTotal : p.grandTotal.isSome
  trees : ∀ t ∈ p.namedTrees names, t.HasSinks

instance (t : Tree) : Decidable t.HasSinks :=
  decidable_of_iff (t.total.isSome ∧ ∀ c ∈ t.categories, c.totals.isSome)
    ⟨fun ⟨ht, hc⟩ => ⟨ht, hc⟩, fun h => ⟨h.total, h.categories⟩⟩

instance (p : Page) (names : List String) : Decidable (p.HasSinks names) :=
  decidable_of_iff (p.grandTotal.isSome ∧ ∀ t ∈ p.namedTrees names, t.HasSinks)
    ⟨fun ⟨hp, ht⟩ => ⟨hp, ht⟩, fun h => ⟨h.grandTotal, h.trees⟩⟩

theorem Tree.HasSinks.of_frame {s t : Tree} (ht : t.HasSinks) (h : s.frame = t.frame) : s.HasSinks := by
  refine ⟨(congrArg (·.2.1) h).trans ht.total, ?_⟩
  refine forall_of_frames (fun c d hd hcd => ?_) (frames_categories h) ht.categories
  exact (congrArg (·.2) hcd).trans hd

theorem Page.HasSinks.of_frame {p q : Page} {names : List String} (hq : q.HasSinks names) (h : p.frame = q.frame) :
    p.HasSinks names :=
  ⟨(congrArg (·.2) h).trans hq.grandTotal,
    forall_of_frames (fun _ _ => Tree.HasSinks.of_frame) (namedTrees_of_frame h names) hq.trees⟩

/-! ## Figures in whole cents -/

/-- what fits whole cents is shown as it is -/
theorem Figures.shows_of_fitsAt {qs : List ℚ} (h : FitsAt 2 qs) (format : AmountFormat) {sinks : Option Sinks}
    (hsinks : sinks.isSome) :
    Shows (sinks.map fun _ => (Figures.ofAmounts qs).sinks format) (Figures.ofAmounts qs) := by
  obtain ⟨s, rfl⟩ := Option.isSome_iff_exists.1 hsinks
  have hdebit : HasPlaces 2 (ofAmounts qs).debit := hasPlaces_sum h.debits.places
  have hcredit : HasPlaces 2 (ofAmounts qs).credit := hasPlaces_sum h.credits.places
  have htotal : HasPlaces 2 (ofAmounts qs).total := hasPlaces_sum h.places
  exact ⟨⟨_, rfl, display_sinks hdebit hcredit htotal format⟩, ofAmounts_total qs⟩

/-! ## What is settled foots -/

theorem Category.foots_settled {c : Category} (hsink : c.totals.isSome) (h : FitsAt 2 c.amounts)
    (format : AmountFormat) : (c.settled format).Foots (Figures.ofAmounts c.amounts) := by
  obtain ⟨own, hown, hsums⟩ := ofBatch?_exact (h.debits.lossless (by decide)) (h.credits.lossless (by decide))
  refine ⟨?_, by rw [amounts_of_frame (c.frame_settled format)]⟩
  rw [settled, hown, Option.getD_some, hsums.sinks (by decide) h]
  exact Figures.shows_of_fitsAt h format hsink

theorem Tree.foots_settled {t : Tree} (hsinks : t.HasSinks) (h : FitsAt 2 t.amounts) (format : AmountFormat) :
    (t.settled format).Foots (Figures.ofAmounts t.amounts) := by
  obtain ⟨own, hown, hsums⟩ := roll?_exact_of_fitsAt (by decide) (t.map_batches_flatten ▸ h)
  rw [map_batches_flatten] at hsums
  refine ⟨?_, t.categories.map fun c => Figures.ofAmounts c.amounts, ?_, ?_⟩
  · rw [settled, hown, Option.getD_some, hsums.sinks (by decide) h]
    exact Figures.shows_of_fitsAt h format hsinks.total
  · rw [settled, List.forall₂_map_left_iff, List.forall₂_map_right_iff, List.forall₂_same]
    intro c hc
    have hsub : c.amounts.Sublist t.amounts := List.sublist_flatten_of_mem (List.mem_map_of_mem hc)
    exact Category.foots_settled (hsinks.categories c hc) (h.of_subperm hsub.subperm) format
  · rw [amounts, Figures.ofAmounts_flatten, runs, List.map_map]
    rfl

/-- the amounts of each named tree fit if those of all of them do -/
theorem Page.fitsAt_of_mem {p : Page} {names : List String} (h : FitsAt 2 (p.amounts names)) :
    ∀ t ∈ p.namedTrees names, FitsAt 2 t.amounts := by
  intro t ht
  rw [amounts_eq] at h
  exact h.of_subperm (List.sublist_flatten_of_mem (List.mem_map_of_mem ht)).subperm

theorem Page.foots_settleTrees {p : Page} {names : List String} (hsinks : p.HasSinks names)
    (h : FitsAt 2 (p.amounts names)) {grand : Totals} (hgrand : grand.SumsTo (p.amounts names))
    (format : AmountFormat) : (Rollup.showGrandTotal format grand (p.settleTrees format names)).Foots names := by
  have hpage : (p.settleTrees format names).grandTotal.isSome :=
    (congrArg (·.2) (p.frame_settleTrees format names)).trans hsinks.grandTotal
  refine ⟨Figures.ofAmounts (p.amounts names), (p.namedTrees names).map fun t => Figures.ofAmounts t.amounts, ?_, ?_, ?_⟩
  · rw [Rollup.showGrandTotal, hgrand.sinks (by decide) h]
    exact Figures.shows_of_fitsAt h format hpage
  · have htrees : (Rollup.showGrandTotal format grand (p.settleTrees format names)).namedTrees names =
        (p.namedTrees names).map (Tree.settled format) := p.namedTrees_settleTrees format names
    rw [htrees, List.forall₂_map_left_iff, List.forall₂_map_right_iff, List.forall₂_same]
    exact fun t ht => Tree.foots_settled (hsinks.trees t ht) (fitsAt_of_mem h t ht) format
  · rw [amounts_eq, Figures.ofAmounts_flatten, List.map_map]
    rfl

namespace Rollup

/-- **Footing.** A page with all its sinks, whose amounts are in whole cents and together less than 96 bits hold, is
rendered so that its texts add up, and nothing but labels and texts has changed. -/
theorem renderPage_foots (options : Options) (page : Page) (names : List String) (hsinks : page.HasSinks names)
    (hread : ∀ t ∈ page.namedTrees names, t.Readable) (hfits : FitsAt 2 (page.amounts names)) :
    (renderPage options page names).page.Foots names ∧ (renderPage options page names).page.frame = page.frame := by
  have hsettles : ∀ t ∈ page.namedTrees names, t.Settles := fun t ht => by
    have htree := Page.fitsAt_of_mem hfits t ht
    obtain ⟨own, hown, -⟩ := roll?_exact_of_fitsAt (by decide) (t.map_batches_flatten ▸ htree)
    exact ⟨hread t ht, Option.isSome_iff_exists.2 ⟨own, hown⟩⟩
  obtain ⟨grand, hgrand, hsums⟩ := roll?_exact_of_fitsAt (by decide) (page.map_batches_flatten names ▸ hfits)
  rw [Page.map_batches_flatten] at hsums
  -- the labels come first, and they do not matter
  have hframe := frame_renumberTrees options.renumber page names
  have hamounts := Page.amounts_of_frame hframe names
  rw [renderPage_accepted options hsettles hgrand]
  refine ⟨Page.foots_settleTrees (hsinks.of_frame hframe) (hamounts ▸ hfits) (hamounts ▸ hsums) options.format, ?_⟩
  rw [frame_showGrandTotal, Page.frame_settleTrees, hframe]

/-- two trees with credits on both sides, one of them with an empty category -/
def twoTrees : Page :=
  let imported := Tree.new importedName [.new "Deposits" [.ofAmount "1,200.50", .ofAmount "-$300"], .new "Fees" []]
  let assigned := Tree.new assignedName
    [.new "Rent" [.ofAmount "-950.25"], .new "Refunds" [.ofAmount "€0.75", .ofAmount "20"]]
  (Page.empty.pushTree imported).pushTree assigned

theorem renderPage_foots_twoTrees :
    twoTrees.HasSinks [importedName, "spare", assignedName] ∧
      (∀ t ∈ twoTrees.namedTrees [importedName, "spare", assignedName], t.Readable) ∧
      FitsAt 2 (twoTrees.amounts [importedName, "spare", assignedName]) ∧
      (renderPage ⟨.replace, .reject, .withCommas true⟩ twoTrees
        [importedName, "spare", assignedName]).page.Foots [importedName, "spare", assignedName] := by
  have hsinks : twoTrees.HasSinks [importedName, "spare", assignedName] := by decide +kernel
  have hread : ∀ t ∈ twoTrees.namedTrees [importedName, "spare", assignedName], t.Readable := by decide +kernel
  have hfits : FitsAt 2 (twoTrees.amounts [importedName, "spare", assignedName]) := by decide +kernel
  exact ⟨hsinks, hread, hfits, (renderPage_foots _ twoTrees _ hsinks hread hfits).1⟩

end Rollup

end LedgerTotals
