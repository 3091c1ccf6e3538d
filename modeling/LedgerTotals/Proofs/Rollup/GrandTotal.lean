/-
The grand total of a page against the exact sums of its amounts.

Running totals are decimals, and a sum with more digits than a decimal has is rounded without notice. So a complete
report does not mean that the grand total is exact: it is exactly as good as the decimals that the batches roll on to.

- `renderPage_grandTotal`: it shows the exact sums, rounded once, if and only if those decimals agree with them to the
  cent, and this is the case whenever no sum on the way is lost;
- `creeping`: a page whose grand total is a cent too high, although its report is complete.
-/
import LedgerTotals.Proofs.Amount.Shown
import LedgerTotals.Proofs.Rollup.Pass

namespace LedgerTotals

open Decimal Totals

/-- the figures agree once they are rounded to cents -/
structure Figures.SameCents (x y : Figures) : Prop where
  debit : nearestCent x.debit = nearestCent y.debit
  credit : nearestCent x.credit = nearestCent y.credit
  total : nearestCent x.total = nearestCent y.total

theorem Figures.sinks_inj {x y : Figures} {f : AmountFormat} : x.sinks f = y.sinks f ↔ x.SameCents y := by
  simp only [sinks, Sinks.mk.injEq, centsText_inj]
  constructor
  · rintro ⟨hdebit, hcredit, htotal⟩
    exact ⟨hdebit, hcredit, htotal⟩
  · intro h
    exact ⟨h.debit, h.credit, h.total⟩

namespace Rollup

theorem grandTotal_showGrandTotal {page : Page} (h : page.grandTotal.isSome) (format : AmountFormat) (totals : Totals) :
    (showGrandTotal format totals page).grandTotal = some (totals.sinks format) := by
  obtain ⟨sinks, hsinks⟩ := Option.isSome_iff_exists.1 h
  simp [showGrandTotal, hsinks]

/-- the sinks of a page that rolls on to a grand total show that total -/
theorem renderPage_shows (options : Options) {page : Page} {grand : Totals} {names : List String}
    (hsink : page.grandTotal.isSome) (h : ∀ t ∈ page.namedTrees names, t.Settles)
    (hroll : roll? .zero (page.batches names) = some grand) :
    (renderPage options page names).page.grandTotal = some (grand.figures.sinks options.format) := by
  rw [renderPage_accepted options h hroll, ← Totals.sinks_eq]
  refine grandTotal_showGrandTotal ?_ _ _
  have hframe := (Page.frame_settleTrees options.format (renumberTrees options.renumber page names) names).trans
    (frame_renumberTrees options.renumber page names)
  exact (congrArg (·.2) hframe).trans hsink

/-- **The grand total.** If nothing is reported as left out, the three texts for the page are the exact sums of all the
amounts of the named trees, rounded once, exactly if the decimals that the batches roll on to agree with these sums to
the cent. They do if no sum on the way is lost and some decimal stands for the total. -/
theorem renderPage_grandTotal (options : Options) (page : Page) (names : List String) (hsink : page.grandTotal.isSome)
    (hcomplete : (renderPage options page names).report.Complete) :
    ∃ grand, roll? .zero (page.batches names) = some grand ∧
      ((renderPage options page names).page.grandTotal =
          some ((Figures.ofAmounts (page.amounts names)).sinks options.format) ↔
        grand.figures.SameCents (Figures.ofAmounts (page.amounts names))) ∧
      (Figures.ExactRoll (page.runs names) → Representable (page.amounts names).sum →
        (renderPage options page names).page.grandTotal =
          some ((Figures.ofAmounts (page.amounts names)).sinks options.format)) := by
  obtain ⟨hsettles, grand, hroll⟩ := of_renderPage_complete hcomplete
  have hshown := renderPage_shows options hsink hsettles hroll
  refine ⟨grand, hroll, ?_, fun hexact htotal => ?_⟩
  · rw [hshown, Option.some.injEq, Figures.sinks_inj]
  · rw [← Page.map_batches] at hexact
    obtain ⟨grand', hroll', hsums⟩ := roll?_exact hexact
    obtain rfl : grand = grand' := Option.some.inj (hroll.symm.trans hroll')
    rw [Page.map_batches_flatten] at hsums
    rw [hshown, hsums.figures htotal]

/-- deposits, a fee, and interest with more places than are shown -/
def mixed : Page :=
  (Page.empty.pushTree (.new importedName [.new "Deposits" [.ofAmount "1,200.50", .ofAmount "-$3.125"]])).pushTree
    (.new assignedName [.new "Interest" [.ofAmount "0.004"], .new "Fees" []])

theorem renderPage_grandTotal_mixed :
    mixed.grandTotal.isSome ∧
      (renderPage ⟨.prepend, .zero, .withCommas true⟩ mixed [importedName, assignedName]).report.Complete ∧
      (renderPage ⟨.prepend, .zero, .withCommas true⟩ mixed [importedName, assignedName]).page.grandTotal =
        some ⟨"1,200.50", "3.13", "1,197.38"⟩ := by
  have hsink : mixed.grandTotal.isSome := rfl
  have hcomplete : (renderPage ⟨.prepend, .zero, .withCommas true⟩ mixed
      [importedName, assignedName]).report.Complete := by decide +kernel
  have hfits : FitsAt 3 (mixed.amounts [importedName, assignedName]) := by decide +kernel
  obtain ⟨-, -, -, hshown⟩ := renderPage_grandTotal _ mixed _ hsink hcomplete
  refine ⟨hsink, hcomplete, (hshown (hfits.exactRoll (by decide)) (hfits.representable (by decide))).trans ?_⟩
  decide +kernel

/-- ten, and just less than half a cent: their sum has a digit more than a decimal, and is rounded up to half a cent -/
def creeping : Page :=
  (Page.empty.pushTree (.new importedName [.new "Deposits" [.ofAmount "10"]])).pushTree
    (.new assignedName [.new "Interest" [.ofAmount "0.0049999999999999999999999999"]])

theorem grandTotal_rounded_twice :
    ¬ ∀ (options : Options) (page : Page) (names : List String), names.Nodup → page.grandTotal.isSome →
      (renderPage options page names).report.Complete →
      (renderPage options page names).page.grandTotal =
        some ((Figures.ofAmounts (page.amounts names)).sinks options.format) := by
  intro h
  have hshown := h ⟨.prepend, .zero, .plain⟩ creeping [importedName, assignedName] (by decide) rfl (by decide +kernel)
  have hactual : (renderPage ⟨.prepend, .zero, .plain⟩ creeping [importedName, assignedName]).page.grandTotal =
      some ⟨"10.01", "0.00", "10.01"⟩ := by decide +kernel
  have hexact : (Figures.ofAmounts (creeping.amounts [importedName, assignedName])).sinks .plain =
      ⟨"10.00", "0.00", "10.00"⟩ := by decide +kernel
  rw [hactual, hexact] at hshown
  exact absurd hshown (by decide)

end Rollup

end LedgerTotals
