/-
Differences that are taken on the way.

Sums are checked: a category whose amounts lead to a sum without a decimal is left out. The difference that totals are
shown with is not checked, and a program that meets one without a decimal cannot go on. So here is the pass once more,
stopping at such a difference (`renderPage?`). It never does, since neither side of any totals is below zero, and of two
such numbers the difference is no larger than one of them.

- `Totals.Unsigned.sinks?_eq`: unsigned totals can be shown;
- `aggregate?_eq`, `renderPage?_eq`: the pass over a tree and the pass over a page stop nowhere;
- `reachable_differences`: the same for every account of a forest, and for a pass below it.
-/
import LedgerTotals.Proofs.Forest.Order
import LedgerTotals.Proofs.Rollup.Reference

namespace LedgerTotals

namespace Totals

/-- debit less credit, unless the difference has no decimal -/
def balance? (t : Totals) : Option Decimal := t.debit.sub? t.credit

/-- the three texts that show the totals, unless there is no difference to show -/
def sinks? (t : Totals) (format : AmountFormat) : Option Sinks :=
  t.balance?.map fun balance =>
    ⟨Amount.toText ⟨t.debit, format⟩, Amount.toText ⟨t.credit, format⟩, Amount.toText ⟨balance, format⟩⟩

/-- sinks with the totals shown in them; no difference is taken for sinks that are not there -/
def shownIn? (format : AmountFormat) (t : Totals) : Option Sinks → Option (Option Sinks)
  | none => some none
  | some _ => (t.sinks? format).map some

theorem Unsigned.sinks?_eq {t : Totals} (ht : t.Unsigned) (format : AmountFormat) :
    t.sinks? format = some (t.sinks format) := by
  unfold sinks? balance?
  rw [ht.sub?_eq]
  rfl

theorem Unsigned.shownIn?_eq {t : Totals} (ht : t.Unsigned) (format : AmountFormat) (old : Option Sinks) :
    t.shownIn? format old = some (old.map fun _ => t.sinks format) := by
  cases old with
  | none => rfl
  | some s =>
    unfold shownIn?
    rw [ht.sinks?_eq]
    rfl

end Totals

namespace Rollup

/-! ## The pass that may stop -/

def visit? (options : Options) (tree : String) (line : List Totals) (c : Category) : Option Walk :=
  let walk := visit options tree line c
  match outcome options.malformed line c with
  | .added _ own _ => (own.shownIn? options.format c.totals).map fun totals =>
      { walk with categories := [{ c with totals := totals }] }
  | _ => some walk

def visitAll? (options : Options) (tree : String) : List Totals → List Category → Option Walk
  | line, [] => some ⟨[], line, .empty, []⟩
  | line, c :: cs => do
    let head ← visit? options tree line c
    let tail ← visitAll? options tree head.line cs
    return ⟨head.categories ++ tail.categories, tail.line, head.report.merge tail.report, head.journal ++ tail.journal⟩

def aggregate? (options : Options) (page : Page) (line : List Totals) (name : String) : Option Pass :=
  match page.findTree? name with
  | none => some (aggregate options page line name)
  | some tree => do
    let walk ← visitAll? options name line tree.categories
    return ⟨page.updateTree name fun t => { t with categories := walk.categories }, walk.line,
      Report.merge ⟨1, 0, 0, []⟩ walk.report, walk.journal⟩

def showTreeTotal? (format : AmountFormat) (totals : Totals) (page : Page) (name : String) : Option Page :=
  match page.findTree? name with
  | none => some page
  | some tree => do
    let total ← totals.shownIn? format tree.total
    return page.updateTree name fun t => { t with total := total }

def renderTree? (options : Options) (page : Page) (grand : Totals) (name : String) : Option Pass := do
  let pass ← aggregate? options page [.zero, grand] name
  let shown ← showTreeTotal? options.format (pass.line.headD .zero) pass.page name
  let (issues, journal) := missingTotal pass.page name
  return ⟨shown, pass.line.drop 1, pass.report.merge (.ofIssues issues), pass.journal ++ journal⟩

def renderTrees? (options : Options) : Page → Totals → List String → Option Pass
  | page, grand, [] => some ⟨page, [grand], .empty, []⟩
  | page, grand, name :: names => do
    let head ← renderTree? options page grand name
    let tail ← renderTrees? options head.page (head.line.headD .zero) names
    return ⟨tail.page, tail.line, head.report.merge tail.report, head.journal ++ tail.journal⟩

def renderPage? (options : Options) (page : Page) (names : List String) : Option Pass := do
  let pass ← renderTrees? options (renumberTrees options.renumber page names) .zero names
  let grand := pass.line.headD .zero
  let shown ← grand.shownIn? options.format pass.page.grandTotal
  let (issues, journal) := missingGrandTotal pass.page
  return ⟨{ pass.page with grandTotal := shown }, pass.line, pass.report.merge (.ofIssues issues),
    renumberEntries options.renumber page names ++ pass.journal ++ journal ++
      [⟨.debug, "Grand total: " ++ grand.describe false⟩]⟩

/-! ## It does not stop -/

/-- whatever stands above a category, its own totals are unsigned -/
theorem visit?_eq (options : Options) (tree : String) (line : List Totals) (c : Category) :
    visit? options tree line c = some (visit options tree line c) := by
  unfold visit? visit
  cases houtcome : outcome options.malformed line c with
  | rejected => rfl
  | overflow => rfl
  | added count own line' =>
    obtain ⟨amounts, -, hown, -⟩ := outcome_eq_added_iff.1 houtcome
    have hunsigned : own.Unsigned := Totals.unsigned_of_ofBatch? hown
    simp only [hunsigned.shownIn?_eq, Option.map_some]
    obtain ⟨label, rows, totals⟩ := c
    cases totals <;> rfl

theorem visitAll?_eq (options : Options) (tree : String) (line : List Totals) (cs : List Category) :
    visitAll? options tree line cs = some (visitAll options tree line cs) := by
  induction cs generalizing line with
  | nil => rfl
  | cons c cs ih =>
    rw [visitAll?, visit?_eq, Option.bind_eq_bind, Option.bind_some, ih]
    rfl

theorem aggregate?_eq (options : Options) (page : Page) (line : List Totals) (name : String) :
    aggregate? options page line name = some (aggregate options page line name) := by
  unfold aggregate? aggregate
  cases page.findTree? name with
  | none => rfl
  | some tree =>
    simp only [visitAll?_eq]
    rfl

/-- the total of a tree starts from nothing and takes unsigned batches -/
theorem unsigned_headD_aggregate (options : Options) (page : Page) (grand : Totals) (name : String) :
    ((aggregate options page [.zero, grand] name).line.headD .zero).Unsigned := by
  unfold aggregate
  cases page.findTree? name with
  | none => exact Totals.unsigned_zero
  | some tree =>
    simp only [visitAll_eq, List.map_cons, List.headD_cons]
    exact Verdict.unsigned_afterAll (fun own hown => unsigned_of_mem_verdicts hown) Totals.unsigned_zero

theorem showTreeTotal?_eq {totals : Totals} (h : totals.Unsigned) (format : AmountFormat) (page : Page) (name : String) :
    showTreeTotal? format totals page name = some (page.updateTree name (showTotal format totals)) := by
  unfold showTreeTotal?
  cases hfind : page.findTree? name with
  | none => rw [Page.updateTree_of_findTree?_none hfind]
  | some tree =>
    have hpage : (page.updateTree name fun t => { t with total := tree.total.map fun _ => totals.sinks format }) =
        page.updateTree name (showTotal format totals) := by
      apply Page.updateTree_congr
      intro t ht
      obtain rfl : tree = t := Option.some.inj (hfind.symm.trans ht)
      rfl
    simp only [h.shownIn?_eq, Option.bind_eq_bind, Option.bind_some, hpage]
    rfl

theorem renderTree?_eq (options : Options) (page : Page) (grand : Totals) (name : String) :
    renderTree? options page grand name = some (renderTree options page grand name) := by
  have htotal := unsigned_headD_aggregate options page grand name
  unfold renderTree? renderTree
  simp only [aggregate?_eq, Option.bind_eq_bind, Option.bind_some, showTreeTotal?_eq htotal]
  rfl

theorem renderTrees?_eq (options : Options) (page : Page) (grand : Totals) (names : List String) :
    renderTrees? options page grand names = some (renderTrees options page grand names) := by
  induction names generalizing page grand with
  | nil => rfl
  | cons name names ih =>
    rw [renderTrees?, renderTree?_eq, Option.bind_eq_bind, Option.bind_some, ih]
    rfl

theorem unsigned_headD_renderTrees (options : Options) (page : Page) (names : List String) :
    ((renderTrees options page .zero names).line.headD .zero).Unsigned := by
  rw [renderTrees_eq]
  apply Verdict.unsigned_afterAll _ Totals.unsigned_zero
  intro own hown
  obtain ⟨s, hs, hown⟩ := List.mem_flatMap.1 hown
  exact unsigned_of_mem_stages hs hown

/-- **A pass never stops at a difference** -/
theorem renderPage?_eq (options : Options) (page : Page) (names : List String) :
    renderPage? options page names = some (renderPage options page names) := by
  have hgrand := unsigned_headD_renderTrees options (renumberTrees options.renumber page names) names
  unfold renderPage? renderPage
  simp only [renderTrees?_eq, Option.bind_eq_bind, Option.bind_some, hgrand.shownIn?_eq]
  rfl

end Rollup

/-! ## Accounts -/

namespace Forest

open Rollup

/-- **No difference is missing.** In every forest that operations build from nothing, whatever amounts are posted and
whether or not the postings go through, the debit of each account less its credit has a decimal, so that its totals can
be shown in every format, and a tree rolled up below the account meets no difference without one. Nor does the pass over
any page -/
theorem reachable_differences (f : Forest) (hf : f.Reachable) :
    (∀ j, (f.totalsAt j).balance? = some (f.totalsAt j).balance) ∧
      (∀ j format, (f.totalsAt j).sinks? format = some ((f.totalsAt j).sinks format)) ∧
      (∀ options page j name, aggregate? options page (f.lineTotals j) name =
        some (aggregate options page (f.lineTotals j) name)) ∧
      ∀ options page names, renderPage? options page names = some (renderPage options page names) := by
  have hunsigned : ∀ j, (f.totalsAt j).Unsigned := hf.layered.unsigned
  refine ⟨?_, ?_, ?_, ?_⟩
  · intro j
    exact (hunsigned j).sub?_eq
  · intro j format
    exact (hunsigned j).sinks?_eq format
  · intro options page j name
    exact aggregate?_eq options page (f.lineTotals j) name
  · intro options page names
    exact renderPage?_eq options page names

/-- an account with the largest decimal as its debit, and as its credit the same digits with all places that there are:
the difference has no room for any of these places and is rounded to a whole number -/
def lopsided : Forest :=
  empty.run [.root,
    .post 0 [⟨false, Decimal.capacity - 1, 0, Decimal.capacity_pred_lt, Nat.zero_le _⟩],
    .post 0 [⟨true, Decimal.capacity - 1, Decimal.maxScale, Decimal.capacity_pred_lt, Nat.le_refl _⟩]]

theorem reachable_differences_lopsided :
    lopsided.Reachable ∧
      (lopsided.totalsAt 0).balance? = some ⟨false, 79228162514264337593543950327, 0, by decide, by decide⟩ ∧
      (lopsided.totalsAt 0).sinks? .plain =
        some ⟨"79228162514264337593543950335.00", "7.92", "79228162514264337593543950327.00"⟩ := by
  have hreach : lopsided.Reachable := ⟨_, rfl⟩
  obtain ⟨hbalance, hsinks, -, -⟩ := reachable_differences lopsided hreach
  refine ⟨hreach, ?_, ?_⟩
  · rw [hbalance]
    decide +kernel
  · rw [hsinks]
    decide +kernel

end Forest

end LedgerTotals
