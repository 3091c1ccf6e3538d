/-
Rolling up: the amounts of every category are summed, shown in the category's own sinks, and passed
on to the running totals of its tree and of the page.

`aggregate` does it for one tree and leaves the running totals above the categories to its caller.
`renderPage` renumbers and rolls up all the trees that are named, and shows the total of each and
the grand total. A category whose amounts would overflow a total, or that is rejected for an amount
that is not a number, leaves no trace in any total.
-/
import LedgerTotals.Numbering
import LedgerTotals.Report
import LedgerTotals.Totals

namespace LedgerTotals.Rollup

/-! ## one category -/

def isMalformed (text : String) : Bool :=
  match Amount.ofText text with
  | .ok _ => false
  | .error _ => true

/-- the number that a text counts as; `none` if it rejects its category -/
def counted? (policy : MalformedPolicy) (text : String) : Option Decimal :=
  match Amount.ofText text, policy with
  | .ok a, _ => some a.value
  | .error _, .zero => some .zero
  | .error _, .reject => none

/-- the numbers of a category; `none` if it is rejected -/
def amounts? (policy : MalformedPolicy) (c : Category) : Option (List Decimal) :=
  c.amountTexts.mapM (counted? policy)

/-- an issue for every amount that is not a number -/
def malformedIssues (tree : String) (c : Category) : List Issue :=
  (c.amountTexts.filter isMalformed).map (.malformedAmount tree c.label)

/-- what the journal says of a text that is not an amount -/
def malformedLine? (policy : MalformedPolicy) (label text : String) : Option Entry :=
  match Amount.ofText text, policy with
  | .ok _, _ => none
  | .error e, .zero =>
    some ⟨.warn, "Counting '" ++ text ++ "' in category '" ++ label ++ "' as zero: " ++ e.message⟩
  | .error e, .reject =>
    some ⟨.warn, "Leaving category '" ++ label ++ "' out of the totals because of '" ++ text ++
      "': " ++ e.message⟩

/-- what becomes of a category -/
inductive Outcome where
  /-- an amount is not a number, and the policy is to reject -/
  | rejected
  /-- a total would overflow -/
  | overflow
  /-- `count` amounts are added, `own` is their batch, and `line` is what it makes of the running
  totals above -/
  | added (count : Nat) (own : Totals) (line : List Totals)

/-- the outcome for a category below a line of running totals -/
def outcome (policy : MalformedPolicy) (line : List Totals) (c : Category) : Outcome :=
  match amounts? policy c with
  | none => .rejected
  | some amounts =>
    match Totals.ofBatch? amounts with
    | none => .overflow
    | some own =>
      match Totals.postAll? own line with
      | none => .overflow
      | some line => .added amounts.length own line

/-- some categories after a visit, the running totals above them, what the visit did, and what the
journal says of it -/
structure Walk where
  categories : List Category
  line : List Totals
  report : Report
  journal : List Entry

def visit (options : Options) (tree : String) (line : List Totals) (c : Category) : Walk :=
  let issues := malformedIssues tree c
  let journal := c.amountTexts.filterMap (malformedLine? options.malformed c.label)
  match outcome options.malformed line c with
  | .rejected => ⟨[c], line, .ofIssues issues, journal⟩
  | .overflow =>
    ⟨[c], line, .ofIssues (issues ++ [.overflow tree c.label]),
      journal ++ [⟨.warn, "Leaving category '" ++ c.label ++ "' of the '" ++ tree ++
        "' tree out of the totals: " ++ TotalsOverflow.message ⟨⟩⟩]⟩
  | .added count own line =>
    if c.totals.isSome then
      ⟨[{ c with totals := some (own.sinks options.format) }], line, ⟨0, 1, count, issues⟩, journal⟩
    else
      ⟨[c], line, ⟨0, 0, count, issues ++ [.missingSink (some tree) (some c.label)]⟩,
        journal ++ [⟨.warn, "Category '" ++ c.label ++ "' of the '" ++ tree ++
          "' tree has no totals to render into"⟩]⟩

/-! ## one tree -/

/-- the categories of the tree in their order, each starting from the line the last one left -/
def visitAll (options : Options) (tree : String) : List Totals → List Category → Walk
  | line, [] => ⟨[], line, .empty, []⟩
  | line, c :: cs =>
    let head := visit options tree line c
    let tail := visitAll options tree head.line cs
    ⟨head.categories ++ tail.categories, tail.line, head.report.merge tail.report,
      head.journal ++ tail.journal⟩

/-- a page after a pass, the running totals above it, what the pass did, and what the journal says -/
structure Pass where
  page : Page
  line : List Totals
  report : Report
  journal : List Entry

/-- the categories of the first tree of the name, below a line of running totals -/
def aggregate (options : Options) (page : Page) (line : List Totals) (name : String) : Pass :=
  match page.findTree? name with
  | none =>
    ⟨page, line, .ofIssues [.missingTree name],
      [⟨.debug, "No '" ++ name ++ "' tree to aggregate"⟩]⟩
  | some tree =>
    let walk := visitAll options name line tree.categories
    ⟨page.updateTree name fun t => { t with categories := walk.categories }, walk.line,
      Report.merge ⟨1, 0, 0, []⟩ walk.report, walk.journal⟩

/-! ## the page -/

/-- the tree with totals shown in its sinks, if it has any -/
def showTotal (format : AmountFormat) (totals : Totals) (t : Tree) : Tree :=
  { t with total := t.total.map fun _ => totals.sinks format }

/-- the issue and the journal line for a tree without sinks; nothing if there is no such tree -/
def missingTotal (page : Page) (name : String) : List Issue × List Entry :=
  match page.findTree? name with
  | some tree =>
    if tree.total.isSome then ([], [])
    else ([.missingSink (some name) none],
      [⟨.warn, "The '" ++ name ++ "' tree has no total to render into"⟩])
  | none => ([], [])

/-- one tree with its total, below the grand total -/
def renderTree (options : Options) (page : Page) (grand : Totals) (name : String) : Pass :=
  let pass := aggregate options page [.zero, grand] name
  let (issues, journal) := missingTotal pass.page name
  ⟨pass.page.updateTree name (showTotal options.format (pass.line.headD .zero)),
    pass.line.drop 1, pass.report.merge (.ofIssues issues), pass.journal ++ journal⟩

/-- the trees in the order of their names, each starting from the grand total the last one left -/
def renderTrees (options : Options) : Page → Totals → List String → Pass
  | page, grand, [] => ⟨page, [grand], .empty, []⟩
  | page, grand, name :: names =>
    let head := renderTree options page grand name
    let tail := renderTrees options head.page (head.line.headD .zero) names
    ⟨tail.page, tail.line, head.report.merge tail.report, head.journal ++ tail.journal⟩

def renumberTrees (mode : RenumberMode) (page : Page) (names : List String) : Page :=
  names.foldl (Numbering.renumber mode) page

def renumberEntries (mode : RenumberMode) : Page → List String → List Entry
  | _, [] => []
  | page, name :: names =>
    Numbering.entry page name :: renumberEntries mode (Numbering.renumber mode page name) names

/-- the grand total shown in the sinks of the page, if it has any -/
def showGrandTotal (format : AmountFormat) (totals : Totals) (page : Page) : Page :=
  { page with grandTotal := page.grandTotal.map fun _ => totals.sinks format }

/-- the issue and the journal line for a page without sinks -/
def missingGrandTotal (page : Page) : List Issue × List Entry :=
  if page.grandTotal.isSome then ([], [])
  else ([.missingSink none none], [⟨.warn, "The page has no grand total to render into"⟩])

/-- the page renumbered and rolled up: the trees of the names, each under one grand total -/
def renderPage (options : Options) (page : Page) (names : List String) : Pass :=
  let pass := renderTrees options (renumberTrees options.renumber page names) .zero names
  let grand := pass.line.headD .zero
  let (issues, journal) := missingGrandTotal pass.page
  ⟨showGrandTotal options.format grand pass.page, pass.line,
    pass.report.merge (.ofIssues issues),
    renumberEntries options.renumber page names ++ pass.journal ++ journal ++
      [⟨.debug, "Grand total: " ++ grand.describe false⟩]⟩

end LedgerTotals.Rollup
