/-
A pass over a page as a history of postings.

A tree can be rolled up below any account of a forest (`aggregateInto`), and its total and the grand total can be shown
from an account each. What a category adds to a line of accounts is then a posting like any other: it goes through
exactly if the category is taken, and changes each account as the verdict changes a running total (`posted_eq_verdict`).
So the forest that the categories leave behind is the one after their postings, in order (`aggregateInto_eq`).

`keepBooks` puts a page together from these pieces, with an account for the page and one below it for every name. It
comes to the same as `renderPage` (`renderPage_books`), so whatever holds of all accounts that operations can build
holds of the totals of a page (`reachable_keepBooks`).
-/
import LedgerTotals.Proofs.Forest.Posting
import LedgerTotals.Proofs.Rollup.Stages
import LedgerTotals.Rollup.Accounts

namespace LedgerTotals

/-! ## The totals of a line, all changed alike -/

namespace Forest

/-- the accounts of a line with their totals changed by one function -/
def onLine (f : Forest) (i : ℕ) (g : Totals → Totals) : Forest := f.setTotals (f.line i) ((f.lineTotals i).map g)

variable {f : Forest} {i : ℕ}

theorem account?_onLine (f : Forest) (i : ℕ) (g : Totals → Totals) (j : ℕ) :
    (f.onLine i g).account? j =
      (f.account? j).map fun a => { a with totals := if j ∈ f.line i then g a.totals else a.totals } := by
  have hline : List.Forall₂ (fun k t => t = g (f.totalsAt k)) (f.line i) ((f.lineTotals i).map g) := by
    rw [lineTotals, List.map_map, List.forall₂_map_right_iff, List.forall₂_same]
    intro k _
    rfl
  rw [onLine, account?_setTotals]
  cases haccount : f.account? j with
  | none => rfl
  | some a =>
    by_cases hj : j ∈ f.line i
    · obtain ⟨t, hlookup, rfl⟩ := lookup_zip_of_forall₂ hline hj
      simp [hlookup, hj, totalsAt_of_account? haccount]
    · simp [lookup_zip_of_not_mem hj, hj]

theorem line_onLine (f : Forest) (i : ℕ) (g : Totals → Totals) (j : ℕ) : (f.onLine i g).line j = f.line j :=
  line_setTotals ..

theorem onLine_id (f : Forest) (i : ℕ) : f.onLine i id = f := by
  apply ext_account?
  intro j
  simp [account?_onLine]

theorem onLine_onLine (f : Forest) (i : ℕ) (g h : Totals → Totals) : (f.onLine i g).onLine i h = f.onLine i (h ∘ g) := by
  apply ext_account?
  intro j
  rw [account?_onLine, account?_onLine, account?_onLine, line_onLine, Option.map_map]
  congr 1
  funext a
  by_cases hj : j ∈ f.line i <;> simp [hj]

theorem WellFormed.onLine (hf : WellFormed f) (i : ℕ) (g : Totals → Totals) : WellFormed (f.onLine i g) :=
  hf.setTotals _ _

theorem WellFormed.totalsAt_onLine (hf : WellFormed f) (g : Totals → Totals) {j : ℕ} (hj : j ∈ f.line i) :
    (f.onLine i g).totalsAt j = g (f.totalsAt j) := by
  obtain ⟨a, ha⟩ := account?_isSome (hf.line_lt hj)
  have hnew : (f.onLine i g).account? j = some { a with totals := g a.totals } := by
    rw [account?_onLine, ha, Option.map_some, if_pos hj]
  rw [totalsAt_of_account? hnew, totalsAt_of_account? ha]

theorem WellFormed.lineTotals_onLine (hf : WellFormed f) (i : ℕ) (g : Totals → Totals) :
    (f.onLine i g).lineTotals i = (f.lineTotals i).map g := by
  rw [lineTotals, lineTotals, line_onLine, List.map_map]
  apply List.map_congr_left
  intro j hj
  exact hf.totalsAt_onLine g hj

theorem run_append (f : Forest) (steps steps' : List Step) : f.run (steps ++ steps') = (f.run steps).run steps' :=
  List.foldl_append

end Forest

namespace Rollup

open Forest

/-! ## One tree below an account -/

/-- the postings of categories to an account; one that is rejected has none -/
def posts (policy : MalformedPolicy) (i : ℕ) (cs : List Category) : List Step :=
  cs.filterMap fun c => (amounts? policy c).map (.post i)

variable {policy : MalformedPolicy} {f : Forest}

/-- the posting of a category goes through exactly if the category is taken -/
theorem posted_eq_verdict {c : Category} {amounts : List Decimal} (h : amounts? policy c = some amounts) (f : Forest)
    (i : ℕ) : f.posted i amounts =
      match verdict policy (f.lineTotals i) c with
      | .taken own => (.ok (), f.onLine i (Verdict.taken own).after)
      | _ => (.error ⟨⟩, f) := by
  rw [posted_eq, verdict_eq, h]
  cases hbatch : Totals.ofBatch? amounts with
  | none => simp [hbatch]
  | some own =>
    cases hline : own.postAll? (f.lineTotals i) with
    | none => simp [hbatch, hline]
    | some totals => simp [hbatch, hline, onLine, map_after_of_postAll? hline]

/-- what one category does to the line of an account -/
theorem run_posts_singleton (policy : MalformedPolicy) (f : Forest) (i : ℕ) (c : Category) :
    f.run (posts policy i [c]) = f.onLine i (verdict policy (f.lineTotals i) c).after := by
  cases hamounts : amounts? policy c with
  | none =>
    have hrejected : verdict policy (f.lineTotals i) c = .rejected := by rw [verdict_eq, hamounts]
    rw [hrejected]
    have hnone : posts policy i [c] = [] := by simp [posts, hamounts]
    rw [hnone]
    exact (f.onLine_id i).symm
  | some amounts =>
    have hposted := posted_eq_verdict hamounts f i
    have hrun : f.run (posts policy i [c]) = (f.posted i amounts).2 := by simp [posts, hamounts, run, step]
    rw [hrun, hposted]
    cases verdict policy (f.lineTotals i) c with
    | rejected => exact (f.onLine_id i).symm
    | overflow => exact (f.onLine_id i).symm
    | taken own => rfl

/-- what all categories do to it, one after the other -/
theorem run_posts (hf : WellFormed f) (policy : MalformedPolicy) (i : ℕ) (cs : List Category) :
    f.run (posts policy i cs) = f.onLine i (afterAll (verdicts policy (f.lineTotals i) cs)) := by
  induction cs generalizing f with
  | nil => exact (f.onLine_id i).symm
  | cons c cs ih =>
    have hposts : posts policy i (c :: cs) = posts policy i [c] ++ posts policy i cs := by
      rw [← List.singleton_append, posts, List.filterMap_append]
      rfl
    -- the other categories find the line as the first one leaves it
    rw [hposts, run_append, run_posts_singleton, ih (hf.onLine i _), hf.lineTotals_onLine, onLine_onLine]
    rfl

theorem line_aggregate (options : Options) (page : Page) (line : List Totals) (name : String) :
    (aggregate options page line name).line =
      line.map (afterAll (verdicts options.malformed line (page.sequence [name]))) := by
  rw [aggregate]
  cases hfind : page.findTree? name with
  | none => simp [Page.sequence, Page.namedTrees, hfind, verdicts]
  | some t => simp [Page.sequence_of_some hfind, visitAll_eq]

/-- **A tree below an account.** Rolling up the first tree of a name below an account gives the pass over the running
totals of its line, and the forest after the postings of the categories to that account, in order -/
theorem aggregateInto_eq (hf : WellFormed f) (options : Options) (page : Page) (i : ℕ) (name : String) :
    aggregateInto options page f i name =
      (aggregate options page (f.lineTotals i) name, f.run (posts options.malformed i (page.sequence [name]))) := by
  rw [run_posts hf, onLine, ← line_aggregate]
  rfl

/-! ## Totals shown from accounts -/

/-- what is reported where a total was to be shown -/
def Shown.issues (tree : Option String) : Shown → List Issue
  | noSinks => [.missingSink tree none]
  | _ => []

theorem showTreeTotal_page (format : AmountFormat) (totals : Totals) (page : Page) (name : String) :
    (showTreeTotal format totals page name).1 = page.updateTree name (showTotal format totals) := by
  rw [showTreeTotal]
  cases hfind : page.findTree? name with
  | none => exact (Page.updateTree_of_findTree?_none hfind).symm
  | some t => rfl

theorem showTreeTotal_issues (format : AmountFormat) (totals : Totals) (page : Page) (name : String) :
    (showTreeTotal format totals page name).2.issues (some name) = (missingTotal page name).1 := by
  rw [showTreeTotal, missingTotal]
  cases page.findTree? name with
  | none => rfl
  | some t => cases h : t.total <;> simp [h, Shown.issues]

theorem showPageTotal_issues (format : AmountFormat) (totals : Totals) (page : Page) :
    (showPageTotal format totals page).2.issues none = (missingGrandTotal page).1 := by
  cases h : page.grandTotal <;> simp [showPageTotal, missingGrandTotal, h, Shown.issues]

/-! ## The page, piece by piece -/

/-- a page with the accounts that were opened for it, and what is reported of it -/
structure Books where
  page : Page
  forest : Forest
  report : Report

/-- the first tree of the name rolled up below a new account under account 0, and shown from there -/
def enter (options : Options) (page : Page) (f : Forest) (name : String) : Books :=
  let own := f.accounts.length
  let (pass, after) := aggregateInto options page (f.addChild 0) own name
  let (page, seen) := showTreeTotal options.format (after.totalsAt own) pass.page name
  ⟨page, after, pass.report.merge (.ofIssues (seen.issues (some name)))⟩

def enterAll (options : Options) : Page → Forest → List String → Books
  | page, f, [] => ⟨page, f, .empty⟩
  | page, f, name :: names =>
    let head := enter options page f name
    let tail := enterAll options head.page head.forest names
    ⟨tail.page, tail.forest, head.report.merge tail.report⟩

/-- the page renumbered, all named trees entered under one account, and that account shown as the grand total -/
def keepBooks (options : Options) (page : Page) (names : List String) : Books :=
  let books := enterAll options (renumberTrees options.renumber page names) Forest.empty.addRoot names
  let (page, seen) := showPageTotal options.format (books.forest.totalsAt 0) books.page
  ⟨page, books.forest, books.report.merge (.ofIssues (seen.issues none))⟩

/-- an account for each name, from account `i` on, and the postings of the categories under it -/
def history (policy : MalformedPolicy) (page : Page) : ℕ → List String → List Step
  | _, [] => []
  | i, name :: names => .child 0 :: posts policy i (page.sequence [name]) ++ history policy page (i + 1) names

/-- postings depend on the amounts alone -/
theorem posts_of_frames {cs ds : List Category} (h : cs.map Category.frame = ds.map Category.frame)
    (policy : MalformedPolicy) (i : ℕ) : posts policy i cs = posts policy i ds := by
  have hamounts : cs.map (amounts? policy) = ds.map (amounts? policy) := by
    apply map_of_frames _ h
    intro c d hframe
    exact amounts?_of_frame hframe policy
  have hposts : ∀ es : List Category,
      posts policy i es = (es.map (amounts? policy)).filterMap fun amounts => amounts.map (.post i) := by
    intro es
    rw [posts, List.filterMap_map]
    rfl
  rw [hposts, hposts, hamounts]

theorem history_of_frame {p q : Page} (h : p.frame = q.frame) (policy : MalformedPolicy) (i : ℕ) (names : List String) :
    history policy p i names = history policy q i names := by
  induction names generalizing i with
  | nil => rfl
  | cons name names ih => rw [history, history, ih, posts_of_frames (Page.frames_sequence h [name])]

/-- account 0 is there, and nothing stands above it -/
structure Rooted (f : Forest) : Prop where
  wellFormed : WellFormed f
  line : f.line 0 = [0]

theorem rooted_addRoot : Rooted Forest.empty.addRoot := ⟨wellFormed_empty.step .root, rfl⟩

theorem Rooted.pos (hf : Rooted f) : 0 < f.accounts.length := by
  by_contra h
  have hnone : f.line 0 = [] := line_eq_nil (not_lt.1 h)
  rw [hf.line] at hnone
  cases hnone

theorem Rooted.addChild (hf : Rooted f) : Rooted (f.addChild 0) :=
  ⟨hf.wellFormed.step (.child 0), (line_append _ hf.pos).trans hf.line⟩

theorem Rooted.onLine (hf : Rooted f) (i : ℕ) (g : Totals → Totals) : Rooted (f.onLine i g) :=
  ⟨hf.wellFormed.onLine i g, (f.line_onLine i g 0).trans hf.line⟩

/-- a new account under account 0 has a line of two, on which it has nothing, and account 0 all that it had -/
theorem Rooted.line_addChild (hf : Rooted f) :
    (f.addChild 0).line f.accounts.length = [f.accounts.length, 0] ∧
      (f.addChild 0).totalsAt f.accounts.length = .zero ∧ (f.addChild 0).totalsAt 0 = f.totalsAt 0 := by
  have hnew : (f.addChild 0).account? f.accounts.length = some ⟨.zero, [0]⟩ := by
    simp [account?, Forest.addChild, hf.line]
  exact ⟨line_of_account? hnew, totalsAt_of_account? hnew, totalsAt_append _ hf.pos⟩

theorem Rooted.lineTotals_addChild (hf : Rooted f) :
    (f.addChild 0).lineTotals f.accounts.length = [.zero, f.totalsAt 0] := by
  obtain ⟨hline, hnew, hfirst⟩ := hf.line_addChild
  simp [lineTotals, hline, hnew, hfirst]

/-- a change of that line changes the totals of both accounts -/
theorem Rooted.totalsAt_onLine (hf : Rooted f) (g : Totals → Totals) :
    ((f.addChild 0).onLine f.accounts.length g).totalsAt f.accounts.length = g .zero ∧
      ((f.addChild 0).onLine f.accounts.length g).totalsAt 0 = g (f.totalsAt 0) := by
  obtain ⟨hline, hnew, hfirst⟩ := hf.line_addChild
  have hon : ∀ j ∈ (f.addChild 0).line f.accounts.length,
      ((f.addChild 0).onLine f.accounts.length g).totalsAt j = g ((f.addChild 0).totalsAt j) := by
    intro j hj
    exact hf.addChild.wellFormed.totalsAt_onLine g hj
  rw [hline] at hon
  exact ⟨(hon _ (by simp)).trans (congrArg g hnew), (hon _ (by simp)).trans (congrArg g hfirst)⟩

/-- a tree entered under account 0 is rendered below the totals of that account, and leaves it with the new ones -/
theorem enter_eq (hf : Rooted f) (options : Options) (page : Page) (name : String) :
    let books := enter options page f name
    let pass := renderTree options page (f.totalsAt 0) name
    books.page = pass.page ∧ books.report = pass.report ∧ pass.line = [books.forest.totalsAt 0] ∧ Rooted books.forest ∧
      books.forest.accounts.length = f.accounts.length + 1 ∧
      books.forest = f.run (.child 0 :: posts options.malformed f.accounts.length (page.sequence [name])) := by
  intro books pass
  have hpassed := line_aggregate options page [.zero, f.totalsAt 0] name
  have hinto := aggregateInto_eq hf.addChild.wellFormed options page f.accounts.length name
  have hposted := run_posts hf.addChild.wellFormed options.malformed f.accounts.length (page.sequence [name])
  rw [hf.lineTotals_addChild] at hinto hposted
  -- from here on it does not matter what the verdicts are
  generalize afterAll (verdicts options.malformed [.zero, f.totalsAt 0] (page.sequence [name])) = g at hpassed hposted
  obtain ⟨hown, hfirst⟩ := hf.totalsAt_onLine g
  have hforest : books.forest = (f.addChild 0).onLine f.accounts.length g := by
    simp only [books, enter, hinto, hposted]
  refine ⟨?_, ?_, ?_, ?_, ?_, ?_⟩
  · simp only [books, pass, enter, renderTree, hinto, hposted, hown, showTreeTotal_page, hpassed, List.map_cons,
      List.headD_cons]
  · simp only [books, pass, enter, renderTree, hinto, showTreeTotal_issues]
  · rw [hforest, hfirst]
    simp only [pass, renderTree, hpassed]
    rfl
  · rw [hforest]
    exact hf.addChild.onLine _ g
  · rw [hforest, Forest.onLine, length_setTotals]
    simp [Forest.addChild]
  · rw [hforest, ← hposted]
    rfl

theorem enterAll_eq (hf : Rooted f) (options : Options) (page : Page) (names : List String) :
    let books := enterAll options page f names
    let pass := renderTrees options page (f.totalsAt 0) names
    books.page = pass.page ∧ books.report = pass.report ∧ pass.line = [books.forest.totalsAt 0] ∧
      books.forest = f.run (history options.malformed page f.accounts.length names) := by
  induction names generalizing page f with
  | nil => exact ⟨rfl, rfl, rfl, rfl⟩
  | cons name names ih =>
    obtain ⟨hpage, hreport, hline, hrooted, hlength, hforest⟩ := enter_eq hf options page name
    obtain ⟨hpages, hreports, hlines, hforests⟩ := ih hrooted (enter options page f name).page
    -- what is shown for one name does not change the amounts under the others
    have hframe : (enter options page f name).page.frame = page.frame := by rw [hpage, frame_renderTree]
    have htotal : (renderTree options page (f.totalsAt 0) name).line.headD .zero =
        (enter options page f name).forest.totalsAt 0 := by rw [hline, List.headD_cons]
    simp only [enterAll, renderTrees, htotal, ← hpage, ← hreport]
    refine ⟨hpages, congrArg _ hreports, hlines, ?_⟩
    rw [hforests, history_of_frame hframe, hlength, history, run_append, ← hforest]

/-- **A page and its books.** A page rendered at once, and one put together from trees rolled up below accounts of their
own, come to the same page, report and grand total; the accounts are those of a history that opens one account for the
page and one below it for each name, and posts to it the categories that are not rejected -/
theorem renderPage_books (options : Options) (page : Page) (names : List String) :
    let books := keepBooks options page names
    let pass := renderPage options page names
    books.page = pass.page ∧ books.report = pass.report ∧ pass.line = [books.forest.totalsAt 0] ∧
      books.forest = Forest.empty.run (.root :: history options.malformed page 1 names) := by
  intro books pass
  obtain ⟨hpage, hreport, hline, hforest⟩ :=
    enterAll_eq rooted_addRoot options (renumberTrees options.renumber page names) names
  have hzero : Forest.empty.addRoot.totalsAt 0 = .zero := rfl
  rw [hzero] at hpage hreport hline
  have htotal := congrArg (fun line => line.headD .zero) hline
  rw [List.headD_cons] at htotal
  refine ⟨?_, ?_, hline, ?_⟩
  · simp only [books, pass, keepBooks, renderPage, htotal, ← hpage]
    rfl
  · simp only [books, pass, keepBooks, renderPage, showPageTotal_issues, ← hpage, ← hreport]
  · show (enterAll _ _ _ _).forest = _
    rw [hforest, history_of_frame (frame_renumberTrees options.renumber page names)]
    rfl

/-- the accounts of a page are among those that operations can build -/
theorem reachable_keepBooks (options : Options) (page : Page) (names : List String) :
    (keepBooks options page names).forest.Reachable := by
  obtain ⟨-, -, -, hforest⟩ := renderPage_books options page names
  exact ⟨_, hforest⟩

end Rollup

end LedgerTotals
