/-
What becomes of a category, apart from the running totals above it.

A visit rejects a category, finds that it would overflow a total, or takes its batch into the totals: `verdict` keeps
that and forgets the totals that the outcome carries. Everything a visit does follows from the verdict: which texts it
writes, what it adds to every running total of the line, what it reports, and what the journal says.

- `visit_eq`, `visitAll_eq`: the visit of one category, and of one after the other, in terms of verdicts;
- `renderTree_of_some`: the pass over one tree;
- `verdicts_of_amounts`, `verdicts_of_frames`: verdicts depend on the amounts alone.
-/
import LedgerTotals.Proofs.Page.Overwrite
import LedgerTotals.Proofs.Totals

namespace LedgerTotals

namespace Rollup

/-! ## Verdicts -/

/-- what becomes of a category -/
inductive Verdict where
  /-- an amount is not a number, and the policy is to reject -/
  | rejected
  /-- a total would overflow -/
  | overflow
  /-- its batch comes to these totals, which are added to those above -/
  | taken (own : Totals)
  deriving DecidableEq

namespace Verdict

def ofOutcome : Outcome → Verdict
  | .rejected => rejected
  | .overflow => overflow
  | .added _ own _ => taken own

/-- the texts that are written -/
def shown (format : AmountFormat) : Verdict → Option Sinks
  | taken own => some (own.sinks format)
  | _ => none

/-- running totals above the category after the verdict -/
def after : Verdict → Totals → Totals
  | taken own, t => (own.post? t).getD t
  | _, t => t

def issues (tree : String) (c : Category) : Verdict → List Issue
  | rejected => malformedIssues tree c
  | overflow => malformedIssues tree c ++ [.overflow tree c.label]
  | taken _ => malformedIssues tree c ++ if c.totals.isSome then [] else [.missingSink (some tree) (some c.label)]

def added (c : Category) : Verdict → ℕ
  | taken _ => c.rows.length
  | _ => 0

def rendered (c : Category) : Verdict → ℕ
  | taken _ => if c.totals.isSome then 1 else 0
  | _ => 0

def report (tree : String) (c : Category) (v : Verdict) : Report := ⟨0, v.rendered c, v.added c, v.issues tree c⟩

def journal (policy : MalformedPolicy) (tree : String) (c : Category) (v : Verdict) : List Entry :=
  c.amountTexts.filterMap (malformedLine? policy c.label) ++
    match v with
    | rejected => []
    | overflow => [⟨.warn, "Leaving category '" ++ c.label ++ "' of the '" ++ tree ++
        "' tree out of the totals: " ++ TotalsOverflow.message ⟨⟩⟩]
    | taken _ =>
      if c.totals.isSome then []
      else [⟨.warn, "Category '" ++ c.label ++ "' of the '" ++ tree ++ "' tree has no totals to render into"⟩]

@[simp] theorem report_overwrite (tree : String) (new : Option Sinks) (c : Category) (v : Verdict) :
    v.report tree (c.overwrite new) = v.report tree c := by
  cases v <;> simp [report, rendered, added, issues, malformedIssues]

@[simp] theorem journal_overwrite (policy : MalformedPolicy) (tree : String) (new : Option Sinks) (c : Category)
    (v : Verdict) : v.journal policy tree (c.overwrite new) = v.journal policy tree c := by
  obtain ⟨label, rows, totals⟩ := c
  cases totals <;> cases v <;> rfl

end Verdict

/-- whatever the verdict, every text that is not an amount is reported -/
theorem malformedIssues_subset {tree : String} {c : Category} (v : Verdict) :
    malformedIssues tree c ⊆ v.issues tree c := by
  cases v with
  | rejected => exact List.Subset.refl _
  | overflow => exact List.subset_append_left _ _
  | taken own => exact List.subset_append_left _ _

/-! ## One category -/

/-- what becomes of a category below a line of running totals -/
def verdict (policy : MalformedPolicy) (line : List Totals) (c : Category) : Verdict :=
  .ofOutcome (outcome policy line c)

theorem amounts?_of_frame {c d : Category} (h : c.frame = d.frame) (policy : MalformedPolicy) :
    amounts? policy c = amounts? policy d := by
  rw [amounts?, amounts?, Category.amountTexts_of_frame h]

/-- a verdict depends on the numbers that the texts count as, whatever policy makes them count so -/
theorem verdict_of_amounts {policy policy' : MalformedPolicy} {c d : Category}
    (h : amounts? policy c = amounts? policy' d) (line : List Totals) :
    verdict policy line c = verdict policy' line d := by
  rw [verdict, verdict, outcome, outcome, h]

theorem outcome_eq_added_iff {policy : MalformedPolicy} {line line' : List Totals} {c : Category} {count : ℕ}
    {own : Totals} : outcome policy line c = .added count own line' ↔
      ∃ amounts, amounts? policy c = some amounts ∧ Totals.ofBatch? amounts = some own ∧
        own.postAll? line = some line' ∧ amounts.length = count := by
  rw [outcome]
  cases amounts? policy c with
  | none => simp
  | some amounts =>
    cases hown : Totals.ofBatch? amounts with
    | none => simp [hown]
    | some own' =>
      cases hpost : own'.postAll? line with
      | none =>
        simp only [hown, hpost, reduceCtorEq, Option.some.injEq, exists_eq_left', false_iff]
        rintro ⟨rfl, hp, -⟩
        rw [hpost] at hp
        cases hp
      | some line'' =>
        simp only [hown, hpost, Outcome.added.injEq, Option.some.injEq, exists_eq_left']
        constructor
        · rintro ⟨rfl, rfl, rfl⟩
          exact ⟨rfl, hpost, rfl⟩
        · rintro ⟨rfl, hp, rfl⟩
          exact ⟨rfl, rfl, Option.some.inj (hpost.symm.trans hp)⟩

theorem length_amounts? {policy : MalformedPolicy} {c : Category} {amounts : List Decimal}
    (h : amounts? policy c = some amounts) : amounts.length = c.rows.length := by
  have hlength := (mapM_eq_some_iff.1 h).length_eq
  rw [← hlength, Category.amountTexts, List.length_map]

theorem map_after_of_postAll? {own : Totals} {line line' : List Totals} (h : own.postAll? line = some line') :
    line.map (Verdict.taken own).after = line' := by
  rw [← List.forall₂_eq_eq_eq, List.forall₂_map_left_iff]
  refine (mapM_eq_some_iff.1 h).imp fun t t' ht => ?_
  rw [Verdict.after, ht, Option.getD_some]

/-- what a visit does, in terms of the verdict -/
theorem visit_eq (options : Options) (tree : String) (line : List Totals) (c : Category) :
    visit options tree line c =
      let v := verdict options.malformed line c
      ⟨[c.overwrite (v.shown options.format)], line.map v.after, v.report tree c, v.journal options.malformed tree c⟩ := by
  rw [visit, verdict]
  cases houtcome : outcome options.malformed line c with
  | rejected =>
    have hline : line.map Verdict.rejected.after = line := List.map_id'' (fun _ => rfl) line
    simp [Verdict.ofOutcome, hline, Verdict.shown, Verdict.report, Verdict.rendered, Verdict.added, Verdict.issues,
      Verdict.journal, Report.ofIssues, Report.empty]
  | overflow =>
    have hline : line.map Verdict.overflow.after = line := List.map_id'' (fun _ => rfl) line
    simp [Verdict.ofOutcome, hline, Verdict.shown, Verdict.report, Verdict.rendered, Verdict.added, Verdict.issues,
      Verdict.journal, Report.ofIssues, Report.empty]
  | added count own line' =>
    obtain ⟨amounts, hamounts, -, hpost, rfl⟩ := outcome_eq_added_iff.1 houtcome
    have hline := map_after_of_postAll? hpost
    obtain ⟨label, rows, totals⟩ := c
    cases totals <;>
      simp [Verdict.ofOutcome, hline, length_amounts? hamounts, Verdict.shown, Verdict.report, Verdict.rendered,
        Verdict.added, Verdict.issues, Verdict.journal, Category.overwrite, Sinks.overwrite]

/-! ## One category after the other -/

/-- what becomes of the categories in their order, each below the line that the last one left -/
def verdicts (policy : MalformedPolicy) : List Totals → List Category → List Verdict
  | _, [] => []
  | line, c :: cs =>
    let v := verdict policy line c
    v :: verdicts policy (line.map v.after) cs

/-- running totals after all the verdicts -/
def afterAll (vs : List Verdict) (t : Totals) : Totals := vs.foldl (fun t v => v.after t) t

@[simp] theorem afterAll_nil : afterAll [] = id := rfl

@[simp] theorem afterAll_cons (v : Verdict) (vs : List Verdict) : afterAll (v :: vs) = afterAll vs ∘ v.after := rfl

theorem afterAll_append (vs ws : List Verdict) (t : Totals) : afterAll (vs ++ ws) t = afterAll ws (afterAll vs t) :=
  List.foldl_append

def reportAll (tree : String) (cs : List Category) (vs : List Verdict) : Report :=
  (List.zipWith (Verdict.report tree) cs vs).foldr Report.merge .empty

def journalAll (policy : MalformedPolicy) (tree : String) (cs : List Category) (vs : List Verdict) : List Entry :=
  (List.zipWith (Verdict.journal policy tree) cs vs).flatten

@[simp] theorem length_verdicts (policy : MalformedPolicy) (line : List Totals) (cs : List Category) :
    (verdicts policy line cs).length = cs.length := by
  induction cs generalizing line with
  | nil => rfl
  | cons c cs ih => simp [verdicts, ih]

/-- each verdict is that on the category at its position, below some running totals -/
theorem exists_line_of_getElem?_verdicts {policy : MalformedPolicy} {line : List Totals} {cs : List Category} {k : ℕ}
    {c : Category} {v : Verdict} (hc : cs[k]? = some c) (hv : (verdicts policy line cs)[k]? = some v) :
    ∃ line', v = verdict policy line' c := by
  induction cs generalizing line k with
  | nil => simp at hc
  | cons d cs ih =>
    cases k with
    | succ k => exact ih hc hv
    | zero =>
      obtain rfl : d = c := Option.some.inj hc
      exact ⟨line, (Option.some.inj hv).symm⟩

/-- verdicts depend on the numbers that the texts count as -/
theorem verdicts_of_amounts {policy policy' : MalformedPolicy} {cs ds : List Category}
    (h : cs.map (amounts? policy) = ds.map (amounts? policy')) (line : List Totals) :
    verdicts policy line cs = verdicts policy' line ds := by
  induction cs generalizing ds line with
  | nil =>
    obtain rfl : ds = [] := List.map_eq_nil_iff.1 h.symm
    rfl
  | cons c cs ih =>
    obtain ⟨d, ds, rfl, hd, hds⟩ := List.map_eq_cons_iff.1 h.symm
    simp only [verdicts, verdict_of_amounts hd.symm, ih hds.symm]

/-- verdicts depend on the rows alone -/
theorem verdicts_of_frames {cs ds : List Category} (h : cs.map Category.frame = ds.map Category.frame)
    (policy : MalformedPolicy) (line : List Totals) : verdicts policy line cs = verdicts policy line ds :=
  verdicts_of_amounts (map_of_frames (fun _ _ hframe => amounts?_of_frame hframe policy) h) line

theorem verdicts_append (policy : MalformedPolicy) (line : List Totals) (cs ds : List Category) :
    verdicts policy line (cs ++ ds) =
      verdicts policy line cs ++ verdicts policy (line.map (afterAll (verdicts policy line cs))) ds := by
  induction cs generalizing line with
  | nil => simp [verdicts]
  | cons c cs ih => simp [verdicts, ih]

/-- what the visits of the categories do, in terms of the verdicts -/
theorem visitAll_eq (options : Options) (tree : String) (line : List Totals) (cs : List Category) :
    visitAll options tree line cs =
      let vs := verdicts options.malformed line cs
      ⟨Category.overwriteAll (vs.map (Verdict.shown options.format)) cs, line.map (afterAll vs),
        reportAll tree cs vs, journalAll options.malformed tree cs vs⟩ := by
  induction cs generalizing line with
  | nil => simp [visitAll, verdicts, reportAll, journalAll]
  | cons c cs ih => simp [visitAll, visit_eq, ih, verdicts, Category.overwriteAll, reportAll, journalAll]

/-! ## One tree -/

/-- the new texts for a tree whose categories get the verdicts -/
def treeTexts (format : AmountFormat) (vs : List Verdict) : TreeTexts :=
  ⟨some ((afterAll vs .zero).sinks format), vs.map (Verdict.shown format)⟩

def treeReport (t : Tree) (vs : List Verdict) : Report :=
  (Report.merge ⟨1, 0, 0, []⟩ (reportAll t.name t.categories vs)).merge
    (.ofIssues (if t.total.isSome then [] else [.missingSink (some t.name) none]))

def treeJournal (policy : MalformedPolicy) (t : Tree) (vs : List Verdict) : List Entry :=
  journalAll policy t.name t.categories vs ++
    if t.total.isSome then [] else [⟨.warn, "The '" ++ t.name ++ "' tree has no total to render into"⟩]

theorem renderTree_of_none (options : Options) {page : Page} (grand : Totals) {name : String}
    (h : page.findTree? name = none) :
    renderTree options page grand name =
      ⟨page, [grand], .ofIssues [.missingTree name], [⟨.debug, "No '" ++ name ++ "' tree to aggregate"⟩]⟩ := by
  simp [renderTree, aggregate, missingTotal, h, Page.updateTree_of_findTree?_none h, Report.merge, Report.ofIssues,
    Report.empty]

/-- what a pass over one tree does, in terms of the verdicts on its categories -/
theorem renderTree_of_some (options : Options) {page : Page} (grand : Totals) {name : String} {t : Tree}
    (h : page.findTree? name = some t) :
    renderTree options page grand name =
      let vs := verdicts options.malformed [.zero, grand] t.categories
      ⟨page.overwrite (name, treeTexts options.format vs), [afterAll vs grand], treeReport t vs,
        treeJournal options.malformed t vs⟩ := by
  have hname : t.name = name := by simpa using List.find?_some h
  have hfind : ∀ cs : List Category, (page.updateTree name fun u => { u with categories := cs }).findTree? name =
      some { t with categories := cs } := fun cs =>
    (Page.findTree?_updateTree_self (f := fun u => { u with categories := cs }) (fun _ => rfl) page name).trans
      (congrArg _ h)
  have hpage : ∀ (cs : List Category) (totals : Totals),
      (page.updateTree name fun u => { u with categories := cs }).updateTree name (showTotal options.format totals) =
        page.updateTree name fun u => showTotal options.format totals { u with categories := cs } :=
    fun cs _ => Page.updateTree_updateTree (f := fun u => { u with categories := cs }) (fun _ => rfl) page name
  simp only [renderTree, aggregate, h, visitAll_eq, hpage, missingTotal, hfind, List.map_cons, List.map_nil,
    List.headD_cons, List.drop_one, List.tail_cons, Pass.mk.injEq, true_and]
  refine ⟨?_, ?_⟩
  · refine Page.updateTree_congr fun u hu => ?_
    obtain rfl : t = u := Option.some.inj (h.symm.trans hu)
    rfl
  · subst hname
    cases ht : t.total <;> simp [ht, treeReport, treeJournal]

end Rollup

end LedgerTotals
