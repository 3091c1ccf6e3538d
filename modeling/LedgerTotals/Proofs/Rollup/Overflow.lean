/-
Why a category overflows.

A category is tested against the total of its tree and against the grand total. The total of the tree never decides: a
category is reported to overflow exactly if a sum of its own amounts is out of range, or one of them with the grand
total that the categories before it leave (`refusals`). It is the same with accounts in a forest of any depth, where the
root decides.

- `verdict_eq_overflow_iff`: the verdict on one category below the grand total;
- `overflows_renderPage`: the overflow issues of a rendered page;
- `overflow_at_root`: accounts and pages together.
-/
import LedgerTotals.Proofs.Forest.Root
import LedgerTotals.Proofs.Rollup.Reference

namespace LedgerTotals

open Totals

def Issue.isOverflow : Issue → Bool
  | .overflow .. => true
  | _ => false

namespace Rollup

/-! ## The grand total by itself -/

/-- the grand total behind a category: with its sums, unless a text rejects it or a sum is out of range -/
def withCategory (policy : MalformedPolicy) (grand : Totals) (c : Category) : Totals :=
  ((own? policy c.amountTexts).bind fun own => own.post? grand).getD grand

/-- no text rejects the category, but a sum of its amounts is out of range, by itself or with the grand total -/
def Refused (policy : MalformedPolicy) (grand : Totals) (c : Category) : Prop :=
  ¬ c.Rejected policy ∧ TooLarge c.decimals grand

instance (policy : MalformedPolicy) (grand : Totals) (c : Category) : Decidable (Refused policy grand c) :=
  inferInstanceAs (Decidable (_ ∧ _))

/-- the categories that are refused, each by the grand total that those before it leave -/
def refusals (policy : MalformedPolicy) : Totals → List (String × Category) → List (String × Category)
  | _, [] => []
  | grand, x :: xs =>
    (if Refused policy grand x.2 then [x] else []) ++ refusals policy (withCategory policy grand x.2) xs

/-! ## Verdicts below the grand total -/

theorem verdict_eq_overflow_iff {policy : MalformedPolicy} {grand : Totals} {c : Category} :
    verdict policy [grand] c = .overflow ↔ Refused policy grand c := by
  by_cases hrejected : c.Rejected policy
  · simp [Refused, verdict_eq_rejected_iff.2 hrejected, hrejected]
  · have hamounts : amounts? policy c = some c.decimals := by rw [amounts?_eq, if_neg hrejected]
    rw [Refused, and_iff_right hrejected, verdict_eq, hamounts, ← not_iff_not, not_tooLarge_iff]
    cases hown : ofBatch? c.decimals with
    | none => simp [hown]
    | some own => cases hpost : own.post? grand <;> simp [hown, hpost, isSome_postAll?_singleton]

theorem after_verdict (policy : MalformedPolicy) (grand : Totals) (c : Category) :
    (verdict policy [grand] c).after grand = withCategory policy grand c := by
  rw [withCategory]
  cases hv : verdict policy [grand] c with
  | rejected =>
    have hnone : own? policy c.amountTexts = none := Option.eq_none_iff_forall_ne_some.2 fun own hown =>
      (own?_eq_some_iff.1 hown).1 (verdict_eq_rejected_iff.1 hv)
    rw [hnone]
    rfl
  | overflow =>
    obtain ⟨-, hlarge⟩ := verdict_eq_overflow_iff.1 hv
    cases hown : own? policy c.amountTexts with
    | none => rfl
    | some own =>
      have hpost : own.post? grand = none := by
        rw [← Option.not_isSome_iff_eq_none, ← not_tooLarge_iff_of_batch (own?_eq_some_iff.1 hown).2, not_not]
        exact hlarge
      rw [Option.bind_some, hpost]
      rfl
  | taken own =>
    rw [own?_eq_some_iff.2 (sums_of_verdict hv)]
    rfl

theorem afterAll_verdicts (policy : MalformedPolicy) (grand : Totals) (cs : List Category) :
    afterAll (verdicts policy [grand] cs) grand = cs.foldl (withCategory policy) grand := by
  induction cs generalizing grand with
  | nil => rfl
  | cons c cs ih => simp [verdicts, after_verdict, ih]

/-! ## Sites in sequence -/

theorem placed_singleton (page : Page) (name : String) :
    page.placed [name] = (page.sequence [name]).map (Prod.mk name) := by
  cases hfind : page.findTree? name with
  | none => simp [Page.placed, Page.sequence, Page.namedTrees, hfind]
  | some t =>
    obtain rfl : t.name = name := by simpa using List.find?_some hfind
    rw [Page.placed_of_some hfind, Page.sequence_of_some hfind]

/-- the sites of a pass are the categories in their sequence, with the verdicts of the grand total by itself -/
theorem sites_stages (policy : MalformedPolicy) (page : Page) {grand : Totals} (hgrand : grand.Unsigned)
    (names : List String) : (stages policy page grand names).flatMap (Stage.sites page) =
      List.zipWith (fun x v => ⟨x.1, x.2, v⟩) (page.placed names) (verdicts policy [grand] (page.sequence names)) := by
  induction names generalizing grand with
  | nil => rfl
  | cons name names ih =>
    have hhead := verdicts_pair policy unsigned_zero hgrand.zero_atMost (page.sequence [name])
    have hlength : (page.placed [name]).length = (verdicts policy [grand] (page.sequence [name])).length := by
      rw [placed_singleton, List.length_map, length_verdicts]
    rw [page.placed_cons name names, page.sequence_cons name names, verdicts_append, List.zipWith_append hlength]
    simp only [stages, List.flatMap_cons, hhead, ih (unsigned_afterAll policy hgrand _), List.map_cons, List.map_nil]
    rw [Stage.sites, placed_singleton, List.zipWith_map_left]

/-- a site has an overflow issue exactly if its verdict says so -/
theorem Site.filter_isOverflow_issues (x : Site) : x.issues.filter Issue.isOverflow =
    if x.verdict = .overflow then [.overflow x.tree x.category.label] else [] := by
  obtain ⟨tree, c, v⟩ := x
  have hmalformed : (malformedIssues tree c).filter Issue.isOverflow = [] := by
    simp [malformedIssues, List.filter_map, Function.comp_def, Issue.isOverflow]
  cases v with
  | rejected => simp [issues, Verdict.issues, hmalformed]
  | overflow => simp [issues, Verdict.issues, hmalformed, Issue.isOverflow]
  | taken own => cases h : c.totals.isSome <;> simp [issues, Verdict.issues, hmalformed, h, Issue.isOverflow]

theorem filter_isOverflow_sites (policy : MalformedPolicy) (grand : Totals) (xs : List (String × Category)) :
    ((List.zipWith (fun x v => Site.mk x.1 x.2 v) xs (verdicts policy [grand] (xs.map Prod.snd))).flatMap
      Site.issues).filter Issue.isOverflow =
        (refusals policy grand xs).map fun x => .overflow x.1 x.2.label := by
  induction xs generalizing grand with
  | nil => rfl
  | cons x xs ih =>
    simp only [List.map_cons, verdicts, List.zipWith_cons_cons, List.flatMap_cons, List.filter_append,
      Site.filter_isOverflow_issues, List.map_nil, after_verdict, ih, verdict_eq_overflow_iff, refusals,
      List.map_append]
    split_ifs <;> rfl

/-! ## The page -/

/-- **The overflow issues of a rendered page** are those of the categories that the grand total refuses -/
theorem overflows_renderPage (options : Options) (page : Page) (names : List String) :
    (renderPage options page names).report.issues.filter Issue.isOverflow =
      (refusals options.malformed .zero ((renumberTrees options.renumber page names).placed names)).map
        fun x => .overflow x.1 x.2.label := by
  have hreported := (reported_renderPage options page names).issues
  have hstages := stages_of_frame (frame_renumberTrees options.renumber page names) options.malformed .zero names
  have hoverflow : ∀ i : Issue, i.isOverflow = (i.isOverflow && i.isOfCategory) := by
    intro i
    cases i <;> rfl
  rw [List.filter_congr fun i _ => hoverflow i, ← List.filter_filter, hreported, pageSites, pageStages, ← hstages,
    sites_stages options.malformed _ unsigned_zero, ← Page.map_snd_placed, filter_isOverflow_sites]

/-- the running total that a pass ends with is the one that `refusals` keeps -/
theorem line_renderPage (options : Options) (page : Page) (names : List String) :
    (renderPage options page names).line = [(page.sequence names).foldl (withCategory options.malformed) .zero] := by
  obtain ⟨-, hline, -⟩ := renderPage_eq options page names
  rw [hline, pageStages, allVerdicts_stages options.malformed page unsigned_zero, afterAll_verdicts]

/-! ## Main result -/

/-- **Overflow is decided at the root.** In a reachable forest every account has one root. Posting to the account stops
exactly if a sum of the batch is out of range, by itself or with a total of that root, and then no account on the way
decides anything: what is too large for one of them is too large for the root. On a page the grand total is the root:
the categories that are reported to overflow are those whose sums are out of range, by themselves or with the grand
total that the categories before them leave, which is the one that the pass ends with. -/
theorem overflow_at_root :
    (∀ f : Forest, f.Reachable →
      (∀ i < f.accounts.length, ∃! r, f.AtOrAbove i r ∧ f.IsRoot r) ∧
      ∀ i r, f.AtOrAbove i r → f.IsRoot r → ∀ amounts,
        ((f.posted i amounts).1 = .error ⟨⟩ ↔ TooLarge amounts (f.totalsAt r)) ∧
        ∀ j, f.AtOrAbove i j → TooLarge amounts (f.totalsAt j) → TooLarge amounts (f.totalsAt r)) ∧
    ∀ (options : Options) (page : Page) (names : List String),
      let out := renderPage options page names
      out.report.issues.filter Issue.isOverflow =
        (refusals options.malformed .zero ((renumberTrees options.renumber page names).placed names)).map
          (fun x => .overflow x.1 x.2.label) ∧
      out.line = [(page.sequence names).foldl (withCategory options.malformed) .zero] := by
  refine ⟨fun f hf => ⟨fun i hi => hf.wellFormed.existsUnique_root hi, fun i r hr hroot amounts => ⟨?_, ?_⟩⟩, ?_⟩
  · exact Forest.posted_eq_error_iff hf.layered hr hroot
  · intro j hj hlarge
    exact Forest.tooLarge_root hf.layered hr hroot hj hlarge
  · intro options page names
    exact ⟨overflows_renderPage options page names, line_renderPage options page names⟩

/-- an account two levels below the root, which another account has filled -/
def towering : Forest :=
  Forest.empty.run [.root, .child 0, .child 1, .child 0,
    .post 3 [⟨false, Decimal.capacity - 1, 0, Decimal.capacity_pred_lt, Nat.zero_le _⟩]]

/-- the accounts on the way could take the batch, and the root stops it; on the page a category of five stops at the
grand total, though the tree that it is in has no more than seven -/
theorem overflow_at_root_towering :
    let one : List Decimal := [⟨false, 1, 0, by decide, Nat.zero_le _⟩]
    let out := renderPage ⟨.replace, .reject, .plain⟩ (cutAt 1) [importedName, assignedName]
    towering.Reachable ∧ towering.AtOrAbove 2 0 ∧ towering.IsRoot 0 ∧
      ¬ TooLarge one (towering.totalsAt 2) ∧ ¬ TooLarge one (towering.totalsAt 1) ∧
      TooLarge one (towering.totalsAt 0) ∧ (towering.posted 2 one).1 = .error ⟨⟩ ∧
      out.report.issues.filter Issue.isOverflow = [.overflow assignedName "2.Refunds"] := by
  intro one out
  have hreach : towering.Reachable := ⟨_, rfl⟩
  have habove : towering.AtOrAbove 2 0 := hreach.wellFormed.mem_line_iff.1 (by decide +kernel)
  have hroot : towering.IsRoot 0 := by decide +kernel
  have hlarge : TooLarge one (towering.totalsAt 0) := by decide +kernel
  have hstop : (towering.posted 2 one).1 = .error ⟨⟩ :=
    (((overflow_at_root.1 towering hreach).2 2 0 habove hroot one).1).2 hlarge
  refine ⟨hreach, habove, hroot, by decide +kernel, by decide +kernel, hlarge, hstop, ?_⟩
  refine (overflow_at_root.2 ⟨.replace, .reject, .plain⟩ (cutAt 1) [importedName, assignedName]).1.trans ?_
  decide +kernel

end Rollup

end LedgerTotals
