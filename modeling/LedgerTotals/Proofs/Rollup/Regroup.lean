/-
Where a page is cut into trees does not matter.

The categories under a list of names form one sequence (`Page.sequence`). A category is tested against the total of its
tree and against the grand total, but the total of a tree starts from nothing and stays at or below the grand total, so
it never refuses what the grand total takes (`verdict_pair`). The verdicts are those of one running total over the whole
sequence, and a cut at another place leaves them as they are.

- `renderTrees_follows`: a pass over the trees of a page follows the verdicts of the sequence;
- `renderPage_regroup`: pages with one sequence, cut into trees in different ways, are rendered alike.
-/
import LedgerTotals.Proofs.Rollup.Pass
import LedgerTotals.Proofs.Rollup.Verdict
import LedgerTotals.Proofs.Totals.Order

namespace LedgerTotals

open Totals

def Issue.isOfCategory : Issue → Bool
  | .malformedAmount .. => true
  | .overflow .. => true
  | .missingSink (some _) (some _) => true
  | _ => false

namespace Page

/-! ## The sequence of categories -/

/-- the categories of the named trees, in the order of the names -/
def sequence (p : Page) (names : List String) : List Category := (p.namedTrees names).flatMap (·.categories)

/-- the categories of the named trees, each with the name of its tree -/
def placed (p : Page) (names : List String) : List (String × Category) :=
  (p.namedTrees names).flatMap fun t => t.categories.map (Prod.mk t.name)

theorem sequence_cons (p : Page) (name : String) (names : List String) :
    p.sequence (name :: names) = p.sequence [name] ++ p.sequence names := by
  rw [sequence, namedTrees_cons, List.flatMap_append]
  rfl

theorem placed_cons (p : Page) (name : String) (names : List String) :
    p.placed (name :: names) = p.placed [name] ++ p.placed names := by
  rw [placed, namedTrees_cons, List.flatMap_append]
  rfl

theorem placed_eq_flatMap (p : Page) (names : List String) :
    p.placed names = names.flatMap fun name => p.placed [name] := by
  induction names with
  | nil => rfl
  | cons name names ih => rw [placed_cons, ih, List.flatMap_cons]

theorem sequence_of_some {p : Page} {name : String} {t : Tree} (h : p.findTree? name = some t) :
    p.sequence [name] = t.categories := by
  simp [sequence, namedTrees, h]

theorem placed_of_some {p : Page} {name : String} {t : Tree} (h : p.findTree? name = some t) :
    p.placed [name] = t.categories.map (Prod.mk t.name) := by
  simp [placed, namedTrees, h]

theorem map_snd_placed (p : Page) (names : List String) : (p.placed names).map Prod.snd = p.sequence names := by
  simp [placed, sequence, List.map_flatMap, Function.comp_def]

theorem map_decimals_sequence (p : Page) (names : List String) :
    (p.sequence names).map Category.decimals = p.batches names := by
  rw [sequence, batches, List.map_flatMap]
  rfl

theorem frames_sequence {p q : Page} (h : p.frame = q.frame) (names : List String) :
    (p.sequence names).map Category.frame = (q.sequence names).map Category.frame := by
  rw [sequence, sequence, List.map_flatMap, List.map_flatMap, List.flatMap_def, List.flatMap_def,
    map_of_frames (fun _ _ => Tree.frames_categories) (namedTrees_of_frame h names)]

theorem namedTrees_congr {p q : Page} {names : List String} (h : ∀ name ∈ names, p.findTree? name = q.findTree? name) :
    p.namedTrees names = q.namedTrees names := List.filterMap_congr h

end Page

namespace Rollup

/-! ## Below the grand total -/

theorem verdict_eq (policy : MalformedPolicy) (line : List Totals) (c : Category) :
    verdict policy line c =
      match amounts? policy c with
      | none => .rejected
      | some amounts =>
        match Totals.ofBatch? amounts with
        | none => .overflow
        | some own => if (own.postAll? line).isSome then .taken own else .overflow := by
  rw [verdict, outcome]
  cases amounts? policy c with
  | none => rfl
  | some amounts =>
    cases hown : Totals.ofBatch? amounts with
    | none => simp [hown, Verdict.ofOutcome]
    | some own => cases hpost : own.postAll? line <;> simp [hown, hpost, Verdict.ofOutcome]

/-- a category is rejected for its own texts alone -/
theorem verdict_eq_rejected_iff {policy : MalformedPolicy} {line : List Totals} {c : Category} :
    verdict policy line c = .rejected ↔ c.Rejected policy := by
  rw [verdict_eq]
  by_cases hrejected : c.Rejected policy
  · have hamounts : amounts? policy c = none := by rw [amounts?_eq, if_pos hrejected]
    simp [hamounts, hrejected]
  · have hamounts : amounts? policy c = some c.decimals := by rw [amounts?_eq, if_neg hrejected]
    simp only [hamounts, hrejected, iff_false]
    split
    · simp
    · split_ifs <;> simp

/-- a category that is taken into the totals comes to the sums of its own amounts -/
theorem sums_of_verdict {policy : MalformedPolicy} {line : List Totals} {c : Category} {own : Totals}
    (h : verdict policy line c = .taken own) : ¬ c.Rejected policy ∧ ofBatch? c.decimals = some own := by
  have hkept : ¬ c.Rejected policy := by
    intro hrejected
    rw [verdict_eq_rejected_iff.2 hrejected] at h
    cases h
  refine ⟨hkept, ?_⟩
  have hamounts : amounts? policy c = some c.decimals := by rw [amounts?_eq, if_neg hkept]
  simp only [verdict_eq, hamounts] at h
  split at h
  · cases h
  · rename_i hown
    split_ifs at h with hpost
    rw [hown, Verdict.taken.inj h]

theorem isSome_postAll?_singleton (own g : Totals) : (own.postAll? [g]).isSome = (own.post? g).isSome := by
  cases h : own.post? g <;> simp [postAll?, h]

theorem isSome_postAll?_pair (own t g : Totals) :
    (own.postAll? [t, g]).isSome = ((own.post? t).isSome && (own.post? g).isSome) := by
  cases ht : own.post? t <;> cases hg : own.post? g <;> simp [postAll?, ht, hg]

/-- a category that is taken has an unsigned batch that goes through -/
theorem of_verdict_taken {policy : MalformedPolicy} {g own : Totals} {c : Category}
    (h : verdict policy [g] c = .taken own) : own.Unsigned ∧ ∃ g', own.post? g = some g' := by
  rw [verdict_eq] at h
  split at h
  · cases h
  · split at h
    · cases h
    · rename_i hown
      split_ifs at h with hpost
      obtain rfl := Verdict.taken.inj h
      rw [isSome_postAll?_singleton] at hpost
      exact ⟨unsigned_of_ofBatch? hown, Option.isSome_iff_exists.1 hpost⟩

/-- **The total of a tree refuses nothing** that the grand total above it takes -/
theorem verdict_pair (policy : MalformedPolicy) {t g : Totals} (ht : t.Unsigned) (htg : t.AtMost g) (c : Category) :
    verdict policy [t, g] c = verdict policy [g] c := by
  simp only [verdict_eq]
  cases amounts? policy c with
  | none => rfl
  | some amounts =>
    cases hown : Totals.ofBatch? amounts with
    | none => simp only [hown]
    | some own =>
      simp only [isSome_postAll?_singleton, isSome_postAll?_pair, hown]
      cases hpost : own.post? g with
      | none => simp
      | some g' =>
        obtain ⟨t', ht', -⟩ := post?_mono (unsigned_of_ofBatch? hown) ht htg hpost
        simp [ht']

/-- the verdict keeps the total of the tree at or below the grand total -/
theorem after_atMost (policy : MalformedPolicy) {t g : Totals} (ht : t.Unsigned) (htg : t.AtMost g) (c : Category) :
    ((verdict policy [g] c).after t).Unsigned ∧
      ((verdict policy [g] c).after t).AtMost ((verdict policy [g] c).after g) := by
  cases hv : verdict policy [g] c with
  | rejected => exact ⟨ht, htg⟩
  | overflow => exact ⟨ht, htg⟩
  | taken own =>
    obtain ⟨hown, g', hg'⟩ := of_verdict_taken hv
    obtain ⟨t', ht', hle⟩ := post?_mono hown ht htg hg'
    simp only [Verdict.after, ht', hg', Option.getD_some]
    exact ⟨ht.of_atMost (atMost_of_post? hown ht ht'), hle⟩

theorem verdicts_pair (policy : MalformedPolicy) {t g : Totals} (ht : t.Unsigned) (htg : t.AtMost g)
    (cs : List Category) : verdicts policy [t, g] cs = verdicts policy [g] cs := by
  induction cs generalizing t g with
  | nil => rfl
  | cons c cs ih =>
    obtain ⟨ht', htg'⟩ := after_atMost policy ht htg c
    simp only [verdicts, verdict_pair policy ht htg, List.map_cons, List.map_nil, ih ht' htg']

theorem unsigned_afterAll (policy : MalformedPolicy) {g : Totals} (hg : g.Unsigned) (cs : List Category) :
    (afterAll (verdicts policy [g] cs) g).Unsigned := by
  induction cs generalizing g with
  | nil => exact hg
  | cons c cs ih => exact ih (after_atMost policy hg (.refl g) c).1

/-! ## What is reported, in sequence -/

theorem filter_issues (tree : String) (c : Category) (v : Verdict) :
    (v.issues tree c).filter Issue.isOfCategory = v.issues tree c := by
  have hmalformed : (malformedIssues tree c).filter Issue.isOfCategory = malformedIssues tree c := by
    simp [malformedIssues, List.filter_map, Function.comp_def, Issue.isOfCategory]
  cases v with
  | rejected => exact hmalformed
  | overflow => simp [Verdict.issues, hmalformed, Issue.isOfCategory]
  | taken own => cases h : c.totals.isSome <;> simp [Verdict.issues, hmalformed, h, Issue.isOfCategory]

theorem issues_reportAll (tree : String) (cs : List Category) (vs : List Verdict) :
    (reportAll tree cs vs).issues = (List.zipWith (Verdict.issues tree) cs vs).flatten := by
  induction cs generalizing vs with
  | nil => rfl
  | cons c cs ih =>
    cases vs with
    | nil => rfl
    | cons v vs => exact congrArg (v.issues tree c ++ ·) (ih vs)

/-- all that is reported of categories is about one category each -/
theorem filter_issues_reportAll (tree : String) (cs : List Category) (vs : List Verdict) :
    (reportAll tree cs vs).issues.filter Issue.isOfCategory = (reportAll tree cs vs).issues := by
  rw [issues_reportAll, List.filter_flatten, List.map_zipWith]
  simp only [filter_issues]

theorem treesProcessed_reportAll (tree : String) (cs : List Category) (vs : List Verdict) :
    (reportAll tree cs vs).treesProcessed = 0 := by
  induction cs generalizing vs with
  | nil => rfl
  | cons c cs ih =>
    cases vs with
    | nil => rfl
    | cons v vs => exact (Nat.zero_add _).trans (ih vs)

theorem amountsAdded_reportAll (tree : String) (cs : List Category) (vs : List Verdict) :
    (reportAll tree cs vs).amountsAdded = (List.zipWith Verdict.added cs vs).sum := by
  induction cs generalizing vs with
  | nil => rfl
  | cons c cs ih =>
    cases vs with
    | nil => rfl
    | cons v vs => exact congrArg (v.added c + ·) (ih vs)

theorem nodesRendered_reportAll (tree : String) (cs : List Category) (vs : List Verdict) :
    (reportAll tree cs vs).nodesRendered = (List.zipWith Verdict.rendered cs vs).sum := by
  induction cs generalizing vs with
  | nil => rfl
  | cons c cs ih =>
    cases vs with
    | nil => rfl
    | cons v vs => exact congrArg (v.rendered c + ·) (ih vs)

/-! ## Passes that follow verdicts -/

/-- a pass gives the categories of the names these verdicts: it writes their texts, and reports them one by one -/
structure Follows (options : Options) (page : Page) (names : List String) (vs : List Verdict) (pass : Pass) : Prop where
  categories : pass.page.sequence names =
    Category.overwriteAll (vs.map (Verdict.shown options.format)) (page.sequence names)
  issues : pass.report.issues.filter Issue.isOfCategory =
    (List.zipWith (fun x v => Verdict.issues x.1 x.2 v) (pass.page.placed names) vs).flatten
  amountsAdded : pass.report.amountsAdded = (List.zipWith Verdict.added (page.sequence names) vs).sum
  nodesRendered : pass.report.nodesRendered = (List.zipWith Verdict.rendered (page.sequence names) vs).sum

theorem renderTree_follows (options : Options) (page : Page) {grand : Totals} (hgrand : grand.Unsigned) (name : String) :
    let vs := verdicts options.malformed [grand] (page.sequence [name])
    Follows options page [name] vs (renderTree options page grand name) ∧
      (renderTree options page grand name).line = [afterAll vs grand] := by
  cases hfind : page.findTree? name with
  | none =>
    have hsequence : page.sequence [name] = [] := by simp [Page.sequence, Page.namedTrees, hfind]
    have hplaced : page.placed [name] = [] := by simp [Page.placed, Page.namedTrees, hfind]
    rw [renderTree_of_none options grand hfind, hsequence]
    refine ⟨⟨?_, ?_, ?_, ?_⟩, rfl⟩ <;>
      simp [hsequence, hplaced, Report.ofIssues, Report.empty, Issue.isOfCategory]
  | some t =>
    have hsequence := Page.sequence_of_some hfind
    rw [renderTree_of_some options grand hfind, hsequence, verdicts_pair _ unsigned_zero hgrand.zero_atMost]
    set vs := verdicts options.malformed [grand] t.categories
    have hfind' := page.findTree?_overwrite_self name (treeTexts options.format vs)
    rw [hfind, Option.map_some] at hfind'
    have htotal : (if t.total.isSome then [] else [Issue.missingSink (some t.name) none]).filter Issue.isOfCategory =
        [] := by
      split_ifs <;> rfl
    refine ⟨⟨?_, ?_, ?_, ?_⟩, rfl⟩
    · rw [Page.sequence_of_some hfind', hsequence]
      rfl
    · have hplaced : (page.overwrite (name, treeTexts options.format vs)).placed [name] =
          (Category.overwriteAll (vs.map (Verdict.shown options.format)) t.categories).map (Prod.mk t.name) :=
        Page.placed_of_some hfind'
      have hissues : ∀ new (c : Category) (v : Verdict), v.issues t.name (c.overwrite new) = v.issues t.name c :=
        fun new c v => congrArg Report.issues (v.report_overwrite t.name new c)
      rw [hplaced, List.zipWith_map_left, Category.zipWith_overwriteAll hissues, ← issues_reportAll]
      simp [treeReport, Report.merge, Report.ofIssues, htotal, filter_issues_reportAll]
    · rw [hsequence, ← amountsAdded_reportAll t.name]
      simp [treeReport, Report.merge, Report.ofIssues, Report.empty]
    · rw [hsequence, ← nodesRendered_reportAll t.name]
      simp [treeReport, Report.merge, Report.ofIssues, Report.empty]

theorem findTree?_renderTree_ne (options : Options) (page : Page) (grand : Totals) {name other : String}
    (hne : other ≠ name) : (renderTree options page grand name).page.findTree? other = page.findTree? other := by
  cases hfind : page.findTree? name with
  | none => rw [renderTree_of_none options grand hfind]
  | some t =>
    rw [renderTree_of_some options grand hfind]
    exact page.findTree?_overwrite_ne hne _

theorem findTree?_renderTrees_of_notMem (options : Options) (page : Page) (grand : Totals) {names : List String}
    {other : String} (h : other ∉ names) :
    (renderTrees options page grand names).page.findTree? other = page.findTree? other := by
  induction names generalizing page grand with
  | nil => rfl
  | cons name names ih =>
    rw [List.mem_cons, not_or] at h
    exact (ih _ _ h.2).trans (findTree?_renderTree_ne options page grand h.1)

/-- two passes that each follow their verdicts, one after the other, if neither touches the trees of the other -/
theorem Follows.cons {options : Options} {page : Page} {name : String} {names : List String} {vs ws : List Verdict}
    {head tail : Pass} (hhead : Follows options page [name] vs head) (htail : Follows options head.page names ws tail)
    (hlength : vs.length = (page.sequence [name]).length)
    (hbefore : head.page.namedTrees names = page.namedTrees names)
    (hafter : tail.page.namedTrees [name] = head.page.namedTrees [name]) (line : List Totals) (journal : List Entry) :
    Follows options page (name :: names) (vs ++ ws) ⟨tail.page, line, head.report.merge tail.report, journal⟩ := by
  have hsequence : head.page.sequence names = page.sequence names := by rw [Page.sequence, hbefore, Page.sequence]
  have hsequence' : tail.page.sequence [name] = head.page.sequence [name] := by
    rw [Page.sequence, hafter, Page.sequence]
  have hplaced : tail.page.placed [name] = head.page.placed [name] := by rw [Page.placed, hafter, Page.placed]
  have hplaces : (head.page.placed [name]).length = vs.length := by
    rw [← List.length_map Prod.snd, Page.map_snd_placed, hhead.categories, Category.length_overwriteAll, hlength]
  refine ⟨?_, ?_, ?_, ?_⟩
  · have hwritten : (vs.map (Verdict.shown options.format)).length = (page.sequence [name]).length := by
      rw [List.length_map, hlength]
    rw [page.sequence_cons, tail.page.sequence_cons, hsequence', hhead.categories, htail.categories, hsequence,
      List.map_append, Category.overwriteAll_append hwritten]
  · simp only [Report.merge, List.filter_append, hhead.issues, htail.issues]
    rw [tail.page.placed_cons, hplaced, List.zipWith_append hplaces, List.flatten_append]
  · simp only [Report.merge, hhead.amountsAdded, htail.amountsAdded, hsequence]
    rw [page.sequence_cons name names, List.zipWith_append hlength.symm, List.sum_append]
  · simp only [Report.merge, hhead.nodesRendered, htail.nodesRendered, hsequence]
    rw [page.sequence_cons name names, List.zipWith_append hlength.symm, List.sum_append]

theorem renderTrees_follows (options : Options) (page : Page) {grand : Totals} (hgrand : grand.Unsigned)
    {names : List String} (hnames : names.Nodup) :
    let vs := verdicts options.malformed [grand] (page.sequence names)
    Follows options page names vs (renderTrees options page grand names) ∧
      (renderTrees options page grand names).line = [afterAll vs grand] := by
  induction names generalizing page grand with
  | nil => exact ⟨⟨rfl, rfl, rfl, rfl⟩, rfl⟩
  | cons name names ih =>
    rw [List.nodup_cons] at hnames
    obtain ⟨hhead, hline⟩ := renderTree_follows options page hgrand name
    obtain ⟨htail, hline'⟩ := ih (renderTree options page grand name).page
      (unsigned_afterAll options.malformed hgrand (page.sequence [name])) hnames.2
    have hbefore : (renderTree options page grand name).page.namedTrees names = page.namedTrees names :=
      Page.namedTrees_congr fun other hother =>
        findTree?_renderTree_ne options page grand fun h => hnames.1 (h ▸ hother)
    have hsequence : (renderTree options page grand name).page.sequence names = page.sequence names := by
      rw [Page.sequence, hbefore, Page.sequence]
    rw [hsequence] at htail hline'
    rw [page.sequence_cons name names, verdicts_append]
    simp only [renderTrees, hline, List.headD_cons, List.map_cons, List.map_nil]
    refine ⟨hhead.cons htail (length_verdicts ..) hbefore (Page.namedTrees_congr fun other hother => ?_) _ _, ?_⟩
    · rw [List.mem_singleton.1 hother]
      exact findTree?_renderTrees_of_notMem options _ _ hnames.1
    · rw [hline', afterAll_append]

/-! ## The page -/

/-- rendering a page gives the categories of the names these verdicts, and shows this grand total -/
structure Renders (options : Options) (page : Page) (names : List String) (vs : List Verdict) (grand : Totals) : Prop where
  follows : Follows options (renumberTrees options.renumber page names) names vs (renderPage options page names)
  grandTotal : (renderPage options page names).page.grandTotal = page.grandTotal.map fun _ => grand.sinks options.format

theorem grandTotal_renumberTrees (mode : RenumberMode) (page : Page) (names : List String) :
    (renumberTrees mode page names).grandTotal = page.grandTotal := by
  induction names generalizing page with
  | nil => rfl
  | cons name names ih => exact ih _

theorem grandTotal_renderTrees (options : Options) (page : Page) (grand : Totals) (names : List String) :
    (renderTrees options page grand names).page.grandTotal = page.grandTotal := by
  induction names generalizing page grand with
  | nil => rfl
  | cons name names ih =>
    refine (ih _ _).trans ?_
    cases hfind : page.findTree? name with
    | none => rw [renderTree_of_none options grand hfind]
    | some t =>
      rw [renderTree_of_some options grand hfind]
      rfl

/-- the verdicts on a page are those of one running total over its sequence of categories -/
theorem renderPage_renders (options : Options) (page : Page) {names : List String} (hnames : names.Nodup) :
    let vs := verdicts options.malformed [.zero] (page.sequence names)
    Renders options page names vs (afterAll vs .zero) := by
  obtain ⟨hfollows, hline⟩ := renderTrees_follows options (renumberTrees options.renumber page names) unsigned_zero hnames
  have hframes := Page.frames_sequence (frame_renumberTrees options.renumber page names) names
  rw [verdicts_of_frames hframes] at hfollows hline
  refine ⟨⟨hfollows.categories, ?_, ?_, ?_⟩, ?_⟩
  · have hmissing : ∀ p : Page, (missingGrandTotal p).1.filter Issue.isOfCategory = [] := by
      intro p
      rw [missingGrandTotal]
      split_ifs <;> rfl
    simp only [renderPage, Report.merge, Report.ofIssues, List.filter_append, hmissing, List.append_nil]
    exact hfollows.issues
  · exact hfollows.amountsAdded
  · exact hfollows.nodesRendered
  · simp only [renderPage, hline, List.headD_cons, showGrandTotal, grandTotal_renderTrees, grandTotal_renumberTrees]

/-- **Regrouping.** Two pages whose named trees hold one sequence of categories, cut at different places, are rendered
with the same verdict at every position, the same texts in every category that is written, and the same grand total -/
theorem renderPage_regroup (options : Options) {p q : Page} {ns ms : List String} (hns : ns.Nodup) (hms : ms.Nodup)
    (h : (p.sequence ns).map Category.frame = (q.sequence ms).map Category.frame) :
    let vs := verdicts options.malformed [.zero] (p.sequence ns)
    Renders options p ns vs (afterAll vs .zero) ∧ Renders options q ms vs (afterAll vs .zero) := by
  refine ⟨renderPage_renders options p hns, ?_⟩
  rw [verdicts_of_frames h]
  exact renderPage_renders options q hms

/-- categories that fill the debit: the second is rounded to fit, the third does not fit, the fourth has no sinks, and
the last holds a text that is not an amount -/
def filling : List Category :=
  [.new "Deposits" [.ofAmount "79228162514264337593543950334"], .new "Interest" [.ofAmount "1.4"],
    .new "Refunds" [.ofAmount "5"], { Category.new "Fees" [.ofAmount "-3.25"] with totals := none },
    .new "Notes" [.ofAmount "0", .ofAmount "n/a"]]

/-- the page with the categories cut into two trees -/
def cutAt (count : ℕ) : Page :=
  (Page.empty.pushTree (.new importedName (filling.take count))).pushTree (.new assignedName (filling.drop count))

theorem renderPage_regroup_filling :
    let options : Options := ⟨.replace, .reject, .plain⟩
    let vs := verdicts options.malformed [.zero] ((cutAt 1).sequence [importedName, assignedName])
    vs.map (Verdict.shown .plain) = [some ⟨"79228162514264337593543950334.00", "0.00", "79228162514264337593543950334.00"⟩,
        some ⟨"1.40", "0.00", "1.40"⟩, none, some ⟨"0.00", "3.25", "-3.25"⟩, none] ∧
      [importedName, assignedName].Nodup ∧
      ((cutAt 1).sequence [importedName, assignedName]).map Category.frame =
        ((cutAt 3).sequence [importedName, assignedName]).map Category.frame ∧
      Renders options (cutAt 1) [importedName, assignedName] vs (afterAll vs .zero) ∧
      Renders options (cutAt 3) [importedName, assignedName] vs (afterAll vs .zero) := by
  have hnames : [importedName, assignedName].Nodup := by decide
  have hframes : ((cutAt 1).sequence [importedName, assignedName]).map Category.frame =
      ((cutAt 3).sequence [importedName, assignedName]).map Category.frame := by decide +kernel
  obtain ⟨hfew, hmany⟩ := renderPage_regroup ⟨.replace, .reject, .plain⟩ hnames hnames hframes
  exact ⟨by decide +kernel, hnames, hframes, hfew, hmany⟩

end Rollup

end LedgerTotals
