/-
Passes over a page that leave no amount out.

A report is complete if it names no amount that is not a number and no overflow (`Report.Complete`).

- `of_visitAll_complete`: then every text is an amount, and the batches of the categories go through below the running
  totals at hand;
- `visitAll_accepted`: if they do, every category is settled, and all its batches are posted to all running totals.
-/
import LedgerTotals.Proofs.Page.Amounts
import LedgerTotals.Proofs.Rollup.Verdict

namespace LedgerTotals

/-! ## Reports without losses -/

/-- amounts were left out of the totals, or counted as something that they do not say -/
def Issue.isLoss : Issue → Bool
  | .malformedAmount .. => true
  | .overflow .. => true
  | .missingTree _ => false
  | .missingSink .. => false

/-- nothing was lost on the way -/
def Report.Complete (r : Report) : Prop := ∀ i ∈ r.issues, i.isLoss = false

instance (r : Report) : Decidable r.Complete := inferInstanceAs (Decidable (∀ i ∈ r.issues, i.isLoss = false))

theorem Report.complete_merge {a b : Report} : (a.merge b).Complete ↔ a.Complete ∧ b.Complete := by
  simp only [Report.Complete, Report.merge, List.mem_append, or_imp, forall_and]

/-! ## Categories and trees with their own sums in their sinks -/

/-- the category with the totals of its batch shown in its sinks, if it has any -/
def Category.settled (format : AmountFormat) (c : Category) : Category :=
  { c with totals := c.totals.map fun _ => ((Totals.ofBatch? c.decimals).getD .zero).sinks format }

/-- the tree with its categories settled, and the totals of all their batches shown in its sinks, if it has any -/
def Tree.settled (format : AmountFormat) (t : Tree) : Tree :=
  { t with
    total := t.total.map fun _ => ((Totals.roll? .zero t.batches).getD .zero).sinks format
    categories := t.categories.map (Category.settled format) }

theorem Category.frame_settled (format : AmountFormat) (c : Category) : (c.settled format).frame = c.frame := by
  simp [frame, settled]

theorem Tree.frame_settled (format : AmountFormat) (t : Tree) : (t.settled format).frame = t.frame := by
  simp [frame, settled, Function.comp_def, Category.frame_settled]

theorem Category.settled_settled (format : AmountFormat) (c : Category) :
    (c.settled format).settled format = c.settled format := by
  have hdecimals : (c.settled format).decimals = c.decimals := decimals_of_frame (c.frame_settled format)
  rw [settled, hdecimals]
  simp [settled, Function.comp_def]

theorem Tree.settled_settled (format : AmountFormat) (t : Tree) :
    (t.settled format).settled format = t.settled format := by
  have hbatches : (t.settled format).batches = t.batches := batches_of_frame (t.frame_settled format)
  rw [settled, hbatches]
  simp [settled, Function.comp_def, Category.settled_settled]

/-- every text of the tree is an amount, and its batches roll on from zero -/
structure Tree.Settles (t : Tree) : Prop where
  readable : t.Readable
  sums : (Totals.roll? .zero t.batches).isSome

theorem Tree.Settles.of_frame {s t : Tree} (ht : t.Settles) (h : s.frame = t.frame) : s.Settles :=
  ⟨ht.readable.of_frame h, batches_of_frame h ▸ ht.sums⟩

namespace Rollup

/-! ## One category -/

theorem counted?_eq (policy : MalformedPolicy) (text : String) :
    counted? policy text = if policy = .reject ∧ isMalformed text = true then none else some (Amount.valueOf text) := by
  unfold counted? isMalformed Amount.valueOf
  cases Amount.ofText text <;> cases policy <;> simp

theorem mapM_counted? (policy : MalformedPolicy) (texts : List String) :
    texts.mapM (counted? policy) =
      if policy = .reject ∧ ∃ text ∈ texts, isMalformed text = true then none else some (texts.map Amount.valueOf) := by
  induction texts with
  | nil => simp
  | cons text texts ih =>
    rw [List.mapM_cons, ih, counted?_eq]
    by_cases hhead : policy = .reject ∧ isMalformed text = true
    · simp [hhead]
    · by_cases htail : policy = .reject ∧ ∃ x ∈ texts, isMalformed x = true
      · simp [htail]
      · have hboth : ¬ (policy = .reject ∧ ∃ x ∈ text :: texts, isMalformed x = true) := by
          simpa only [List.exists_mem_cons_iff, and_or_left, not_or] using ⟨hhead, htail⟩
        rw [if_neg hhead, if_neg htail, if_neg hboth]
        rfl

/-- the numbers of a category, unless it is rejected: what is not an amount counts as zero -/
theorem amounts?_eq (policy : MalformedPolicy) (c : Category) :
    amounts? policy c = if c.Rejected policy then none else some c.decimals := mapM_counted? policy c.amountTexts

theorem amounts?_of_readable {c : Category} (h : c.Readable) (policy : MalformedPolicy) :
    amounts? policy c = some c.decimals := by
  rw [amounts?_eq, if_neg (h.not_rejected policy)]

theorem outcome_of_readable {c : Category} (h : c.Readable) (policy : MalformedPolicy) (line : List Totals) :
    outcome policy line c = ((Totals.ofBatch? c.decimals).bind fun own =>
      (own.postAll? line).map fun line => Outcome.added c.decimals.length own line).getD .overflow := by
  simp only [outcome, amounts?_of_readable h]
  cases Totals.ofBatch? c.decimals with
  | none => rfl
  | some own => cases hpost : own.postAll? line <;> simp [hpost]

/-- a category that can be read and goes through is settled, and its batch is posted to the whole line -/
theorem visit_accepted (options : Options) (tree : String) {line line' : List Totals} {c : Category}
    (h : c.Readable) (hroll : Totals.rollAll? line [c.decimals] = some line') :
    (visit options tree line c).line = line' ∧
      (visit options tree line c).categories = [c.settled options.format] := by
  rw [Totals.rollAll?_cons, Option.bind_eq_some_iff] at hroll
  obtain ⟨line₁, hpost, hroll⟩ := hroll
  obtain ⟨own, hown, hpost⟩ := Option.bind_eq_some_iff.1 hpost
  obtain rfl : line₁ = line' := Option.some.inj hroll
  have houtcome : outcome options.malformed line c = .added c.decimals.length own line₁ := by
    simp [outcome_of_readable h, hown, hpost]
  have hverdict : verdict options.malformed line c = .taken own := by rw [verdict, houtcome, Verdict.ofOutcome]
  have hsettled : c.overwrite (some (own.sinks options.format)) = c.settled options.format := by
    simp [Category.overwrite, Sinks.overwrite, Category.settled, hown]
  rw [visit_eq, hverdict]
  exact ⟨map_after_of_postAll? hpost, congrArg (fun d => [d]) hsettled⟩

/-- if the report of a visit is complete, the category could be read and went through -/
theorem of_visit_complete {options : Options} {tree : String} {line : List Totals} {c : Category}
    (h : (visit options tree line c).report.Complete) :
    c.Readable ∧ ∃ line', Totals.rollAll? line [c.decimals] = some line' := by
  rw [visit_eq] at h
  have hread : c.Readable := by
    intro text htext
    by_contra hbad
    have hmem : Issue.malformedAmount tree c.label text ∈ malformedIssues tree c := by
      simpa [malformedIssues, htext] using hbad
    exact absurd (h _ (malformedIssues_subset _ hmem)) (by simp [Issue.isLoss])
  refine ⟨hread, ?_⟩
  cases houtcome : outcome options.malformed line c with
  | rejected =>
    rw [outcome_of_readable hread] at houtcome
    cases hown : Totals.ofBatch? c.decimals with
    | none => simp [hown] at houtcome
    | some own => cases hpost : own.postAll? line <;> simp [hown, hpost] at houtcome
  | overflow =>
    have hmem : Issue.overflow tree c.label ∈ (verdict options.malformed line c).issues tree c := by
      rw [verdict, houtcome]
      simp [Verdict.ofOutcome, Verdict.issues]
    exact absurd (h _ hmem) (by simp [Issue.isLoss])
  | added count own line' =>
    obtain ⟨amounts, hamounts, hown, hpost, -⟩ := outcome_eq_added_iff.1 houtcome
    obtain rfl := Option.some.inj ((amounts?_of_readable hread _).symm.trans hamounts)
    exact ⟨line', by simp [Totals.rollAll?_cons, Totals.rollAll?_nil, hown, hpost]⟩

/-! ## The categories of a tree -/

theorem rollAll?_cons_eq_some_iff {line line' : List Totals} {c : Category} {cs : List Category} :
    Totals.rollAll? line ((c :: cs).map Category.decimals) = some line' ↔
      ∃ mid, Totals.rollAll? line [c.decimals] = some mid ∧
        Totals.rollAll? mid (cs.map Category.decimals) = some line' := by
  simp only [List.map_cons, Totals.rollAll?_cons, Totals.rollAll?_nil, Option.bind_eq_some_iff, Option.some.injEq,
    exists_eq_right]

/-- categories that can be read and go through are settled one and all -/
theorem visitAll_accepted (options : Options) (tree : String) {line line' : List Totals} {cs : List Category}
    (h : ∀ c ∈ cs, c.Readable) (hroll : Totals.rollAll? line (cs.map Category.decimals) = some line') :
    (visitAll options tree line cs).line = line' ∧
      (visitAll options tree line cs).categories = cs.map (Category.settled options.format) := by
  induction cs generalizing line with
  | nil =>
    obtain rfl : line = line' := Option.some.inj hroll
    exact ⟨rfl, rfl⟩
  | cons c cs ih =>
    obtain ⟨mid, hhead, htail⟩ := rollAll?_cons_eq_some_iff.1 hroll
    obtain ⟨hline, hcats⟩ := visit_accepted options tree (h c List.mem_cons_self) hhead
    obtain ⟨hline', hcats'⟩ := ih (fun d hd => h d (List.mem_cons_of_mem _ hd)) htail
    simp only [visitAll, hline, hcats, hline', hcats']
    exact ⟨trivial, rfl⟩

theorem of_visitAll_complete {options : Options} {tree : String} {line : List Totals} {cs : List Category}
    (h : (visitAll options tree line cs).report.Complete) :
    (∀ c ∈ cs, c.Readable) ∧ ∃ line', Totals.rollAll? line (cs.map Category.decimals) = some line' := by
  induction cs generalizing line with
  | nil => exact ⟨by simp, line, rfl⟩
  | cons c cs ih =>
    simp only [visitAll, Report.complete_merge] at h
    obtain ⟨hread, mid, hhead⟩ := of_visit_complete h.1
    rw [(visit_accepted options tree hread hhead).1] at h
    obtain ⟨hreads, line', htail⟩ := ih h.2
    exact ⟨by simpa using ⟨hread, hreads⟩, line', rollAll?_cons_eq_some_iff.2 ⟨mid, hhead, htail⟩⟩

end Rollup

end LedgerTotals
