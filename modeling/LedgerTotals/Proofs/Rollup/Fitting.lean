/-
Amounts that fit one scale.

If the amounts under the names fit one scale, no sum of some of them is too large for a decimal, and none has to be
rounded. So a total refuses nothing: whether a category is taken depends on its own texts alone, and each total comes to
the exact sums of what it takes.

- `verdict_of_fitsAt`, `verdicts_of_fitsAt`: one category below a running total, and one after the other;
- `stages_of_fitsAt`: the stages of a page, each as if it were alone;
- `writes_of_fitsAt`: what is written at each place.
-/
import LedgerTotals.Proofs.Amount.Shown
import LedgerTotals.Proofs.Rollup.Sites
import LedgerTotals.Proofs.Rollup.Written

namespace LedgerTotals

open Decimal Totals

/-! ## Exact sums -/

/-- the numbers that the category adds to totals; none if a text rejects it -/
def Category.posted (policy : MalformedPolicy) (c : Category) : List ℚ := if c.Rejected policy then [] else c.amounts

theorem Category.posted_sublist (policy : MalformedPolicy) (c : Category) : (c.posted policy).Sublist c.amounts := by
  unfold posted
  split_ifs
  · exact List.nil_sublist _
  · exact List.Sublist.refl _

namespace Page

theorem sequence_sublist (p : Page) {few names : List String} (h : few.Sublist names) :
    (p.sequence few).Sublist (p.sequence names) := (h.filterMap p.findTree?).flatMap _

theorem amounts_eq_flatMap (p : Page) (names : List String) :
    p.amounts names = (p.sequence names).flatMap Category.amounts := by
  rw [← map_batches_flatten, ← map_decimals_sequence, List.map_flatten, List.map_map, List.flatMap_def]
  rfl

/-- with all the amounts, those under some of the names fit -/
theorem fitsAt_of_sublist {p : Page} {few names : List String} {s : ℕ} (hfits : FitsAt s (p.amounts names))
    (h : few.Sublist names) : FitsAt s ((p.sequence few).flatMap Category.amounts) := by
  rw [p.amounts_eq_flatMap] at hfits
  exact hfits.of_subperm ((p.sequence_sublist h).flatMap Category.amounts).subperm

/-- and so do those of one category -/
theorem fitsAt_category {p : Page} {names : List String} {s : ℕ} (hfits : FitsAt s (p.amounts names)) {c : Category}
    (hc : c ∈ p.sequence names) : FitsAt s c.amounts := by
  rw [p.amounts_eq_flatMap, List.flatMap_def] at hfits
  exact hfits.of_subperm (List.sublist_flatten_of_mem (List.mem_map_of_mem hc)).subperm

end Page

theorem Totals.SumsTo.unsigned {t : Totals} {qs : List ℚ} (h : t.SumsTo qs) : t.Unsigned := by
  refine ⟨?_, ?_⟩
  · rw [h.debit]
    refine List.sum_nonneg fun q hq => ?_
    simpa using (List.mem_filter.1 hq).2
  · rw [h.credit]
    refine List.sum_nonneg fun q hq => ?_
    obtain ⟨p, -, rfl⟩ := List.mem_map.1 hq
    exact abs_nonneg p

namespace Rollup

/-- the stage of a name, as if there were no total above it -/
def aloneStage (policy : MalformedPolicy) (page : Page) (name : String) : Stage :=
  ⟨name, (page.sequence [name]).map (verdict policy [])⟩

/-- the exact sums of what the categories add to totals, as texts -/
def exactSinks (options : Options) (cs : List Category) : Sinks :=
  (Figures.ofAmounts (cs.flatMap (Category.posted options.malformed))).sinks options.format

/-- the exact sums at a place, as texts, if the pass comes to it and takes what is there -/
def exactTexts (options : Options) (page : Page) (names : List String) : Page.Slot → Option Sinks
  | .page => some (exactSinks options (page.sequence names))
  | .tree i => ((page.leads? i).filter (· ∈ names)).map fun name => exactSinks options (page.sequence [name])
  | .category i k => ((page.leads? i).filter (· ∈ names)).bind fun name =>
    (page.sequence [name])[k]?.bind fun c =>
      if c.Rejected options.malformed then none else some (exactSinks options [c])

theorem posted_sublist (policy : MalformedPolicy) (cs : List Category) :
    (cs.flatMap (Category.posted policy)).Sublist (cs.flatMap Category.amounts) :=
  List.Sublist.flatMap_right cs fun c _ => c.posted_sublist policy

variable {s : ℕ} (hs : s ≤ maxScale)

include hs

/-! ## One category -/

/-- a category that no text rejects is taken wherever its batch goes through -/
theorem exists_own_of_fitsAt {policy : MalformedPolicy} {c : Category} (hkept : ¬ c.Rejected policy)
    (hfits : FitsAt s c.amounts) : ∃ own, own.SumsTo c.amounts ∧
      ∀ line, (own.postAll? line).isSome = true → verdict policy line c = .taken own := by
  obtain ⟨own, hown, hsums⟩ : ∃ own, ofBatch? c.decimals = some own ∧ own.SumsTo c.amounts :=
    ofBatch?_exact (hfits.debits.lossless hs) (hfits.credits.lossless hs)
  have hamounts : amounts? policy c = some c.decimals := by rw [amounts?_eq, if_neg hkept]
  refine ⟨own, hsums, fun line hline => ?_⟩
  simp only [verdict_eq, hamounts, hown, if_pos hline]

/-- **One category.** Below a running total the verdict is that below none, and the total stays exact -/
theorem verdict_of_fitsAt (policy : MalformedPolicy) {t : Totals} {qs : List ℚ} (ht : t.SumsTo qs) {c : Category}
    (hfits : FitsAt s (qs ++ c.amounts)) :
    verdict policy [t] c = verdict policy [] c ∧ ((verdict policy [] c).after t).SumsTo (qs ++ c.posted policy) := by
  by_cases hrejected : c.Rejected policy
  · have hverdict : ∀ line, verdict policy line c = .rejected := fun line => verdict_eq_rejected_iff.2 hrejected
    rw [hverdict, hverdict, Category.posted, if_pos hrejected, List.append_nil]
    exact ⟨rfl, ht⟩
  · obtain ⟨own, hsums, htaken⟩ := exists_own_of_fitsAt hs hrejected
      (hfits.of_subperm (List.sublist_append_right qs c.amounts).subperm)
    obtain ⟨u, hu, husums⟩ := post?_exact_of_fitsAt hs ht hsums hfits
    have hline : (own.postAll? [t]).isSome = true := by rw [isSome_postAll?_singleton, hu, Option.isSome_some]
    rw [htaken [t] hline, htaken [] rfl, Category.posted, if_neg hrejected, Verdict.after, hu, Option.getD_some]
    exact ⟨rfl, husums⟩

/-- the texts of a category are those of the exact sums of its amounts, unless a text rejects it -/
theorem shown_of_fitsAt (policy : MalformedPolicy) {c : Category} (hfits : FitsAt s c.amounts) (format : AmountFormat) :
    (verdict policy [] c).shown format =
      if c.Rejected policy then none else some ((Figures.ofAmounts c.amounts).sinks format) := by
  split_ifs with hrejected
  · rw [verdict_eq_rejected_iff.2 hrejected]
    rfl
  · obtain ⟨own, hsums, htaken⟩ := exists_own_of_fitsAt hs hrejected hfits
    rw [htaken [] rfl, Verdict.shown, hsums.sinks hs hfits]

/-! ## One category after the other -/

/-- **One category after the other.** Each verdict is that below no running total, and the total stays exact -/
theorem verdicts_of_fitsAt (policy : MalformedPolicy) {t : Totals} {qs : List ℚ} (ht : t.SumsTo qs) {cs : List Category}
    (hfits : FitsAt s (qs ++ cs.flatMap Category.amounts)) :
    verdicts policy [t] cs = cs.map (verdict policy []) ∧
      (afterAll (cs.map (verdict policy [])) t).SumsTo (qs ++ cs.flatMap (Category.posted policy)) := by
  induction cs generalizing t qs with
  | nil =>
    rw [List.flatMap_nil, List.append_nil]
    exact ⟨rfl, ht⟩
  | cons c cs ih =>
    rw [List.flatMap_cons, ← List.append_assoc] at hfits
    obtain ⟨hverdict, hafter⟩ := verdict_of_fitsAt hs policy ht
      (hfits.of_subperm (List.sublist_append_left (qs ++ c.amounts) (cs.flatMap Category.amounts)).subperm)
    -- what is posted is part of what fits
    have hposted : ((qs ++ c.posted policy) ++ cs.flatMap Category.amounts).Sublist
        ((qs ++ c.amounts) ++ cs.flatMap Category.amounts) :=
      ((c.posted_sublist policy).append_left qs).append_right _
    obtain ⟨hverdicts, hrest⟩ := ih hafter (hfits.of_subperm hposted.subperm)
    rw [List.flatMap_cons, ← List.append_assoc]
    refine ⟨?_, hrest⟩
    simp only [verdicts, hverdict, List.map_cons, List.map_nil, hverdicts]

/-- what a total from nothing comes to over some categories -/
theorem sinks_afterAll_of_fitsAt (policy : MalformedPolicy) {cs : List Category}
    (hfits : FitsAt s (cs.flatMap Category.amounts)) (format : AmountFormat) :
    (afterAll (cs.map (verdict policy [])) .zero).sinks format =
      (Figures.ofAmounts (cs.flatMap (Category.posted policy))).sinks format := by
  have hsums : (afterAll (cs.map (verdict policy [])) .zero).SumsTo (cs.flatMap (Category.posted policy)) :=
    (verdicts_of_fitsAt hs policy sumsTo_zero hfits).2
  exact hsums.sinks hs (hfits.of_subperm (posted_sublist policy cs).subperm) format

/-! ## One tree after the other -/

/-- **The stages of a page**, each as if it were alone -/
theorem stages_of_fitsAt (policy : MalformedPolicy) (page : Page) {g : Totals} {qs : List ℚ} (hg : g.SumsTo qs)
    {names : List String} (hfits : FitsAt s (qs ++ page.amounts names)) :
    stages policy page g names = names.map (aloneStage policy page) := by
  induction names generalizing g qs with
  | nil => rfl
  | cons name names ih =>
    set cs := page.sequence [name]
    rw [page.amounts_eq_flatMap, page.sequence_cons, List.flatMap_append, ← page.amounts_eq_flatMap names,
      ← List.append_assoc] at hfits
    obtain ⟨hverdicts, hafter⟩ := verdicts_of_fitsAt hs policy hg
      (hfits.of_subperm (List.sublist_append_left _ (page.amounts names)).subperm)
    have hpair : verdicts policy [.zero, g] cs = cs.map (verdict policy []) := by
      rw [verdicts_pair policy unsigned_zero hg.unsigned.zero_atMost, hverdicts]
    have hposted := ((posted_sublist policy cs).append_left qs).append_right (page.amounts names)
    have hrest := ih hafter (hfits.of_subperm hposted.subperm)
    simp only [stages, List.map_cons, aloneStage]
    rw [hpair, hrest]

variable {options : Options} {page : Page} {names : List String} (hfits : FitsAt s (page.amounts names))

include hfits

theorem pageStages_of_fitsAt : pageStages options page names = names.map (aloneStage options.malformed page) :=
  stages_of_fitsAt hs options.malformed page sumsTo_zero hfits

/-- a listed name has one stage -/
theorem stagesOf_of_fitsAt (hnames : names.Nodup) {name : String} (hname : name ∈ names) :
    stagesOf (pageStages options page names) name = [aloneStage options.malformed page name] := by
  have hmem : aloneStage options.malformed page name ∈ pageStages options page names := by
    rw [pageStages_of_fitsAt hs hfits]
    exact List.mem_map_of_mem hname
  exact stagesOf_eq_singleton hnames hmem

/-- **What is written**, place by place: the exact sums, rounded once -/
theorem writes_of_fitsAt (hnames : names.Nodup) : writes options page names = exactTexts options page names := by
  funext x
  cases x with
  | page =>
    have hverdicts := allVerdicts_stages options.malformed page unsigned_zero names
    rw [page.amounts_eq_flatMap] at hfits
    rw [(verdicts_of_fitsAt hs options.malformed sumsTo_zero hfits).1] at hverdicts
    rw [writes, hverdicts, sinks_afterAll_of_fitsAt hs options.malformed hfits]
    rfl
  | tree i =>
    rw [writes, exactTexts]
    cases page.leads? i with
    | none => rfl
    | some name =>
      by_cases hname : name ∈ names
      · have hone := Page.fitsAt_of_sublist hfits (List.singleton_sublist.2 hname)
        rw [Option.bind_some, stagesOf_of_fitsAt hs hfits hnames hname, Option.filter_some_pos (by simpa using hname)]
        simp only [List.getLast?_singleton, Option.map_some, aloneStage, sinks_afterAll_of_fitsAt hs _ hone, exactSinks]
      · rw [Option.bind_some, stagesOf_eq_nil hname, Option.filter_some_neg (by simpa using hname)]
        rfl
  | category i k =>
    rw [writes, exactTexts]
    cases page.leads? i with
    | none => rfl
    | some name =>
      by_cases hname : name ∈ names
      · rw [Option.bind_some, stagesOf_of_fitsAt hs hfits hnames hname, Option.filter_some_pos (by simpa using hname),
          Option.bind_some, newTexts, List.foldl_cons, List.foldl_nil, Option.or_none, aloneStage, List.getElem?_map]
        cases hc : (page.sequence [name])[k]? with
        | none => rfl
        | some c =>
          have hmem := (page.sequence_sublist (List.singleton_sublist.2 hname)).subset (List.mem_of_getElem? hc)
          have hown := Page.fitsAt_category hfits hmem
          rw [Option.map_some, Option.bind_some, shown_of_fitsAt hs _ hown, Option.bind_some]
          split_ifs with hrejected
          · rfl
          · rw [exactSinks, List.flatMap_singleton, Category.posted, if_neg hrejected]
      · rw [Option.bind_some, stagesOf_eq_nil hname, Option.filter_some_neg (by simpa using hname)]
        rfl

end Rollup

end LedgerTotals
