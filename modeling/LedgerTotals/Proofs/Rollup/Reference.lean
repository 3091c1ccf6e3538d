/-
The pass over a page, against a reference with two pairs of registers.

The reference walks the categories under a list of names. It keeps debits and credits for the tree at hand, from zero
for each name, and for the page, from zero once. A category is accepted if no text rejects it, its own sums are in
range, and both registers stay in range with them (`Accepts`). It is left out otherwise, and then leaves no trace.

- `outcome_eq_added_iff_accepts`: a category below running totals is added exactly if the reference accepts it;
- `walk_eq`: over the categories of a tree, the reference and the verdicts stay in step;
- `renderPage_reference`: the rendered page shows what the reference comes to.
-/
import LedgerTotals.Proofs.Rollup.Changes
import LedgerTotals.Proofs.Rollup.Sites

namespace LedgerTotals

open Decimal Totals

/-! ## Texts of totals -/

/-- the texts are those of the debit, the credit and their difference, which is in range -/
structure Totals.ShownAs (format : AmountFormat) (t : Totals) (s : Sinks) : Prop where
  debit : s.debit = Amount.toText ⟨t.debit, format⟩
  credit : s.credit = Amount.toText ⟨t.credit, format⟩
  total : ∃ difference, t.debit.sub? t.credit = some difference ∧ s.total = Amount.toText ⟨difference, format⟩

/-- totals are shown where there was a place for texts, and only there -/
structure Totals.ShownIn (format : AmountFormat) (t : Totals) (old new : Option Sinks) : Prop where
  place : new.isSome = old.isSome
  texts : ∀ s, new = some s → t.ShownAs format s

theorem Totals.Unsigned.shownIn {t : Totals} (ht : t.Unsigned) (format : AmountFormat) (old : Option Sinks) :
    t.ShownIn format old (Sinks.overwrite (some (t.sinks format)) old) := by
  refine ⟨Sinks.isSome_overwrite _ old, ?_⟩
  intro s hs
  obtain ⟨-, -, rfl⟩ := Option.map_eq_some_iff.1 hs
  exact ⟨rfl, rfl, t.balance, ht.sub?_eq, rfl⟩

namespace Rollup

/-! ## The reference -/

/-- debits and credits so far: of the tree at hand, and of the page -/
structure Registers where
  tree : Totals
  page : Totals
  deriving DecidableEq

/-- what the texts of a category come to by themselves; none if one of them rejects it or a sum is out of range -/
def own? (policy : MalformedPolicy) (texts : List String) : Option Totals :=
  if policy = .reject ∧ ∃ text ∈ texts, isMalformed text = true then none
  else
    (sum? (debits (texts.map Amount.valueOf))).bind fun debit =>
      (sum? (credits (texts.map Amount.valueOf))).map fun credit => ⟨debit, credit⟩

/-- sums added to both registers, or to neither -/
def Registers.add? (r : Registers) (own : Totals) : Option Registers :=
  (own.post? r.tree).bind fun tree => (own.post? r.page).map fun page => ⟨tree, page⟩

/-- the sums of the category, and the registers with them; none if it is left out -/
def accept? (policy : MalformedPolicy) (r : Registers) (c : Category) : Option (Totals × Registers) :=
  (own? policy c.amountTexts).bind fun own => (r.add? own).map fun after => (own, after)

/-- one category after the other: the sums of those that are accepted, and the registers after the last -/
def walk (policy : MalformedPolicy) : Registers → List Category → List (Option Totals) × Registers
  | r, [] => ([], r)
  | r, c :: cs =>
    match accept? policy r c with
    | some (own, after) => ((some own :: (walk policy after cs).1), (walk policy after cs).2)
    | none => ((none :: (walk policy r cs).1), (walk policy r cs).2)

/-- one name of the list: the sums of the categories that are accepted, and the registers after the last -/
structure Turn where
  name : String
  accepted : List (Option Totals)
  after : Registers
  deriving DecidableEq

/-- the names in their order: each tree from zero, the page from where the name before left it; a name without a tree
has no categories -/
def turns (policy : MalformedPolicy) (page : Page) : Totals → List String → List Turn
  | _, [] => []
  | grand, name :: names =>
    let walked := walk policy ⟨.zero, grand⟩ (page.sequence [name])
    ⟨name, walked.1, walked.2⟩ :: turns policy page walked.2.page names

/-- the register of the page after the last name -/
def pageAfter (grand : Totals) (ts : List Turn) : Totals := (ts.getLast?.map (·.after.page)).getD grand

/-! ## What it takes to be accepted -/

/-- no text rejects the category, its sums are in range, and so is each addition of a sum to a register -/
structure Accepts (policy : MalformedPolicy) (r : Registers) (c : Category) (own : Totals) (after : Registers) :
    Prop where
  kept : ¬ c.Rejected policy
  debit : sum? (debits c.decimals) = some own.debit
  credit : sum? (credits c.decimals) = some own.credit
  treeDebit : r.tree.debit.add? own.debit = some after.tree.debit
  treeCredit : r.tree.credit.add? own.credit = some after.tree.credit
  pageDebit : r.page.debit.add? own.debit = some after.page.debit
  pageCredit : r.page.credit.add? own.credit = some after.page.credit

theorem own?_eq_some_iff {policy : MalformedPolicy} {c : Category} {own : Totals} :
    own? policy c.amountTexts = some own ↔ ¬ c.Rejected policy ∧ ofBatch? c.decimals = some own := by
  rw [ofBatch?_eq_some_iff]
  unfold own?
  split_ifs with hrejected
  · have hrejected' : c.Rejected policy := hrejected
    simp [hrejected']
  · have hkept : ¬ c.Rejected policy := hrejected
    simp only [hkept, not_false_iff, true_and, Option.bind_eq_some_iff, Option.map_eq_some_iff]
    constructor
    · rintro ⟨debit, hdebit, credit, hcredit, rfl⟩
      exact ⟨hdebit, hcredit⟩
    · rintro ⟨hdebit, hcredit⟩
      exact ⟨own.debit, hdebit, own.credit, hcredit, rfl⟩

theorem Registers.add?_eq_some_iff {r after : Registers} {own : Totals} :
    r.add? own = some after ↔ own.post? r.tree = some after.tree ∧ own.post? r.page = some after.page := by
  simp only [Registers.add?, Option.bind_eq_some_iff, Option.map_eq_some_iff]
  constructor
  · rintro ⟨tree, htree, page, hpage, rfl⟩
    exact ⟨htree, hpage⟩
  · rintro ⟨htree, hpage⟩
    exact ⟨after.tree, htree, after.page, hpage, rfl⟩

theorem accepts_iff {policy : MalformedPolicy} {r after : Registers} {c : Category} {own : Totals} :
    Accepts policy r c own after ↔ own? policy c.amountTexts = some own ∧ r.add? own = some after := by
  rw [own?_eq_some_iff, Registers.add?_eq_some_iff, ofBatch?_eq_some_iff, post?_eq_some_iff, post?_eq_some_iff]
  constructor
  · rintro ⟨hkept, hdebit, hcredit, htd, htc, hpd, hpc⟩
    exact ⟨⟨hkept, hdebit, hcredit⟩, ⟨htd, htc⟩, hpd, hpc⟩
  · rintro ⟨⟨hkept, hdebit, hcredit⟩, ⟨htd, htc⟩, hpd, hpc⟩
    exact ⟨hkept, hdebit, hcredit, htd, htc, hpd, hpc⟩

theorem accept?_eq_some_iff {policy : MalformedPolicy} {r after : Registers} {c : Category} {own : Totals} :
    accept? policy r c = some (own, after) ↔ Accepts policy r c own after := by
  rw [accepts_iff]
  simp [accept?, Option.bind_eq_some_iff, Option.map_eq_some_iff]

/-! ## In step with the verdicts -/

theorem postAll?_pair_eq_some_iff {own t g : Totals} {line : List Totals} :
    own.postAll? [t, g] = some line ↔ ∃ t' g', own.post? t = some t' ∧ own.post? g = some g' ∧ line = [t', g'] := by
  rw [postAll?, mapM_eq_some_iff]
  simp only [List.forall₂_cons_left_iff, List.forall₂_nil_left_iff]
  constructor
  · rintro ⟨t', -, ht, ⟨g', -, hg, rfl, rfl⟩, rfl⟩
    exact ⟨t', g', ht, hg, rfl⟩
  · rintro ⟨t', g', ht, hg, rfl⟩
    exact ⟨t', [g'], ht, ⟨g', [], hg, rfl, rfl⟩, rfl⟩

/-- **One category.** It is added below the totals of its tree and of the page exactly if the reference accepts it -/
theorem outcome_eq_added_iff_accepts {policy : MalformedPolicy} {r : Registers} {c : Category} {count : ℕ}
    {own : Totals} {line : List Totals} : outcome policy [r.tree, r.page] c = .added count own line ↔
      count = c.rows.length ∧ ∃ after, Accepts policy r c own after ∧ line = [after.tree, after.page] := by
  rw [outcome_eq_added_iff]
  constructor
  · rintro ⟨amounts, hamounts, hown, hpost, rfl⟩
    have hlength := length_amounts? hamounts
    rw [amounts?_eq] at hamounts
    split_ifs at hamounts with hrejected
    obtain rfl := Option.some.inj hamounts
    obtain ⟨tree, page, htree, hpage, rfl⟩ := postAll?_pair_eq_some_iff.1 hpost
    refine ⟨hlength, ⟨tree, page⟩, accepts_iff.2 ⟨?_, ?_⟩, rfl⟩
    · exact own?_eq_some_iff.2 ⟨hrejected, hown⟩
    · exact Registers.add?_eq_some_iff.2 ⟨htree, hpage⟩
  · rintro ⟨rfl, after, haccepts, rfl⟩
    obtain ⟨hown, hadd⟩ := accepts_iff.1 haccepts
    obtain ⟨hkept, hown⟩ := own?_eq_some_iff.1 hown
    obtain ⟨htree, hpage⟩ := Registers.add?_eq_some_iff.1 hadd
    have hamounts : amounts? policy c = some c.decimals := by rw [amounts?_eq, if_neg hkept]
    exact ⟨c.decimals, hamounts, hown, postAll?_pair_eq_some_iff.2 ⟨_, _, htree, hpage, rfl⟩, length_amounts? hamounts⟩

/-- the sums of a category that is taken into the totals -/
def Verdict.own? : Verdict → Option Totals
  | taken own => some own
  | _ => none

theorem Verdict.own?_eq_some_iff {v : Verdict} {own : Totals} : v.own? = some own ↔ v = .taken own := by
  cases v <;> simp [own?]

theorem Verdict.after_of_own?_eq_none {v : Verdict} (h : v.own? = none) : v.after = id := by
  cases v with
  | taken own => cases h
  | rejected => rfl
  | overflow => rfl

theorem verdict_eq_taken_iff {policy : MalformedPolicy} {line : List Totals} {c : Category} {own : Totals} :
    verdict policy line c = .taken own ↔ ∃ count line', outcome policy line c = .added count own line' := by
  rw [verdict]
  cases outcome policy line c <;> simp [Verdict.ofOutcome, eq_comm]

theorem verdict_eq_taken_iff_accepts {policy : MalformedPolicy} {r : Registers} {c : Category} {own : Totals} :
    verdict policy [r.tree, r.page] c = .taken own ↔ ∃ after, Accepts policy r c own after := by
  simp [verdict_eq_taken_iff, outcome_eq_added_iff_accepts]

/-- **One category after the other.** The reference accepts those that are taken, and its registers are the running
totals -/
theorem walk_eq (policy : MalformedPolicy) (r : Registers) (cs : List Category) :
    walk policy r cs =
      let vs := verdicts policy [r.tree, r.page] cs
      (vs.map Verdict.own?, ⟨afterAll vs r.tree, afterAll vs r.page⟩) := by
  induction cs generalizing r with
  | nil => rfl
  | cons c cs ih =>
    rw [walk]
    cases haccept : accept? policy r c with
    | none =>
      have hown : (verdict policy [r.tree, r.page] c).own? = none := by
        rw [Option.eq_none_iff_forall_ne_some]
        intro own hown
        obtain ⟨after, hafter⟩ := verdict_eq_taken_iff_accepts.1 (Verdict.own?_eq_some_iff.1 hown)
        rw [accept?_eq_some_iff.2 hafter] at haccept
        cases haccept
      have hafter := Verdict.after_of_own?_eq_none hown
      simp [verdicts, hown, hafter, ih]
    | some x =>
      obtain ⟨own, after⟩ := x
      have haccepts := accept?_eq_some_iff.1 haccept
      have hverdict : verdict policy [r.tree, r.page] c = .taken own := verdict_eq_taken_iff_accepts.2 ⟨after, haccepts⟩
      obtain ⟨htree, hpage⟩ := Registers.add?_eq_some_iff.1 (accepts_iff.1 haccepts).2
      simp [verdicts, hverdict, Verdict.own?, Verdict.after, htree, hpage, ih]

/-! ## In step with the stages -/

/-- what a turn and a stage have in common -/
def Turn.gist (turn : Turn) : String × List (Option Totals) × Totals := (turn.name, turn.accepted, turn.after.tree)

def Stage.gist (s : Stage) : String × List (Option Totals) × Totals :=
  (s.name, s.verdicts.map Verdict.own?, afterAll s.verdicts .zero)

theorem gist_turns (policy : MalformedPolicy) (page : Page) (grand : Totals) (names : List String) :
    (turns policy page grand names).map Turn.gist = (stages policy page grand names).map Stage.gist := by
  induction names generalizing grand with
  | nil => rfl
  | cons name names ih =>
    simp only [turns, walk_eq, stages, List.map_cons, ih]
    rfl

theorem pageAfter_turns (policy : MalformedPolicy) (page : Page) (grand : Totals) (names : List String) :
    pageAfter grand (turns policy page grand names) = afterAll (allVerdicts (stages policy page grand names)) grand := by
  induction names generalizing grand with
  | nil => rfl
  | cons name names ih =>
    simp only [turns, walk_eq, stages, allVerdicts, List.flatMap_cons, afterAll_append]
    rw [← allVerdicts, ← ih]
    simp only [pageAfter, List.getLast?_cons, Option.map_some, Option.getD_some]
    cases (turns policy page _ names).getLast? <;> rfl

def turnsOf (ts : List Turn) (name : String) : List Turn := ts.filter (·.name == name)

/-- a name has as many turns as it is listed -/
theorem length_turnsOf (policy : MalformedPolicy) (page : Page) (grand : Totals) (names : List String) (name : String) :
    (turnsOf (turns policy page grand names) name).length = names.count name := by
  have hnames : (turns policy page grand names).map (·.name) = names := by
    have hgist := congrArg (List.map Prod.fst) (gist_turns policy page grand names)
    rw [List.map_map, List.map_map] at hgist
    exact hgist.trans (map_name_stages policy page grand names)
  rw [turnsOf, ← List.countP_eq_length_filter, List.count_eq_countP]
  nth_rewrite 2 [← hnames]
  rw [List.countP_map]
  rfl

theorem gist_turnsOf (policy : MalformedPolicy) (page : Page) (grand : Totals) (names : List String) (name : String) :
    (turnsOf (turns policy page grand names) name).map Turn.gist =
      (stagesOf (stages policy page grand names) name).map Stage.gist := by
  have hturns : ∀ ts : List Turn, (turnsOf ts name).map Turn.gist = (ts.map Turn.gist).filter (·.1 == name) :=
    fun ts => by rw [turnsOf, List.filter_map]; rfl
  have hstages : ∀ ss : List Stage, (stagesOf ss name).map Stage.gist = (ss.map Stage.gist).filter (·.1 == name) :=
    fun ss => by rw [stagesOf, List.filter_map]; rfl
  rw [hturns, hstages, gist_turns]

/-- how many amounts are in the categories that are accepted -/
def Turn.amounts (page : Page) (turn : Turn) : ℕ :=
  (List.zipWith (fun c own => if own.isSome then c.rows.length else 0) (page.sequence [turn.name]) turn.accepted).sum

/-- as many amounts are added as there are in the categories that the reference accepts -/
theorem amountsAdded_turns (options : Options) (page : Page) (names : List String) :
    (renderPage options page names).report.amountsAdded =
      ((turns options.malformed page .zero names).map (Turn.amounts page)).sum := by
  -- both depend on what a turn and a stage have in common
  have hamounts : Turn.amounts page = (fun x : String × List (Option Totals) × Totals =>
      (List.zipWith (fun c own => if own.isSome then c.rows.length else 0) (page.sequence [x.1]) x.2.1).sum) ∘
        Turn.gist := rfl
  have hadded : ∀ (c : Category) (v : Verdict), (if v.own?.isSome then c.rows.length else 0) = v.added c := by
    intro c v
    cases v <;> rfl
  rw [amountsAdded_renderPage, hamounts, ← List.map_map, gist_turns, List.map_map]
  refine congrArg List.sum (List.map_congr_left fun s _ => ?_)
  simp only [Function.comp_apply, Stage.gist, List.zipWith_map_right, hadded]

/-- what is taken into the totals comes to the sums of its own texts -/
theorem own?_of_taken {policy : MalformedPolicy} {line : List Totals} {cs : List Category} {k : ℕ} {c : Category}
    {own : Totals} (hc : cs[k]? = some c) (h : (verdicts policy line cs)[k]? = some (.taken own)) :
    own? policy c.amountTexts = some own := by
  obtain ⟨line', hverdict⟩ := exists_line_of_getElem?_verdicts hc h
  exact own?_eq_some_iff.2 (sums_of_verdict hverdict.symm)

theorem unsigned_own? {policy : MalformedPolicy} {c : Category} {own : Totals}
    (h : own? policy c.amountTexts = some own) : own.Unsigned := unsigned_of_ofBatch? (own?_eq_some_iff.1 h).2

/-- running totals stay unsigned if all that is taken is -/
theorem Verdict.unsigned_afterAll {vs : List Verdict} (h : ∀ own, .taken own ∈ vs → own.Unsigned) {t : Totals}
    (ht : t.Unsigned) : (afterAll vs t).Unsigned := by
  induction vs generalizing t with
  | nil => exact ht
  | cons v vs ih =>
    have hstep : (v.after t).Unsigned := by
      cases v with
      | rejected => exact ht
      | overflow => exact ht
      | taken own =>
        rw [Verdict.after]
        cases hpost : own.post? t with
        | none => exact ht
        | some u => exact ht.of_atMost (atMost_of_post? (h own List.mem_cons_self) ht hpost)
    exact ih (fun own hown => h own (List.mem_cons_of_mem _ hown)) hstep

/-- what is taken is unsigned, whatever stands above it -/
theorem unsigned_of_mem_verdicts {policy : MalformedPolicy} {line : List Totals} {cs : List Category} {own : Totals}
    (h : .taken own ∈ verdicts policy line cs) : own.Unsigned := by
  obtain ⟨k, hk⟩ := List.mem_iff_getElem?.1 h
  obtain ⟨hlt, -⟩ := List.getElem?_eq_some_iff.1 hk
  rw [length_verdicts] at hlt
  exact unsigned_own? (own?_of_taken (List.getElem?_eq_getElem hlt) hk)

theorem unsigned_of_mem_stages {policy : MalformedPolicy} {page : Page} {grand : Totals} {names : List String}
    {s : Stage} (hs : s ∈ stages policy page grand names) {own : Totals} (hown : .taken own ∈ s.verdicts) :
    own.Unsigned := by
  obtain ⟨g, hverdicts⟩ := exists_line_of_mem_stages hs
  rw [hverdicts] at hown
  exact unsigned_of_mem_verdicts hown

/-! ## The page -/

/-- what the reference says of a tree, in its turns, is what becomes of it -/
structure Reflects (options : Options) (ts : List Turn) (t u : Tree) : Prop where
  covers : ∀ turn ∈ ts, turn.accepted.length = t.categories.length
  accepted : ∀ turn ∈ ts, ∀ (k : ℕ) (c : Category) (own : Totals), t.categories[k]? = some c →
    turn.accepted[k]? = some (some own) → own? options.malformed c.amountTexts = some own ∧
      ∃ d, u.categories[k]? = some d ∧ own.ShownIn options.format c.totals d.totals
  leftOut : ∀ (k : ℕ) (c : Category), t.categories[k]? = some c → (∀ turn ∈ ts, turn.accepted[k]? = some none) →
    ∃ d, u.categories[k]? = some d ∧ d.totals = c.totals
  total : ∀ last, ts.getLast? = some last → last.after.tree.ShownIn options.format t.total u.total

section Reflects

variable {options : Options} {page : Page} {names : List String} {t : Tree}

theorem exists_stage_of_turn {turn : Turn} (h : turn ∈ turnsOf (turns options.malformed page .zero names) t.name) :
    ∃ s ∈ stagesOf (pageStages options page names) t.name, s.gist = turn.gist := by
  have hgist := List.mem_map_of_mem (f := Turn.gist) h
  rw [gist_turnsOf] at hgist
  exact List.mem_map.1 hgist

theorem exists_turn_of_stage {s : Stage} (h : s ∈ stagesOf (pageStages options page names) t.name) :
    ∃ turn ∈ turnsOf (turns options.malformed page .zero names) t.name, turn.gist = s.gist := by
  have hgist := List.mem_map_of_mem (f := Stage.gist) h
  rw [← gist_turnsOf] at hgist
  exact List.mem_map.1 hgist

theorem verdicts_of_mem_stagesOf (ht : page.findTree? t.name = some t) {s : Stage}
    (hs : s ∈ stagesOf (pageStages options page names) t.name) :
    ∃ g, s.verdicts = verdicts options.malformed [.zero, g] t.categories := by
  obtain ⟨hs, hname⟩ := List.mem_filter.1 hs
  obtain ⟨g, hg⟩ := exists_line_of_mem_stages hs
  rw [eq_of_beq hname, Page.sequence_of_some ht] at hg
  exact ⟨g, hg⟩

theorem own?_of_mem_stagesOf (ht : page.findTree? t.name = some t) {s : Stage}
    (hs : s ∈ stagesOf (pageStages options page names) t.name) {k : ℕ} {c : Category} (hc : t.categories[k]? = some c)
    {own : Totals} (hv : s.verdicts[k]? = some (.taken own)) : own? options.malformed c.amountTexts = some own := by
  obtain ⟨g, hg⟩ := verdicts_of_mem_stagesOf ht hs
  rw [hg] at hv
  exact own?_of_taken hc hv

/-- whichever stage takes a category, the texts are those of the sums of its own amounts -/
theorem newTexts_of_taken (ht : page.findTree? t.name = some t) {s : Stage}
    (hs : s ∈ stagesOf (pageStages options page names) t.name) {k : ℕ} {c : Category} (hc : t.categories[k]? = some c)
    {own : Totals} (hv : s.verdicts[k]? = some (.taken own)) :
    newTexts options.format (stagesOf (pageStages options page names) t.name) k = some (own.sinks options.format) := by
  have hsome : (newTexts options.format (stagesOf (pageStages options page names) t.name) k).isSome :=
    isSome_newTexts_iff.2 ⟨s, hs, own, hv⟩
  obtain ⟨texts, htexts⟩ := Option.isSome_iff_exists.1 hsome
  obtain ⟨s', hs', own', hv', rfl⟩ := exists_taken_of_newTexts htexts
  have hown := own?_of_mem_stagesOf ht hs hc hv
  have hown' := own?_of_mem_stagesOf ht hs' hc hv'
  rw [htexts, Option.some.inj (hown.symm.trans hown')]

/-- what no turn accepts has no new texts -/
theorem newTexts_eq_none {k : ℕ}
    (h : ∀ turn ∈ turnsOf (turns options.malformed page .zero names) t.name, turn.accepted[k]? = some none) :
    newTexts options.format (stagesOf (pageStages options page names) t.name) k = none := by
  rw [Option.eq_none_iff_forall_ne_some]
  intro texts htexts
  obtain ⟨s, hs, own, hv, -⟩ := exists_taken_of_newTexts htexts
  obtain ⟨turn, hturn, hgist⟩ := exists_turn_of_stage hs
  have haccepted : turn.accepted = s.verdicts.map Verdict.own? := congrArg (·.2.1) hgist
  have hleft := h turn hturn
  rw [haccepted, List.getElem?_map, hv] at hleft
  cases Option.some.inj hleft

/-- the register of the tree after the last turn is that of the last stage -/
theorem total_of_last {last : Turn} (h : (turnsOf (turns options.malformed page .zero names) t.name).getLast? = some last) :
    last.after.tree.Unsigned ∧ (rendered options page names t).total =
      Sinks.overwrite (some (last.after.tree.sinks options.format)) t.total := by
  have hgist := congrArg List.getLast? (gist_turnsOf options.malformed page .zero names t.name)
  rw [List.getLast?_map, List.getLast?_map, h, Option.map_some, eq_comm, Option.map_eq_some_iff] at hgist
  obtain ⟨s, hs, hsame⟩ := hgist
  have htree : afterAll s.verdicts .zero = last.after.tree := congrArg (·.2.2) hsame
  have hmem : s ∈ pageStages options page names := (List.mem_filter.1 (List.mem_of_getLast? hs)).1
  refine ⟨?_, ?_⟩
  · rw [← htree]
    exact Verdict.unsigned_afterAll (fun own hown => unsigned_of_mem_stages hmem hown) unsigned_zero
  · rw [rendered, total_written, hs, Option.map_some, htree, total_iterate_renumberTree]

theorem reflects_rendered (ht : page.findTree? t.name = some t) :
    Reflects options (turnsOf (turns options.malformed page .zero names) t.name) t (rendered options page names t) := by
  refine ⟨?_, ?_, ?_, ?_⟩
  · intro turn hturn
    obtain ⟨s, hs, hgist⟩ := exists_stage_of_turn hturn
    obtain ⟨g, hg⟩ := verdicts_of_mem_stagesOf ht hs
    have haccepted : s.verdicts.map Verdict.own? = turn.accepted := congrArg (·.2.1) hgist
    rw [← haccepted, List.length_map, hg, length_verdicts]
  · intro turn hturn k c own hc hk
    obtain ⟨s, hs, hgist⟩ := exists_stage_of_turn hturn
    have haccepted : s.verdicts.map Verdict.own? = turn.accepted := congrArg (·.2.1) hgist
    rw [← haccepted, List.getElem?_map, Option.map_eq_some_iff] at hk
    obtain ⟨v, hv, hvown⟩ := hk
    obtain rfl := Verdict.own?_eq_some_iff.1 hvown
    have hown := own?_of_mem_stagesOf ht hs hc hv
    obtain ⟨d, hd, htotals⟩ := exists_category_rendered options page names hc
    rw [newTexts_of_taken ht hs hc hv] at htotals
    refine ⟨hown, d, hd, ?_⟩
    rw [htotals]
    exact (unsigned_own? hown).shownIn options.format c.totals
  · intro k c hc hk
    obtain ⟨d, hd, htotals⟩ := exists_category_rendered options page names hc
    rw [newTexts_eq_none hk, Sinks.overwrite_none] at htotals
    exact ⟨d, hd, htotals⟩
  · intro last hlast
    obtain ⟨hunsigned, htotal⟩ := total_of_last hlast
    rw [htotal]
    exact hunsigned.shownIn options.format t.total

end Reflects

/-- **The reference.** It says which categories are added, and the rendered page shows what it comes to: the sums of its
own texts in each category that it accepts, in each tree its register after the last turn of the name, and in the place
for the grand total the register of the page after the last name -/
theorem renderPage_reference (options : Options) (page : Page) (names : List String) :
    let ts := turns options.malformed page .zero names
    let out := renderPage options page names
    (∀ r c count own line, outcome options.malformed [r.tree, r.page] c = .added count own line ↔
        count = c.rows.length ∧ ∃ after, Accepts options.malformed r c own after ∧ line = [after.tree, after.page]) ∧
      (∀ r c own after, accept? options.malformed r c = some (own, after) ↔ Accepts options.malformed r c own after) ∧
      (∀ name t, page.findTree? name = some t → (turnsOf ts name).length = names.count name ∧
        ∃ u, out.page.findTree? name = some u ∧ Reflects options (turnsOf ts name) t u) ∧
      (pageAfter .zero ts).ShownIn options.format page.grandTotal out.page.grandTotal ∧
      out.report.amountsAdded = (ts.map (Turn.amounts page)).sum := by
  refine ⟨fun _ _ _ _ _ => outcome_eq_added_iff_accepts, fun _ _ _ _ => accept?_eq_some_iff, ?_, ?_, ?_⟩
  · intro name t ht
    obtain rfl : t.name = name := by simpa using List.find?_some ht
    refine ⟨length_turnsOf options.malformed page .zero names t.name, rendered options page names t, ?_, ?_⟩
    · rw [findTree?_renderPage, ht, Option.map_some]
    · exact reflects_rendered ht
  · rw [grandTotal_renderPage, pageAfter_turns]
    refine Totals.Unsigned.shownIn (Verdict.unsigned_afterAll (fun own hown => ?_) unsigned_zero) options.format _
    obtain ⟨s, hs, hown⟩ := List.mem_flatMap.1 hown
    exact unsigned_of_mem_stages hs hown
  · exact amountsAdded_turns options page names

/-- a name that is listed twice: the second turn starts from an empty register for the tree, and finds the register of
the page all but full -/
theorem renderPage_reference_twice :
    let options : Options := ⟨.prepend, .reject, .plain⟩
    let names := [importedName, importedName]
    let ts := turns options.malformed (cutAt 5) .zero names
    let out := renderPage options (cutAt 5) names
    ts.map (fun turn => turn.accepted.map Option.isSome) =
        [[true, true, false, true, false], [false, false, false, true, false]] ∧
      (out.page.findTree? importedName).map (·.total) = some (some ⟨"0.00", "3.25", "-3.25"⟩) ∧
      out.page.grandTotal = some ⟨"79228162514264337593543950335.00", "6.50", "79228162514264337593543950328.00"⟩ ∧
      (∀ name t, (cutAt 5).findTree? name = some t → (turnsOf ts name).length = names.count name ∧
        ∃ u, out.page.findTree? name = some u ∧ Reflects options (turnsOf ts name) t u) := by
  obtain ⟨-, -, hreflects, -, -⟩ :=
    renderPage_reference ⟨.prepend, .reject, .plain⟩ (cutAt 5) [importedName, importedName]
  exact ⟨by decide +kernel, by decide +kernel, by decide +kernel, hreflects⟩

end Rollup

end LedgerTotals
