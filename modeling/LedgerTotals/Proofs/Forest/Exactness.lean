/-
Runs of operations whose totals are exact.

A posting counts at the account it names and at every account above it, and `received` lists what counts at an account.
`Exact` is the invariant: debit and credit of every account are the sums over what it received. Creating an account
keeps it, and so does a posting as long as all amounts together fit one scale: every sum that is then formed, within a
batch or at an account, is a sum of some of these amounts, so nothing is rounded and nothing overflows.

Main result: `run_exact`. It also says that only the accounts created and the amounts posted to each of them count, not
the order of the postings nor their batches.
-/
import LedgerTotals.Proofs.Forest.Posting

namespace LedgerTotals

open Decimal

namespace Forest

/-! ## What a run posts, and what an account receives of it -/

/-- every amount a run posts, with the account it is posted to -/
def postings (steps : List Step) : List (ℕ × Decimal) :=
  steps.flatMap fun
    | .post i amounts => amounts.map fun a => (i, a)
    | _ => []

/-- the amounts posted to account `j` or to an account below it -/
def received (f : Forest) (j : ℕ) (ps : List (ℕ × Decimal)) : List ℚ :=
  (ps.filter fun p => (f.line p.1).contains j).map fun p => p.2.toRat

theorem postings_cons (s : Step) (steps : List Step) : postings (s :: steps) = postings [s] ++ postings steps := by
  simp [postings]

theorem postings_post (i : ℕ) (amounts : List Decimal) :
    postings [.post i amounts] = amounts.map fun a => (i, a) := by
  simp [postings]

theorem received_append (f : Forest) (j : ℕ) (ps qs : List (ℕ × Decimal)) :
    f.received j (ps ++ qs) = f.received j ps ++ f.received j qs := by
  simp [received]

theorem received_sublist (f : Forest) (j : ℕ) (ps : List (ℕ × Decimal)) :
    (f.received j ps).Sublist (ps.map fun p => p.2.toRat) :=
  List.filter_sublist.map _

theorem received_congr {f g : Forest} {j : ℕ} {ps : List (ℕ × Decimal)} (h : ∀ p ∈ ps, g.line p.1 = f.line p.1) :
    g.received j ps = f.received j ps := by
  rw [received, received, List.filter_congr fun p hp => by rw [h p hp]]

theorem received_on_line {f : Forest} {i j : ℕ} (h : j ∈ f.line i) (amounts : List Decimal) :
    f.received j (amounts.map fun a => (i, a)) = amounts.map toRat := by
  simp [received, List.filter_map, Function.comp_def, h]

theorem received_off_line {f : Forest} {i j : ℕ} (h : j ∉ f.line i) (amounts : List Decimal) :
    f.received j (amounts.map fun a => (i, a)) = [] := by
  simp [received, List.filter_map, Function.comp_def, h]

/-! ## The invariant -/

/-- all postings so far named accounts that are there, and every account has exactly what it received -/
structure Exact (f : Forest) (ps : List (ℕ × Decimal)) : Prop where
  wellFormed : WellFormed f
  named : ∀ p ∈ ps, p.1 < f.accounts.length
  sums : ∀ j < f.accounts.length, (f.totalsAt j).SumsTo (f.received j ps)

theorem exact_empty : Exact empty [] :=
  ⟨wellFormed_empty, by simp, by simp [empty]⟩

theorem received_of_new {f : Forest} (hf : WellFormed f) (ps : List (ℕ × Decimal)) :
    f.received f.accounts.length ps = [] := by
  rw [received, List.map_eq_nil_iff, List.filter_eq_nil_iff]
  intro p _ hmem
  exact absurd (hf.line_lt (by simpa using hmem)) (Nat.lt_irrefl _)

/-- a new account has received nothing, and has no totals yet -/
theorem Exact.append {f : Forest} {ps : List (ℕ × Decimal)} (h : Exact f ps) {a : Account} (htot : a.totals = .zero)
    (hanc : a.ancestors = [] ∨ ∃ p, a.ancestors = f.line p) : Exact ⟨f.accounts ++ [a]⟩ ps := by
  have hlen : (⟨f.accounts ++ [a]⟩ : Forest).accounts.length = f.accounts.length + 1 := by simp
  refine ⟨h.wellFormed.append hanc, fun p hp => ?_, fun j hj => ?_⟩
  · rw [hlen]
    exact Nat.lt_succ_of_lt (h.named p hp)
  · rw [received_congr fun p hp => line_append a (h.named p hp)]
    rcases Nat.lt_succ_iff_lt_or_eq.1 (hlen ▸ hj) with hj | rfl
    · rw [totalsAt_append a hj]
      exact h.sums j hj
    · rw [totalsAt_of_account? (a := a) (by simp [account?]), htot, received_of_new h.wellFormed]
      exact Totals.sumsTo_zero

/-- a posting goes through and keeps the invariant if all amounts, its own included, fit one scale -/
theorem Exact.post {f : Forest} {ps : List (ℕ × Decimal)} (h : Exact f ps) {s : ℕ} (hs : s ≤ maxScale) {i : ℕ}
    (hi : i < f.accounts.length) {amounts : List Decimal}
    (hfits : FitsAt s ((ps ++ postings [.post i amounts]).map fun p => p.2.toRat)) :
    ∃ g, f.post? i amounts = some g ∧ Exact g (ps ++ postings [.post i amounts]) := by
  rw [postings_post] at hfits ⊢
  have hown : FitsAt s (amounts.map toRat) := by
    refine hfits.of_subperm (List.Sublist.subperm ?_)
    simp [Function.comp_def]
  obtain ⟨batch, hbatch, hbsum⟩ := Totals.ofBatch?_exact (hown.debits.lossless hs) (hown.credits.lossless hs)
  have hline : ∀ j ∈ f.line i, ∃ u, batch.post? (f.totalsAt j) = some u ∧
      u.SumsTo (f.received j (ps ++ amounts.map fun a => (i, a))) := by
    intro j hj
    have hfitsj := hfits.of_subperm (received_sublist f j _).subperm
    rw [received_append, received_on_line hj] at hfitsj ⊢
    exact Totals.post?_exact_of_fitsAt hs (h.sums j (h.wellFormed.line_lt hj)) hbsum hfitsj
  have hsome : (f.post? i amounts).isSome := post?_isSome_iff.2 ⟨batch, hbatch, fun j hj => by
    obtain ⟨u, hu, -⟩ := hline j hj
    exact Option.isSome_iff_exists.2 ⟨u, hu⟩⟩
  obtain ⟨g, hg⟩ := Option.isSome_iff_exists.1 hsome
  obtain ⟨batch', hbatch', hon, hoff⟩ := totals_of_post? h.wellFormed hg
  obtain rfl : batch = batch' := Option.some.inj (hbatch.symm.trans hbatch')
  obtain ⟨_, totals, -, -, rfl⟩ := post?_eq_some_iff.1 hg
  refine ⟨_, hg, h.wellFormed.setTotals _ _, fun p hp => ?_, fun j hj => ?_⟩
  · rw [length_setTotals]
    rcases List.mem_append.1 hp with hp | hp
    · exact h.named p hp
    · obtain ⟨a, -, rfl⟩ := List.mem_map.1 hp
      exact hi
  · rw [length_setTotals] at hj
    rw [received_congr fun p _ => line_setTotals f _ totals p.1]
    by_cases hmem : j ∈ f.line i
    · obtain ⟨u, hu, husum⟩ := hline j hmem
      rw [Option.some.inj ((hon j hmem).symm.trans hu)]
      exact husum
    · have hsame : (f.setTotals (f.line i) totals).totalsAt j = f.totalsAt j := by
        simp only [totalsAt, hoff j hmem]
      rw [hsame, received_append, received_off_line hmem, List.append_nil]
      exact h.sums j hj

/-- an operation keeps the invariant if all amounts so far, its own included, fit one scale; a posting goes through -/
theorem Exact.step {f : Forest} {ps : List (ℕ × Decimal)} (h : Exact f ps) {s : ℕ} (hs : s ≤ maxScale) {step : Step}
    {steps : List Step} (hground : Grounded f.accounts.length (step :: steps))
    (hfits : FitsAt s ((ps ++ postings [step]).map fun p => p.2.toRat)) :
    (∀ i amounts, step = .post i amounts → (f.post? i amounts).isSome) ∧
      Exact (f.step step) (ps ++ postings [step]) := by
  cases step with
  | root =>
    refine ⟨by simp, ?_⟩
    simpa [postings, Forest.step, addRoot] using h.append (a := ⟨.zero, []⟩) rfl (.inl rfl)
  | child p =>
    refine ⟨by simp, ?_⟩
    simpa [postings, Forest.step, addChild] using h.append (a := ⟨.zero, f.line p⟩) rfl (.inr ⟨p, rfl⟩)
  | post i amounts =>
    obtain ⟨g, hg, hexact⟩ := h.post hs hground.1 hfits
    refine ⟨fun i' amounts' heq => ?_, by rw [step_of_post? hg]; exact hexact⟩
    obtain ⟨rfl, rfl⟩ := Step.post.inj heq
    exact Option.isSome_iff_exists.2 ⟨g, hg⟩

/-- all postings of a run go through, and the run keeps the invariant -/
theorem Exact.run {f : Forest} {ps : List (ℕ × Decimal)} (h : Exact f ps) {s : ℕ} (hs : s ≤ maxScale)
    {steps : List Step} (hground : Grounded f.accounts.length steps)
    (hfits : FitsAt s ((ps ++ postings steps).map fun p => p.2.toRat)) :
    (∀ pre i amounts post, steps = pre ++ .post i amounts :: post → ((f.run pre).post? i amounts).isSome) ∧
      Exact (f.run steps) (ps ++ postings steps) := by
  induction steps generalizing f ps with
  | nil =>
    refine ⟨fun pre i amounts post heq => by simp at heq, ?_⟩
    simpa [postings, Forest.run] using h
  | cons step steps ih =>
    rw [postings_cons, ← List.append_assoc] at hfits ⊢
    have hfirst : FitsAt s ((ps ++ postings [step]).map fun p => p.2.toRat) := by
      rw [List.map_append] at hfits
      exact hfits.of_subperm (List.sublist_append_left _ _).subperm
    obtain ⟨hgo, hexact⟩ := h.step hs hground hfirst
    obtain ⟨hall, hlast⟩ := ih hexact hground.of_cons hfits
    refine ⟨fun pre i amounts post heq => ?_, hlast⟩
    cases pre with
    | nil =>
      obtain ⟨rfl, -⟩ := List.cons.inj heq
      exact hgo i amounts rfl
    | cons first pre =>
      obtain ⟨rfl, htail⟩ := List.cons.inj heq
      exact hall pre i amounts post htail

/-! ## Exactness -/

open Classical in
/-- by these links to parents, the amounts posted to account `j` or to an account below it -/
noncomputable def postedUnder (parents : List (Option ℕ)) (j : ℕ) (ps : List (ℕ × Decimal)) : List ℚ :=
  (ps.filter fun p => Reaches parents p.1 j).map fun p => p.2.toRat

open Classical in
theorem received_eq_postedUnder {f : Forest} (hf : WellFormed f) (j : ℕ) (ps : List (ℕ × Decimal)) :
    f.received j ps = postedUnder f.parents j ps := by
  rw [received, postedUnder]
  congr 1
  refine List.filter_congr fun p _ => ?_
  rw [Bool.eq_iff_iff, List.contains_iff_mem, hf.mem_line_iff, decide_eq_true_iff]
  rfl

theorem postedUnder_perm {parents : List (Option ℕ)} {j : ℕ} {ps qs : List (ℕ × Decimal)} (h : ps.Perm qs) :
    (postedUnder parents j ps).Perm (postedUnder parents j qs) :=
  (h.filter _).map _

/-- **Exact roll-up.** Take any run from no accounts whose operations name only accounts created before them, and whose
amounts all have at most s ≤ 28 places and, in units of 10^-s, absolute values that add up to less than 2^96. Then
every posting goes through, and at the end every account shows exactly the figures of the amounts posted to it or to
an account below it, each counted once. Any other such run that creates the same accounts and posts the same amounts
to them, in whatever order and batches, ends with the same figures. -/
theorem run_exact (steps : List Step) (hground : Grounded 0 steps) (s : ℕ) (hs : s ≤ maxScale)
    (hscale : ∀ p ∈ postings steps, p.2.scale ≤ s)
    (hsum : ((postings steps).map fun p => |p.2.toRat| * 10 ^ s).sum < 2 ^ 96) :
    (∀ pre i amounts post, steps = pre ++ .post i amounts :: post → ((empty.run pre).post? i amounts).isSome) ∧
    (empty.run steps).accounts.length = (created steps).length ∧
    (∀ j < (created steps).length, ((empty.run steps).totalsAt j).figures =
      Figures.ofAmounts (postedUnder (created steps) j (postings steps))) ∧
    ∀ steps', Grounded 0 steps' → created steps' = created steps → (postings steps').Perm (postings steps) →
      ∀ j < (created steps).length,
        ((empty.run steps').totalsAt j).figures = ((empty.run steps).totalsAt j).figures := by
  have hfits : FitsAt s ((postings steps).map fun p => p.2.toRat) := by
    refine ⟨fun q hq => ?_, ?_⟩
    · obtain ⟨p, hp, rfl⟩ := List.mem_map.1 hq
      exact hasPlaces_toRat (hscale p hp)
    · rw [List.sum_map_mul_right] at hsum
      simpa [Function.comp_def] using hsum
  have hlength : ∀ steps', Grounded 0 steps' → (empty.run steps').accounts.length = (created steps').length := by
    intro steps' hground'
    rw [← length_parents, parents_run (f := empty) hground']
    rfl
  -- the figures at the end, for any run whose amounts fit
  have hfigures : ∀ steps', Grounded 0 steps' → FitsAt s ((postings steps').map fun p => p.2.toRat) →
      ∀ j < (created steps').length, ((empty.run steps').totalsAt j).figures =
        Figures.ofAmounts (postedUnder (created steps') j (postings steps')) := by
    intro steps' hground' hfits' j hj
    have hexact := (exact_empty.run hs hground' (by simpa using hfits')).2
    have hparents : (empty.run steps').parents = created steps' := parents_run (f := empty) hground'
    rw [← hparents, ← received_eq_postedUnder hexact.wellFormed]
    exact (hexact.sums j (hlength steps' hground' ▸ hj)).figures
      ((hfits'.of_subperm (received_sublist _ j _).subperm).representable hs)
  refine ⟨(exact_empty.run hs hground (by simpa using hfits)).1, hlength steps hground,
    hfigures steps hground hfits, fun steps' hground' hcreated hperm j hj => ?_⟩
  rw [hfigures steps hground hfits j hj,
    hfigures steps' hground' (hfits.of_subperm (hperm.map _).subperm) j (hcreated ▸ hj), hcreated,
    Figures.ofAmounts_perm (postedUnder_perm hperm)]

/-- a root with two accounts below it, posted to at either level -/
def branches : List Step :=
  [.root, .child 0,
    .post 1 [⟨false, 15, 1, by decide, Decimal.one_le_maxScale⟩, ⟨true, 25, 2, by decide, Decimal.two_le_maxScale⟩],
    .child 0, .post 2 [⟨false, 3, 0, by decide, Nat.zero_le _⟩], .post 0 [],
    .post 0 [⟨true, 100, 2, by decide, Decimal.two_le_maxScale⟩]]

theorem run_exact_branches :
    Grounded 0 branches ∧ (∀ p ∈ postings branches, p.2.scale ≤ 2) ∧
      ((postings branches).map fun p => |p.2.toRat| * 10 ^ 2).sum < 2 ^ 96 ∧
      ∀ j < (created branches).length, ((empty.run branches).totalsAt j).figures =
        Figures.ofAmounts (postedUnder (created branches) j (postings branches)) := by
  have hground : Grounded 0 branches := by simp [Grounded, branches]
  have hscale : ∀ p ∈ postings branches, p.2.scale ≤ 2 := by decide
  have hsum : ((postings branches).map fun p => |p.2.toRat| * 10 ^ 2).sum < 2 ^ 96 := by decide +kernel
  exact ⟨hground, hscale, hsum, (run_exact branches hground 2 (by decide) hscale hsum).2.2.1⟩

end Forest

end LedgerTotals
