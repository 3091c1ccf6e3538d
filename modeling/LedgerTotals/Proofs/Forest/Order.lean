/-
Accounts in order of size: an account never has more than the accounts above it.

What is posted to an account is posted to all above it, so this is plain arithmetic as long as sums are exact. Sums that
are too long for a decimal are rounded, at a scale that may differ from one account of a line to the next, and the order
survives because rounding keeps it (`Totals.post?_mono`).

`Layered` is the invariant. Every operation keeps it, whether it goes through or stops (`Layered.step`), and none of
them lowers a total (`Layered.atMost_step`). Main result: `reachable_layered`.
-/
import LedgerTotals.Proofs.Forest.Posting
import LedgerTotals.Proofs.Totals.Order

namespace LedgerTotals

namespace Forest

open Totals

/-! ## Lines of accounts -/

theorem Reaches.trans {parents : List (Option ℕ)} {i j k : ℕ} (hij : Reaches parents i j) (hjk : Reaches parents j k) :
    Reaches parents i k := by
  induction hij with
  | self _ => exact hjk
  | up hp _ ih => exact .up hp (ih hjk)

/-- above an account that is above `i` there is nothing but what is above `i` -/
theorem WellFormed.line_trans {f : Forest} (hf : WellFormed f) {i j k : ℕ} (hj : j ∈ f.line i) (hk : k ∈ f.line j) :
    k ∈ f.line i :=
  hf.mem_line_iff.2 (Reaches.trans (hf.mem_line_iff.1 hj) (hf.mem_line_iff.1 hk))

/-! ## The invariant -/

/-- no total is below zero, and none is above that of an account further up -/
structure Layered (f : Forest) : Prop where
  wellFormed : WellFormed f
  unsigned : ∀ j, (f.totalsAt j).Unsigned
  above : ∀ i, ∀ j ∈ f.line i, (f.totalsAt i).AtMost (f.totalsAt j)

theorem layered_empty : Layered empty :=
  ⟨wellFormed_empty, fun _ => unsigned_zero, fun _ _ h => by simp [line, empty, account?] at h⟩

/-- a new account has nothing in it -/
theorem totalsAt_new {f : Forest} {a : Account} (htot : a.totals = .zero) (j : ℕ) :
    totalsAt ⟨f.accounts ++ [a]⟩ j = f.totalsAt j := by
  rcases Nat.lt_trichotomy j f.accounts.length with hj | rfl | hj
  · exact totalsAt_append a hj
  · rw [totalsAt_of_account? (a := a) (by simp [account?]), htot, totalsAt, account?_eq_none le_rfl]
  · rw [totalsAt, totalsAt, account?_eq_none (by simp; omega), account?_eq_none hj.le]

theorem Layered.append {f : Forest} (h : Layered f) {a : Account} (htot : a.totals = .zero)
    (hanc : a.ancestors = [] ∨ ∃ p, a.ancestors = f.line p) : Layered ⟨f.accounts ++ [a]⟩ := by
  refine ⟨h.wellFormed.append hanc, fun j => ?_, fun i j hj => ?_⟩
  · rw [totalsAt_new htot]
    exact h.unsigned j
  · rw [totalsAt_new htot, totalsAt_new htot]
    by_cases hi : i < f.accounts.length
    · rw [line_append a hi] at hj
      exact h.above i j hj
    · -- whatever stands above the new account, the account itself has nothing
      rw [totalsAt, account?_eq_none (Nat.not_lt.1 hi)]
      exact (h.unsigned j).zero_atMost

/-- what a posting that goes through does to every account -/
theorem Layered.post {f g : Forest} (h : Layered f) {i : ℕ} {amounts : List Decimal} (hg : f.post? i amounts = some g) :
    Layered g ∧ ∀ j, (f.totalsAt j).AtMost (g.totalsAt j) := by
  obtain ⟨batch, hbatch, hon, hoff⟩ := totals_of_post? h.wellFormed hg
  have hunsigned := unsigned_of_ofBatch? hbatch
  have hgrow : ∀ j, (f.totalsAt j).AtMost (g.totalsAt j) := by
    intro j
    by_cases hj : j ∈ f.line i
    · exact atMost_of_post? hunsigned (h.unsigned j) (hon j hj)
    · rw [totalsAt, totalsAt, hoff j hj]
      exact AtMost.refl _
  obtain ⟨_, totals, -, -, rfl⟩ := post?_eq_some_iff.1 hg
  refine ⟨⟨h.wellFormed.setTotals _ _, fun j => (h.unsigned j).of_atMost (hgrow j), fun k j hj => ?_⟩, hgrow⟩
  rw [line_setTotals] at hj
  by_cases hk : k ∈ f.line i
  · -- both take the batch, and the smaller one stays the smaller
    obtain ⟨t, ht, hle⟩ := post?_mono hunsigned (h.unsigned k) (h.above k j hj) (hon j (h.wellFormed.line_trans hk hj))
    rw [Option.some.inj ((hon k hk).symm.trans ht)]
    exact hle
  · have hsame : (f.setTotals (f.line i) totals).totalsAt k = f.totalsAt k := by simp only [totalsAt, hoff k hk]
    rw [hsame]
    exact (h.above k j hj).trans (hgrow j)

theorem Layered.step {f : Forest} (h : Layered f) (s : Step) : Layered (f.step s) := by
  cases s with
  | root => exact h.append rfl (.inl rfl)
  | child p => exact h.append rfl (.inr ⟨p, rfl⟩)
  | post i amounts =>
    rw [Forest.step, posted_snd]
    cases hg : f.post? i amounts with
    | none => exact h
    | some g => exact (h.post hg).1

/-- no operation lowers a total, whether it goes through or stops -/
theorem Layered.atMost_step {f : Forest} (h : Layered f) (s : Step) (j : ℕ) :
    (f.totalsAt j).AtMost ((f.step s).totalsAt j) := by
  cases s with
  | root =>
    rw [Forest.step, addRoot, totalsAt_new rfl]
    exact AtMost.refl _
  | child p =>
    rw [Forest.step, addChild, totalsAt_new rfl]
    exact AtMost.refl _
  | post i amounts =>
    rw [Forest.step, posted_snd]
    cases hg : f.post? i amounts with
    | none => exact AtMost.refl _
    | some g => exact (h.post hg).2 j

theorem Layered.run {f : Forest} (h : Layered f) (steps : List Step) : Layered (f.run steps) := by
  induction steps generalizing f with
  | nil => exact h
  | cons s steps ih => exact ih (h.step s)

theorem Reachable.layered {f : Forest} (h : Reachable f) : Layered f := by
  obtain ⟨steps, rfl⟩ := h
  exact layered_empty.run steps

/-! ## Main result -/

/-- **An account never has more than the accounts above it.** In every forest that operations build from nothing,
whatever amounts are posted and whether or not the postings go through, no debit and no credit is below zero, none is
above that of the parent, or of any account further up, and no further operation lowers one of them. -/
theorem reachable_layered (f : Forest) (hf : f.Reachable) :
    (∀ j, (f.totalsAt j).Unsigned) ∧
    (∀ i p, f.parents[i]? = some (some p) → (f.totalsAt i).AtMost (f.totalsAt p)) ∧
    (∀ i j, f.AtOrAbove i j → (f.totalsAt i).AtMost (f.totalsAt j)) ∧
    ∀ s j, (f.totalsAt j).AtMost ((f.step s).totalsAt j) := by
  have h := hf.layered
  have habove : ∀ i j, f.AtOrAbove i j → (f.totalsAt i).AtMost (f.totalsAt j) := fun i j hj =>
    h.above i j (h.wellFormed.mem_line_iff.2 hj)
  refine ⟨h.unsigned, fun i p hp => habove i p ?_, habove, h.atMost_step⟩
  have hlt := h.wellFormed.parent_lt hp
  exact .up hp (.self (by rwa [length_parents]))

/-- an account with nearly all that a decimal with one place holds, and one below it that gets five hundredths: the
upper one is rounded, first to one place, where its digits have no room either, and then to none -/
def brimming : Forest :=
  empty.run [.root, .child 0,
    .post 0 [⟨false, Decimal.capacity - 1, 1, Decimal.capacity_pred_lt, Decimal.one_le_maxScale⟩],
    .post 1 [⟨false, 5, 2, by decide, Decimal.two_le_maxScale⟩]]

theorem reachable_layered_brimming :
    brimming.Reachable ∧ (brimming.totalsAt 0).debit = ⟨false, 7922816251426433759354395034, 0, by decide, by decide⟩ ∧
      (brimming.totalsAt 1).debit = ⟨false, 5, 2, by decide, by decide⟩ ∧ brimming.parents[1]? = some (some 0) ∧
      (brimming.totalsAt 1).AtMost (brimming.totalsAt 0) := by
  have hreach : brimming.Reachable := ⟨_, rfl⟩
  have hparent : brimming.parents[1]? = some (some 0) := by decide +kernel
  refine ⟨hreach, by decide +kernel, by decide +kernel, hparent, ?_⟩
  exact (reachable_layered brimming hreach).2.1 1 0 hparent

end Forest

end LedgerTotals
