/-
Whether a posting goes through is decided at the root.

A posting adds the batch to every account from the one it names up to the root, and each of these additions can fail.
Below the root they are redundant: an account never has more than the root above it, and what the root can take, every
account with less in it can take, whatever scales their totals are rounded to (`Totals.TooLarge.of_atMost`).

- `existsUnique_root`: every account has one root above it;
- `tooLarge_root`: a batch that is too large for an account is too large for its root;
- `posted_eq_error_iff`: a posting stops exactly if the batch is too large for the root.
-/
import LedgerTotals.Proofs.Forest.Order

namespace LedgerTotals

open Totals

namespace Forest

/-! ## Roots -/

/-- there is an account `r` with nothing above it -/
def IsRoot (f : Forest) (r : ℕ) : Prop := f.parents[r]? = some none

instance (f : Forest) (r : ℕ) : Decidable (f.IsRoot r) := inferInstanceAs (Decidable (_ = _))

/-- on the way up to a root there is nothing that the root is not above -/
theorem Reaches.to_root {parents : List (Option ℕ)} {i j r : ℕ} (hj : Reaches parents i j) (hr : Reaches parents i r)
    (hroot : parents[r]? = some none) : Reaches parents j r := by
  induction hj with
  | self _ => exact hr
  | up hp _ ih =>
    cases hr with
    | self _ =>
      rw [hp] at hroot
      cases hroot
    | up hp' hr =>
      obtain rfl := Option.some.inj (Option.some.inj (hp.symm.trans hp'))
      exact ih hr

theorem WellFormed.exists_root {f : Forest} (h : WellFormed f) {i : ℕ} (hi : i < f.accounts.length) :
    ∃ r, f.AtOrAbove i r ∧ f.IsRoot r := by
  induction i using Nat.strong_induction_on with
  | _ i ih =>
    obtain ⟨a, ha⟩ := account?_isSome hi
    rcases h.above i a ha with hnil | ⟨p, hp, hline⟩
    · refine ⟨i, .self (by rwa [length_parents]), ?_⟩
      rw [IsRoot, getElem?_parents, ha, Option.map_some, hnil, List.head?_nil]
    · have hparent : f.parents[i]? = some (some p) := by
        rw [getElem?_parents, ha, Option.map_some, hline, head?_line (hp.trans hi)]
      obtain ⟨r, hr, hroot⟩ := ih p hp (hp.trans hi)
      exact ⟨r, .up hparent hr, hroot⟩

/-- **Every account has one root above it** -/
theorem WellFormed.existsUnique_root {f : Forest} (h : WellFormed f) {i : ℕ} (hi : i < f.accounts.length) :
    ∃! r, f.AtOrAbove i r ∧ f.IsRoot r := by
  obtain ⟨r, hr, hroot⟩ := h.exists_root hi
  refine ⟨r, ⟨hr, hroot⟩, fun s ⟨hs, hs'⟩ => ?_⟩
  cases Reaches.to_root hs hr hroot with
  | self _ => rfl
  | up hp _ =>
    rw [IsRoot, hp] at hs'
    cases hs'

/-! ## Postings -/

theorem posted_eq_error_iff_not_isSome (f : Forest) (i : ℕ) (amounts : List Decimal) :
    (f.posted i amounts).1 = .error ⟨⟩ ↔ ¬ (f.post? i amounts).isSome := by
  rw [← posted_isOk]
  cases (f.posted i amounts).1 with
  | ok u => simp [Except.isOk, Except.toBool]
  | error e => simp [Except.isOk, Except.toBool]

section Layered

variable {f : Forest} (h : Layered f) {i r : ℕ} (hr : f.AtOrAbove i r) (hroot : f.IsRoot r) {amounts : List Decimal}

include h hr hroot

/-- no account overflows where its root does not -/
theorem tooLarge_root {j : ℕ} (hj : f.AtOrAbove i j) (hlarge : TooLarge amounts (f.totalsAt j)) :
    TooLarge amounts (f.totalsAt r) :=
  hlarge.of_atMost (h.unsigned j) (h.above j r (h.wellFormed.mem_line_iff.2 (Reaches.to_root hj hr hroot)))

/-- **A posting stops exactly if the batch is too large for the root** -/
theorem posted_eq_error_iff : (f.posted i amounts).1 = .error ⟨⟩ ↔ TooLarge amounts (f.totalsAt r) := by
  have hw := h.wellFormed
  rw [posted_eq_error_iff_not_isSome, not_iff_comm, not_tooLarge_iff, post?_isSome_iff]
  constructor
  · rintro ⟨batch, hbatch, hpost⟩
    refine ⟨batch, hbatch, fun j hj => (not_tooLarge_iff_of_batch hbatch).1 fun hlarge => ?_⟩
    have hlarge' := tooLarge_root h hr hroot (hw.mem_line_iff.1 hj) hlarge
    exact (not_tooLarge_iff_of_batch hbatch).2 hpost hlarge'
  · rintro ⟨batch, hbatch, hline⟩
    exact ⟨batch, hbatch, hline r (hw.mem_line_iff.2 hr)⟩

end Layered

end Forest

end LedgerTotals
