/-
Figures: what totals should be, as rationals. Of a run of amounts the debit is the sum of those that are not negative,
the credit the sum of the absolute values of the others, and the total the sum of all.

- `ofAmounts_total`: the total is the debit less the credit;
- `ofAmounts_flatten`: the figures of several runs add up to those of all their amounts;
- `FitsAt.debits`, `FitsAt.credits`: amounts that fit one scale do so on either side as well;
- `ExactRoll`: no sum on the way is lost when the runs are summed one by one and their sums then added up.
-/
import LedgerTotals.Proofs.Decimal.Sum

namespace LedgerTotals

open Decimal

/-- a debit, a credit and a total -/
structure Figures where
  debit : ℚ
  credit : ℚ
  total : ℚ
  deriving DecidableEq

namespace Figures

/-- the amounts that count as debits -/
def debits (qs : List ℚ) : List ℚ := qs.filter (0 ≤ ·)

/-- the amounts that count as credits, without their sign -/
def credits (qs : List ℚ) : List ℚ := (qs.filter (· < 0)).map fun q => |q|

/-- the figures of a run of amounts -/
def ofAmounts (qs : List ℚ) : Figures := ⟨(debits qs).sum, (credits qs).sum, qs.sum⟩

/-- the figures added up, each on its own -/
def sum (xs : List Figures) : Figures := ⟨(xs.map debit).sum, (xs.map credit).sum, (xs.map total).sum⟩

@[simp] theorem debits_append (ps qs : List ℚ) : debits (ps ++ qs) = debits ps ++ debits qs := by
  simp [debits]

@[simp] theorem credits_append (ps qs : List ℚ) : credits (ps ++ qs) = credits ps ++ credits qs := by
  simp [credits]

theorem debits_flatten (runs : List (List ℚ)) : debits runs.flatten = (runs.map debits).flatten :=
  List.filter_flatten

theorem credits_flatten (runs : List (List ℚ)) : credits runs.flatten = (runs.map credits).flatten := by
  rw [credits, List.filter_flatten, List.map_flatten, List.map_map]
  rfl

theorem ofAmounts_append (ps qs : List ℚ) : ofAmounts (ps ++ qs) =
    ⟨(ofAmounts ps).debit + (ofAmounts qs).debit, (ofAmounts ps).credit + (ofAmounts qs).credit,
      (ofAmounts ps).total + (ofAmounts qs).total⟩ := by
  simp [ofAmounts]

theorem ofAmounts_flatten (runs : List (List ℚ)) : ofAmounts runs.flatten = sum (runs.map ofAmounts) := by
  induction runs with
  | nil => rfl
  | cons qs runs ih =>
    rw [List.flatten_cons, ofAmounts_append, ih]
    simp [sum]

theorem ofAmounts_debit_flatten (runs : List (List ℚ)) :
    (ofAmounts runs.flatten).debit = (runs.map fun qs => (debits qs).sum).sum := by
  show (debits runs.flatten).sum = _
  rw [debits_flatten, List.sum_flatten, List.map_map]
  rfl

theorem ofAmounts_credit_flatten (runs : List (List ℚ)) :
    (ofAmounts runs.flatten).credit = (runs.map fun qs => (credits qs).sum).sum := by
  show (credits runs.flatten).sum = _
  rw [credits_flatten, List.sum_flatten, List.map_map]
  rfl

theorem ofAmounts_total (qs : List ℚ) :
    (ofAmounts qs).total = (ofAmounts qs).debit - (ofAmounts qs).credit := by
  induction qs with
  | nil => simp [ofAmounts, debits, credits]
  | cons q qs ih =>
    simp only [ofAmounts, debits, credits, List.filter_cons, List.sum_cons] at ih ⊢
    rcases lt_or_ge q 0 with hq | hq
    · simp only [decide_eq_true_eq, not_le.2 hq, hq, ite_true, ite_false, List.map_cons, List.sum_cons, abs_of_neg hq]
      rw [ih]
      ring
    · simp only [decide_eq_true_eq, not_lt.2 hq, hq, ite_true, ite_false, List.sum_cons]
      rw [ih]
      ring

theorem ofAmounts_perm {ps qs : List ℚ} (h : ps.Perm qs) : ofAmounts ps = ofAmounts qs := by
  simp only [ofAmounts, debits, credits]
  rw [(h.filter _).sum_eq, ((h.filter _).map _).sum_eq, h.sum_eq]

/-! ## Figures that come out exactly -/

/-- no sum on the way is lost: neither within a run of amounts, nor when the sums of the runs are added up -/
structure ExactRoll (runs : List (List ℚ)) : Prop where
  debits_own : ∀ qs ∈ runs, Lossless (debits qs)
  credits_own : ∀ qs ∈ runs, Lossless (credits qs)
  debits_running : Lossless (runs.map fun qs => (debits qs).sum)
  credits_running : Lossless (runs.map fun qs => (credits qs).sum)

theorem ExactRoll.of_append {first rest : List (List ℚ)} (h : ExactRoll (first ++ rest)) : ExactRoll first := by
  refine ⟨fun qs hqs => h.debits_own qs (List.mem_append_left _ hqs),
    fun qs hqs => h.credits_own qs (List.mem_append_left _ hqs), h.debits_running.of_prefix ?_,
    h.credits_running.of_prefix ?_⟩
  · rw [List.map_append]; exact List.prefix_append _ _
  · rw [List.map_append]; exact List.prefix_append _ _

end Figures

namespace Decimal

open Figures

theorem FitsAt.debits {s : ℕ} {qs : List ℚ} (h : FitsAt s qs) : FitsAt s (debits qs) :=
  h.of_subperm List.filter_sublist.subperm

theorem FitsAt.map_abs {s : ℕ} {qs : List ℚ} (h : FitsAt s qs) : FitsAt s (qs.map fun q => |q|) := by
  refine ⟨fun q hq => ?_, ?_⟩
  · obtain ⟨p, hp, rfl⟩ := List.mem_map.1 hq
    exact (h.places p hp).abs
  · simpa [Function.comp_def] using h.small

theorem FitsAt.credits {s : ℕ} {qs : List ℚ} (h : FitsAt s qs) : FitsAt s (credits qs) :=
  (h.of_subperm List.filter_sublist.subperm).map_abs

/-- the sums of the first runs are the sum of all that is in them -/
theorem lossless_map_sum {f : List ℚ → List ℚ} (hf : ∀ runs : List (List ℚ), f runs.flatten = (runs.map f).flatten)
    {runs : List (List ℚ)} (h : Lossless (f runs.flatten)) : Lossless (runs.map fun qs => (f qs).sum) := by
  intro l hl
  obtain ⟨first, ⟨rest, hsplit⟩, rfl⟩ : ∃ first, first <+: runs ∧ l = first.map fun qs => (f qs).sum := by
    obtain ⟨rest, hrest⟩ := hl
    obtain ⟨first, rest', hruns, hfirst, -⟩ := List.map_eq_append_iff.1 hrest.symm
    exact ⟨first, ⟨rest', hruns.symm⟩, hfirst.symm⟩
  have hsum : (first.map fun qs => (f qs).sum).sum = (f first.flatten).sum := by
    rw [hf, List.sum_flatten, List.map_map]
    rfl
  rw [hsum]
  refine h _ ⟨(rest.map f).flatten, ?_⟩
  rw [← hsplit, hf, hf, List.map_append, List.flatten_append]

theorem FitsAt.exactRoll {s : ℕ} (hs : s ≤ maxScale) {runs : List (List ℚ)} (h : FitsAt s runs.flatten) :
    ExactRoll runs := by
  have hown : ∀ qs ∈ runs, FitsAt s qs := fun qs hqs =>
    h.of_subperm (List.sublist_flatten_of_mem hqs).subperm
  exact ⟨fun qs hqs => (hown qs hqs).debits.lossless hs, fun qs hqs => (hown qs hqs).credits.lossless hs,
    lossless_map_sum debits_flatten (h.debits.lossless hs), lossless_map_sum credits_flatten (h.credits.lossless hs)⟩

end Decimal

end LedgerTotals
