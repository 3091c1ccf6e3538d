/-
The amounts on a page: what each text counts as, and which amounts stand under a list of names.

The amounts of a category are one batch, so those of a tree or a page are kept as one run for each category
(`Tree.batches`, `Page.batches` as decimals, `Page.runs` as numbers). All of them depend on the frame alone.
-/
import LedgerTotals.Proofs.Decimal.Number
import LedgerTotals.Proofs.Page.Frame

namespace LedgerTotals

open Decimal

/-- the value of the amount that a text is read as, zero if it is not an amount -/
def Amount.valueOf (text : String) : Decimal :=
  match ofText text with
  | .ok a => a.value
  | .error _ => .zero

namespace Category

def decimals (c : Category) : List Decimal := c.amountTexts.map Amount.valueOf

def amounts (c : Category) : List ℚ := c.decimals.map toRat

def Readable (c : Category) : Prop := ∀ text ∈ c.amountTexts, Rollup.isMalformed text = false

instance (c : Category) : Decidable c.Readable :=
  inferInstanceAs (Decidable (∀ text ∈ c.amountTexts, Rollup.isMalformed text = false))

/-- a text that is not an amount keeps the category out of the totals -/
def Rejected (policy : MalformedPolicy) (c : Category) : Prop :=
  policy = .reject ∧ ∃ text ∈ c.amountTexts, Rollup.isMalformed text = true

instance (policy : MalformedPolicy) (c : Category) : Decidable (c.Rejected policy) :=
  inferInstanceAs (Decidable (policy = .reject ∧ ∃ text ∈ c.amountTexts, Rollup.isMalformed text = true))

theorem Readable.not_rejected {c : Category} (h : c.Readable) (policy : MalformedPolicy) : ¬ c.Rejected policy := by
  rintro ⟨-, text, htext, hbad⟩
  rw [h text htext] at hbad
  cases hbad

theorem decimals_of_frame {c d : Category} (h : c.frame = d.frame) : c.decimals = d.decimals := by
  rw [decimals, decimals, amountTexts_of_frame h]

theorem amounts_of_frame {c d : Category} (h : c.frame = d.frame) : c.amounts = d.amounts := by
  rw [amounts, amounts, decimals_of_frame h]

theorem Readable.of_frame {c d : Category} (hc : c.Readable) (h : d.frame = c.frame) : d.Readable := by
  rw [Readable, amountTexts_of_frame h]
  exact hc

end Category

namespace Tree

/-- a batch for each category -/
def batches (t : Tree) : List (List Decimal) := t.categories.map Category.decimals

def runs (t : Tree) : List (List ℚ) := t.categories.map Category.amounts

def amounts (t : Tree) : List ℚ := t.runs.flatten

def Readable (t : Tree) : Prop := ∀ c ∈ t.categories, c.Readable

instance (t : Tree) : Decidable t.Readable := inferInstanceAs (Decidable (∀ c ∈ t.categories, c.Readable))

theorem map_batches (t : Tree) : t.batches.map (·.map toRat) = t.runs := by
  simp [batches, runs, Category.amounts, Function.comp_def]

theorem map_batches_flatten (t : Tree) : t.batches.flatten.map toRat = t.amounts := by
  rw [List.map_flatten, map_batches]
  rfl

theorem batches_of_frame {s t : Tree} (h : s.frame = t.frame) : s.batches = t.batches :=
  map_of_frames (fun _ _ => Category.decimals_of_frame) (frames_categories h)

theorem Readable.of_frame {s t : Tree} (ht : t.Readable) (h : s.frame = t.frame) : s.Readable :=
  forall_of_frames (fun _ _ => Category.Readable.of_frame) (frames_categories h) ht

end Tree

namespace Page

/-- a batch for each category of the named trees, in the order of the names -/
def batches (p : Page) (names : List String) : List (List Decimal) := (p.namedTrees names).flatMap Tree.batches

def runs (p : Page) (names : List String) : List (List ℚ) := (p.namedTrees names).flatMap Tree.runs

def amounts (p : Page) (names : List String) : List ℚ := (p.runs names).flatten

theorem map_batches (p : Page) (names : List String) : (p.batches names).map (·.map toRat) = p.runs names := by
  simp only [batches, runs, List.map_flatMap, Tree.map_batches]

theorem map_batches_flatten (p : Page) (names : List String) :
    (p.batches names).flatten.map toRat = p.amounts names := by
  rw [List.map_flatten, map_batches]
  rfl

theorem batches_cons (p : Page) (name : String) (names : List String) :
    p.batches (name :: names) = p.batches [name] ++ p.batches names := by
  rw [batches, namedTrees_cons, List.flatMap_append]
  rfl

theorem batches_of_frame {p q : Page} (h : p.frame = q.frame) (names : List String) :
    p.batches names = q.batches names := by
  rw [batches, batches, List.flatMap_def, List.flatMap_def,
    map_of_frames (fun _ _ => Tree.batches_of_frame) (namedTrees_of_frame h names)]

theorem amounts_of_frame {p q : Page} (h : p.frame = q.frame) (names : List String) :
    p.amounts names = q.amounts names := by
  rw [← map_batches_flatten, ← map_batches_flatten, batches_of_frame h]

theorem amounts_eq (p : Page) (names : List String) :
    p.amounts names = ((p.namedTrees names).map Tree.amounts).flatten := by
  rw [amounts, runs, List.flatMap_def, List.flatten_flatten, List.map_map]
  rfl

end Page

end LedgerTotals
