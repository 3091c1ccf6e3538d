/-
Numbering in place of what is there.

Labels that are numbered already stay as they are (`numbered_replace`), and so does a page whose named trees are all
numbered (`renumberTrees_eq_self`). The trees of a page are numbered after one round (`numbered_renumberTrees`).
-/
import LedgerTotals.Proofs.Page.Overwrite
import LedgerTotals.Proofs.Text.Digits

namespace LedgerTotals

open Digits

namespace Numbering

/-! ## One label -/

theorem takeWhile_digits (n : ℕ) (r : List Char) : (digits n ++ '.' :: r).takeWhile isDigit = digits n := by
  have hpoint : isDigit '.' = false := rfl
  rw [List.takeWhile_append_of_pos fun _ => isDigit_of_mem_digits, List.takeWhile_cons_of_neg (by simp [hpoint]),
    List.append_nil]

theorem stripPosition_digits (n : ℕ) (r : List Char) : stripPosition (digits n ++ '.' :: r) = r := by
  have hpoint : isDigit '.' = false := rfl
  have hdrop : (digits n ++ '.' :: r).dropWhile isDigit = '.' :: r := by
    rw [List.dropWhile_append_of_pos fun _ => isDigit_of_mem_digits, List.dropWhile_cons_of_neg (by simp [hpoint])]
  obtain ⟨d, ds, hds⟩ := List.exists_cons_of_ne_nil (digits_ne_nil n)
  rw [stripPosition, takeWhile_digits, hdrop, hds]
  rfl

/-- a position that is replaced by itself makes no difference -/
theorem numbered_replace (index : ℕ) (label : String) :
    numbered .replace index (numbered .replace index label) = numbered .replace index label := by
  simp [numbered, kept, stripPosition_digits]

/-- a label tells its position -/
theorem numbered_inj {mode : RenumberMode} {i j : ℕ} {a b : String} (h : numbered mode i a = numbered mode j b) :
    i = j := by
  have hdigits : digits (i + 1) = digits (j + 1) := by
    rw [← takeWhile_digits (i + 1) (kept mode a), ← takeWhile_digits (j + 1) (kept mode b),
      String.ofList_injective h]
  have hvalue := congrArg value hdigits
  rw [value_digits, value_digits] at hvalue
  exact Nat.succ_inj.1 hvalue

/-- the labels of a tree are distinct once they are numbered -/
theorem nodup_labels_renumberAll (mode : RenumberMode) (cs : List Category) :
    ((renumberAll mode cs).map (·.label)).Nodup := by
  rw [List.Nodup, List.pairwise_iff_getElem]
  intro i j hi hj hlt heq
  have hposition : i = j := by
    simp only [renumberAll, List.getElem_map, List.getElem_mapIdx] at heq
    exact numbered_inj heq
  omega

/-! ## One tree -/

theorem renumberTree_replace (t : Tree) :
    renumberTree .replace (renumberTree .replace t) = renumberTree .replace t := by
  simp [renumberTree, renumberAll, numbered_replace, Function.comp_def]

theorem getElem?_renumberTree (mode : RenumberMode) (t : Tree) (k : ℕ) : (renumberTree mode t).categories[k]? =
    t.categories[k]?.map fun c => { c with label := numbered mode k c.label } := by
  rw [renumberTree, renumberAll, List.getElem?_mapIdx]

theorem findTree?_renumber (mode : RenumberMode) (p : Page) (name : String) :
    (renumber mode p name).findTree? name = (p.findTree? name).map (renumberTree mode) :=
  Page.findTree?_updateTree_self (f := renumberTree mode) (fun _ => rfl) p name

theorem renumberTree_overwrite (mode : RenumberMode) (new : TreeTexts) (t : Tree) :
    renumberTree mode (t.overwrite new) = (renumberTree mode t).overwrite new := by
  simp only [renumberTree, renumberAll, Tree.overwrite]
  rw [Category.mapIdx_overwriteAll fun _ _ _ => rfl]

end Numbering

/-! ## Numbered pages -/

namespace Page

/-- the labels under these names are numbered already: to number them in place changes nothing -/
def Numbered (p : Page) (names : List String) : Prop :=
  ∀ name ∈ names, ∀ t, p.findTree? name = some t → Numbering.renumberTree .replace t = t

theorem Numbered.overwrite {p : Page} {names : List String} (h : p.Numbered names) (new : String × TreeTexts) :
    (p.overwrite new).Numbered names := by
  intro name hname t ht
  obtain ⟨other, new⟩ := new
  by_cases heq : name = other
  · rw [heq, findTree?_overwrite_self, Option.map_eq_some_iff] at ht
    obtain ⟨u, hu, rfl⟩ := ht
    rw [Numbering.renumberTree_overwrite, h name hname u (heq ▸ hu)]
  · rw [findTree?_overwrite_ne p heq] at ht
    exact h name hname t ht

theorem Numbered.overwriteAll {p : Page} {names : List String} (h : p.Numbered names)
    (news : List (String × TreeTexts)) : (p.overwriteAll news).Numbered names := by
  induction news generalizing p with
  | nil => exact h
  | cons new news ih => exact ih (h.overwrite new)

end Page

namespace Rollup

theorem renumber_keeps {p : Page} {names : List String} (h : p.Numbered names) (name : String) :
    (Numbering.renumber .replace p name).Numbered (name :: names) := by
  have hname : ∀ t : Tree, (Numbering.renumberTree .replace t).name = t.name := fun _ => rfl
  intro other hother t ht
  by_cases heq : other = name
  · rw [heq, Numbering.findTree?_renumber, Option.map_eq_some_iff] at ht
    obtain ⟨u, -, rfl⟩ := ht
    exact Numbering.renumberTree_replace u
  · rw [Numbering.renumber, Page.findTree?_updateTree_ne hname p heq] at ht
    exact h other ((List.mem_cons.1 hother).resolve_left heq) t ht

/-- one round of numbering numbers the trees of all the names -/
theorem numbered_renumberTrees (page : Page) (names : List String) :
    (renumberTrees .replace page names).Numbered names := by
  -- going through the names, those behind are numbered
  have hrun : ∀ (p : Page) (done rest : List String), p.Numbered done →
      (renumberTrees .replace p rest).Numbered (done ++ rest) := by
    intro p done rest
    induction rest generalizing p done with
    | nil => simp [renumberTrees]
    | cons name rest ih =>
      intro h
      have hrest := ih (Numbering.renumber .replace p name) (name :: done) (renumber_keeps h name)
      intro other hother
      exact hrest other (by simpa [or_left_comm] using hother)
  exact hrun page [] names (by simp [Page.Numbered])

theorem renumberTrees_eq_self {page : Page} {names : List String} (h : page.Numbered names) :
    renumberTrees .replace page names = page := by
  induction names with
  | nil => rfl
  | cons name names ih =>
    have hhead : Numbering.renumber .replace page name = page := Page.updateTree_eq_self (h name List.mem_cons_self)
    have htail := ih fun other hother => h other (List.mem_cons_of_mem _ hother)
    rw [renumberTrees, List.foldl_cons, hhead]
    exact htail

end Rollup

end LedgerTotals
