/-
Numbers that no longer fit.

Once the categories of a tree are numbered, some of them may be taken away and the others put into another order. To
number what is left in place of the old numbers takes exactly these off: the category that now stands at a position gets
the number of that position in front of all that stood behind its own number before, whatever that starts with
(`numbered_replace_text`). Main result: `renumber_repairs`.
-/
import LedgerTotals.Proofs.Numbering

namespace LedgerTotals.Numbering

open Digits

/-! ## One label -/

/-- a numbered label is the position, a point, and what the label keeps -/
theorem numbered_eq_text (mode : RenumberMode) (index : ℕ) (label : String) :
    numbered mode index label = text (index + 1) ++ "." ++ String.ofList (kept mode label) := by
  have hpoint : ".".toList = ['.'] := rfl
  rw [← String.toList_inj]
  simp [numbered, text, hpoint]

/-- a number takes the place of one other number, and all that stands behind that is kept -/
theorem numbered_replace_text (i j : ℕ) (rest : String) :
    numbered .replace j (text (i + 1) ++ "." ++ rest) = text (j + 1) ++ "." ++ rest := by
  have hpoint : ".".toList = ['.'] := rfl
  have hkept : kept .replace (text (i + 1) ++ "." ++ rest) = rest.toList := by
    simp [kept, text, hpoint, stripPosition_digits]
  rw [numbered_eq_text, hkept, String.ofList_toList]

/-! ## One tree -/

/-- the label is that of the category at position `i` of the tree and of no other: the number of that position, with
`rest` behind it -/
structure NumberedAt (t : Tree) (label : String) (i : ℕ) (rest : String) : Prop where
  eq : label = text (i + 1) ++ "." ++ rest
  found : t.categories[i]?.map (·.label) = some label
  only : ∀ k, t.categories[k]?.map (·.label) = some label → k = i

/-- every label of a numbered tree has a position of its own -/
theorem exists_numberedAt {mode : RenumberMode} {t : Tree} {label : String}
    (h : label ∈ (renumberTree mode t).categories.map (·.label)) :
    ∃ i rest, NumberedAt (renumberTree mode t) label i rest := by
  obtain ⟨i, hi⟩ := List.mem_iff_getElem?.1 h
  have hlt := (List.getElem?_eq_some_iff.1 hi).1
  have hfound : (renumberTree mode t).categories[i]?.map (·.label) = some label := by rw [← List.getElem?_map, hi]
  rw [getElem?_renumberTree, Option.map_map] at hfound
  obtain ⟨c, -, rfl⟩ := Option.map_eq_some_iff.1 hfound
  refine ⟨i, String.ofList (kept mode c.label), numbered_eq_text mode i c.label, ?_, ?_⟩
  · rw [← List.getElem?_map, hi]
  · intro k hk
    rw [← List.getElem?_map] at hk
    exact ((List.getElem?_inj hlt (nodup_labels_renumberAll mode t.categories)).1 (hi.trans hk.symm)).symm

/-! ## The page -/

/-- to number a tree in place a second time changes nothing -/
theorem renumber_renumber_replace (p : Page) (name : String) :
    renumber .replace (renumber .replace p name) name = renumber .replace p name := by
  have hnumbered : (renumber .replace p name).Numbered [name] := Rollup.renumber_keeps (by simp [Page.Numbered]) name
  exact Rollup.renumberTrees_eq_self hnumbered

/-- **Stale numbers are replaced, and nothing else.** Of a tree that was numbered, in either way, some categories are left
in any order. When these are numbered in place, the one at position `j` has the number of that position in front of what
stood behind its number before. To do so again changes nothing -/
theorem renumber_repairs (mode : RenumberMode) {p q : Page} {name : String} {s t : Tree}
    (hs : (renumber mode p name).findTree? name = some s) (ht : q.findTree? name = some t)
    (hrest : (t.categories.map (·.label)).Subperm (s.categories.map (·.label))) :
    ∃ u, (renumber .replace q name).findTree? name = some u ∧ u.categories.length = t.categories.length ∧
      (∀ (j : ℕ) (c : Category), t.categories[j]? = some c → ∃ i rest, NumberedAt s c.label i rest ∧
        u.categories[j]? = some { c with label := text (j + 1) ++ "." ++ rest }) ∧
      renumber .replace (renumber .replace q name) name = renumber .replace q name := by
  rw [findTree?_renumber, Option.map_eq_some_iff] at hs
  obtain ⟨old, -, rfl⟩ := hs
  refine ⟨renumberTree .replace t, ?_, ?_, ?_, renumber_renumber_replace q name⟩
  · rw [findTree?_renumber, ht, Option.map_some]
  · simp [renumberTree, renumberAll]
  · intro j c hc
    obtain ⟨i, rest, h⟩ := exists_numberedAt (hrest.subset (List.mem_map_of_mem (List.mem_of_getElem? hc)))
    refine ⟨i, rest, h, ?_⟩
    rw [getElem?_renumberTree, hc, Option.map_some, h.eq, numbered_replace_text]

/-- labels that start with digits and points of their own, or with digits that are none of the ten, once numbered -/
def numberedBudget : Tree :=
  .new assignedName [.new "1.1.1.Rent" [], .new "2.4000 - Food" [], .new "3..Gifts" [], .new "4.٣.Travel" []]

/-- three of them are left, the other way round -/
def shortBudget : Tree := .new assignedName [.new "4.٣.Travel" [], .new "3..Gifts" [], .new "1.1.1.Rent" []]

theorem renumber_repairs_turned :
    let p := Page.empty.pushTree
      (.new assignedName [.new "1.1.Rent" [], .new "4000 - Food" [], .new ".Gifts" [], .new "٣.Travel" []])
    let q := Page.empty.pushTree shortBudget
    (renumber .prepend p assignedName).findTree? assignedName = some numberedBudget ∧
      q.findTree? assignedName = some shortBudget ∧
      (shortBudget.categories.map (·.label)).Subperm (numberedBudget.categories.map (·.label)) ∧
      ∃ u, (renumber .replace q assignedName).findTree? assignedName = some u ∧
        u.categories.map (·.label) = ["1.٣.Travel", "2..Gifts", "3.1.1.Rent"] ∧
        ∀ (j : ℕ) (c : Category), shortBudget.categories[j]? = some c → ∃ i rest,
          NumberedAt numberedBudget c.label i rest ∧
            u.categories[j]? = some { c with label := text (j + 1) ++ "." ++ rest } := by
  intro p q
  have hs : (renumber .prepend p assignedName).findTree? assignedName = some numberedBudget := by decide +kernel
  have ht : q.findTree? assignedName = some shortBudget := by decide +kernel
  have hrest : (shortBudget.categories.map (·.label)).Subperm (numberedBudget.categories.map (·.label)) := by
    decide +kernel
  have hlabels : ((renumber .replace q assignedName).findTree? assignedName).map
      (fun t => t.categories.map (·.label)) = some ["1.٣.Travel", "2..Gifts", "3.1.1.Rent"] := by decide +kernel
  obtain ⟨u, hu, -, hcategories, -⟩ := renumber_repairs .prepend hs ht hrest
  rw [hu, Option.map_some, Option.some.injEq] at hlabels
  exact ⟨hs, ht, hrest, u, hu, hlabels, hcategories⟩

end LedgerTotals.Numbering
