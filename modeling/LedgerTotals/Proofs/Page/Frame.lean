/-
What a pass over a page leaves alone, and how trees are found by their names.

The frame of a page is the page without its labels and without the texts in its sinks: names, rows, and which sinks are
there. Updating a tree is a matter of that tree alone (`findTree?_updateTree_self`, `findTree?_updateTree_ne`), and
pages of one frame have trees of one frame under every name (`frame_findTree?`).
-/
import Mathlib.Tactic
import LedgerTotals.Rollup

namespace LedgerTotals

/-! ## Frames -/

/-- the rows, and whether there are sinks -/
def Category.frame (c : Category) : List Row × Bool := (c.rows, c.totals.isSome)

/-- the name, whether there are sinks, and the frames of the categories -/
def Tree.frame (t : Tree) : String × Bool × List (List Row × Bool) :=
  (t.name, t.total.isSome, t.categories.map Category.frame)

/-- the frames of the trees, and whether there are sinks -/
def Page.frame (p : Page) : List (String × Bool × List (List Row × Bool)) × Bool :=
  (p.trees.map Tree.frame, p.grandTotal.isSome)

/-- what depends on frames alone is the same for lists of the same frames -/
theorem map_of_frames {α β γ : Type} {frame : α → β} {f : α → γ} (hf : ∀ a b, frame a = frame b → f a = f b)
    {l l' : List α} (h : l.map frame = l'.map frame) : l.map f = l'.map f := by
  rw [← List.forall₂_eq_eq_eq, List.forall₂_map_left_iff, List.forall₂_map_right_iff] at h ⊢
  exact h.imp hf

/-- what frames alone decide holds throughout lists of the same frames -/
theorem forall_of_frames {α β : Type} {frame : α → β} {P : α → Prop} (hP : ∀ a b, P b → frame a = frame b → P a)
    {l l' : List α} (h : l.map frame = l'.map frame) (hl : ∀ b ∈ l', P b) : ∀ a ∈ l, P a := by
  intro a ha
  have hmem : frame a ∈ l'.map frame := h ▸ List.mem_map_of_mem ha
  obtain ⟨b, hb, hba⟩ := List.mem_map.1 hmem
  exact hP a b (hl b hb) hba.symm

theorem Category.amountTexts_of_frame {c d : Category} (h : c.frame = d.frame) : c.amountTexts = d.amountTexts :=
  congrArg (fun x => x.1.map (·.amount)) h

theorem Tree.frames_categories {s t : Tree} (h : s.frame = t.frame) :
    s.categories.map Category.frame = t.categories.map Category.frame := congrArg (·.2.2) h

namespace Page

/-! ## Looking up and updating -/

/-- the trees that the names stand for, as far as there are such trees -/
def namedTrees (p : Page) (names : List String) : List Tree := names.filterMap p.findTree?

theorem namedTrees_cons (p : Page) (name : String) (names : List String) :
    p.namedTrees (name :: names) = p.namedTrees [name] ++ p.namedTrees names := by
  simp only [namedTrees, List.filterMap_cons, List.filterMap_nil]
  cases p.findTree? name <;> rfl

theorem findTree?_updateTree_self {f : Tree → Tree} (hf : ∀ t, (f t).name = t.name) (p : Page) (name : String) :
    (p.updateTree name f).findTree? name = (p.findTree? name).map f := by
  simp only [findTree?, updateTree]
  induction p.trees with
  | nil => rfl
  | cons t r ih =>
    rw [updateFirst]
    cases h : t.name == name
    · simpa [h] using ih
    · simp [hf, h]

theorem findTree?_updateTree_ne {f : Tree → Tree} (hf : ∀ t, (f t).name = t.name) (p : Page) {name other : String}
    (hne : other ≠ name) : (p.updateTree name f).findTree? other = p.findTree? other := by
  simp only [findTree?, updateTree]
  induction p.trees with
  | nil => rfl
  | cons t r ih =>
    rw [updateFirst]
    cases h : t.name == name
    · simp [List.find?_cons, ih]
    · have hother : (t.name == other) = false := by
        rw [eq_of_beq h]
        simpa using hne.symm
      simp [hf, hother]

/-- an update does what any other does that agrees with it on the tree it finds -/
theorem updateTree_congr {f g : Tree → Tree} {p : Page} {name : String}
    (h : ∀ t, p.findTree? name = some t → f t = g t) : p.updateTree name f = p.updateTree name g := by
  have htrees : ∀ ts : List Tree, (∀ t, ts.find? (·.name == name) = some t → f t = g t) →
      updateFirst name f ts = updateFirst name g ts := by
    intro ts
    induction ts with
    | nil => exact fun _ => rfl
    | cons t r ih =>
      intro hts
      rw [updateFirst, updateFirst]
      cases hname : t.name == name
      · simp only [Bool.false_eq_true, if_false]
        rw [ih fun u hu => hts u (by simpa [hname] using hu)]
      · simp only [if_true]
        rw [hts t (by simp [hname])]
  rw [updateTree, updateTree, htrees p.trees h]

theorem updateTree_eq_self {f : Tree → Tree} {p : Page} {name : String}
    (h : ∀ t, p.findTree? name = some t → f t = t) : p.updateTree name f = p := by
  have hid : ∀ ts : List Tree, updateFirst name id ts = ts := by
    intro ts
    induction ts with
    | nil => rfl
    | cons t r ih =>
      rw [updateFirst, ih]
      split_ifs <;> rfl
  rw [updateTree_congr (g := id) h, updateTree, hid]

theorem updateTree_of_findTree?_none {f : Tree → Tree} {p : Page} {name : String} (h : p.findTree? name = none) :
    p.updateTree name f = p := updateTree_eq_self fun t ht => by simp [h] at ht

theorem updateTree_updateTree {f g : Tree → Tree} (hf : ∀ t, (f t).name = t.name) (p : Page) (name : String) :
    (p.updateTree name f).updateTree name g = p.updateTree name fun t => g (f t) := by
  have htrees : updateFirst name g (updateFirst name f p.trees) = updateFirst name (fun t => g (f t)) p.trees := by
    induction p.trees with
    | nil => rfl
    | cons t r ih =>
      cases h : t.name == name
      · simp [updateFirst, h, ih]
      · simp [updateFirst, h, hf]
  simp only [updateTree, htrees]

/-! ## Pages of one frame -/

theorem frame_updateTree {f : Tree → Tree} (hf : ∀ t, (f t).frame = t.frame) (p : Page) (name : String) :
    (p.updateTree name f).frame = p.frame := by
  have htrees : (updateFirst name f p.trees).map Tree.frame = p.trees.map Tree.frame := by
    induction p.trees with
    | nil => rfl
    | cons t r ih =>
      rw [updateFirst]
      split_ifs
      · simp [hf]
      · simp [ih]
  simp only [frame, updateTree, htrees]

theorem frame_findTree? {p q : Page} (h : p.frame = q.frame) (name : String) :
    (p.findTree? name).map Tree.frame = (q.findTree? name).map Tree.frame := by
  have hfind : ∀ ts : List Tree, (ts.find? (·.name == name)).map Tree.frame =
      (ts.map Tree.frame).find? fun x => x.1 == name := by
    intro ts
    rw [List.find?_map]
    rfl
  have htrees : p.trees.map Tree.frame = q.trees.map Tree.frame := congrArg (·.1) h
  rw [findTree?, findTree?, hfind, hfind, htrees]

/-- pages of one frame have trees of one frame under a list of names -/
theorem namedTrees_of_frame {p q : Page} (h : p.frame = q.frame) (names : List String) :
    (p.namedTrees names).map Tree.frame = (q.namedTrees names).map Tree.frame := by
  rw [namedTrees, namedTrees, List.map_filterMap, List.map_filterMap]
  exact List.filterMap_congr fun name _ => frame_findTree? h name

end Page

end LedgerTotals
