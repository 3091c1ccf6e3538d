/-
Where the trees of a page stand.

A name stands for the tree at one position, `Page.indexOf?`, and an update by that name reaches that tree and no other.
`getElem?_updateTrees` says what becomes of the tree at each position after one update after the other:
- a tree that is not the first of its name, or whose name does not come up, is wholly unchanged;
- the first tree of a name goes through the updates of its name, in their order, as often as the name comes up.

A page shows texts at places (`Page.Slot`): of the page itself, of a tree, and of a category, told by their positions.
-/
import LedgerTotals.Proofs.Page.Frame

namespace LedgerTotals.Page

/-! ## One update -/

/-- the position of the tree that the name stands for -/
def indexOf? (p : Page) (name : String) : Option ℕ := p.trees.findIdx? (·.name == name)

theorem findTree?_eq_bind (p : Page) (name : String) : p.findTree? name = (p.indexOf? name).bind (p.trees[·]?) := by
  rw [findTree?, indexOf?]
  induction p.trees with
  | nil => rfl
  | cons t r ih =>
    cases h : t.name == name
    · rw [List.find?_cons, h, List.findIdx?_cons, h]
      simpa [Function.comp_def, Option.bind_map] using ih
    · rw [List.find?_cons, h, List.findIdx?_cons, h]
      rfl

/-- the tree at the position of a name has that name -/
theorem name_of_indexOf? {p : Page} {name : String} {i : ℕ} {t : Tree} (h : p.indexOf? name = some i)
    (ht : p.trees[i]? = some t) : t.name = name := by
  have hfind : p.findTree? name = some t := by rw [findTree?_eq_bind, h, Option.bind_some, ht]
  simpa using List.find?_some hfind

theorem getElem?_updateTree (p : Page) (name : String) (f : Tree → Tree) (i : ℕ) :
    (p.updateTree name f).trees[i]? = p.trees[i]?.map fun t => if p.indexOf? name = some i then f t else t := by
  rw [indexOf?, updateTree]
  induction p.trees generalizing i with
  | nil => rfl
  | cons t r ih =>
    rw [updateFirst, List.findIdx?_cons]
    cases h : t.name == name
    · cases i with
      | zero => simp
      | succ i => simpa using ih i
    · cases i with
      | zero => simp
      | succ i => simp

/-- names stand where they stood on a page with the same names -/
theorem indexOf?_of_names {p q : Page} (h : p.trees.map (·.name) = q.trees.map (·.name)) (name : String) :
    p.indexOf? name = q.indexOf? name := by
  have hnames : ∀ ts : List Tree, ts.findIdx? (·.name == name) = (ts.map (·.name)).findIdx? (· == name) :=
    fun ts => by rw [List.findIdx?_map]; rfl
  rw [indexOf?, indexOf?, hnames, hnames, h]

theorem names_updateTree {f : Tree → Tree} (hf : ∀ t, (f t).name = t.name) (p : Page) (name : String) :
    (p.updateTree name f).trees.map (·.name) = p.trees.map (·.name) := by
  refine List.ext_getElem? fun i => ?_
  rw [List.getElem?_map, getElem?_updateTree, List.getElem?_map, Option.map_map]
  refine congrArg (fun g => p.trees[i]?.map g) (funext fun t => ?_)
  rw [Function.comp_apply]
  split_ifs
  · exact hf t
  · rfl

/-! ## One update after the other -/

section Updates

variable {steps : List (String × (Tree → Tree))}

/-- the updates one after the other, each of the first tree of its name -/
def updateTrees (p : Page) (steps : List (String × (Tree → Tree))) : Page :=
  steps.foldl (fun p x => p.updateTree x.1 x.2) p

/-- the tree after the updates of its own name -/
def updatesOf (steps : List (String × (Tree → Tree))) (name : String) (t : Tree) : Tree :=
  (steps.filter (·.1 == name)).foldl (fun t x => x.2 t) t

theorem updatesOf_cons_self (name : String) (f : Tree → Tree) (steps : List (String × (Tree → Tree))) (t : Tree) :
    updatesOf ((name, f) :: steps) name t = updatesOf steps name (f t) := by
  simp [updatesOf]

theorem updatesOf_cons_ne {name other : String} (h : other ≠ name) (f : Tree → Tree)
    (steps : List (String × (Tree → Tree))) : updatesOf ((name, f) :: steps) other = updatesOf steps other := by
  have hne : (name == other) = false := by simpa using h.symm
  funext t
  rw [updatesOf, List.filter_cons_of_neg (by simp [hne]), updatesOf]

/-- updates that keep names keep all names where they stand -/
theorem indexOf?_updateTrees (hsteps : ∀ x ∈ steps, ∀ t, (x.2 t).name = t.name) (p : Page) (name : String) :
    (p.updateTrees steps).indexOf? name = p.indexOf? name := by
  induction steps generalizing p with
  | nil => rfl
  | cons x steps ih =>
    have hrest := ih (fun x hx => hsteps x (List.mem_cons_of_mem _ hx)) (p.updateTree x.1 x.2)
    exact hrest.trans (indexOf?_of_names (names_updateTree (hsteps x List.mem_cons_self) p x.1) name)

theorem findTree?_updateTrees (hsteps : ∀ x ∈ steps, ∀ t, (x.2 t).name = t.name)
    (p : Page) (name : String) : (p.updateTrees steps).findTree? name = (p.findTree? name).map (updatesOf steps name) := by
  induction steps generalizing p with
  | nil => exact Option.map_id'.symm
  | cons x steps ih =>
    obtain ⟨other, f⟩ := x
    have hf : ∀ t, (f t).name = t.name := hsteps _ List.mem_cons_self
    refine (ih (fun x hx => hsteps x (List.mem_cons_of_mem _ hx)) _).trans ?_
    by_cases h : name = other
    · subst h
      rw [findTree?_updateTree_self hf, Option.map_map]
      exact congrArg (fun g => (p.findTree? name).map g) (funext fun t => (updatesOf_cons_self ..).symm)
    · rw [findTree?_updateTree_ne hf p h, updatesOf_cons_ne h]

/-- **Each position after the updates**: the first tree of a name has gone through the updates of its name, and all
other trees are what they were -/
theorem getElem?_updateTrees (hsteps : ∀ x ∈ steps, ∀ t, (x.2 t).name = t.name)
    (p : Page) (i : ℕ) : (p.updateTrees steps).trees[i]? =
      p.trees[i]?.map fun t => if p.indexOf? t.name = some i then updatesOf steps t.name t else t := by
  induction steps generalizing p with
  | nil =>
    have hnone : ∀ t, (if p.indexOf? t.name = some i then updatesOf [] t.name t else t) = t := fun t => by
      split_ifs <;> rfl
    simp only [hnone, Option.map_id']
    rfl
  | cons x steps ih =>
    obtain ⟨name, f⟩ := x
    have hf : ∀ t, (f t).name = t.name := hsteps _ List.mem_cons_self
    have hindex : ∀ other, (p.updateTree name f).indexOf? other = p.indexOf? other :=
      indexOf?_of_names (names_updateTree hf p name)
    refine (ih (fun x hx => hsteps x (List.mem_cons_of_mem _ hx)) _).trans ?_
    rw [getElem?_updateTree, Option.map_map]
    cases ht : p.trees[i]? with
    | none => rfl
    | some t =>
      simp only [Option.map_some, Option.some.injEq, Function.comp_apply, hindex]
      by_cases hname : p.indexOf? name = some i
      · -- the tree that the update reaches has the name of the update
        obtain rfl := name_of_indexOf? hname ht
        simp only [if_pos hname, hf, updatesOf_cons_self]
      · simp only [if_neg hname]
        split_ifs with hfirst
        · rw [updatesOf_cons_ne]
          rintro rfl
          exact hname hfirst
        · rfl

/-- the same updates by one function for all names: it is applied as often as the name comes up -/
theorem updatesOf_map (f : Tree → Tree) (names : List String) (name : String) (t : Tree) :
    updatesOf (names.map fun other => (other, f)) name t = f^[names.count name] t := by
  induction names generalizing t with
  | nil => rfl
  | cons other names ih =>
    by_cases h : name = other
    · subst h
      rw [List.map_cons, updatesOf_cons_self, ih, List.count_cons_self, Function.iterate_succ_apply]
    · rw [List.map_cons, updatesOf_cons_ne h, ih, List.count_cons_of_ne (Ne.symm h)]

theorem name_of_mem_map (f : Tree → Tree) (hf : ∀ t, (f t).name = t.name) (names : List String) :
    ∀ x ∈ names.map fun name => (name, f), ∀ t, (x.2 t).name = t.name := by
  intro x hx t
  obtain ⟨name, -, rfl⟩ := List.mem_map.1 hx
  exact hf t

theorem findTree?_updateTrees_map (f : Tree → Tree) (hf : ∀ t, (f t).name = t.name) (p : Page) (names : List String)
    (name : String) : (p.updateTrees (names.map fun other => (other, f))).findTree? name =
      (p.findTree? name).map f^[names.count name] := by
  rw [findTree?_updateTrees (name_of_mem_map f hf names)]
  exact congrArg (fun g => (p.findTree? name).map g) (funext (updatesOf_map f names name))

theorem updatesOf_append (steps steps' : List (String × (Tree → Tree))) (name : String) (t : Tree) :
    updatesOf (steps ++ steps') name t = updatesOf steps' name (updatesOf steps name t) := by
  simp [updatesOf]

end Updates

/-! ## Places for texts -/

/-- the name that the tree at the position is the first of, if it is the first of its name -/
def leads? (p : Page) (i : ℕ) : Option String :=
  (p.trees[i]?.map (·.name)).filter fun name => p.indexOf? name = some i

theorem leads?_of_names {p q : Page} (h : p.trees.map (·.name) = q.trees.map (·.name)) (i : ℕ) :
    p.leads? i = q.leads? i := by
  have hname : p.trees[i]?.map (·.name) = q.trees[i]?.map (·.name) := by
    rw [← List.getElem?_map, ← List.getElem?_map, h]
  simp only [leads?, hname, indexOf?_of_names h]

theorem indexOf?_of_leads? {p : Page} {i : ℕ} {name : String} (h : p.leads? i = some name) :
    p.indexOf? name = some i := by
  simpa using (Option.filter_eq_some_iff.1 h).2

/-- a place where texts may be shown -/
inductive Slot where
  /-- the grand total -/
  | page
  /-- the total of the tree at the position -/
  | tree (i : ℕ)
  /-- a category of that tree, by its own position -/
  | category (i k : ℕ)
  deriving DecidableEq

/-- the texts at the place, if it is there -/
def sinksAt (p : Page) : Slot → Option Sinks
  | .page => p.grandTotal
  | .tree i => p.trees[i]?.bind (·.total)
  | .category i k => p.trees[i]?.bind fun t => t.categories[k]?.bind (·.totals)

end LedgerTotals.Page
