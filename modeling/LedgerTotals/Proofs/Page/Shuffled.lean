/-
A page in another order.

A page may be shuffled at two of its levels: the rows within each category, and the categories within each tree. Which
category is which is told by their positions, so a shuffle comes with a permutation of positions for each tree.

- `perm_of_getElem?`: lists that are matched up, position by position, hold the same in another order;
- `Shuffled.leads?`, `Shuffled.findTree?`: names stand for trees that are matched up;
- `Shuffled.sinksAt`: so do places, followed to where they have moved.
-/
import LedgerTotals.Proofs.Page.Amounts
import LedgerTotals.Proofs.Page.Places

namespace LedgerTotals

/-! ## Lists that are matched up -/

theorem filterMap_getElem?_range {α : Type} (l : List α) : (List.range l.length).filterMap (l[·]?) = l := by
  induction l with
  | nil => rfl
  | cons a l ih =>
    rw [List.length_cons, List.range_succ_eq_map, List.filterMap_cons, List.filterMap_map]
    exact congrArg (a :: ·) ih

/-- lists with the same at each position and where a permutation takes it hold the same in another order -/
theorem perm_of_getElem? {α : Type} {l l' : List α} (σ : Equiv.Perm ℕ) (h : ∀ k, l[k]? = l'[σ k]?) : l.Perm l' := by
  have hlt : ∀ (l : List α) k, k ∈ List.range l.length ↔ l[k]?.isSome = true := by
    intro l k
    rw [List.mem_range, isSome_getElem?]
  have hrange : ((List.range l.length).map σ).Perm (List.range l'.length) := by
    refine (List.perm_ext_iff_of_nodup (List.nodup_range.map σ.injective) List.nodup_range).2 fun j => ?_
    rw [hlt, List.mem_map]
    constructor
    · rintro ⟨k, hk, rfl⟩
      rwa [← h, ← hlt]
    · intro hj
      refine ⟨σ.symm j, ?_, σ.apply_symm_apply j⟩
      rwa [hlt, h, σ.apply_symm_apply]
  calc l = (List.range l.length).filterMap (l[·]?) := (filterMap_getElem?_range l).symm
    _ = ((List.range l.length).map σ).filterMap (l'[·]?) := by
      rw [List.filterMap_map]
      exact List.filterMap_congr fun k _ => h k
    List.Perm _ ((List.range l'.length).filterMap (l'[·]?)) := hrange.filterMap _
    _ = l' := filterMap_getElem?_range l'

theorem bind_eq_of_rel {α β : Type} {R : α → α → Prop} {x y : Option α} (h : Option.Rel R x y) {f g : α → Option β}
    (hfg : ∀ a ∈ x, ∀ b, R a b → f a = g b) : x.bind f = y.bind g := by
  cases h with
  | none => rfl
  | some hab => exact hfg _ rfl _ hab

theorem map_eq_of_rel {α β : Type} {R : α → α → Prop} {x y : Option α} (h : Option.Rel R x y) {f g : α → β}
    (hfg : ∀ a ∈ x, ∀ b, R a b → f a = g b) : x.map f = y.map g := by
  rw [Option.map_eq_bind, Option.map_eq_bind]
  exact bind_eq_of_rel h fun a ha b hab => congrArg some (hfg a ha b hab)

/-- what matched elements have in common adds up to the same in either order -/
theorem sum_map_of_rel {α M : Type} [AddCommMonoid M] {R : α → α → Prop} {l l' : List α} {σ : Equiv.Perm ℕ}
    (h : ∀ k, Option.Rel R l[k]? l'[σ k]?) {f g : α → M} (hfg : ∀ a ∈ l, ∀ b, R a b → f a = g b) :
    (l.map f).sum = (l'.map g).sum := by
  refine (perm_of_getElem? σ fun k => ?_).sum_eq
  rw [List.getElem?_map, List.getElem?_map]
  exact map_eq_of_rel (h k) fun a ha b => hfg a (List.mem_of_getElem? ha) b

/-! ## Shuffles -/

/-- the same category with its rows in another order -/
structure Category.Shuffled (c d : Category) : Prop where
  label : c.label = d.label
  rows : c.rows.Perm d.rows
  totals : c.totals = d.totals

/-- the same tree with its categories where a permutation takes them, and the rows of each in another order -/
structure Tree.Shuffled (σ : Equiv.Perm ℕ) (t u : Tree) : Prop where
  name : t.name = u.name
  total : t.total = u.total
  categories : ∀ k, Option.Rel Category.Shuffled t.categories[k]? u.categories[σ k]?

namespace Category.Shuffled

variable {c d : Category} (h : c.Shuffled d)

include h

theorem amountTexts : c.amountTexts.Perm d.amountTexts := h.rows.map _

theorem amounts : c.amounts.Perm d.amounts := (h.amountTexts.map _).map _

theorem rejected_iff (policy : MalformedPolicy) : c.Rejected policy ↔ d.Rejected policy := by
  simp only [Rejected, h.amountTexts.mem_iff]

end Category.Shuffled

namespace Page

/-- the same page with the categories of each tree shuffled -/
structure Shuffled (σ : ℕ → Equiv.Perm ℕ) (p q : Page) : Prop where
  trees : ∀ i, Option.Rel (Tree.Shuffled (σ i)) p.trees[i]? q.trees[i]?
  grandTotal : p.grandTotal = q.grandTotal

/-- where a place is moved: only categories move, each within its tree -/
def Slot.moved (σ : ℕ → Equiv.Perm ℕ) : Slot → Slot
  | .page => .page
  | .tree i => .tree i
  | .category i k => .category i (σ i k)

variable {σ : ℕ → Equiv.Perm ℕ} {p q : Page} (h : p.Shuffled σ q)

include h

namespace Shuffled

theorem names : p.trees.map (·.name) = q.trees.map (·.name) := by
  refine List.ext_getElem? fun i => ?_
  rw [List.getElem?_map, List.getElem?_map]
  exact map_eq_of_rel (h.trees i) fun _ _ _ htu => htu.name

theorem leads? (i : ℕ) : p.leads? i = q.leads? i := leads?_of_names h.names i

/-- a name stands for trees that are matched up -/
theorem findTree? (name : String) : (p.findTree? name = none ∧ q.findTree? name = none) ∨
    ∃ i t u, p.indexOf? name = some i ∧ p.findTree? name = some t ∧ q.findTree? name = some u ∧ t.Shuffled (σ i) u := by
  rw [findTree?_eq_bind, findTree?_eq_bind, ← indexOf?_of_names h.names]
  cases p.indexOf? name with
  | none => exact .inl ⟨rfl, rfl⟩
  | some i =>
    have hrel := h.trees i
    rw [Option.bind_some, Option.bind_some]
    cases hp : p.trees[i]? with
    | none =>
      cases hq : q.trees[i]? with
      | none => exact .inl ⟨rfl, rfl⟩
      | some u => simp [hp, hq] at hrel
    | some t =>
      cases hq : q.trees[i]? with
      | none => simp [hp, hq] at hrel
      | some u =>
        rw [hp, hq, Option.rel_some_some] at hrel
        exact .inr ⟨i, t, u, rfl, rfl, rfl, hrel⟩

/-- the texts at each place are those where it has moved -/
theorem sinksAt (x : Slot) : p.sinksAt x = q.sinksAt (x.moved σ) := by
  cases x with
  | page => exact h.grandTotal
  | tree i => exact bind_eq_of_rel (h.trees i) fun t _ u htu => htu.total
  | category i k =>
    refine bind_eq_of_rel (h.trees i) fun t _ u htu => ?_
    exact bind_eq_of_rel (htu.categories k) fun c _ d hcd => hcd.totals

end Shuffled

end Page

end LedgerTotals
