/-
Grouping loses and duplicates nothing.

Transactions are filed one after another, each into the group of its label. What one filing does is said once
(`file_cases`): the group of the label grows by a row at its end, or a new group stands where the order of labels asks
for it. So after any transactions the groups are exactly those of the labels in use, in order, and each holds the rows
filed under its label in the order of the transactions (`Holds`).

- `Order.before_toList`: the order of labels is the order of strings by code point;
- `holds_groups`: the invariant after any transactions;
- `page_groups`: the page as a whole.
-/
import Mathlib.Tactic
import Mathlib.Data.String.Basic
import LedgerTotals.Grouping

namespace LedgerTotals

/-! ## The order of labels -/

namespace Order

theorem before_iff (cs ds : List Char) : before cs ds = true ↔ cs < ds := by
  induction cs generalizing ds with
  | nil =>
    cases ds with
    | nil => simp [before]
    | cons d ds => simp [before]
  | cons c cs ih =>
    cases ds with
    | nil => simp [before]
    | cons d ds =>
      have hlt : c.toNat < d.toNat ↔ c < d := Iff.rfl
      have heq : c.toNat = d.toNat ↔ c = d := ⟨fun h => Char.toNat_inj.1 h, fun h => congrArg _ h⟩
      simp only [before, Bool.or_eq_true, Bool.and_eq_true, decide_eq_true_eq, beq_iff_eq, ih, List.cons_lt_cons_iff,
        hlt, heq]

/-- the order of texts is that of strings -/
theorem before_toList (a b : String) : before a.toList b.toList = true ↔ a < b :=
  (before_iff a.toList b.toList).trans String.lt_iff_toList_lt.symm

end Order

namespace Grouping

/-! ## Filing a row -/

/-- labels increase strictly from group to group -/
def InOrder (groups : Groups) : Prop := (groups.map (·.1)).Pairwise (· < ·)

/-- what filing does to groups in order: the row comes to the end of the rows of its label, between the groups of the
smaller and of the greater labels; if there is no group of the label yet, it gets one -/
theorem file_cases (label : String) (row : Row) {groups : Groups} (h : InOrder groups) :
    ∃ front rows back, file label row groups = front ++ (label, rows ++ [row]) :: back ∧
      (∀ g ∈ front, g.1 < label) ∧ (∀ g ∈ back, label < g.1) ∧
      (groups = front ++ (label, rows) :: back ∨ groups = front ++ back ∧ rows = []) := by
  induction groups with
  | nil => exact ⟨[], [], [], rfl, by simp, by simp, .inr ⟨rfl, rfl⟩⟩
  | cons g rest ih =>
    rcases g with ⟨l, rows⟩
    have hcons : (∀ l' ∈ rest.map (·.1), l < l') ∧ InOrder rest := List.pairwise_cons.1 h
    have hrest : ∀ g ∈ rest, l < g.1 := fun g hg => hcons.1 g.1 (List.mem_map_of_mem hg)
    unfold file
    by_cases hsame : l = label
    · subst hsame
      rw [if_pos rfl]
      exact ⟨[], rows, rest, rfl, by simp, hrest, .inl rfl⟩
    · rw [if_neg hsame]
      by_cases hbefore : Order.before label.toList l.toList = true
      · have hlt : label < l := (Order.before_toList label l).1 hbefore
        rw [if_pos hbefore]
        refine ⟨[], [], (l, rows) :: rest, rfl, by simp, ?_, .inr ⟨rfl, rfl⟩⟩
        intro g hg
        rcases List.mem_cons.1 hg with rfl | hg
        · exact hlt
        · exact hlt.trans (hrest g hg)
      · have hlt : l < label := by
          rcases lt_trichotomy l label with hlt | heq | hgt
          · exact hlt
          · exact absurd heq hsame
          · exact absurd ((Order.before_toList label l).2 hgt) hbefore
        rw [if_neg hbefore]
        rcases ih hcons.2 with ⟨front, rows', back, hfile, hfront, hback, hgroups⟩
        refine ⟨(l, rows) :: front, rows', back, by rw [hfile]; rfl, ?_, hback, ?_⟩
        · intro g hg
          rcases List.mem_cons.1 hg with rfl | hg
          · exact hlt
          · exact hfront g hg
        · rcases hgroups with rfl | ⟨rfl, hnil⟩
          · exact .inl rfl
          · exact .inr ⟨rfl, hnil⟩

section file

variable (label : String) (row : Row) {groups : Groups} (h : InOrder groups)
include h

theorem inOrder_file : InOrder (file label row groups) := by
  rcases file_cases label row h with ⟨front, rows, back, hfile, hfront, hback, hgroups⟩
  have hothers : ((front ++ back).map (·.1)).Pairwise (· < ·) := by
    rcases hgroups with rfl | ⟨rfl, -⟩
    · exact h.sublist (((List.sublist_cons_self ..).append_left front).map _)
    · exact h
  rw [List.map_append, List.pairwise_append] at hothers
  unfold InOrder
  rw [hfile, List.map_append, List.map_cons, List.pairwise_append, List.pairwise_cons]
  refine ⟨hothers.1, ⟨?_, hothers.2.1⟩, ?_⟩
  · intro l hl
    rcases List.mem_map.1 hl with ⟨g, hg, rfl⟩
    exact hback g hg
  · intro l hl l' hl'
    rcases List.mem_cons.1 hl' with rfl | hl'
    · rcases List.mem_map.1 hl with ⟨g, hg, rfl⟩
      exact hfront g hg
    · exact hothers.2.2 l hl l' hl'

theorem mem_labels_file (l : String) : l ∈ (file label row groups).map (·.1) ↔ l = label ∨ l ∈ groups.map (·.1) := by
  rcases file_cases label row h with ⟨front, rows, back, hfile, -, -, hgroups⟩
  rw [hfile]
  rcases hgroups with rfl | ⟨rfl, -⟩
  · simp only [List.map_append, List.map_cons, List.mem_append, List.mem_cons]
    tauto
  · simp only [List.map_append, List.map_cons, List.mem_append, List.mem_cons]
    tauto

/-- a group after filing is a group of another label from before, or that of the label with one row more -/
theorem mem_file {g : String × List Row} (hg : g ∈ file label row groups) :
    (g ∈ groups ∧ g.1 ≠ label) ∨
      ∃ rows, g = (label, rows ++ [row]) ∧ ((label, rows) ∈ groups ∨ rows = [] ∧ label ∉ groups.map (·.1)) := by
  rcases file_cases label row h with ⟨front, rows, back, hfile, hfront, hback, hgroups⟩
  have hothers : ∀ o ∈ front ++ back, o ∈ groups ∧ o.1 ≠ label := by
    intro o ho
    constructor
    · rcases hgroups with hgroups | ⟨hgroups, -⟩
      · rw [hgroups]
        exact ((List.sublist_cons_self ..).append_left front).subset ho
      · rwa [hgroups]
    · rcases List.mem_append.1 ho with ho | ho
      · exact (hfront o ho).ne
      · exact (hback o ho).ne'
  rw [hfile] at hg
  rcases List.mem_append.1 hg with hg | hg
  · exact .inl (hothers g (List.mem_append_left _ hg))
  · rcases List.mem_cons.1 hg with rfl | hg
    · refine .inr ⟨rows, rfl, ?_⟩
      rcases hgroups with rfl | ⟨rfl, hnil⟩
      · exact .inl (by simp)
      · refine .inr ⟨hnil, fun hmem => ?_⟩
        rcases List.mem_map.1 hmem with ⟨o, ho, hlabel⟩
        exact (hothers o ho).2 hlabel
    · exact .inl (hothers g (List.mem_append_right _ hg))

theorem count_file : ((file label row groups).map (·.2.length)).sum = (groups.map (·.2.length)).sum + 1 := by
  rcases file_cases label row h with ⟨front, rows, back, hfile, -, -, hgroups⟩
  rw [hfile]
  rcases hgroups with rfl | ⟨rfl, rfl⟩
  · simp
    omega
  · simp
    omega

end file

/-! ## What groups hold -/

/-- the rows of the transactions that belong under a label, in the order of the transactions -/
def rowsFor (side : Side) (label : String) (ts : List Transaction) : List Row :=
  (ts.filter fun t => t.placement = (side, label)).map Transaction.toRow

/-- the groups of one side, after some transactions -/
structure Holds (side : Side) (ts : List Transaction) (groups : Groups) : Prop where
  inOrder : InOrder groups
  /-- there is a group for each label in use, and for no other -/
  labels : ∀ label, label ∈ groups.map (·.1) ↔ ∃ t ∈ ts, t.placement = (side, label)
  rows : ∀ g ∈ groups, g.2 = rowsFor side g.1 ts
  /-- each transaction of the side has one row -/
  count : (groups.map (·.2.length)).sum = (ts.filter (·.placement.1 = side)).length

variable {side : Side} {ts : List Transaction} {groups : Groups}

theorem holds_nil (side : Side) : Holds side [] [] := by
  constructor <;> simp [InOrder]

theorem rowsFor_append (side : Side) (label : String) (ts us : List Transaction) :
    rowsFor side label (ts ++ us) = rowsFor side label ts ++ rowsFor side label us := by
  simp [rowsFor]

theorem rowsFor_of_eq {label : String} {t : Transaction} (h : t.placement = (side, label)) :
    rowsFor side label [t] = [t.toRow] := by
  simp [rowsFor, h]

theorem rowsFor_of_ne {label : String} {t : Transaction} (h : t.placement ≠ (side, label)) :
    rowsFor side label [t] = [] := by
  simp [rowsFor, h]

theorem rowsFor_eq_nil {label : String} (h : ¬ ∃ t ∈ ts, t.placement = (side, label)) : rowsFor side label ts = [] := by
  unfold rowsFor
  rw [List.filter_eq_nil_iff.2, List.map_nil]
  intro t ht hplaced
  exact h ⟨t, ht, by simpa using hplaced⟩

theorem exists_placed_snoc {p : Side × String} {t : Transaction} :
    (∃ x ∈ ts ++ [t], x.placement = p) ↔ t.placement = p ∨ ∃ x ∈ ts, x.placement = p := by
  simp only [List.mem_append, List.mem_singleton, or_and_right, exists_or, exists_eq_left]
  exact or_comm

/-- a transaction of the other side changes nothing -/
theorem Holds.skip (h : Holds side ts groups) {t : Transaction} (ht : t.placement.1 ≠ side) :
    Holds side (ts ++ [t]) groups := by
  have hne : ∀ label, t.placement ≠ (side, label) := fun label hlabel => ht (congrArg Prod.fst hlabel)
  refine ⟨h.inOrder, fun label => ?_, fun g hg => ?_, ?_⟩
  · rw [h.labels label, exists_placed_snoc]
    simp [hne label]
  · rw [h.rows g hg, rowsFor_append, rowsFor_of_ne (hne g.1), List.append_nil]
  · rw [h.count]
    simp [ht]

/-- a transaction of the side comes to the end of its group -/
theorem Holds.file (h : Holds side ts groups) {t : Transaction} {label : String} (ht : t.placement = (side, label)) :
    Holds side (ts ++ [t]) (file label t.toRow groups) := by
  refine ⟨inOrder_file label _ h.inOrder, fun l => ?_, fun g hg => ?_, ?_⟩
  · rw [mem_labels_file label _ h.inOrder, h.labels, exists_placed_snoc, ht, Prod.mk.injEq]
    simp [eq_comm]
  · rcases mem_file label _ h.inOrder hg with ⟨hmem, hne⟩ | ⟨rows, rfl, hrows⟩
    · have hother : t.placement ≠ (side, g.1) := by
        rw [ht]
        exact fun heq => hne (congrArg Prod.snd heq).symm
      rw [h.rows g hmem, rowsFor_append, rowsFor_of_ne hother, List.append_nil]
    · have hold : rows = rowsFor side label ts := by
        rcases hrows with hmem | ⟨rfl, hnew⟩
        · exact h.rows _ hmem
        · rw [h.labels] at hnew
          exact (rowsFor_eq_nil hnew).symm
      rw [hold, rowsFor_append, rowsFor_of_eq ht]
  · rw [count_file label _ h.inOrder, h.count]
    simp [ht]

theorem Holds.fileTransaction (h : Holds side ts groups) (t : Transaction) :
    Holds side (ts ++ [t]) (fileTransaction side groups t) := by
  unfold Grouping.fileTransaction
  by_cases hside : t.placement.1 = side
  · rw [if_pos hside]
    exact h.file (Prod.ext hside rfl)
  · rw [if_neg hside]
    exact h.skip hside

/-- **The groups of a side**, after any transactions -/
theorem holds_groups (side : Side) (ts : List Transaction) : Holds side ts (Grouping.groups side ts) := by
  induction ts using List.reverseRecOn with
  | nil => exact holds_nil side
  | append_singleton ts t ih =>
    unfold Grouping.groups at ih ⊢
    rw [List.foldl_append, List.foldl_cons, List.foldl_nil]
    exact ih.fileTransaction t

/-! ## The page -/

theorem findTree?_page (side : Side) (ts : List Transaction) : (page ts).findTree? side.name = some (tree side ts) := by
  cases side with
  | imported => rfl
  | assigned => rfl

theorem labels_tree (side : Side) (ts : List Transaction) :
    (tree side ts).categories.map (·.label) = (Grouping.groups side ts).map (·.1) := by
  simp [tree, Tree.new, Category.new]

theorem rows_of_mem_tree {c : Category} (h : c ∈ (tree side ts).categories) : c.rows = rowsFor side c.label ts := by
  rcases List.mem_map.1 h with ⟨g, hg, rfl⟩
  exact (holds_groups side ts).rows g hg

theorem exists_label_tree (side : Side) (ts : List Transaction) (label : String) :
    (∃ c ∈ (tree side ts).categories, c.label = label) ↔ ∃ t ∈ ts, t.placement = (side, label) := by
  rw [← (holds_groups side ts).labels label, ← labels_tree, List.mem_map]

/-- a category stands for a label in use, so it lists a row -/
theorem rows_ne_nil_of_mem_tree {c : Category} (h : c ∈ (tree side ts).categories) : c.rows ≠ [] := by
  rcases (exists_label_tree side ts c.label).1 ⟨c, h, rfl⟩ with ⟨t, ht, hplaced⟩
  rw [rows_of_mem_tree h]
  apply List.ne_nil_of_mem (a := t.toRow)
  exact List.mem_map_of_mem (List.mem_filter.2 ⟨ht, by simpa using hplaced⟩)

theorem count_tree (side : Side) (ts : List Transaction) :
    ((tree side ts).categories.map (·.rows.length)).sum = (ts.filter (·.placement.1 = side)).length := by
  rw [← (holds_groups side ts).count, tree, Tree.new, List.map_map]
  rfl

theorem length_filter_sides (ts : List Transaction) :
    (ts.filter (·.placement.1 = .imported)).length + (ts.filter (·.placement.1 = .assigned)).length = ts.length := by
  induction ts with
  | nil => rfl
  | cons t ts ih =>
    cases hside : t.placement.1 with
    | imported => simp [hside]; omega
    | assigned => simp [hside]; omega

/-- **Grouping loses and duplicates nothing.** The page has the two trees; labels increase and no category is empty;
there is a category for each label that a transaction is placed under, with the rows of those transactions in their
order -/
theorem page_groups (ts : List Transaction) :
    (page ts).trees.map (·.name) = ["imported", "assigned"] ∧
      (∀ t ∈ (page ts).trees, (t.categories.map (·.label)).Pairwise (· < ·) ∧ ∀ c ∈ t.categories, c.rows ≠ []) ∧
      (∀ side : Side, ∃ t, (page ts).findTree? side.name = some t ∧
        (∀ label, (∃ c ∈ t.categories, c.label = label) ↔ ∃ x ∈ ts, x.placement = (side, label)) ∧
        ∀ c ∈ t.categories, c.rows = (ts.filter fun x => x.placement = (side, c.label)).map fun x =>
          ⟨some x.id, some x.date, x.description, x.amount.value.toText⟩) ∧
      ((page ts).trees.map fun t => (t.categories.map (·.rows.length)).sum).sum = ts.length := by
  refine ⟨rfl, ?_, ?_, ?_⟩
  · have hside : ∀ side, ((tree side ts).categories.map (·.label)).Pairwise (· < ·) ∧
        ∀ c ∈ (tree side ts).categories, c.rows ≠ [] := by
      intro side
      rw [labels_tree]
      exact ⟨(holds_groups side ts).inOrder, fun c hc => rows_ne_nil_of_mem_tree hc⟩
    intro t ht
    have htrees : t = tree .imported ts ∨ t = tree .assigned ts := by
      simpa [page, Page.pushTree, Page.empty] using ht
    rcases htrees with rfl | rfl
    · exact hside .imported
    · exact hside .assigned
  · intro side
    exact ⟨tree side ts, findTree?_page side ts, exists_label_tree side ts, fun c hc => rows_of_mem_tree hc⟩
  · calc ((page ts).trees.map fun t => (t.categories.map (·.rows.length)).sum).sum
        = ((tree .imported ts).categories.map (·.rows.length)).sum +
            ((tree .assigned ts).categories.map (·.rows.length)).sum := by
          simp [page, Page.pushTree, Page.empty]
      _ = ts.length := by rw [count_tree, count_tree, length_filter_sides]

/-- a payment on an account, or with a relation -/
def payment (id : String) (relation code description : Option String) : Transaction :=
  ⟨id, ⟨2022, 1, 3, rfl⟩, none, .zero, relation, code, description⟩

/-- payments with one relation are found in one category, in their order, whatever stands between them -/
theorem page_groups_interleaved :
    let ts := [payment "t1" (some "Zoo") none none, payment "t2" (some "Café") none none,
      payment "t3" (some "Zoo") (some "4100") none, payment "t4" none none none, payment "t5" (some "Zoo") none none]
    ∃ t, (page ts).findTree? "imported" = some t ∧
      ∃ c ∈ t.categories, c.label = "Zoo" ∧ c.rows.map (·.id) = [some "t1", some "t5"] := by
  intro ts
  rcases (page_groups ts).2.2.1 .imported with ⟨t, ht, hlabels, hrows⟩
  rcases (hlabels "Zoo").2 ⟨_, List.mem_cons_self, rfl⟩ with ⟨c, hc, hlabel⟩
  refine ⟨t, ht, c, hc, hlabel, ?_⟩
  rw [hrows c hc, hlabel]
  rfl

end Grouping

end LedgerTotals
