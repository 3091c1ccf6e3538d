/-
Which assigned transactions share a category.

A page lists a transaction under a label if without that transaction the category would lack its row and nothing else
(`ListedUnder`). That is the label of its placement (`listedUnder_iff`). The label of an account joins code and
description by ` - `, which either of them may contain, so two accounts may have one label. That takes a code that goes
on with ` -` where the other code ends (`eq_or_continues`).

- `listedTogether_iff`: two assigned transactions share a category if code and description are the same, or if one code
  continues the other and the labels coincide;
- `listedTogether_of_two_accounts`: two accounts with one label.
-/
import LedgerTotals.Proofs.Grouping

namespace LedgerTotals

/-! ## The label of an account -/

namespace Transaction

/-- the label of an account: its code, and its description if there is one -/
def accountLabel (code : String) : Option String → String
  | some description => code ++ " - " ++ description
  | none => code

theorem placement_of_accountCode {t : Transaction} {code : String} (h : t.accountCode = some code) :
    t.placement = (.assigned, accountLabel code t.accountDescription) := by
  unfold placement accountLabel
  rw [h]
  cases t.accountDescription with
  | none => rfl
  | some description => rfl

/-- what follows the code in a label -/
def labelTail : Option String → List Char
  | some description => ' ' :: '-' :: ' ' :: description.toList
  | none => []

theorem toList_accountLabel (code : String) (description : Option String) :
    (accountLabel code description).toList = code.toList ++ labelTail description := by
  cases description with
  | none => simp [accountLabel, labelTail]
  | some description => simp [accountLabel, labelTail]

theorem labelTail_inj {d d' : Option String} (h : labelTail d = labelTail d') : d = d' := by
  cases d with
  | none =>
    cases d' with
    | none => rfl
    | some e => cases h
  | some e =>
    cases d' with
    | none => cases h
    | some e' =>
      simp only [labelTail, List.cons.injEq, true_and] at h
      rw [String.toList_inj.1 h]

/-- the second code goes on with ` -` where the first one ends -/
def Continues (code code' : String) : Prop := code.toList ++ [' ', '-'] <+: code'.toList

instance (code code' : String) : Decidable (Continues code code') :=
  inferInstanceAs (Decidable (code.toList ++ [' ', '-'] <+: code'.toList))

/-- if the rest of a longer code and a tail make up a tail, then there is no such rest, or it starts the tail -/
theorem nil_or_prefix_of_labelTail {d d' : Option String} {rest : List Char} (h : labelTail d = rest ++ labelTail d') :
    rest = [] ∨ [' ', '-'] <+: rest := by
  cases d with
  | none =>
    left
    exact (List.append_eq_nil_iff.1 h.symm).1
  | some description =>
    rcases rest with _ | ⟨c, _ | ⟨c', rest⟩⟩
    · exact .inl rfl
    · -- the tail behind one space would have to start with the hyphen
      exfalso
      cases d' with
      | none => simp [labelTail] at h
      | some description' => simp [labelTail] at h
    · right
      simp only [labelTail, List.cons_append, List.cons.injEq] at h
      rcases h with ⟨rfl, rfl, -⟩
      exact ⟨rest, rfl⟩

/-- accounts with one label are the same, or one code continues the other -/
theorem eq_or_continues {code code' : String} {d d' : Option String} (h : accountLabel code d = accountLabel code' d') :
    (code = code' ∧ d = d') ∨ Continues code code' ∨ Continues code' code := by
  have hchars : code.toList ++ labelTail d = code'.toList ++ labelTail d' := by
    rw [← toList_accountLabel, ← toList_accountLabel, h]
  rcases List.append_eq_append_iff.1 hchars with ⟨rest, hcode, htail⟩ | ⟨rest, hcode, htail⟩
  · rcases nil_or_prefix_of_labelTail htail with rfl | hprefix
    · refine .inl ⟨?_, labelTail_inj htail⟩
      rw [List.append_nil] at hcode
      exact (String.toList_inj.1 hcode).symm
    · refine .inr (.inl ?_)
      unfold Continues
      rw [hcode]
      exact (List.prefix_append_right_inj _).2 hprefix
  · rcases nil_or_prefix_of_labelTail htail with rfl | hprefix
    · refine .inl ⟨?_, (labelTail_inj htail).symm⟩
      rw [List.append_nil] at hcode
      exact String.toList_inj.1 hcode
    · refine .inr (.inr ?_)
      unfold Continues
      rw [hcode]
      exact (List.prefix_append_right_inj _).2 hprefix

end Transaction

namespace Grouping

open Transaction

/-! ## The rows under a label -/

/-- the rows that a page lists under a label, in the first tree of the name -/
def rowsUnder (p : Page) (name label : String) : List Row :=
  match p.findTree? name with
  | some t => (t.categories.filter (·.label = label)).flatMap (·.rows)
  | none => []

/-- a label stands for one category at most -/
theorem filter_label {cs : List Category} (h : (cs.map (·.label)).Pairwise (· < ·)) {c : Category} (hc : c ∈ cs) :
    cs.filter (·.label = c.label) = [c] := by
  rcases List.append_of_mem hc with ⟨front, back, rfl⟩
  rw [List.map_append, List.map_cons, List.pairwise_append, List.pairwise_cons] at h
  have hfront : front.filter (·.label = c.label) = [] := by
    rw [List.filter_eq_nil_iff]
    intro o ho heq
    have hlt := h.2.2 o.label (List.mem_map_of_mem ho) c.label List.mem_cons_self
    exact hlt.ne (by simpa using heq)
  have hback : back.filter (·.label = c.label) = [] := by
    rw [List.filter_eq_nil_iff]
    intro o ho heq
    have hlt := h.2.1.1 o.label (List.mem_map_of_mem ho)
    exact hlt.ne' (by simpa using heq)
  rw [List.filter_append, List.filter_cons, hfront, hback]
  simp

theorem rowsUnder_page (side : Side) (label : String) (ts : List Transaction) :
    rowsUnder (page ts) side.name label = rowsFor side label ts := by
  have hrows : rowsUnder (page ts) side.name label =
      ((tree side ts).categories.filter (·.label = label)).flatMap (·.rows) := by
    unfold rowsUnder
    rw [findTree?_page]
  rw [hrows]
  by_cases hused : ∃ c ∈ (tree side ts).categories, c.label = label
  · rcases hused with ⟨c, hc, rfl⟩
    have hinOrder : ((tree side ts).categories.map (·.label)).Pairwise (· < ·) := by
      rw [labels_tree]
      exact (holds_groups side ts).inOrder
    rw [filter_label hinOrder hc, List.flatMap_singleton, rows_of_mem_tree hc]
  · have hnone : (tree side ts).categories.filter (·.label = label) = [] := by
      rw [List.filter_eq_nil_iff]
      intro c hc heq
      exact hused ⟨c, hc, by simpa using heq⟩
    rw [hnone, List.flatMap_nil, rowsFor_eq_nil]
    rwa [← exists_label_tree]

/-! ## Where a transaction is listed -/

/-- the page of the transactions lists the one at `i` under the label: without it the category would lack its row, and
nothing else -/
def ListedUnder (ts : List Transaction) (i : ℕ) (side : Side) (label : String) : Prop :=
  ∃ t front back, ts[i]? = some t ∧ rowsUnder (page (ts.eraseIdx i)) side.name label = front ++ back ∧
    rowsUnder (page ts) side.name label = front ++ t.toRow :: back

section listed

variable {ts : List Transaction} {i : ℕ} {t : Transaction} (h : ts[i]? = some t) (side : Side) (label : String)
include h

/-- the rows under a label come from the transactions before, at and behind a place -/
theorem rowsFor_getElem : rowsFor side label ts =
    rowsFor side label (ts.take i) ++ (rowsFor side label [t] ++ rowsFor side label (ts.drop (i + 1))) := by
  rcases List.getElem?_eq_some_iff.1 h with ⟨hi, rfl⟩
  calc rowsFor side label ts = rowsFor side label (ts.take i ++ ts.drop i) := by rw [List.take_append_drop]
    _ = rowsFor side label (ts.take i ++ ([ts[i]] ++ ts.drop (i + 1))) := by
        rw [List.drop_eq_getElem_cons hi, List.singleton_append]
    _ = _ := by rw [rowsFor_append, rowsFor_append]

/-- a transaction is listed under the label that it is placed under -/
theorem listedUnder_iff : ListedUnder ts i side label ↔ t.placement = (side, label) := by
  have hwithout : rowsFor side label (ts.eraseIdx i) =
      rowsFor side label (ts.take i) ++ rowsFor side label (ts.drop (i + 1)) := by
    rw [List.eraseIdx_eq_take_drop_succ, rowsFor_append]
  have hwith := rowsFor_getElem h side label
  unfold ListedUnder
  rw [rowsUnder_page, rowsUnder_page]
  constructor
  · rintro ⟨t', front, back, -, herased, hlisted⟩
    by_contra hplaced
    rw [rowsFor_of_ne hplaced, List.nil_append, ← hwithout, herased, hlisted] at hwith
    have hlength := congrArg List.length hwith
    simp only [List.length_append, List.length_cons] at hlength
    omega
  · intro hplaced
    rw [rowsFor_of_eq hplaced] at hwith
    exact ⟨t, _, _, h, hwithout, hwith⟩

end listed

/-- the page lists the transactions at `i` and `j` in one category of the assigned tree -/
def ListedTogether (ts : List Transaction) (i j : ℕ) : Prop :=
  ∃ label, ListedUnder ts i .assigned label ∧ ListedUnder ts j .assigned label

theorem listedTogether_iff_label {ts : List Transaction} {i j : ℕ} {t t' : Transaction} {code code' : String}
    (hi : ts[i]? = some t) (hj : ts[j]? = some t') (hcode : t.accountCode = some code)
    (hcode' : t'.accountCode = some code') :
    ListedTogether ts i j ↔ accountLabel code t.accountDescription = accountLabel code' t'.accountDescription := by
  unfold ListedTogether
  simp only [listedUnder_iff hi, listedUnder_iff hj, placement_of_accountCode hcode, placement_of_accountCode hcode',
    Prod.mk.injEq, true_and]
  exact ⟨fun ⟨_, h, h'⟩ => h.trans h'.symm, fun h => ⟨_, h, rfl⟩⟩

/-- **Assigned transactions share a category** if they have the same code and the same description, and otherwise only
if one code continues the other with ` -` and code and description still make up the same label -/
theorem listedTogether_iff {ts : List Transaction} {i j : ℕ} {t t' : Transaction} {code code' : String}
    (hi : ts[i]? = some t) (hj : ts[j]? = some t') (hcode : t.accountCode = some code)
    (hcode' : t'.accountCode = some code') :
    ListedTogether ts i j ↔
      (code = code' ∧ t.accountDescription = t'.accountDescription) ∨
      (accountLabel code t.accountDescription = accountLabel code' t'.accountDescription ∧
        (Continues code code' ∨ Continues code' code)) := by
  rw [listedTogether_iff_label hi hj hcode hcode']
  constructor
  · intro h
    rcases eq_or_continues h with hsame | hcontinues
    · exact .inl hsame
    · exact .inr ⟨h, hcontinues⟩
  · rintro (⟨rfl, hdescription⟩ | ⟨h, -⟩)
    · rw [hdescription]
    · exact h

/-- rent on two accounts is listed together, and apart from the rent on a third account with a code of theirs -/
theorem listedTogether_rent :
    let ts := [payment "t1" none (some "4100") (some "Housing - Rent"),
      payment "t2" none (some "4100 - Housing") (some "Rent"), payment "t3" none (some "4100") (some "Rent")]
    ListedTogether ts 0 1 ∧ ¬ ListedTogether ts 0 2 := by
  intro ts
  have h₀ : ts[0]? = some (payment "t1" none (some "4100") (some "Housing - Rent")) := rfl
  have h₁ : ts[1]? = some (payment "t2" none (some "4100 - Housing") (some "Rent")) := rfl
  have h₂ : ts[2]? = some (payment "t3" none (some "4100") (some "Rent")) := rfl
  constructor
  · apply (listedTogether_iff h₀ h₁ rfl rfl).2
    decide
  · rw [listedTogether_iff h₀ h₂ rfl rfl]
    decide

/-- **Two accounts with one label**: a code that holds the separator, and code and description on both sides of it -/
theorem listedTogether_of_two_accounts :
    let t := payment "t1" none (some "4100 - Housing") none
    let t' := payment "t2" none (some "4100") (some "Housing")
    ListedTogether [t, t'] 0 1 ∧ t.accountCode = some "4100 - Housing" ∧ t'.accountCode = some "4100" ∧
      ¬ (t.accountCode = t'.accountCode ∧ t.accountDescription = t'.accountDescription) := by
  intro t t'
  have h₀ : [t, t'][0]? = some t := rfl
  have h₁ : [t, t'][1]? = some t' := rfl
  refine ⟨?_, rfl, rfl, by decide⟩
  exact (listedTogether_iff_label h₀ h₁ rfl rfl).2 rfl

end Grouping

end LedgerTotals
