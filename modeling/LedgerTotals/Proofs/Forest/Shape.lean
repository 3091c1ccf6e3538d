/-
The shape of a forest: which account stands above which.

An account carries the list of all accounts above it. `Reaches` says the same by links from an account to its parent
alone, and `mem_line_iff` that the two agree in every forest that operations can build. Operations only add accounts and
never move one: after a run the links are those that the run asked for (`parents_run`).
-/
import LedgerTotals.Proofs.Forest.Commit

namespace LedgerTotals

namespace Forest

/-! ## Links to parents -/

/-- of every account the one right above it, if there is one -/
def parents (f : Forest) : List (Option ℕ) := f.accounts.map (·.ancestors.head?)

/-- by these links to parents, account `j` is account `i` or stands above it -/
inductive Reaches (parents : List (Option ℕ)) : ℕ → ℕ → Prop
  | self {i : ℕ} (hi : i < parents.length) : Reaches parents i i
  | up {i p j : ℕ} (hp : parents[i]? = some (some p)) (h : Reaches parents p j) : Reaches parents i j

/-- account `j` is account `i` or stands above it -/
def AtOrAbove (f : Forest) (i j : ℕ) : Prop := Reaches f.parents i j

/-- a forest that operations build from nothing -/
def Reachable (f : Forest) : Prop := ∃ steps, f = empty.run steps

/-- what stands above an account is the line of an account that was there before it -/
structure WellFormed (f : Forest) : Prop where
  above : ∀ i a, f.account? i = some a → a.ancestors = [] ∨ ∃ p < i, a.ancestors = f.line p

theorem account?_eq_none {f : Forest} {i : ℕ} (h : f.accounts.length ≤ i) : f.account? i = none :=
  List.getElem?_eq_none h

theorem account?_isSome {f : Forest} {i : ℕ} (h : i < f.accounts.length) : ∃ a, f.account? i = some a :=
  ⟨_, List.getElem?_eq_getElem h⟩

theorem line_of_account? {f : Forest} {i : ℕ} {a : Account} (h : f.account? i = some a) :
    f.line i = i :: a.ancestors := by
  simp [line, h]

theorem line_eq_nil {f : Forest} {i : ℕ} (h : f.accounts.length ≤ i) : f.line i = [] := by
  simp [line, account?_eq_none h]

theorem self_mem_line {f : Forest} {i : ℕ} (h : i < f.accounts.length) : i ∈ f.line i := by
  obtain ⟨a, ha⟩ := account?_isSome h
  simp [line_of_account? ha]

theorem totalsAt_of_account? {f : Forest} {i : ℕ} {a : Account} (h : f.account? i = some a) :
    f.totalsAt i = a.totals := by
  simp [totalsAt, h]

/-! ## Operations keep the shape -/

theorem line_setTotals (f : Forest) (line : List ℕ) (totals : List Totals) (j : ℕ) :
    (f.setTotals line totals).line j = f.line j := by
  simp only [Forest.line, account?_setTotals]
  cases f.account? j <;> rfl

theorem ancestors_setTotals (f : Forest) (line : List ℕ) (totals : List Totals) :
    (f.setTotals line totals).accounts.map (·.ancestors) = f.accounts.map (·.ancestors) := by
  refine List.ext_getElem? fun j => ?_
  have haccount := account?_setTotals f line totals j
  simp only [account?] at haccount
  rw [List.getElem?_map, List.getElem?_map, haccount, Option.map_map]
  rfl

theorem length_setTotals (f : Forest) (line : List ℕ) (totals : List Totals) :
    (f.setTotals line totals).accounts.length = f.accounts.length := by
  simp [setTotals]

/-- what one operation can do to the accounts -/
theorem step_cases (f : Forest) (s : Step) :
    (∃ a, f.step s = ⟨f.accounts ++ [a]⟩ ∧ a.totals = .zero ∧ (a.ancestors = [] ∨ ∃ p, a.ancestors = f.line p)) ∨
    (∃ line totals, f.step s = f.setTotals line totals) ∨ f.step s = f := by
  cases s with
  | root => exact .inl ⟨_, rfl, rfl, .inl rfl⟩
  | child p => exact .inl ⟨_, rfl, rfl, .inr ⟨p, rfl⟩⟩
  | post i amounts =>
    right
    rw [step, posted_snd]
    cases h : f.post? i amounts with
    | none => exact .inr rfl
    | some g =>
      obtain ⟨_, totals, -, -, rfl⟩ := post?_eq_some_iff.1 h
      exact .inl ⟨_, totals, rfl⟩

theorem account?_append {f : Forest} {i : ℕ} (a : Account) (h : i < f.accounts.length) :
    account? ⟨f.accounts ++ [a]⟩ i = f.account? i :=
  List.getElem?_append_left h

theorem line_append {f : Forest} {i : ℕ} (a : Account) (h : i < f.accounts.length) :
    line ⟨f.accounts ++ [a]⟩ i = f.line i := by
  simp only [line, account?_append a h]

theorem totalsAt_append {f : Forest} {j : ℕ} (a : Account) (hj : j < f.accounts.length) :
    totalsAt ⟨f.accounts ++ [a]⟩ j = f.totalsAt j := by
  simp only [totalsAt, account?_append a hj]

theorem wellFormed_empty : WellFormed empty := ⟨fun i a h => by simp [empty, account?] at h⟩

theorem WellFormed.setTotals {f : Forest} (h : WellFormed f) (line : List ℕ) (totals : List Totals) :
    WellFormed (f.setTotals line totals) := by
  refine ⟨fun i a ha => ?_⟩
  rw [account?_setTotals, Option.map_eq_some_iff] at ha
  obtain ⟨b, hb, rfl⟩ := ha
  rcases h.above i b hb with hnil | ⟨p, hp, hline⟩
  · exact .inl hnil
  · exact .inr ⟨p, hp, by rw [line_setTotals]; exact hline⟩

theorem WellFormed.append {f : Forest} (h : WellFormed f) {a : Account}
    (ha : a.ancestors = [] ∨ ∃ p, a.ancestors = f.line p) : WellFormed ⟨f.accounts ++ [a]⟩ := by
  refine ⟨fun i b hb => ?_⟩
  rcases Nat.lt_trichotomy i f.accounts.length with hi | rfl | hi
  · rw [account?_append a hi] at hb
    rcases h.above i b hb with hnil | ⟨p, hp, hline⟩
    · exact .inl hnil
    · exact .inr ⟨p, hp, by rw [line_append a (hp.trans hi)]; exact hline⟩
  · obtain rfl : a = b := by simpa [account?] using hb
    rcases ha with hnil | ⟨p, hline⟩
    · exact .inl hnil
    · rcases Nat.lt_or_ge p f.accounts.length with hp | hp
      · exact .inr ⟨p, hp, by rw [line_append a hp]; exact hline⟩
      · exact .inl (by rw [hline, line_eq_nil hp])
  · rw [account?_eq_none (by simp; omega)] at hb
    cases hb

theorem WellFormed.step {f : Forest} (h : WellFormed f) (s : Step) : WellFormed (f.step s) := by
  rcases step_cases f s with ⟨a, hs, -, ha⟩ | ⟨line, totals, hs⟩ | hs
  · rw [hs]; exact h.append ha
  · rw [hs]; exact h.setTotals line totals
  · rw [hs]; exact h

theorem WellFormed.run {f : Forest} (h : WellFormed f) (steps : List Step) : WellFormed (f.run steps) := by
  induction steps generalizing f with
  | nil => exact h
  | cons s steps ih => exact ih (h.step s)

theorem Reachable.wellFormed {f : Forest} (h : Reachable f) : WellFormed f := by
  obtain ⟨steps, rfl⟩ := h
  exact wellFormed_empty.run steps

/-! ## The two descriptions of the shape agree -/

theorem WellFormed.line_lt {f : Forest} (h : WellFormed f) {i j : ℕ} (hj : j ∈ f.line i) :
    j < f.accounts.length := by
  induction i using Nat.strong_induction_on with
  | _ i ih =>
    rcases Nat.lt_or_ge i f.accounts.length with hi | hi
    · obtain ⟨a, ha⟩ := account?_isSome hi
      rw [line_of_account? ha] at hj
      rcases List.mem_cons.1 hj with rfl | hj
      · exact hi
      · rcases h.above i a ha with hnil | ⟨p, hp, hline⟩
        · simp [hnil] at hj
        · exact ih p hp (hline ▸ hj)
    · simp [line_eq_nil hi] at hj

theorem getElem?_parents (f : Forest) (i : ℕ) : f.parents[i]? = (f.account? i).map (·.ancestors.head?) :=
  List.getElem?_map

theorem length_parents (f : Forest) : f.parents.length = f.accounts.length := by
  simp [parents]

theorem head?_line {f : Forest} {p : ℕ} (hp : p < f.accounts.length) : (f.line p).head? = some p := by
  obtain ⟨a, ha⟩ := account?_isSome hp
  rw [line_of_account? ha, List.head?_cons]

theorem WellFormed.line_of_parent {f : Forest} (h : WellFormed f) {i p : ℕ} (hp : f.parents[i]? = some (some p)) :
    f.line i = i :: f.line p := by
  rw [getElem?_parents, Option.map_eq_some_iff] at hp
  obtain ⟨a, ha, hhead⟩ := hp
  rcases h.above i a ha with hnil | ⟨q, -, hline⟩
  · simp [hnil] at hhead
  · rcases Nat.lt_or_ge q f.accounts.length with hlt | hge
    · rw [hline, head?_line hlt, Option.some.injEq] at hhead
      rw [line_of_account? ha, hline, hhead]
    · rw [hline, line_eq_nil hge] at hhead
      cases hhead

theorem WellFormed.parent_lt {f : Forest} (h : WellFormed f) {i p : ℕ} (hp : f.parents[i]? = some (some p)) :
    p < f.accounts.length := by
  rw [getElem?_parents, Option.map_eq_some_iff] at hp
  obtain ⟨a, ha, hhead⟩ := hp
  refine h.line_lt (i := i) ?_
  rw [line_of_account? ha]
  exact List.mem_cons_of_mem _ (List.mem_of_head? hhead)

theorem WellFormed.mem_line_iff {f : Forest} (h : WellFormed f) {i j : ℕ} : j ∈ f.line i ↔ f.AtOrAbove i j := by
  constructor
  · intro hj
    induction i using Nat.strong_induction_on with
    | _ i ih =>
      rcases Nat.lt_or_ge i f.accounts.length with hi | hi
      · obtain ⟨a, ha⟩ := account?_isSome hi
        rw [line_of_account? ha] at hj
        rcases List.mem_cons.1 hj with rfl | hj
        · exact .self (by rwa [length_parents])
        · rcases h.above i a ha with hnil | ⟨p, hp, hline⟩
          · simp [hnil] at hj
          · rw [hline] at hj
            have hlt : p < f.accounts.length := hp.trans hi
            have hparent : f.parents[i]? = some (some p) := by
              rw [getElem?_parents, ha, Option.map_some, hline, head?_line hlt]
            exact .up hparent (ih p hp hj)
      · simp [line_eq_nil hi] at hj
  · intro hj
    induction hj with
    | self hi => exact self_mem_line (by rwa [length_parents] at hi)
    | up hp _ ih =>
      rw [h.line_of_parent hp]
      exact List.mem_cons_of_mem _ ih

/-! ## The links are those that were asked for -/

/-- the operations name only accounts created before them; the first of them finds `n` accounts -/
def Grounded : ℕ → List Step → Prop
  | _, [] => True
  | n, .root :: steps => Grounded (n + 1) steps
  | n, .child p :: steps => p < n ∧ Grounded (n + 1) steps
  | n, .post i _ :: steps => i < n ∧ Grounded n steps

/-- the accounts that a run asks for, each with the account it is put below -/
def created : List Step → List (Option ℕ)
  | [] => []
  | .root :: steps => none :: created steps
  | .child p :: steps => some p :: created steps
  | .post _ _ :: steps => created steps

theorem parents_setTotals (f : Forest) (line : List ℕ) (totals : List Totals) :
    (f.setTotals line totals).parents = f.parents := by
  have hancestors := congrArg (List.map List.head?) (ancestors_setTotals f line totals)
  rwa [List.map_map, List.map_map] at hancestors

theorem parents_post (f : Forest) (i : ℕ) (amounts : List Decimal) :
    (f.step (.post i amounts)).parents = f.parents := by
  rw [step, posted_snd]
  cases h : f.post? i amounts with
  | none => rfl
  | some g =>
    obtain ⟨_, totals, -, -, rfl⟩ := post?_eq_some_iff.1 h
    exact parents_setTotals f _ totals

theorem length_post (f : Forest) (i : ℕ) (amounts : List Decimal) :
    (f.step (.post i amounts)).accounts.length = f.accounts.length := by
  rw [← length_parents, parents_post, length_parents]

theorem Grounded.of_cons {f : Forest} {s : Step} {steps : List Step} (h : Grounded f.accounts.length (s :: steps)) :
    Grounded (f.step s).accounts.length steps := by
  cases s with
  | root => simpa [step, addRoot, Grounded] using h
  | child p => simpa [step, addChild] using h.2
  | post i amounts => rw [length_post]; exact h.2

theorem parents_run {f : Forest} {steps : List Step} (h : Grounded f.accounts.length steps) :
    (f.run steps).parents = f.parents ++ created steps := by
  induction steps generalizing f with
  | nil => simp [run, created]
  | cons s steps ih =>
    show ((f.step s).run steps).parents = _
    rw [ih h.of_cons]
    cases s with
    | root => simp [step, addRoot, parents, created]
    | child p => simp [step, addChild, parents, created, head?_line h.1]
    | post i amounts => rw [parents_post, created]

end Forest

end LedgerTotals
