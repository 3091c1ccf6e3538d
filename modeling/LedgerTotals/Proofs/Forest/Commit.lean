/-
When a posting writes, and what.

A posting reads and writes accounts one at a time, and a stop on the way does not undo what was written by then. But
finding the new totals only reads (`exec_mapM_newTotals`), and once they are found nothing can stop the writing
(`exec_forM_commit`). So a posting that stops has written nothing, and one that goes through gives the whole line its
new totals, all found from the old ones (`posted_eq`).
-/
import LedgerTotals.Forest
import LedgerTotals.Proofs.Totals

namespace LedgerTotals

namespace Forest

/-! ## One account at a time -/

namespace Posting

variable {α β : Type}

theorem exec_bind (x : Posting α) (k : α → Posting β) (f : Forest) : (x >>= k).exec f = match x.exec f with
    | (.ok a, g) => (k a).exec g
    | (.error e, g) => (.error e, g) := by
  rw [exec, exec, ExceptT.run_bind, StateT.run_bind]
  rcases x.run.run f with ⟨_ | a, g⟩ <;> rfl

theorem exec_orOverflow (o : Option α) (f : Forest) : (orOverflow o).exec f = (o.elim (.error ⟨⟩) .ok, f) := by
  cases o <;> rfl

theorem exec_commit (u : ℕ × Totals) (f : Forest) : (commit u).exec f = (.ok (), f.write u.1 u.2) := rfl

/-- finding the new totals of an account changes nothing -/
theorem exec_newTotals (batch : Totals) (j : ℕ) (f : Forest) :
    (newTotals batch j).exec f = ((batch.post? (f.totalsAt j)).elim (.error ⟨⟩) fun t => .ok (j, t), f) := by
  rw [newTotals, exec_bind]
  show ((orOverflow (batch.post? (f.totalsAt j)) >>= fun t => pure (j, t)).exec f) = _
  rw [exec_bind, exec_orOverflow]
  cases batch.post? (f.totalsAt j) <;> rfl

/-- nor does finding those of a whole line: whatever comes of it, the forest is as before -/
theorem exec_mapM_newTotals (batch : Totals) (l : List ℕ) (f : Forest) :
    (l.mapM (newTotals batch)).exec f =
      ((l.mapM fun j => batch.post? (f.totalsAt j)).elim (.error ⟨⟩) fun ts => .ok (l.zip ts), f) := by
  induction l with
  | nil => rfl
  | cons j l ih =>
    simp only [List.mapM_cons, exec_bind, exec_newTotals]
    cases batch.post? (f.totalsAt j) with
    | none => rfl
    | some t =>
      simp only [Option.elim_some, ih]
      cases l.mapM fun j => batch.post? (f.totalsAt j) <;> rfl

/-- writing goes through whatever is written -/
theorem exec_forM_commit (us : List (ℕ × Totals)) (f : Forest) :
    (us.forM commit).exec f = (.ok (), us.foldl (fun g u => g.write u.1 u.2) f) := by
  induction us generalizing f with
  | nil => rfl
  | cons u us ih =>
    show (commit u >>= fun _ => us.forM commit).exec f = _
    rw [exec_bind, exec_commit]
    exact ih _

end Posting

/-! ## A line of accounts -/

theorem ext_account? {f g : Forest} (h : ∀ j, f.account? j = g.account? j) : f = g := by
  obtain ⟨as⟩ := f
  obtain ⟨bs⟩ := g
  exact congrArg Forest.mk (List.ext_getElem? h)

theorem account?_write (f : Forest) (i j : ℕ) (t : Totals) :
    (f.write i t).account? j = (f.account? j).map fun a => if i = j then { a with totals := t } else a := by
  simp only [account?, write, List.getElem?_modify]
  rfl

theorem account?_setTotals (f : Forest) (line : List ℕ) (totals : List Totals) (j : ℕ) :
    (f.setTotals line totals).account? j = (f.account? j).map fun a =>
      { a with totals := ((line.zip totals).lookup j).getD a.totals } := by
  simp only [account?, setTotals, List.getElem?_mapIdx]
  congr 1
  funext a
  cases (line.zip totals).lookup j <;> rfl

/-- updates that agree where they name one account can be written in any order -/
theorem account?_foldl_write {us : List (ℕ × Totals)} (h : ∀ u ∈ us, ∀ v ∈ us, u.1 = v.1 → u.2 = v.2) (f : Forest)
    (j : ℕ) : (us.foldl (fun g u => g.write u.1 u.2) f).account? j =
      (f.account? j).map fun a => { a with totals := (us.lookup j).getD a.totals } := by
  induction us generalizing f with
  | nil => simp
  | cons u us ih =>
    have hrest := ih (fun v hv w hw => h v (List.mem_cons_of_mem _ hv) w (List.mem_cons_of_mem _ hw)) (f.write u.1 u.2)
    rw [List.foldl_cons, hrest, account?_write, Option.map_map]
    congr 1
    funext a
    rw [Function.comp_apply, List.lookup_cons]
    by_cases hj : u.1 = j
    · have hlast : (us.lookup j).getD u.2 = u.2 := by
        cases hlookup : us.lookup j with
        | none => rfl
        | some t =>
          obtain ⟨l₁, l₂, hus, -⟩ := List.lookup_eq_some_iff.1 hlookup
          exact (h u List.mem_cons_self (j, t) (by simp [hus]) hj).symm
      simp [hj, hlast]
    · have hne : (j == u.1) = false := by simpa using fun heq => hj heq.symm
      simp [hj, hne]

/-- **What a posting comes to.** It goes through if the batch can be summed and added to every total of the line, and
then the line has these new totals. If it stops, it leaves the forest as it found it. -/
theorem posted_eq (f : Forest) (i : ℕ) (amounts : List Decimal) : f.posted i amounts =
    match (Totals.ofBatch? amounts).bind fun batch => batch.postAll? (f.lineTotals i) with
    | some totals => (.ok (), f.setTotals (f.line i) totals)
    | none => (.error ⟨⟩, f) := by
  have hline : ∀ batch : Totals, batch.postAll? (f.lineTotals i) =
      (f.line i).mapM fun j => batch.post? (f.totalsAt j) := fun batch => List.mapM_map
  have hget : ∀ g : Forest, (get : Posting Forest).exec g = (.ok g, g) := fun _ => rfl
  simp only [posted, Posting.post, Posting.exec_bind, hget, Posting.exec_orOverflow, hline]
  cases Totals.ofBatch? amounts with
  | none => rfl
  | some batch =>
    simp only [Option.elim_some, Option.bind_some, Posting.exec_mapM_newTotals]
    cases htotals : (f.line i).mapM fun j => batch.post? (f.totalsAt j) with
    | none => rfl
    | some totals =>
      simp only [Option.elim_some, Posting.exec_forM_commit]
      have hfound := mapM_eq_some_iff.1 htotals
      congr 1
      refine ext_account? fun j => ?_
      rw [account?_setTotals, account?_foldl_write]
      rintro ⟨j₁, t₁⟩ h₁ ⟨j₂, t₂⟩ h₂ (rfl : j₁ = j₂)
      exact Option.some.inj ((List.forall₂_zip hfound h₁).symm.trans (List.forall₂_zip hfound h₂))

theorem post?_eq (f : Forest) (i : ℕ) (amounts : List Decimal) : f.post? i amounts =
    ((Totals.ofBatch? amounts).bind fun batch => batch.postAll? (f.lineTotals i)).map (f.setTotals (f.line i)) := by
  rw [post?, posted_eq]
  cases (Totals.ofBatch? amounts).bind fun batch => batch.postAll? (f.lineTotals i) <;> rfl

theorem post?_eq_some_iff {f g : Forest} {i : ℕ} {amounts : List Decimal} :
    f.post? i amounts = some g ↔ ∃ batch totals, Totals.ofBatch? amounts = some batch ∧
      batch.postAll? (f.lineTotals i) = some totals ∧ g = f.setTotals (f.line i) totals := by
  rw [post?_eq, Option.map_eq_some_iff]
  simp only [Option.bind_eq_some_iff]
  constructor
  · rintro ⟨totals, ⟨batch, hbatch, htotals⟩, rfl⟩
    exact ⟨batch, totals, hbatch, htotals, rfl⟩
  · rintro ⟨batch, totals, hbatch, htotals, rfl⟩
    exact ⟨totals, ⟨batch, hbatch, htotals⟩, rfl⟩

/-- what is left behind is the forest after the posting, or else the one before it -/
theorem posted_snd (f : Forest) (i : ℕ) (amounts : List Decimal) :
    (f.posted i amounts).2 = (f.post? i amounts).getD f := by
  rw [post?_eq, posted_eq]
  cases (Totals.ofBatch? amounts).bind fun batch => batch.postAll? (f.lineTotals i) <;> rfl

/-- an operation that stops changes nothing -/
theorem step_eq (f : Forest) (s : Step) : f.step s = (f.step? s).getD f := by
  cases s with
  | root => rfl
  | child i => rfl
  | post i amounts => exact f.posted_snd i amounts

theorem posted_isOk (f : Forest) (i : ℕ) (amounts : List Decimal) :
    (f.posted i amounts).1.isOk = (f.post? i amounts).isSome := by
  rw [post?_eq, posted_eq]
  cases (Totals.ofBatch? amounts).bind fun batch => batch.postAll? (f.lineTotals i) <;> rfl

end Forest

end LedgerTotals
