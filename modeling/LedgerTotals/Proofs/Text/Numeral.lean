/-
How a whole number is written.

It has no leading zeros, and zero is a single digit. In groups, all of them have three digits but the first, which has
fewer where the digits run out. The groups are formed from the left, and a comma goes where a multiple of three digits
is left to write, so they come out as if counted from the right (`pieces_grouped`).

- `isNumeral_digits`: the digits of a number have no leading zeros;
- `groupedInThrees_grouped`: grouped digits are grouped in threes.
-/
import LedgerTotals.Proofs.Text.Digits
import LedgerTotals.Text.Pieces

namespace LedgerTotals

/-! ## Pieces -/

theorem pieces_cons_mark (mark : Char) (cs : List Char) : pieces mark (mark :: cs) = [] :: pieces mark cs :=
  if_pos rfl

theorem pieces_cons_of_ne {mark c : Char} (h : c ≠ mark) {cs p : List Char} {ps : List (List Char)}
    (hcs : pieces mark cs = p :: ps) : pieces mark (c :: cs) = (c :: p) :: ps := by
  rw [pieces, if_neg h, hcs]

namespace Digits

/-! ## Leading zeros -/

/-- digits without leading zeros: a zero stands at the front only as the single digit of zero -/
structure IsNumeral (ds : List Char) : Prop where
  nonempty : ds ≠ []
  digit : ∀ c ∈ ds, isDigit c = true
  leading : ds.head? = some '0' → ds = ['0']

theorem head?_digits_ne {n : ℕ} (hn : n ≠ 0) : (digits n).head? ≠ some '0' := by
  induction n using Nat.strong_induction_on with
  | _ n ih =>
    rw [digits_eq]
    split_ifs with h
    · intro hzero
      have hvalue : digitValue (digitChar n) = digitValue '0' := congrArg digitValue (Option.some.inj hzero)
      rw [digitValue_digitChar h] at hvalue
      exact hn hvalue
    · rw [List.head?_append_of_ne_nil _ (digits_ne_nil _)]
      exact ih (n / 10) (by omega) (by omega)

theorem isNumeral_digits (n : ℕ) : IsNumeral (digits n) := by
  refine ⟨digits_ne_nil n, fun c hc => isDigit_of_mem_digits hc, fun hzero => ?_⟩
  obtain rfl : n = 0 := by
    by_contra hn
    exact head?_digits_ne hn hzero
  rw [digits_eq]
  rfl

/-! ## Groups of three -/

/-- the pieces between the commas have three characters, but for the first, which has one to three -/
def GroupedInThrees (cs : List Char) : Prop :=
  ∃ g gs, pieces ',' cs = g :: gs ∧ 1 ≤ g.length ∧ g.length ≤ 3 ∧ ∀ h ∈ gs, h.length = 3

/-- the first group takes what is left over of the others -/
theorem pieces_grouped {ds : List Char} (hne : ds ≠ []) (hds : ∀ c ∈ ds, isDigit c = true) :
    ∃ g gs, pieces ',' (grouped ds) = g :: gs ∧ g.length = (ds.length - 1) % 3 + 1 ∧ ∀ h ∈ gs, h.length = 3 := by
  induction ds with
  | nil => exact absurd rfl hne
  | cons c r ih =>
    have hc : c ≠ ',' := ne_of_isDigit (hds c List.mem_cons_self) rfl
    by_cases hr : r = []
    · subst hr
      exact ⟨[c], [], pieces_cons_of_ne hc rfl, rfl, nofun⟩
    · obtain ⟨g, gs, hpieces, hlength, hthree⟩ := ih hr fun d hd => hds d (List.mem_cons_of_mem _ hd)
      have hpos : 0 < r.length := List.length_pos_iff.2 hr
      by_cases hcomma : r.length % 3 = 0
      · -- what follows is made of whole groups, so a new one starts behind the comma
        refine ⟨[c], g :: gs, ?_, ?_, ?_⟩
        · rw [grouped, if_pos ⟨hcomma, hr⟩]
          exact pieces_cons_of_ne hc ((pieces_cons_mark ',' _).trans (by rw [hpieces]))
        · rw [List.length_singleton, List.length_cons]
          omega
        · intro h hh
          rcases List.mem_cons.1 hh with rfl | hh
          · omega
          · exact hthree h hh
      · refine ⟨c :: g, gs, ?_, ?_, hthree⟩
        · rw [grouped, if_neg fun h => hcomma h.1]
          exact pieces_cons_of_ne hc hpieces
        · rw [List.length_cons, List.length_cons]
          omega

theorem groupedInThrees_grouped {ds : List Char} (hne : ds ≠ []) (hds : ∀ c ∈ ds, isDigit c = true) :
    GroupedInThrees (grouped ds) := by
  obtain ⟨g, gs, hpieces, hlength, hthree⟩ := pieces_grouped hne hds
  exact ⟨g, gs, hpieces, by omega, by omega, hthree⟩

end Digits

end LedgerTotals
