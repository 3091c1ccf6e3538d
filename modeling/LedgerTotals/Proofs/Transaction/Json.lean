/-
A transaction is read back from its JSON text, with its amount in whole cents.

All fields but the amount are written as they are, and `null` where they are absent. The amount is written as it is
shown, so what is read back is the cent nearest to it (`Amount.exists_ofText_shown`). Nothing is lost after that: the
transaction that is read back has the same text.

Main result: `ofJson_spelled`, for every layout of the text.
-/
import LedgerTotals.Proofs.Amount.ReadBack
import LedgerTotals.Proofs.Page.Json
import LedgerTotals.Transaction.Json

namespace LedgerTotals

open Json

namespace Json

/-- `null` is read as an absent value, whatever a value would be -/
theorem reads_optional_null {α : Type} (item : Reader α) : Reads (readOptional item) .null none := by
  intro sp cs hsp hcs rest
  have hskip := skipSpace_spelled hsp hcs rest
  cases hcs
  unfold readOptional
  rw [hskip]
  rfl

theorem reads_textOrNull (s : Option String) : Reads (readOptional readText) (Transaction.textOrNull s) s := by
  cases s with
  | none => exact reads_optional_null readText
  | some s => exact reads_optional nofun (reads_text s)

end Json

namespace Transaction

/-- the same transaction, but for its amount, which is rounded to the nearest cent and keeps its symbol -/
structure InCents (t u : Transaction) : Prop where
  id : u.id = t.id
  date : u.date = t.date
  description : u.description = t.description
  relation : u.relation = t.relation
  accountCode : u.accountCode = t.accountCode
  accountDescription : u.accountDescription = t.accountDescription
  amount : u.amount.value.toRat = (nearestCent t.amount.value.toRat : ℚ) / 100
  symbol : u.amount.format.symbol = t.amount.format.symbol

/-- the fields are read one after the other, and none of them is missing in the end -/
theorem reads_transaction (t : Transaction) {b : Amount} (h : Amount.ofText t.amount.toText = .ok b) :
    Reads read t.toValue { t with amount := b } := by
  obtain ⟨id, date, description, amount, relation, code, account⟩ := t
  have hid : Fills fields {} [("id", .string id)] { id := some id } := fills_member rfl rfl rfl (reads_text id)
  have hdate : Fills fields { id := some id } [("date", .string date.toText)] { id := some id, date := some date } :=
    fills_member rfl rfl rfl (reads_date date)
  have hdescription : Fills fields { id := some id, date := some date } [("description", textOrNull description)]
      { id := some id, date := some date, description := some description } :=
    fills_member rfl rfl rfl (reads_textOrNull description)
  have hamount : Fills fields { id := some id, date := some date, description := some description }
      [("amount", amount.toValue)]
      { id := some id, date := some date, description := some description, amount := some b } :=
    fills_member rfl rfl rfl (reads_parsed _ _ h)
  have hrelation : Fills fields
      { id := some id, date := some date, description := some description, amount := some b }
      [("relation_name", textOrNull relation)]
      { id := some id, date := some date, description := some description, amount := some b,
        relation := some relation } :=
    fills_member rfl rfl rfl (reads_textOrNull relation)
  have hcode : Fills fields
      { id := some id, date := some date, description := some description, amount := some b,
        relation := some relation }
      [("account_code", textOrNull code)]
      { id := some id, date := some date, description := some description, amount := some b,
        relation := some relation, accountCode := some code } :=
    fills_member rfl rfl rfl (reads_textOrNull code)
  have haccount : Fills fields
      { id := some id, date := some date, description := some description, amount := some b,
        relation := some relation, accountCode := some code }
      [("account_description", textOrNull account)]
      ⟨some id, some date, some description, some b, some relation, some code, some account⟩ :=
    fills_member rfl rfl rfl (reads_textOrNull account)
  have hrecord := reads_record "BankTransaction"
    ((((((hid.append hdate).append hdescription).append hamount).append hrelation).append hcode).append haccount) rfl
  intro sp cs hsp hcs rest
  unfold read
  rw [hrecord hsp hcs rest]
  rfl

/-- **A transaction survives its JSON text up to cents.** Each of its texts, the one of one line and any other layout of
the same value, is read as one and the same transaction, which differs from the first one in no more than the fractions
of a cent, and which has the same text again -/
theorem ofJson_spelled (t : Transaction) : ∃ u, InCents t u ∧ ofJson t.toLine = .ok u ∧ u.toLine = t.toLine ∧
    ∀ cs, Spells t.toValue cs → ofJson (String.ofList cs) = .ok u ∧ Spells u.toValue cs := by
  obtain ⟨b, hread, hvalue, hformat, htext⟩ := t.amount.exists_ofText_shown
  have hsame : toValue { t with amount := b } = t.toValue := by
    unfold toValue Amount.toValue
    rw [htext]
  have hreads := reads_transaction t hread
  refine ⟨{ t with amount := b }, ⟨rfl, rfl, rfl, rfl, rfl, rfl, hvalue, congrArg (·.symbol) hformat⟩, ?_, ?_, ?_⟩
  · exact readAll_spelled hreads (spells_compact t.toValue)
  · exact congrArg Value.toLine hsame
  · intro cs hcs
    exact ⟨readAll_spelled hreads hcs, hsame ▸ hcs⟩

/-- a date beyond the year 9999, absent fields, and half a cent -/
example : (ofJson (toLine ⟨"t\"1\n", ⟨12345, 1, 3, rfl⟩, none,
    ⟨⟨true, 1234565, 3, by decide, by decide⟩, ⟨some .dollar, true⟩⟩, some "Supermarket", none, none⟩)).map
      (fun u => (u.id, u.date.toText, u.description, u.amount.toText)) =
    .ok ("t\"1\n", "+12345-01-03", none, "-$1,234.57") := by
  decide +kernel

end Transaction

end LedgerTotals
