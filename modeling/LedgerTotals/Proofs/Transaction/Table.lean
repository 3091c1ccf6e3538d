/-
Every record of a table is accounted for once, as a transaction or as a failure with its row.

What becomes of a record depends on the header and on its own fields only (`decode_congr`), so a record that is no
transaction takes nothing away from its neighbours: put between two records, it makes one more failure, and moves those
behind it one row down (`oneMore_rejected`).

Main result: `ofCsv_accounts`.
-/
import LedgerTotals.Proofs.Csv.Spelling
import LedgerTotals.Proofs.Csv.Text
import LedgerTotals.Transaction.Table

namespace LedgerTotals

namespace Transactions

open Csv

/-! ## Rows that are no transactions -/

/-- a record that is no transaction, its index among the records behind the header, and why -/
structure Rejected where
  index : ℕ
  record : Record
  error : RecordError

def Rejected.failure (x : Rejected) : String := Transactions.failure x.index x.record x.error

/-- the record at an index, if it is no transaction -/
def reject? (header : List String) (row : Record × ℕ) : Option Rejected :=
  match decode header row.1 with
  | .ok _ => none
  | .error e => some ⟨row.2, row.1, e⟩

/-- the records that are no transactions, with `i` records in front of them all -/
def rejectedFrom (header : List String) (i : ℕ) (rows : List Record) : List Rejected :=
  (rows.zipIdx i).filterMap (reject? header)

/-- the records behind the header that are no transactions -/
def rejected (header : List String) (rows : List Record) : List Rejected := rejectedFrom header 0 rows

variable {header : List String} {i : ℕ} {r r' : Record} {rows rows' : List Record} {x : Rejected}

theorem reject?_eq_some_iff {row : Record × ℕ} :
    reject? header row = some x ↔ row = (x.record, x.index) ∧ decode header x.record = .error x.error := by
  obtain ⟨r, index⟩ := row
  obtain ⟨index', r', e'⟩ := x
  unfold reject?
  cases h : decode header r with
  | ok t =>
    simp only [reduceCtorEq, false_iff, not_and, Prod.mk.injEq, and_imp]
    rintro rfl -
    simp [h]
  | error e =>
    simp only [Option.some.injEq, Rejected.mk.injEq, Prod.mk.injEq]
    constructor
    · rintro ⟨rfl, rfl, rfl⟩
      exact ⟨⟨rfl, rfl⟩, h⟩
    · rintro ⟨⟨rfl, rfl⟩, he⟩
      rw [h] at he
      exact ⟨rfl, rfl, Except.error.inj he⟩

theorem mem_rejected : x ∈ rejected header rows ↔
    rows[x.index]? = some x.record ∧ decode header x.record = .error x.error := by
  unfold rejected rejectedFrom
  rw [List.mem_filterMap]
  constructor
  · rintro ⟨row, hmem, hrow⟩
    obtain ⟨rfl, he⟩ := reject?_eq_some_iff.1 hrow
    exact ⟨List.mem_zipIdx_iff_getElem?.1 hmem, he⟩
  · rintro ⟨hget, he⟩
    exact ⟨(x.record, x.index), List.mem_zipIdx_iff_getElem?.2 hget, reject?_eq_some_iff.2 ⟨rfl, he⟩⟩

/-- they stand in the order of the records -/
theorem rejected_pairwise (header : List String) (rows : List Record) :
    (rejected header rows).Pairwise fun x y => x.index < y.index := by
  have hindices : (rows.zipIdx 0).Pairwise fun row row' => row.2 < row'.2 := by
    rw [← List.pairwise_map (f := Prod.snd) (R := (· < ·)), List.zipIdx_map_snd]
    exact List.pairwise_lt_range' 1
  apply hindices.filterMap
  intro row row' hlt x hx y hy
  rw [(reject?_eq_some_iff.1 hx).1, (reject?_eq_some_iff.1 hy).1] at hlt
  exact hlt

theorem rejectedFrom_append (header : List String) (i : ℕ) (rows rows' : List Record) :
    rejectedFrom header i (rows ++ rows') =
      rejectedFrom header i rows ++ rejectedFrom header (i + rows.length) rows' := by
  unfold rejectedFrom
  rw [List.zipIdx_append, List.filterMap_append]

theorem rejectedFrom_cons (header : List String) (i : ℕ) (r : Record) (rows : List Record) :
    rejectedFrom header i (r :: rows) = (reject? header (r, i)).toList ++ rejectedFrom header (i + 1) rows := by
  unfold rejectedFrom
  rw [List.zipIdx_cons, List.filterMap_cons]
  cases reject? header (r, i) <;> rfl

theorem index_of_mem_rejectedFrom (h : x ∈ rejectedFrom header i rows) : i ≤ x.index ∧ x.index < i + rows.length := by
  obtain ⟨row, hmem, hrow⟩ := List.mem_filterMap.1 h
  obtain ⟨rfl, -⟩ := reject?_eq_some_iff.1 hrow
  obtain ⟨hlow, hhigh, -⟩ := List.mem_zipIdx hmem
  exact ⟨hlow, hhigh⟩

/-! ## Reading -/

/-- **Once each**: the transactions of a table are those of its records in their order, and every other record is a
failure with its number, in the same order -/
structure Accounts (header : List String) (rows : List Record) (ts : Transactions) : Prop where
  data : ts.data = rows.filterMap fun r => (decode header r).toOption
  failures : ts.failures = (rejected header rows).map Rejected.failure
  count : ts.data.length + ts.failures.length = rows.length
  complete : ∀ x, x ∈ rejected header rows ↔
    rows[x.index]? = some x.record ∧ decode header x.record = .error x.error
  sorted : (rejected header rows).Pairwise fun x y => x.index < y.index
  numbered : ∀ x ∈ rejected header rows, ("Row " ++ Digits.text (x.index + 2) ++ ": ").toList <+: x.failure.toList

theorem decodeAll_eq (header : List String) (i : ℕ) (rows : List Record) :
    decodeAll header i rows =
      ⟨rows.filterMap fun r => (decode header r).toOption, (rejectedFrom header i rows).map Rejected.failure⟩ := by
  induction rows generalizing i with
  | nil => rfl
  | cons r rows ih =>
    rw [decodeAll, rejectedFrom_cons, ih, reject?, List.filterMap_cons]
    cases decode header r <;> rfl

theorem length_decodeAll (header : List String) (i : ℕ) (rows : List Record) :
    (decodeAll header i rows).data.length + (decodeAll header i rows).failures.length = rows.length := by
  induction rows generalizing i with
  | nil => rfl
  | cons r rows ih =>
    have hrest := ih (i + 1)
    rw [decodeAll]
    cases decode header r with
    | ok t =>
      simp only [List.length_cons]
      omega
    | error e =>
      simp only [List.length_cons]
      omega

theorem accounts_decodeAll (header : List String) (rows : List Record) :
    Accounts header rows (decodeAll header 0 rows) where
  data := congrArg Transactions.data (decodeAll_eq header 0 rows)
  failures := congrArg Transactions.failures (decodeAll_eq header 0 rows)
  count := length_decodeAll header 0 rows
  complete _ := mem_rejected
  sorted := rejected_pairwise header rows
  numbered _ _ := ⟨_, String.toList_append.symm⟩

/-- only a header that is no text is an error -/
theorem ofCsv_of_records_eq_cons {bytes : List UInt8} {head : Record} (h : records bytes = head :: rows)
    (hhead : head.fields = header.map Utf8.encode) : ofCsv bytes = .ok (decodeAll header 0 rows) := by
  unfold ofCsv
  simp only [h, Record.texts_eq_ok_iff.2 hhead]

theorem isOk_ofCsv_eq_false_iff {bytes : List UInt8} :
    (ofCsv bytes).isOk = false ↔ ∃ head rows, records bytes = head :: rows ∧ ¬ head.IsText := by
  unfold ofCsv
  cases hrecords : records bytes with
  | nil => simp [Except.isOk, Except.toBool]
  | cons head rows =>
    cases htexts : head.texts with
    | ok header =>
      have hhead : head.IsText := Record.isText_iff.2 ⟨header, htexts⟩
      simp [htexts, Except.isOk, Except.toBool, hhead]
    | error e =>
      have hhead : ¬ head.IsText := by
        intro hhead
        obtain ⟨texts, hok⟩ := Record.isText_iff.1 hhead
        rw [htexts] at hok
        cases hok
      simp [htexts, Except.isOk, Except.toBool, hhead]

/-! ## One more row -/

/-- what becomes of a record depends on its fields only -/
theorem decode_congr (header : List String) (h : r.fields = r'.fields) : decode header r = decode header r' := by
  unfold decode Record.cells Record.texts
  rw [h]

/-- the same failure, one row further down; where its record begins may be told differently -/
structure MovedDown (x y : Rejected) : Prop where
  index : y.index = x.index + 1
  fields : y.record.fields = x.record.fields
  error : y.error = x.error

/-- one more failure, of the record at an index: those in front of it stay, those behind it move one row down -/
def OneMore (index : ℕ) (old new : List Rejected) : Prop :=
  ∃ above x below below', old = above ++ below ∧ new = above ++ x :: below' ∧ x.index = index ∧
    (∀ y ∈ above, y.index < index) ∧ (∀ y ∈ below, index ≤ y.index) ∧ List.Forall₂ MovedDown below below'

theorem movedDown_rejectedFrom (header : List String) (i : ℕ) (h : rows.map (·.fields) = rows'.map (·.fields)) :
    List.Forall₂ MovedDown (rejectedFrom header i rows) (rejectedFrom header (i + 1) rows') := by
  induction rows generalizing i rows' with
  | nil =>
    obtain rfl := List.map_eq_nil_iff.1 h.symm
    exact .nil
  | cons r rows ih =>
    obtain ⟨r', rest, rfl, hr, hrest⟩ := List.map_eq_cons_iff.1 h.symm
    rw [rejectedFrom_cons, rejectedFrom_cons, reject?, reject?]
    simp only [decode_congr header hr]
    cases decode header r with
    | ok t => exact ih (i + 1) hrest.symm
    | error e => exact .cons ⟨rfl, hr, rfl⟩ (ih (i + 1) hrest.symm)

theorem oneMore_rejected (header : List String) (above : List Record) {e : RecordError}
    (hr : decode header r = .error e) (h : rows.map (·.fields) = rows'.map (·.fields)) :
    OneMore above.length (rejected header (above ++ rows)) (rejected header (above ++ r :: rows')) := by
  unfold rejected
  rw [rejectedFrom_append, rejectedFrom_append, rejectedFrom_cons, reject?, Nat.zero_add]
  simp only [hr]
  refine ⟨_, ⟨above.length, r, e⟩, _, _, rfl, rfl, rfl, ?_, ?_, movedDown_rejectedFrom header above.length h⟩
  · intro y hy
    simpa using (index_of_mem_rejectedFrom hy).2
  · intro y hy
    exact (index_of_mem_rejectedFrom hy).1

theorem filterMap_decode_congr (header : List String) (h : rows.map (·.fields) = rows'.map (·.fields)) :
    (rows.filterMap fun r => (decode header r).toOption) = rows'.filterMap fun r => (decode header r).toOption := by
  let transaction? (fields : List (List UInt8)) : Option Transaction := (decode header ⟨fields, ⟨0, 0⟩⟩).toOption
  calc (rows.filterMap fun r => (decode header r).toOption)
      = (rows.map (·.fields)).filterMap transaction? := by rw [List.filterMap_map]; rfl
    _ = (rows'.map (·.fields)).filterMap transaction? := by rw [h]
    _ = rows'.filterMap fun r => (decode header r).toOption := by rw [List.filterMap_map]; rfl

/-- **Every record of a table is accounted for once.** The records are what the bytes spell. Only a header that is no
text in UTF-8 is an error; then every record behind it is a transaction, or a failure with its number. If a whole record
that is no transaction is put between two others, behind the header, then the transactions stay, that record is one more
failure, and just the failures behind it are told one row further down -/
theorem ofCsv_accounts (bytes : List UInt8) :
    (∀ table, SpellsTable table (unmarked bytes) ↔ (records bytes).map (·.fields) = table) ∧
    ((ofCsv bytes).isOk = false ↔ ∃ head rows, records bytes = head :: rows ∧ ¬ head.IsText) ∧
    (records bytes = [] → ofCsv bytes = .ok ⟨[], []⟩) ∧
    ∀ head rows header, records bytes = head :: rows → head.fields = header.map Utf8.encode →
      ∃ ts, ofCsv bytes = .ok ts ∧ Accounts header rows ts ∧
        ∀ before after above row fields start, bytes = before ++ after →
          SpellsWhole (head.fields :: above) (unmarked before) → SpellsWhole [fields] row →
          (decode header ⟨fields, start⟩).isOk = false →
          ∃ behind rows' ts', rows.map (·.fields) = above ++ behind ∧
            records (before ++ row ++ after) = head :: rows' ∧ rows'.map (·.fields) = above ++ fields :: behind ∧
            ofCsv (before ++ row ++ after) = .ok ts' ∧ Accounts header rows' ts' ∧ ts'.data = ts.data ∧
            OneMore above.length (rejected header rows) (rejected header rows') := by
  refine ⟨fun _ => spellsTable_iff, isOk_ofCsv_eq_false_iff, ?_, ?_⟩
  · intro hnone
    unfold ofCsv
    rw [hnone]
  intro head rows header hrecords hhead
  refine ⟨_, ofCsv_of_records_eq_cons hrecords hhead, accounts_decodeAll header rows, ?_⟩
  rintro before after above row fields start rfl hbefore hrow hbad
  obtain ⟨rs, hwhole, hrs⟩ := Splitter.exists_completes (settled_opening before) (place_opening before) hbefore
  obtain ⟨head', first, rfl, -, rfl⟩ := List.map_eq_cons_iff.1 hrs
  have hended : (feed before).1 = head' :: first := hwhole.records
  have hne : (feed before).1 ≠ [] := by
    rw [hended]
    exact List.cons_ne_nil _ _
  -- the records with and without the row, from the place where it is put
  obtain ⟨r, rest, hrest, hr, hsame⟩ := Splitter.records_insert (settled_feed before) hwhole.between hrow after
  have hold : head :: rows = head' :: (first ++ (feed before).2.records after) := by
    rw [← hrecords, records_append hne, hended, List.cons_append]
  obtain ⟨rfl, rfl⟩ := List.cons.inj hold
  have hnew : records (before ++ row ++ after) = head :: (first ++ r :: rest) := by
    rw [List.append_assoc, records_append hne, hended, hrest, List.cons_append]
  have hdecode : decode header r = decode header ⟨fields, start⟩ := decode_congr header hr
  obtain ⟨e, he⟩ : ∃ e, decode header r = .error e := by
    rw [← hdecode] at hbad
    cases hresult : decode header r with
    | ok t => simp [hresult, Except.isOk, Except.toBool] at hbad
    | error e => exact ⟨e, rfl⟩
  refine ⟨((feed before).2.records after).map (·.fields), first ++ r :: rest, _, List.map_append, hnew, ?_,
    ofCsv_of_records_eq_cons hnew hhead, accounts_decodeAll header _, ?_, ?_⟩
  · rw [List.map_append, List.map_cons, hr, hsame]
  · rw [decodeAll_eq, decodeAll_eq]
    simp only [List.filterMap_append, List.filterMap_cons, he, Except.toOption]
    exact congrArg _ (filterMap_decode_congr header hsame)
  · rw [List.length_map]
    exact oneMore_rejected header first he hsame.symm

/-- a header and one record, whose line end is still to be completed -/
def upperLines : List UInt8 := Utf8.encode "id,date,amount\r\nt1,2022-01-03,\"-1,000\"\r"

/-- two fields, with a line end and a quotation mark inside the first one -/
def shortLine : List UInt8 := Utf8.encode "\"t2\n\"\"\",never\n"

/-- a blank line, a record, and another one that has no line end and is no transaction -/
def lowerLines : List UInt8 := Utf8.encode "\n\nt3,2022-01-04,5\nt4,2022-02-30,1"

theorem ofCsv_accounts_shortLine :
    ∃ ts ts', ofCsv (upperLines ++ lowerLines) = .ok ts ∧ ofCsv (upperLines ++ shortLine ++ lowerLines) = .ok ts' ∧
      ts'.data = ts.data ∧ ts.data.length = 2 ∧ ts.failures.length = 1 ∧ ts'.failures.length = 2 := by
  let head : Record := ⟨["id", "date", "amount"].map Utf8.encode, ⟨0, 1⟩⟩
  let first : Record := ⟨["t1", "2022-01-03", "-1,000"].map Utf8.encode, ⟨15, 1⟩⟩
  let short : Record := ⟨["t2\n\"", "never"].map Utf8.encode, ⟨0, 1⟩⟩
  have hrecords : records (upperLines ++ lowerLines) =
      [head, first, ⟨["t3", "2022-01-04", "5"].map Utf8.encode, ⟨39, 2⟩⟩,
        ⟨["t4", "2022-02-30", "1"].map Utf8.encode, ⟨57, 5⟩⟩] := by decide +kernel
  have hupper : SpellsWhole [head.fields, first.fields] (unmarked upperLines) :=
    (Splitter.spellsWhole_iff (Splitter.settled_initial 0) rfl).2
      ⟨[head, first], ⟨by decide +kernel, by decide +kernel⟩, rfl⟩
  have hshort : SpellsWhole [short.fields] shortLine :=
    (Splitter.spellsWhole_iff (Splitter.settled_initial 0) rfl).2 ⟨[short], ⟨by decide +kernel, by decide +kernel⟩, rfl⟩
  obtain ⟨-, -, -, hall⟩ := ofCsv_accounts (upperLines ++ lowerLines)
  obtain ⟨ts, hts, -, hinsert⟩ := hall _ _ ["id", "date", "amount"] hrecords rfl
  obtain ⟨-, -, ts', -, -, -, hts', -, hdata, -⟩ := hinsert _ _ _ _ _ ⟨0, 1⟩ rfl hupper hshort (by decide +kernel)
  have hcount : (ofCsv (upperLines ++ lowerLines)).map (fun ts => (ts.data.length, ts.failures.length)) = .ok (2, 1) := by
    decide +kernel
  have hcount' : (ofCsv (upperLines ++ shortLine ++ lowerLines)).map (fun ts => ts.failures.length) = .ok 2 := by
    decide +kernel
  rw [hts] at hcount
  rw [hts'] at hcount'
  obtain ⟨hsize, hfailures⟩ := Prod.mk.inj (Except.ok.inj hcount)
  exact ⟨ts, ts', hts, hts', hdata, hsize, hfailures, Except.ok.inj hcount'⟩

end Transactions

end LedgerTotals
