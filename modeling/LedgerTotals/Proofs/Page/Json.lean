/-
A page is read back from its JSON text.

Every part of a page is read back from what spells it, field by field: what is absent is not written and stays absent.

Main result: `Page.round_trip`, for the text of one line and the text of several lines.
-/
import LedgerTotals.Proofs.Date
import LedgerTotals.Proofs.Json.Reads
import LedgerTotals.Page.Json

namespace LedgerTotals

open Json

/-- a member that is written only if its value is there fills its field, or leaves the draft as it is -/
theorem fills_member? {σ α : Type} {fields : List (RecordField σ)} {name : String} {required : Bool}
    {get : σ → Option (Option α)} {set : σ → Option α → σ} {item : Reader α} {toValue : α → Value} {s s' : σ}
    (hfind : fields.find? (·.name == name) = some (.of name required get set (readOptional item))) (hget : get s = none)
    (o : Option α) (hset : (o.elim s fun a => set s (some a)) = s') (hnull : ∀ a, toValue a ≠ .null)
    (hitem : ∀ a, Reads item (toValue a) a) : Fills fields s (member? name (o.map toValue)) s' := by
  subst hset
  cases o with
  | none => exact .nil s
  | some a =>
    have hfilled : (RecordField.of name required get set (readOptional item)).filled s = false := by
      simp [RecordField.of, hget]
    exact .cons hfind hfilled (reads_field name required get set (reads_optional (hnull a) (hitem a)) s) (.nil _)

/-- a member that is always written fills its field -/
theorem fills_member {σ α : Type} {fields : List (RecordField σ)} {name : String} {required : Bool}
    {get : σ → Option α} {set : σ → α → σ} {item : Reader α} {s s' : σ} {v : Value} {a : α}
    (hfind : fields.find? (·.name == name) = some (.of name required get set item)) (hget : get s = none)
    (hset : set s a = s') (h : Reads item v a) : Fills fields s [(name, v)] s' := by
  subst hset
  have hfilled : (RecordField.of name required get set item).filled s = false := by simp [RecordField.of, hget]
  exact .cons hfind hfilled (reads_field name required get set h s) (.nil _)

theorem forall₂_reads {α : Type} {item : Reader α} {toValue : α → Value} (h : ∀ a, Reads item (toValue a) a)
    (as : List α) : List.Forall₂ (Reads item) (as.map toValue) as := by
  rw [List.forall₂_map_left_iff, List.forall₂_same]
  exact fun a _ => h a

/-! ## The parts of a page -/

theorem reads_date (d : Date) : Reads readDate (.string d.toText) d := reads_parsed _ _ d.ofText_toText

theorem reads_sinks (s : Sinks) : Reads Sinks.read s.toValue s := by
  have hdebit : Fills Sinks.fields {} [("debit", .string s.debit)] { debit := some s.debit } :=
    fills_member rfl rfl rfl (reads_text s.debit)
  have hcredit : Fills Sinks.fields { debit := some s.debit } [("credit", .string s.credit)]
      { debit := some s.debit, credit := some s.credit } := fills_member rfl rfl rfl (reads_text s.credit)
  have htotal : Fills Sinks.fields { debit := some s.debit, credit := some s.credit } [("total", .string s.total)]
      ⟨some s.debit, some s.credit, some s.total⟩ := fills_member rfl rfl rfl (reads_text s.total)
  exact reads_finish (reads_record "DisplaySinks" ((hdebit.append hcredit).append htotal) rfl) _

theorem reads_row (r : Row) : Reads Row.read r.toValue r := by
  obtain ⟨id, date, description, amount⟩ := r
  have hid : Fills Row.fields {} (member? "id" (id.map .string)) { id := id.map some } :=
    fills_member? rfl rfl id (by cases id <;> rfl) (fun _ => nofun) reads_text
  have hdate : Fills Row.fields { id := id.map some } (member? "date" (date.map fun d => .string d.toText))
      { id := id.map some, date := date.map some } :=
    fills_member? rfl rfl date (by cases date <;> rfl) (fun _ => nofun) reads_date
  have hdescription : Fills Row.fields { id := id.map some, date := date.map some }
      (member? "description" (description.map .string))
      { id := id.map some, date := date.map some, description := description.map some } :=
    fills_member? rfl rfl description (by cases description <;> rfl) (fun _ => nofun) reads_text
  have hamount : Fills Row.fields { id := id.map some, date := date.map some, description := description.map some }
      [("amount", .string amount)] ⟨id.map some, date.map some, description.map some, some amount⟩ :=
    fills_member rfl rfl rfl (reads_text amount)
  have hread := reads_finish (reads_record "PageRow" (((hid.append hdate).append hdescription).append hamount) rfl)
    Row.Draft.finish
  have hdraft : Row.Draft.finish ⟨id.map some, date.map some, description.map some, some amount⟩ =
      ⟨id, date, description, amount⟩ := by
    cases id <;> cases date <;> cases description <;> rfl
  rw [hdraft] at hread
  exact hread

theorem reads_category (c : Category) : Reads Category.read c.toValue c := by
  obtain ⟨label, rows, totals⟩ := c
  have hlabel : Fills Category.fields {} [("label", .string label)] { label := some label } :=
    fills_member rfl rfl rfl (reads_text label)
  have hrows : Fills Category.fields { label := some label } [("rows", .array (rows.map Row.toValue))]
      { label := some label, rows := some rows } := fills_member rfl rfl rfl (reads_list (forall₂_reads reads_row rows))
  have htotals : Fills Category.fields { label := some label, rows := some rows }
      (member? "totals" (totals.map Sinks.toValue)) ⟨some label, some rows, totals.map some⟩ :=
    fills_member? rfl rfl totals (by cases totals <;> rfl) (fun _ => nofun) reads_sinks
  have hread := reads_finish (reads_record "PageCategory" ((hlabel.append hrows).append htotals) rfl)
    Category.Draft.finish
  have hdraft : Category.Draft.finish ⟨some label, some rows, totals.map some⟩ = ⟨label, rows, totals⟩ := by
    cases totals <;> rfl
  rw [hdraft] at hread
  exact hread

theorem reads_tree (t : Tree) : Reads Tree.read t.toValue t := by
  obtain ⟨name, total, categories⟩ := t
  have hname : Fills Tree.fields {} [("name", .string name)] { name := some name } :=
    fills_member rfl rfl rfl (reads_text name)
  have htotal : Fills Tree.fields { name := some name } (member? "total" (total.map Sinks.toValue))
      { name := some name, total := total.map some } :=
    fills_member? rfl rfl total (by cases total <;> rfl) (fun _ => nofun) reads_sinks
  have hcategories : Fills Tree.fields { name := some name, total := total.map some }
      [("categories", .array (categories.map Category.toValue))] ⟨some name, total.map some, some categories⟩ :=
    fills_member rfl rfl rfl (reads_list (forall₂_reads reads_category categories))
  have hread := reads_finish (reads_record "PageTree" ((hname.append htotal).append hcategories) rfl) Tree.Draft.finish
  have hdraft : Tree.Draft.finish ⟨some name, total.map some, some categories⟩ = ⟨name, total, categories⟩ := by
    cases total <;> rfl
  rw [hdraft] at hread
  exact hread

/-! ## The page -/

theorem reads_page (p : Page) : Reads Page.read p.toValue p := by
  obtain ⟨trees, grandTotal⟩ := p
  have htrees : Fills Page.fields {} [("trees", .array (trees.map Tree.toValue))] { trees := some trees } :=
    fills_member rfl rfl rfl (reads_list (forall₂_reads reads_tree trees))
  have hgrand : Fills Page.fields { trees := some trees } (member? "grand_total" (grandTotal.map Sinks.toValue))
      ⟨some trees, grandTotal.map some⟩ :=
    fills_member? rfl rfl grandTotal (by cases grandTotal <;> rfl) (fun _ => nofun) reads_sinks
  have hread := reads_finish (reads_record "ResultsPage" (htrees.append hgrand) rfl) Page.Draft.finish
  have hdraft : Page.Draft.finish ⟨some trees, grandTotal.map some⟩ = ⟨trees, grandTotal⟩ := by
    cases grandTotal <;> rfl
  rw [hdraft] at hread
  exact hread

/-- a page is read back from its text of several lines -/
theorem Page.ofJson_toLines (p : Page) : Page.ofJson p.toLines = .ok p :=
  readAll_spelled (reads_page p) (spells_pretty p.toValue 0)

/-- a line end behind the text changes nothing -/
theorem Page.ofJson_toLines_lineEnd (p : Page) : Page.ofJson (p.toLines ++ "\n") = .ok p := by
  have hspace : Spaces ['\n'] := by simp [Spaces, isSpace]
  have htext : p.toLines ++ "\n" = String.ofList (p.toValue.pretty 0 ++ ['\n']) := by
    rw [Page.toLines, Value.toLines, String.ofList_append]
  rw [htext]
  exact readAll_spelled_spaces (reads_page p) (spells_pretty p.toValue 0) hspace

/-- a page is read back from its text of one line -/
theorem Page.ofJson_toLine (p : Page) : Page.ofJson p.toLine = .ok p :=
  readAll_spelled (reads_page p) (spells_compact p.toValue)

/-- **A page survives both its texts.** Each of them spells the value of the page, and is read back as that page -/
theorem Page.round_trip (p : Page) :
    (Spells p.toValue p.toLine.toList ∧ Page.ofJson p.toLine = .ok p) ∧
      (Spells p.toValue p.toLines.toList ∧ Page.ofJson p.toLines = .ok p) := by
  refine ⟨⟨?_, p.ofJson_toLine⟩, ?_, p.ofJson_toLines⟩
  · rw [Page.toLine, Value.toLine, String.toList_ofList]
    exact spells_compact p.toValue
  · rw [Page.toLines, Value.toLines, String.toList_ofList]
    exact spells_pretty p.toValue 0

end LedgerTotals
