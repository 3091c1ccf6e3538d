/-
Readers that read back what spells a value.

`Reads item v a` says that `item` reads `a` from every text that spells `v`, whatever follows it. Each way of making a
reader of others has its lemma here: strings, optional values, lists (`reads_list`), records (`reads_record`), and whole
texts (`readAll_spelled`).
-/
import LedgerTotals.Proofs.Json.Quoted
import LedgerTotals.Proofs.Json.Spelling

namespace LedgerTotals.Json

/-- the reader reads `a` from every text that spells the value, and leaves what follows -/
def Reads {α : Type} (item : Reader α) (v : Value) (a : α) : Prop :=
  ∀ ⦃sp cs : List Char⦄, Spaces sp → Spells v cs → ∀ rest, item (sp ++ (cs ++ rest)) = .ok (a, rest)

/-! ## Strings -/

theorem skipSpace_spelled {sp cs : List Char} {v : Value} (hsp : Spaces sp) (h : Spells v cs) (rest : List Char) :
    skipSpace (sp ++ (cs ++ rest)) = cs ++ rest := by
  obtain ⟨c, r, rfl, hc, -⟩ := h.head
  rw [List.cons_append, skipSpace_spaces hsp hc]

theorem reads_textAs (expected s : String) : Reads (readTextAs expected) (.string s) s := by
  intro sp cs hsp h rest
  have hskip := skipSpace_spelled hsp h rest
  cases h
  rw [readTextAs, hskip]
  simp [quoted, readString_escaped]

theorem reads_text (s : String) : Reads readText (.string s) s := reads_textAs _ s

theorem reads_parsed {α ε : Type} (expected : String) {parse : String → Except ε α} (message : ε → String) {s : String}
    {a : α} (h : parse s = .ok a) : Reads (readParsed expected parse message) (.string s) a := by
  intro sp cs hsp hcs rest
  simp [readParsed, reads_textAs expected s hsp hcs rest, Except.bind, h]

/-! ## Optional values -/

theorem readOptional_of_ne {α : Type} (item : Reader α) {cs r : List Char} {c : Char} (h : skipSpace cs = c :: r)
    (hc : c ≠ 'n') : readOptional item cs = (item (c :: r)).map fun p => (some p.1, p.2) := by
  rw [readOptional, h]
  split
  · rename_i heq
    exact absurd (List.cons.inj heq).1 hc
  · rfl

theorem reads_optional {α : Type} {item : Reader α} {v : Value} {a : α} (hnull : v ≠ .null) (h : Reads item v a) :
    Reads (readOptional item) v (some a) := by
  intro sp cs hsp hcs rest
  have hskip := skipSpace_spelled hsp hcs rest
  have hitem := h spaces_nil hcs rest
  obtain ⟨c, r, rfl, -, -, hc⟩ := hcs.head
  rw [List.nil_append] at hitem
  rw [List.cons_append] at hitem hskip ⊢
  rw [readOptional_of_ne item hskip (hc hnull), hitem]
  rfl

/-! ## Lists -/

theorem nextElement_closed {first : Bool} {sp : List Char} (h : Spaces sp) (rest : List Char) :
    nextElement first (sp ++ ']' :: rest) = .ok (.closed rest) := by
  have hskip := skipSpace_spaces h (rfl : isSpace ']' = false) rest
  simp [nextElement, hskip]

theorem nextElement_item {first : Bool} {sep cs : List Char} {v : Value} (hsep : Separates first sep)
    (h : Spells v cs) (rest : List Char) : nextElement first (sep ++ (cs ++ rest)) = .ok (.item (cs ++ rest)) := by
  obtain ⟨c, r, rfl, hc, hclosing, -⟩ := h.head
  cases first with
  | true =>
    have hskip := skipSpace_spaces (show Spaces sep from hsep) hc (r ++ rest)
    simp [nextElement, hskip, hclosing]
  | false =>
    obtain ⟨sp, sp', hsp, hsp', rfl⟩ := hsep
    have hcomma := skipSpace_spaces hsp (rfl : isSpace ',' = false) (sp' ++ c :: (r ++ rest))
    have hskip := skipSpace_spaces hsp' hc (r ++ rest)
    simp [nextElement, hcomma, hskip, hclosing]

theorem readElements_spelled {α : Type} {item : Reader α} {vs : List Value} {as : List α}
    (h : List.Forall₂ (Reads item) vs as) {n : ℕ} (hn : vs.length < n) {first : Bool} {cs : List Char}
    (hcs : SpellsItems first vs cs) (acc : List α) (rest : List Char) :
    readElements item n first acc (cs ++ rest) = .ok (acc.reverse ++ as, rest) := by
  induction h generalizing n first cs acc with
  | nil =>
    obtain ⟨n, rfl⟩ := Nat.exists_eq_succ_of_ne_zero (by omega : n ≠ 0)
    cases hcs with
    | closed hsp => simp [readElements, nextElement_closed hsp, bind, Except.bind]
  | @cons v a vs as hv _ ih =>
    obtain ⟨n, rfl⟩ := Nat.exists_eq_succ_of_ne_zero (by omega : n ≠ 0)
    cases hcs with
    | @item _ sep cs ds _ _ hsep hcs hds =>
      have hnext := nextElement_item hsep hcs (ds ++ rest)
      have hitem := hv spaces_nil hcs (ds ++ rest)
      have hrest := ih (by simpa using hn) hds (a :: acc)
      rw [List.nil_append] at hitem
      simp [readElements, hnext, hitem, hrest, bind, Except.bind]

theorem reads_list {α : Type} {item : Reader α} {vs : List Value} {as : List α}
    (h : List.Forall₂ (Reads item) vs as) : Reads (readList item) (.array vs) as := by
  intro sp cs hsp hcs rest
  have hskip := skipSpace_spelled hsp hcs rest
  cases hcs with
  | @array _ cs hcs =>
    have hfuel : vs.length < (cs ++ rest).length + 1 := by
      have hlength := hcs.length_lt
      rw [List.length_append]
      omega
    have hread := readElements_spelled h hfuel hcs [] rest
    rw [readList, hskip]
    exact hread

/-! ## Records -/

theorem nextKey_closed {first : Bool} {sp : List Char} (h : Spaces sp) (rest : List Char) :
    nextKey first (sp ++ '}' :: rest) = .ok (.closed rest) := by
  have hskip := skipSpace_spaces h (rfl : isSpace '}' = false) rest
  simp [nextKey, hskip]

theorem nextKey_item {first : Bool} {sep : List Char} (hsep : Separates first sep) (rest : List Char) :
    nextKey first (sep ++ '"' :: rest) = .ok (.item rest) := by
  cases first with
  | true =>
    have hskip := skipSpace_spaces (show Spaces sep from hsep) (rfl : isSpace '"' = false) rest
    simp [nextKey, hskip]
  | false =>
    obtain ⟨sp, sp', hsp, hsp', rfl⟩ := hsep
    have hcomma := skipSpace_spaces hsp (rfl : isSpace ',' = false) (sp' ++ '"' :: rest)
    have hskip := skipSpace_spaces hsp' (rfl : isSpace '"' = false) rest
    simp [nextKey, hcomma, hskip]

theorem colon_spaces {sp : List Char} (h : Spaces sp) (rest : List Char) : colon (sp ++ ':' :: rest) = .ok rest := by
  have hskip := skipSpace_spaces h (rfl : isSpace ':' = false) rest
  simp [colon, hskip]

/-- the members of an object fill a draft, one field each, and none a second time -/
inductive Fills {σ : Type} (fields : List (RecordField σ)) : σ → List (String × Value) → σ → Prop
  | nil (s : σ) : Fills fields s [] s
  | cons {s s' s'' : σ} {k : String} {v : Value} {ms : List (String × Value)} {f : RecordField σ} :
      fields.find? (·.name == k) = some f → f.filled s = false → Reads (f.read s) v s' →
      Fills fields s' ms s'' → Fills fields s ((k, v) :: ms) s''

theorem Fills.append {σ : Type} {fields : List (RecordField σ)} {s s' s'' : σ} {ms ms' : List (String × Value)}
    (h : Fills fields s ms s') (h' : Fills fields s' ms' s'') : Fills fields s (ms ++ ms') s'' := by
  induction h with
  | nil => exact h'
  | cons hfind hfilled hread _ ih => exact .cons hfind hfilled hread (ih h')

/-- no field that has to be there is missing -/
def IsComplete {σ : Type} (fields : List (RecordField σ)) (s : σ) : Prop :=
  fields.find? (fun f => f.required && !f.filled s) = none

theorem readMembers_spelled {σ : Type} {fields : List (RecordField σ)} {s s' : σ} {ms : List (String × Value)}
    (h : Fills fields s ms s') (hcomplete : IsComplete fields s') {n : ℕ} (hn : ms.length < n) {first : Bool}
    {cs : List Char} (hcs : SpellsMembers first ms cs) (rest : List Char) :
    readMembers fields n first s (cs ++ rest) = .ok (s', rest) := by
  induction h generalizing n first cs with
  | nil s =>
    obtain ⟨n, rfl⟩ := Nat.exists_eq_succ_of_ne_zero (by omega : n ≠ 0)
    rw [IsComplete] at hcomplete
    cases hcs with
    | closed hsp => simp [readMembers, nextKey_closed hsp, hcomplete, bind, Except.bind]
  | @cons s s₁ s₂ k v ms f hfind hfilled hread _ ih =>
    obtain ⟨n, rfl⟩ := Nat.exists_eq_succ_of_ne_zero (by omega : n ≠ 0)
    cases hcs with
    | @member _ sep sp sp' cs ds _ _ _ hsep hsp hsp' hcs hds =>
      have hnext := nextKey_item hsep (k.toList.flatMap escaped ++ '"' :: (sp ++ ':' :: (sp' ++ (cs ++ (ds ++ rest)))))
      have hkey := readString_escaped k (sp ++ ':' :: (sp' ++ (cs ++ (ds ++ rest))))
      have hcolon := colon_spaces hsp (sp' ++ (cs ++ (ds ++ rest)))
      have hvalue := hread hsp' hcs (ds ++ rest)
      have hrest := ih hcomplete (by simpa using hn) hds
      simp [readMembers, quoted, hnext, hkey, hfind, hfilled, hcolon, hvalue, hrest, bind, Except.bind]

theorem reads_record {σ : Type} (name : String) {fields : List (RecordField σ)} {start s : σ}
    {ms : List (String × Value)} (h : Fills fields start ms s) (hcomplete : IsComplete fields s) :
    Reads (readRecord name fields start) (.object ms) s := by
  intro sp cs hsp hcs rest
  have hskip := skipSpace_spelled hsp hcs rest
  cases hcs with
  | @object _ cs hcs =>
    have hfuel : ms.length < (cs ++ rest).length + 1 := by
      have hlength := hcs.length_lt
      rw [List.length_append]
      omega
    have hread := readMembers_spelled h hcomplete hfuel hcs rest
    rw [readRecord, hskip]
    exact hread

theorem reads_field {σ α : Type} (name : String) (required : Bool) (get : σ → Option α) (set : σ → α → σ)
    {item : Reader α} {v : Value} {a : α} (h : Reads item v a) (s : σ) :
    Reads ((RecordField.of name required get set item).read s) v (set s a) := by
  intro sp cs hsp hcs rest
  simp [RecordField.of, h hsp hcs rest, Except.map]

theorem reads_finish {σ α : Type} {draft : Reader σ} {v : Value} {s : σ} (h : Reads draft v s) (f : σ → α) :
    Reads (finish draft f) v (f s) := by
  intro sp cs hsp hcs rest
  simp [finish, h hsp hcs rest, Except.map]

/-! ## Whole texts -/

/-- a whole text may end in white space -/
theorem readAll_spelled_spaces {α : Type} {item : Reader α} {v : Value} {a : α} (h : Reads item v a)
    {cs sp : List Char} (hcs : Spells v cs) (hsp : Spaces sp) : readAll item (String.ofList (cs ++ sp)) = .ok a := by
  have hitem := h spaces_nil hcs sp
  rw [List.nil_append] at hitem
  have hskip : skipSpace sp = [] := by simpa [skipSpace] using skipSpace_append hsp []
  simp [readAll, hitem, hskip, bind, Except.bind]

theorem readAll_spelled {α : Type} {item : Reader α} {v : Value} {a : α} (h : Reads item v a) {cs : List Char}
    (hcs : Spells v cs) : readAll item (String.ofList cs) = .ok a := by
  have hread := readAll_spelled_spaces h hcs spaces_nil
  rwa [List.append_nil] at hread

end LedgerTotals.Json
