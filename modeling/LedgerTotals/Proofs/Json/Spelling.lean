/-
Texts that spell a value.

`Spells v cs` says that `cs` is the value `v`, with any white space between its tokens and with the escapes in strings
that the writer uses. How a value is laid out does not matter to a reader, so the readers are tied to this relation
(`Proofs.Json.Reads`), and the writer is shown to follow it, over several lines and in one: `spells_pretty`,
`spells_compact`.
-/
import LedgerTotals.Proofs.Text.Digits
import LedgerTotals.Json.Reader
import LedgerTotals.Json.Value

namespace LedgerTotals.Json

/-! ## White space -/

def Spaces (cs : List Char) : Prop := ∀ c ∈ cs, isSpace c = true

theorem spaces_nil : Spaces [] := fun _ h => nomatch h

theorem skipSpace_append {sp : List Char} (h : Spaces sp) (cs : List Char) : skipSpace (sp ++ cs) = skipSpace cs :=
  List.dropWhile_append_of_pos h

theorem skipSpace_cons {c : Char} (h : isSpace c = false) (cs : List Char) : skipSpace (c :: cs) = c :: cs :=
  List.dropWhile_cons_of_neg (by simp [h])

theorem skipSpace_spaces {sp : List Char} (h : Spaces sp) {c : Char} (hc : isSpace c = false) (cs : List Char) :
    skipSpace (sp ++ c :: cs) = c :: cs := (skipSpace_append h _).trans (skipSpace_cons hc cs)

/-- what stands in front of an element: white space, and a comma unless it is the first one -/
def Separates (first : Bool) (cs : List Char) : Prop :=
  if first then Spaces cs else ∃ sp sp', Spaces sp ∧ Spaces sp' ∧ cs = sp ++ ',' :: sp'

theorem separates_first {sp : List Char} (h : Spaces sp) : Separates true sp := h

theorem separates_comma {sp : List Char} (h : Spaces sp) : Separates false (',' :: sp) := ⟨[], sp, spaces_nil, h, rfl⟩

/-! ## Spelling -/

mutual

/-- the text is the value -/
inductive Spells : Value → List Char → Prop
  | null : Spells .null "null".toList
  | boolean (b : Bool) : Spells (.boolean b) (Value.boolChars b)
  | number (n : ℕ) : Spells (.number n) (Digits.digits n)
  | string (s : String) : Spells (.string s) (quoted s)
  | array {vs : List Value} {cs : List Char} : SpellsItems true vs cs → Spells (.array vs) ('[' :: cs)
  | object {ms : List (String × Value)} {cs : List Char} : SpellsMembers true ms cs → Spells (.object ms) ('{' :: cs)

/-- the text is the items, from behind an opening bracket (`first`) or an item on, and the closing bracket -/
inductive SpellsItems : Bool → List Value → List Char → Prop
  | closed {first : Bool} {sp : List Char} : Spaces sp → SpellsItems first [] (sp ++ [']'])
  | item {first : Bool} {sep cs ds : List Char} {v : Value} {vs : List Value} : Separates first sep → Spells v cs →
      SpellsItems false vs ds → SpellsItems first (v :: vs) (sep ++ (cs ++ ds))

/-- the text is the members, from behind an opening brace (`first`) or a member on, and the closing brace -/
inductive SpellsMembers : Bool → List (String × Value) → List Char → Prop
  | closed {first : Bool} {sp : List Char} : Spaces sp → SpellsMembers first [] (sp ++ ['}'])
  | member {first : Bool} {sep sp sp' cs ds : List Char} {k : String} {v : Value} {ms : List (String × Value)} :
      Separates first sep → Spaces sp → Spaces sp' → Spells v cs → SpellsMembers false ms ds →
      SpellsMembers first ((k, v) :: ms) (sep ++ (quoted k ++ (sp ++ ':' :: (sp' ++ (cs ++ ds)))))

end

/-- a value starts with a character of its own: no space, no closing bracket, and the letter of `null` only if it is -/
theorem Spells.head {v : Value} {cs : List Char} (h : Spells v cs) :
    ∃ c r, cs = c :: r ∧ isSpace c = false ∧ c ≠ ']' ∧ (v ≠ .null → c ≠ 'n') := by
  cases h with
  | null => exact ⟨'n', "ull".toList, rfl, rfl, by decide, fun h => absurd rfl h⟩
  | boolean b =>
    cases b with
    | true => exact ⟨'t', "rue".toList, rfl, rfl, by decide, fun _ => by decide⟩
    | false => exact ⟨'f', "alse".toList, rfl, rfl, by decide, fun _ => by decide⟩
  | number n =>
    obtain ⟨d, ds, hds⟩ := List.exists_cons_of_ne_nil (Digits.digits_ne_nil n)
    have hdigit : Digits.isDigit d = true := Digits.isDigit_of_mem_digits (n := n) (by simp [hds])
    have hspace : isSpace d = false := by
      by_contra h
      simp only [isSpace, Bool.not_eq_false, Bool.or_eq_true, decide_eq_true_eq] at h
      rcases h with ((rfl | rfl) | rfl) | rfl <;> exact absurd hdigit (by decide)
    exact ⟨d, ds, hds, hspace, Digits.ne_of_isDigit hdigit rfl, fun _ => Digits.ne_of_isDigit hdigit rfl⟩
  | string s => exact ⟨'"', _, rfl, rfl, by decide, fun _ => by decide⟩
  | array _ => exact ⟨'[', _, rfl, rfl, by decide, fun _ => by decide⟩
  | object _ => exact ⟨'{', _, rfl, rfl, by decide, fun _ => by decide⟩

/-- every item takes up some text, and the closing bracket one character more -/
theorem SpellsItems.length_lt {first : Bool} {vs : List Value} {cs : List Char} (h : SpellsItems first vs cs) :
    vs.length < cs.length := by
  induction vs generalizing first cs with
  | nil =>
    cases h
    simp
  | cons v vs ih =>
    cases h with
    | item _ hv hvs =>
      obtain ⟨c, r, rfl, -⟩ := hv.head
      have hrest := ih hvs
      simp only [List.length_append, List.length_cons]
      omega

theorem SpellsMembers.length_lt {first : Bool} {ms : List (String × Value)} {cs : List Char}
    (h : SpellsMembers first ms cs) : ms.length < cs.length := by
  induction ms generalizing first cs with
  | nil =>
    cases h
    simp
  | cons m ms ih =>
    cases h with
    | member _ _ _ _ hms =>
      have hrest := ih hms
      simp only [List.length_append, List.length_cons]
      omega

/-! ## The writer -/

theorem spaces_newLine (level : ℕ) : Spaces (Value.newLine level) := by
  intro c hc
  rcases List.mem_cons.1 hc with rfl | hc
  · rfl
  · rw [List.eq_of_mem_replicate hc]
    rfl

mutual

/-- a value over several lines spells that value -/
theorem spells_pretty : ∀ (v : Value) (level : ℕ), Spells v (v.pretty level)
  | .null, _ => .null
  | .boolean b, _ => .boolean b
  | .number n, _ => .number n
  | .string s, _ => .string s
  | .array [], _ => .array (.closed spaces_nil)
  | .array (v :: vs), level =>
    .array (spellsItems_pretty (v :: vs) level (by simp) (separates_first (spaces_newLine (level + 1))))
  | .object [], _ => .object (.closed spaces_nil)
  | .object (m :: ms), level =>
    .object (spellsMembers_pretty (m :: ms) level (by simp) (separates_first (spaces_newLine (level + 1))))

theorem spellsItems_pretty : ∀ (vs : List Value) (level : ℕ), vs ≠ [] → ∀ {first : Bool} {sep : List Char},
    Separates first sep → SpellsItems first vs (sep ++ Value.prettyItems level vs)
  | [], _, h, _, _, _ => absurd rfl h
  | [v], level, _, _, _, hsep => by
    rw [Value.prettyItems, List.append_assoc]
    exact .item hsep (spells_pretty v (level + 1)) (.closed (spaces_newLine level))
  | v :: w :: vs, level, _, _, _, hsep => by
    have hrest := spellsItems_pretty (w :: vs) level (by simp) (separates_comma (spaces_newLine (level + 1)))
    rw [Value.prettyItems]
    exact .item hsep (spells_pretty v (level + 1)) hrest

theorem spellsMembers_pretty : ∀ (ms : List (String × Value)) (level : ℕ), ms ≠ [] → ∀ {first : Bool}
    {sep : List Char}, Separates first sep → SpellsMembers first ms (sep ++ Value.prettyMembers level ms)
  | [], _, h, _, _, _ => absurd rfl h
  | [(k, v)], level, _, _, _, hsep => by
    have hgap : Spaces [' '] := by simp [Spaces, isSpace]
    rw [Value.prettyMembers, List.append_assoc]
    exact .member hsep spaces_nil hgap (spells_pretty v (level + 1)) (.closed (spaces_newLine level))
  | (k, v) :: m :: ms, level, _, _, _, hsep => by
    have hgap : Spaces [' '] := by simp [Spaces, isSpace]
    have hrest := spellsMembers_pretty (m :: ms) level (by simp) (separates_comma (spaces_newLine (level + 1)))
    rw [Value.prettyMembers]
    exact .member hsep spaces_nil hgap (spells_pretty v (level + 1)) hrest

end

mutual

/-- a value in one line spells that value -/
theorem spells_compact : ∀ v : Value, Spells v v.compact
  | .null => .null
  | .boolean b => .boolean b
  | .number n => .number n
  | .string s => .string s
  | .array [] => .array (.closed spaces_nil)
  | .array (v :: vs) => .array (spellsItems_compact (v :: vs) (by simp) (separates_first spaces_nil))
  | .object [] => .object (.closed spaces_nil)
  | .object (m :: ms) => .object (spellsMembers_compact (m :: ms) (by simp) (separates_first spaces_nil))

theorem spellsItems_compact : ∀ vs : List Value, vs ≠ [] → ∀ {first : Bool} {sep : List Char}, Separates first sep →
    SpellsItems first vs (sep ++ Value.compactItems vs)
  | [], h, _, _, _ => absurd rfl h
  | [v], _, _, _, hsep => by
    rw [Value.compactItems]
    exact .item hsep (spells_compact v) (.closed spaces_nil)
  | v :: w :: vs, _, _, _, hsep => by
    have hrest := spellsItems_compact (w :: vs) (by simp) (separates_comma spaces_nil)
    rw [Value.compactItems]
    exact .item hsep (spells_compact v) hrest

theorem spellsMembers_compact : ∀ ms : List (String × Value), ms ≠ [] → ∀ {first : Bool} {sep : List Char},
    Separates first sep → SpellsMembers first ms (sep ++ Value.compactMembers ms)
  | [], h, _, _, _ => absurd rfl h
  | [(k, v)], _, _, _, hsep => by
    rw [Value.compactMembers]
    exact .member hsep spaces_nil spaces_nil (spells_compact v) (.closed spaces_nil)
  | (k, v) :: m :: ms, _, _, _, hsep => by
    have hrest := spellsMembers_compact (m :: ms) (by simp) (separates_comma spaces_nil)
    rw [Value.compactMembers]
    exact .member hsep spaces_nil spaces_nil (spells_compact v) hrest

end

end LedgerTotals.Json
