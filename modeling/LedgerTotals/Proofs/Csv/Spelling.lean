/-
How tables are spelled.

A field is spelled bare, or with quotation marks around it, and then each quotation mark inside is written twice; what
stands behind the closing mark belongs to the field. Commas stand between the fields of a record, and a line end behind
it. Blank lines may stand in front of a record. The last record may lack its line end, or break off inside quotation
marks.

The splitter gives the rows that the bytes spell (`map_fields_records`), and any bytes spell some rows
(`exists_spellsTable`). So there is just one table that bytes spell: `spellsTable_iff`.
-/
import LedgerTotals.Proofs.Csv.Record

namespace LedgerTotals.Csv

/-! ## Spelling -/

/-- the byte neither parts fields nor ends a record -/
def isPlain (b : UInt8) : Bool := b ≠ comma && !Splitter.isLineEnd b

def doubled (bytes : List UInt8) : List UInt8 := bytes.flatMap fun b => if b = quote then [quote, quote] else [b]

/-- bytes outside quotation marks -/
structure Bare (bytes : List UInt8) : Prop where
  plain : ∀ b ∈ bytes, isPlain b = true
  unquoted : bytes.head? ≠ some quote

inductive SpellsField : List UInt8 → List UInt8 → Prop
  | bare {field : List UInt8} : Bare field → SpellsField field field
  | enclosed {inner behind : List UInt8} : Bare behind →
      SpellsField (inner ++ behind) (quote :: (doubled inner ++ quote :: behind))

inductive SpellsRecord : List (List UInt8) → List UInt8 → Prop
  | one {field text : List UInt8} : SpellsField field text → SpellsRecord [field] text
  | more {field text rest : List UInt8} {fields : List (List UInt8)} : SpellsField field text →
      SpellsRecord fields rest → SpellsRecord (field :: fields) (text ++ comma :: rest)

/-- the bytes spell the fields of a record, but they break off inside quotation marks -/
inductive SpellsBroken : List (List UInt8) → List UInt8 → Prop
  | one (inner : List UInt8) : SpellsBroken [inner] (quote :: doubled inner)
  | more {field text rest : List UInt8} {fields : List (List UInt8)} : SpellsField field text →
      SpellsBroken fields rest → SpellsBroken (field :: fields) (text ++ comma :: rest)

/-- the bytes spell records with their line ends, and blank lines; a record is not blank -/
inductive SpellsWhole : List (List (List UInt8)) → List UInt8 → Prop
  | nil : SpellsWhole [] []
  | blank {e : UInt8} {rows : List (List (List UInt8))} {bytes : List UInt8} : Splitter.isLineEnd e = true →
      SpellsWhole rows bytes → SpellsWhole rows (e :: bytes)
  | record {e : UInt8} {fields : List (List UInt8)} {rows : List (List (List UInt8))} {text bytes : List UInt8} :
      SpellsRecord fields text → text ≠ [] → Splitter.isLineEnd e = true → SpellsWhole rows bytes →
      SpellsWhole (fields :: rows) (text ++ e :: bytes)

inductive SpellsTable : List (List (List UInt8)) → List UInt8 → Prop
  | whole {rows : List (List (List UInt8))} {bytes : List UInt8} : SpellsWhole rows bytes → SpellsTable rows bytes
  | unended {fields : List (List UInt8)} {rows : List (List (List UInt8))} {text bytes : List UInt8} :
      SpellsWhole rows bytes → SpellsRecord fields text → text ≠ [] → SpellsTable (rows ++ [fields]) (bytes ++ text)
  | broken {fields : List (List UInt8)} {rows : List (List (List UInt8))} {text bytes : List UInt8} :
      SpellsWhole rows bytes → SpellsBroken fields text → SpellsTable (rows ++ [fields]) (bytes ++ text)

theorem doubled_cons {b : UInt8} (h : b ≠ quote) (bytes : List UInt8) : doubled (b :: bytes) = b :: doubled bytes := by
  simp [doubled, h]

/-! ## What the splitter makes of it -/

namespace Splitter

variable {s t u : Splitter} {field text rest : List UInt8} {fields : List (List UInt8)}

theorem feed_append (s : Splitter) (first bytes : List UInt8) :
    s.feed (first ++ bytes) =
      ((s.feed first).1 ++ ((s.feed first).2.feed bytes).1, ((s.feed first).2.feed bytes).2) := by
  induction first generalizing s with
  | nil => rfl
  | cons b first ih => rw [List.cons_append, feed, feed, ih, List.append_assoc]

/-- the bytes end nothing, and only add to the field at hand -/
structure Adds (s : Splitter) (bytes added : List UInt8) (t : Splitter) : Prop where
  fed : s.feed bytes = ([], t)
  field : t.field = added.reverse ++ s.field
  fields : t.fields = s.fields

theorem adds_nil (s : Splitter) : Adds s [] [] s := ⟨rfl, rfl, rfl⟩

theorem Adds.trans {first second added added' : List UInt8} (h : Adds s first added t) (h' : Adds t second added' u) :
    Adds s (first ++ second) (added ++ added') u := by
  refine ⟨?_, ?_, h'.fields.trans h.fields⟩
  · rw [feed_append, h.fed, h'.fed]
    rfl
  · rw [h'.field, h.field, List.reverse_append, List.append_assoc]

/-- a byte that opens or closes quotation marks -/
theorem adds_skip {b : UInt8} (hstep : s.step b = (none, t)) (hfield : t.field = s.field) (hfields : t.fields = s.fields) :
    Adds s [b] [] t := by
  refine ⟨?_, hfield, hfields⟩
  rw [feed, feed, hstep]
  rfl

theorem adds_push {b : UInt8} (hstep : s.step b = (none, t)) (hfield : t.field = b :: s.field)
    (hfields : t.fields = s.fields) : Adds s [b] [b] t := by
  refine ⟨?_, hfield, hfields⟩
  rw [feed, feed, hstep]
  rfl

/-- outside quotation marks -/
theorem step_eq_outside {b : UInt8} (hplace : s.place ≠ .enclosed) (hquote : s.place = .bare ∨ b ≠ quote)
    (hblank : s.place = .between → isLineEnd b = false) : s.step b = s.outside b := by
  unfold Splitter.step
  cases h : s.place with
  | between => simp [hblank h, hquote.resolve_left (by simp [h])]
  | fieldStart => simp [hquote.resolve_left (by simp [h])]
  | bare => rfl
  | enclosed => exact absurd h hplace
  | closing => simp [hquote.resolve_left (by simp [h])]

theorem outside_plain {b : UInt8} (h : isPlain b = true) (s : Splitter) :
    s.outside b = (none, (s.advance b).push .bare b) := by
  obtain ⟨hcomma, hend⟩ : b ≠ comma ∧ isLineEnd b = false := by simpa [isPlain] using h
  rw [outside, if_neg hcomma, if_neg (by simp [hend])]

theorem adds_plain (hplace : s.place = .bare) {bytes : List UInt8} (h : ∀ b ∈ bytes, isPlain b = true) :
    ∃ t, Adds s bytes bytes t ∧ t.place = .bare := by
  induction bytes generalizing s with
  | nil => exact ⟨s, s.adds_nil, hplace⟩
  | cons b bytes ih =>
    have hstep : s.step b = (none, (s.advance b).push .bare b) := by
      rw [step_eq_outside (by simp [hplace]) (.inl hplace) (by simp [hplace])]
      exact outside_plain (h b List.mem_cons_self) s
    obtain ⟨t, hadds, ht⟩ := ih (s := (s.advance b).push .bare b) rfl fun b hb => h b (List.mem_cons_of_mem _ hb)
    exact ⟨t, (adds_push hstep rfl rfl).trans hadds, ht⟩

theorem adds_bare (hplace : s.place ≠ .enclosed) {bytes : List UInt8} (h : Bare bytes) :
    ∃ t, Adds s bytes bytes t ∧ t.place ≠ .enclosed ∧ (bytes = [] → t.place = s.place) ∧
      (bytes ≠ [] → t.place = .bare) := by
  cases bytes with
  | nil => exact ⟨s, s.adds_nil, hplace, fun _ => rfl, fun hne => absurd rfl hne⟩
  | cons b bytes =>
    have hplain := h.plain b List.mem_cons_self
    have hquote : b ≠ quote := fun heq => h.unquoted (heq ▸ rfl)
    have hend : isLineEnd b = false := by
      obtain ⟨-, hend⟩ : b ≠ comma ∧ isLineEnd b = false := by simpa [isPlain] using hplain
      exact hend
    have hstep : s.step b = (none, (s.advance b).push .bare b) := by
      rw [step_eq_outside hplace (.inr hquote) fun _ => hend]
      exact outside_plain hplain s
    obtain ⟨t, hadds, ht⟩ := adds_plain (s := (s.advance b).push .bare b) rfl
      fun b hb => h.plain b (List.mem_cons_of_mem _ hb)
    refine ⟨t, (adds_push hstep rfl rfl).trans hadds, ?_, nofun, fun _ => ht⟩
    rw [ht]
    decide

theorem adds_doubled (hplace : s.place = .enclosed) (inner : List UInt8) :
    ∃ t, Adds s (doubled inner) inner t ∧ t.place = .enclosed := by
  induction inner generalizing s with
  | nil => exact ⟨s, s.adds_nil, hplace⟩
  | cons b inner ih =>
    by_cases hquote : b = quote
    · subst hquote
      -- the first mark may close the field, the second one tells that it does not
      have hfirst : s.step quote = (none, { s.advance quote with place := .closing }) := by
        simp [Splitter.step, hplace]
      have hsecond : Splitter.step { s.advance quote with place := .closing } quote =
          (none, (advance { s.advance quote with place := .closing } quote).push .enclosed quote) := by
        simp [Splitter.step]
      obtain ⟨t, hadds, ht⟩ := ih (s := (advance { s.advance quote with place := .closing } quote).push .enclosed quote) rfl
      exact ⟨t, ((adds_skip hfirst rfl rfl).trans (adds_push hsecond rfl rfl)).trans hadds, ht⟩
    · have hstep : s.step b = (none, (s.advance b).push .enclosed b) := by simp [Splitter.step, hplace, hquote]
      obtain ⟨t, hadds, ht⟩ := ih (s := (s.advance b).push .enclosed b) rfl
      rw [doubled_cons hquote]
      exact ⟨t, (adds_push hstep rfl rfl).trans hadds, ht⟩

/-- in front of a field -/
structure AtStart (s : Splitter) : Prop where
  place : s.place = .between ∨ s.place = .fieldStart
  field : s.field = []

theorem AtStart.adds_quote (hs : AtStart s) : ∃ t, Adds s [quote] [] t ∧ t.place = .enclosed := by
  refine ⟨{ s.advance quote with place := .enclosed }, adds_skip ?_ rfl rfl, rfl⟩
  have hend : isLineEnd quote = false := by decide
  rcases hs.place with hplace | hplace <;> simp [Splitter.step, hplace, hend]

/-- the place behind what was spelled: a record that has begun can be ended there -/
structure Open (s : Splitter) (text : List UInt8) (t : Splitter) : Prop where
  outside : t.place ≠ .enclosed
  begun : t.place = .between → s.place = .between ∧ text = []

theorem AtStart.adds_field (hs : AtStart s) (h : SpellsField field text) : ∃ t, Adds s text field t ∧ Open s text t := by
  cases h with
  | bare hbare =>
    have hplace : s.place ≠ .enclosed := by
      rcases hs.place with hplace | hplace <;> simp [hplace]
    obtain ⟨t, hadds, ht, hnil, hne⟩ := adds_bare hplace hbare
    refine ⟨t, hadds, ht, fun hbetween => ?_⟩
    by_cases htext : field = []
    · exact ⟨(hnil htext).symm.trans hbetween, htext⟩
    · rw [hne htext] at hbetween
      cases hbetween
  | @enclosed inner behind hbare =>
    obtain ⟨t, hopen, ht⟩ := hs.adds_quote
    obtain ⟨u, hinner, hu⟩ := adds_doubled ht inner
    have hclose : u.step quote = (none, { u.advance quote with place := .closing }) := by simp [Splitter.step, hu]
    obtain ⟨v, hbehind, hv, hnil, hne⟩ := adds_bare (s := { u.advance quote with place := .closing }) nofun hbare
    have hadds := hopen.trans (hinner.trans ((adds_skip hclose rfl rfl).trans hbehind))
    refine ⟨v, hadds, hv, fun hbetween => ?_⟩
    by_cases hbehind : behind = []
    · rw [hnil hbehind] at hbetween
      cases hbetween
    · rw [hne hbehind] at hbetween
      cases hbetween

theorem step_comma (hplace : s.place ≠ .enclosed) : s.step comma = (none, (s.advance comma).endField) :=
  step_eq_outside hplace (.inr (by decide)) fun _ => by decide

/-- one field and the comma behind it -/
theorem AtStart.feed_comma (hs : AtStart s) (h : SpellsField field text) :
    ∃ t, AtStart t ∧ t.place = .fieldStart ∧ t.fields = field :: s.fields ∧
      ∀ rest, s.feed (text ++ comma :: rest) = t.feed rest := by
  obtain ⟨t, hadds, hopen⟩ := hs.adds_field h
  have hfield : t.field.reverse = field := by rw [hadds.field, hs.field, List.append_nil, List.reverse_reverse]
  refine ⟨(t.advance comma).endField, ⟨.inr rfl, rfl⟩, rfl, ?_, ?_⟩
  · exact congrArg₂ List.cons hfield hadds.fields
  · intro rest
    rw [feed_append, hadds.fed, feed, step_comma hopen.outside]
    rfl

theorem fields_record (s : Splitter) : s.record.fields = s.fields.reverse ++ [s.field.reverse] := List.reverse_cons

theorem AtStart.feed_record (hs : AtStart s) (h : SpellsRecord fields text) :
    ∃ t, s.feed text = ([], t) ∧ t.record.fields = s.fields.reverse ++ fields ∧ Open s text t := by
  induction h generalizing s with
  | one hfield =>
    obtain ⟨t, hadds, hopen⟩ := hs.adds_field hfield
    refine ⟨t, hadds.fed, ?_, hopen⟩
    rw [fields_record, hadds.field, hadds.fields, hs.field, List.append_nil, List.reverse_reverse]
  | more hfield _ ih =>
    obtain ⟨t, ht, hplace, hfields, hfeed⟩ := hs.feed_comma hfield
    obtain ⟨u, hu, hrecord, hopen⟩ := ih ht
    refine ⟨u, (hfeed _).trans hu, ?_, hopen.outside, fun hbetween => ?_⟩
    · rw [hrecord, hfields, List.reverse_cons, List.append_assoc, List.singleton_append]
    · rw [(hopen.begun hbetween).1] at hplace
      cases hplace

theorem AtStart.feed_broken (hs : AtStart s) (h : SpellsBroken fields text) :
    ∃ t, s.feed text = ([], t) ∧ t.record.fields = s.fields.reverse ++ fields ∧ t.place = .enclosed := by
  induction h generalizing s with
  | one inner =>
    obtain ⟨t, hquote, ht⟩ := hs.adds_quote
    obtain ⟨u, hinner, hu⟩ := adds_doubled ht inner
    have hadds := hquote.trans hinner
    refine ⟨u, hadds.fed, ?_, hu⟩
    rw [fields_record, hadds.field, hadds.fields, hs.field, List.append_nil, List.reverse_reverse, List.nil_append]
  | more hfield _ ih =>
    obtain ⟨t, ht, -, hfields, hfeed⟩ := hs.feed_comma hfield
    obtain ⟨u, hu, hrecord, hplace⟩ := ih ht
    refine ⟨u, (hfeed _).trans hu, ?_, hplace⟩
    rw [hrecord, hfields, List.reverse_cons, List.append_assoc, List.singleton_append]

theorem step_lineEnd {e : UInt8} (he : isLineEnd e = true) (hplace : s.place ≠ .enclosed) (hbegun : s.place ≠ .between) :
    s.step e = (some s.record, (s.advance e).endRecord) := by
  have hcomma : e ≠ comma := by
    rintro rfl
    cases he
  have hquote : e ≠ quote := by
    rintro rfl
    cases he
  rw [step_eq_outside hplace (.inr hquote) fun hbetween => absurd hbetween hbegun, outside, if_neg hcomma, if_pos he]

/-- whole records are given one after the other, and no other is begun -/
theorem exists_completes (hs : s.Settled) (hplace : s.place = .between) {rows : List (List (List UInt8))}
    {bytes : List UInt8} (h : SpellsWhole rows bytes) : ∃ rs, s.Completes bytes rs ∧ rs.map (·.fields) = rows := by
  induction h generalizing s with
  | nil => exact ⟨[], ⟨rfl, hplace⟩, rfl⟩
  | @blank e rows bytes he _ ih =>
    have hstep : s.step e = (none, s.advance e) := by simp [Splitter.step, hplace, he]
    obtain ⟨rs, hrs, hrows⟩ := ih (s := s.advance e) hs hplace
    refine ⟨rs, ?_, hrows⟩
    constructor <;> rw [feed, hstep]
    · exact hrs.records
    · exact hrs.between
  | @record e fields rows text bytes htext hne he _ ih =>
    obtain ⟨t, hfeed, hrecord, hopen⟩ := AtStart.feed_record ⟨.inl hplace, (hs hplace).1⟩ htext
    have hbegun : t.place ≠ .between := fun hbetween => hne (hopen.begun hbetween).2
    obtain ⟨rs, hrs, hrows⟩ := ih (s := (t.advance e).endRecord) (fun _ => ⟨rfl, rfl⟩) rfl
    refine ⟨t.record :: rs, ?_, ?_⟩
    · constructor <;> rw [feed_append, hfeed, feed, step_lineEnd he hopen.outside hbegun]
      · exact congrArg (t.record :: ·) hrs.records
      · exact hrs.between
    · rw [List.map_cons, hrows, hrecord, (hs hplace).2]
      rfl

/-- a last record that has begun is given where the bytes end -/
theorem records_of_feed {bytes : List UInt8} (h : s.feed bytes = ([], t)) (ht : t.place ≠ .between) :
    s.records bytes = [t.record] := by
  have hrecords := s.records_append bytes []
  rw [List.append_nil, h] at hrecords
  rw [hrecords, List.nil_append, Splitter.records, if_neg ht]

/-- the splitter gives the rows that the bytes spell -/
theorem map_fields_records {rows : List (List (List UInt8))} {bytes : List UInt8} (hs : s.Settled)
    (hplace : s.place = .between) (h : SpellsTable rows bytes) : (s.records bytes).map (·.fields) = rows := by
  cases h with
  | whole hwhole =>
    obtain ⟨rs, hrs, hrows⟩ := exists_completes hs hplace hwhole
    have hrecords := s.records_append bytes []
    rw [List.append_nil, hrs.records, Splitter.records, if_pos hrs.between, List.append_nil] at hrecords
    rw [hrecords, hrows]
  | @unended fields rows text bytes hwhole htext hne =>
    obtain ⟨rs, hrs, hrows⟩ := exists_completes hs hplace hwhole
    obtain ⟨hfield, hfields⟩ := (hs.feed bytes) hrs.between
    obtain ⟨t, hfeed, hrecord, hopen⟩ := AtStart.feed_record ⟨.inl hrs.between, hfield⟩ htext
    have hbegun : t.place ≠ .between := fun hbetween => hne (hopen.begun hbetween).2
    rw [records_append, hrs.records, records_of_feed hfeed hbegun, List.map_append, hrows, List.map_singleton, hrecord,
      hfields]
    rfl
  | @broken fields rows text bytes hwhole htext =>
    obtain ⟨rs, hrs, hrows⟩ := exists_completes hs hplace hwhole
    obtain ⟨hfield, hfields⟩ := (hs.feed bytes) hrs.between
    obtain ⟨t, hfeed, hrecord, henclosed⟩ := AtStart.feed_broken ⟨.inl hrs.between, hfield⟩ htext
    rw [records_append, hrs.records, records_of_feed hfeed (by simp [henclosed]), List.map_append, hrows,
      List.map_singleton, hrecord, hfields]
    rfl

end Splitter

/-! ## All bytes spell a table -/

/-- from behind an opening quotation mark: the bytes break off inside, or there is a closing mark -/
theorem exists_doubled (bytes : List UInt8) : (∃ inner, bytes = doubled inner) ∨
    ∃ inner rest, bytes = doubled inner ++ quote :: rest ∧ rest.head? ≠ some quote := by
  match bytes with
  | [] => exact .inl ⟨[], rfl⟩
  | [b] =>
    by_cases hb : b = quote
    · subst hb
      exact .inr ⟨[], [], rfl, nofun⟩
    · exact .inl ⟨[b], (doubled_cons hb []).symm⟩
  | b :: c :: bytes =>
    by_cases hb : b = quote
    · subst hb
      by_cases hc : c = quote
      · subst hc
        rcases exists_doubled bytes with ⟨inner, rfl⟩ | ⟨inner, rest, rfl, hrest⟩
        · exact .inl ⟨quote :: inner, rfl⟩
        · exact .inr ⟨quote :: inner, rest, rfl, hrest⟩
      · exact .inr ⟨[], c :: bytes, rfl, fun h => hc (Option.some.inj h)⟩
    · rcases exists_doubled (c :: bytes) with ⟨inner, hinner⟩ | ⟨inner, rest, hinner, hrest⟩
      · exact .inl ⟨b :: inner, by rw [doubled_cons hb, hinner]⟩
      · exact .inr ⟨b :: inner, rest, by rw [doubled_cons hb, hinner, List.cons_append], hrest⟩

/-- nothing follows, or a byte that is not plain -/
def Stops (rest : List UInt8) : Prop := ∀ b ∈ rest.head?, isPlain b = false

theorem exists_bare {bytes : List UInt8} (h : bytes.head? ≠ some quote) :
    ∃ front rest, bytes = front ++ rest ∧ Bare front ∧ Stops rest := by
  refine ⟨bytes.takeWhile isPlain, bytes.dropWhile isPlain, List.takeWhile_append_dropWhile.symm, ⟨?_, ?_⟩, ?_⟩
  · exact List.all_eq_true.1 List.all_takeWhile
  · cases bytes with
    | nil => exact nofun
    | cons b bytes =>
      rw [List.takeWhile_cons]
      split_ifs
      · exact h
      · exact nofun
  · intro b hb
    have hhead := List.head?_dropWhile_not isPlain bytes
    rw [Option.mem_def.1 hb] at hhead
    simpa using hhead

/-- bytes begin with a field, or break off inside one -/
theorem exists_field (bytes : List UInt8) : (∃ inner, bytes = quote :: doubled inner) ∨
    ∃ field text rest, bytes = text ++ rest ∧ SpellsField field text ∧ Stops rest := by
  by_cases hquote : bytes.head? = some quote
  · obtain ⟨bytes, rfl⟩ := List.head?_eq_some_iff.1 hquote
    rcases exists_doubled bytes with ⟨inner, rfl⟩ | ⟨inner, rest, rfl, hrest⟩
    · exact .inl ⟨inner, rfl⟩
    · obtain ⟨behind, rest, rfl, hbare, hstops⟩ := exists_bare hrest
      refine .inr ⟨inner ++ behind, quote :: (doubled inner ++ quote :: behind), rest, ?_, .enclosed hbare, hstops⟩
      simp
  · obtain ⟨front, rest, hbytes, hbare, hstops⟩ := exists_bare hquote
    exact .inr ⟨front, front, rest, hbytes, .bare hbare, hstops⟩

/-- bytes begin with the fields of a record, or break off inside one of them -/
theorem exists_record (bytes : List UInt8) : (∃ fields, SpellsBroken fields bytes) ∨
    ∃ fields text rest, bytes = text ++ rest ∧ SpellsRecord fields text ∧
      ∀ b ∈ rest.head?, Splitter.isLineEnd b = true := by
  rcases exists_field bytes with ⟨inner, rfl⟩ | ⟨field, text, rest, hbytes, hfield, hstops⟩
  · exact .inl ⟨_, .one inner⟩
  · cases rest with
    | nil => exact .inr ⟨[field], text, [], hbytes, .one hfield, nofun⟩
    | cons b rest =>
      by_cases hcomma : b = comma
      · rw [hcomma] at hbytes
        rcases exists_record rest with ⟨fields, hbroken⟩ | ⟨fields, text', rest', hrest, hrecord, hend⟩
        · rw [hbytes]
          exact .inl ⟨_, .more hfield hbroken⟩
        · refine .inr ⟨_, text ++ comma :: text', rest', ?_, .more hfield hrecord, hend⟩
          rw [hbytes, hrest, List.append_assoc, List.cons_append]
      · refine .inr ⟨[field], text, b :: rest, hbytes, .one hfield, ?_⟩
        rintro b' hb'
        obtain rfl := Option.some.inj hb'
        simpa [isPlain, hcomma] using hstops b rfl
termination_by bytes.length
decreasing_by
  have hlength := congrArg List.length hbytes
  rw [List.length_append, List.length_cons] at hlength
  omega

theorem SpellsTable.blank {e : UInt8} {rows : List (List (List UInt8))} {bytes : List UInt8}
    (he : Splitter.isLineEnd e = true) (h : SpellsTable rows bytes) : SpellsTable rows (e :: bytes) := by
  cases h with
  | whole hwhole => exact .whole (.blank he hwhole)
  | unended hwhole htext hne => exact .unended (.blank he hwhole) htext hne
  | broken hwhole htext => exact .broken (.blank he hwhole) htext

theorem SpellsTable.record {e : UInt8} {fields : List (List UInt8)} {rows : List (List (List UInt8))}
    {text bytes : List UInt8} (htext : SpellsRecord fields text) (hne : text ≠ []) (he : Splitter.isLineEnd e = true)
    (h : SpellsTable rows bytes) : SpellsTable (fields :: rows) (text ++ e :: bytes) := by
  cases h with
  | whole hwhole => exact .whole (.record htext hne he hwhole)
  | @unended _ _ last bytes hwhole hlast hne' =>
    have htable := SpellsTable.unended (.record htext hne he hwhole) hlast hne'
    rwa [List.append_assoc, List.cons_append] at htable
  | @broken _ _ last bytes hwhole hlast =>
    have htable := SpellsTable.broken (.record htext hne he hwhole) hlast
    rwa [List.append_assoc, List.cons_append] at htable

/-- any bytes spell a table -/
theorem exists_spellsTable (bytes : List UInt8) : ∃ rows, SpellsTable rows bytes := by
  cases bytes with
  | nil => exact ⟨[], .whole .nil⟩
  | cons b bytes =>
    by_cases hblank : Splitter.isLineEnd b = true
    · obtain ⟨rows, hrows⟩ := exists_spellsTable bytes
      exact ⟨rows, hrows.blank hblank⟩
    rcases exists_record (b :: bytes) with ⟨fields, hbroken⟩ | ⟨fields, text, rest, hbytes, hrecord, hend⟩
    · exact ⟨[fields], .broken .nil hbroken⟩
    · have hne : text ≠ [] := by
        rintro rfl
        rw [List.nil_append] at hbytes
        exact hblank (hend b (hbytes ▸ rfl))
      cases rest with
      | nil =>
        rw [hbytes, List.append_nil]
        exact ⟨[fields], .unended .nil hrecord hne⟩
      | cons e rest =>
        obtain ⟨rows, hrows⟩ := exists_spellsTable rest
        rw [hbytes]
        exact ⟨fields :: rows, hrows.record hrecord hne (hend e rfl)⟩
termination_by bytes.length
decreasing_by
  · simp
  · have hlength := congrArg List.length hbytes
    simp only [List.length_append, List.length_cons] at hlength ⊢
    omega

/-- bytes are whole records exactly if a splitter stands between records behind them -/
theorem Splitter.spellsWhole_iff {s : Splitter} (hs : s.Settled) (hplace : s.place = .between)
    {rows : List (List (List UInt8))} {bytes : List UInt8} :
    SpellsWhole rows bytes ↔ ∃ rs, s.Completes bytes rs ∧ rs.map (·.fields) = rows := by
  refine ⟨exists_completes hs hplace, ?_⟩
  rintro ⟨rs, hrs, rfl⟩
  obtain ⟨rows, htable⟩ := exists_spellsTable bytes
  cases htable with
  | whole hwhole =>
    obtain ⟨rs', hrs', rfl⟩ := exists_completes hs hplace hwhole
    rwa [← hrs.records, hrs'.records]
  | @unended fields rows text bytes hwhole htext hne =>
    exfalso
    obtain ⟨rs', hrs', -⟩ := exists_completes hs hplace hwhole
    obtain ⟨t, hfeed, -, hopen⟩ := AtStart.feed_record ⟨.inl hrs'.between, ((hs.feed bytes) hrs'.between).1⟩ htext
    have hbetween := hrs.between
    rw [feed_append, hfeed] at hbetween
    exact hne (hopen.begun hbetween).2
  | @broken fields rows text bytes hwhole htext =>
    exfalso
    obtain ⟨rs', hrs', -⟩ := exists_completes hs hplace hwhole
    obtain ⟨t, hfeed, -, henclosed⟩ := AtStart.feed_broken ⟨.inl hrs'.between, ((hs.feed bytes) hrs'.between).1⟩ htext
    have hbetween := hrs.between
    rw [feed_append, hfeed] at hbetween
    rw [henclosed] at hbetween
    cases hbetween

/-- a whole record between others is one more record, and leaves the fields of those behind it alone -/
theorem Splitter.records_insert {s : Splitter} (hs : s.Settled) (hplace : s.place = .between)
    {fields : List (List UInt8)} {row : List UInt8} (h : SpellsWhole [fields] row) (bytes : List UInt8) :
    ∃ r rs, s.records (row ++ bytes) = r :: rs ∧ r.fields = fields ∧
      rs.map (·.fields) = (s.records bytes).map (·.fields) := by
  obtain ⟨rs, hrow, hrs⟩ := exists_completes hs hplace h
  obtain ⟨r, rfl, hr⟩ := List.map_eq_singleton_iff.1 hrs
  refine ⟨r, (s.feed row).2.records bytes, ?_, hr, ?_⟩
  · rw [records_append, hrow.records, List.singleton_append]
  · -- both are the rows that the bytes behind spell
    obtain ⟨rows, hrows⟩ := exists_spellsTable bytes
    rw [map_fields_records (hs.feed row) hrow.between hrows, map_fields_records hs hplace hrows]

/-- **The rows of a table** are the ones that its bytes spell, and no others -/
theorem spellsTable_iff {rows : List (List (List UInt8))} {bytes : List UInt8} :
    SpellsTable rows (unmarked bytes) ↔ (records bytes).map (·.fields) = rows := by
  have hread : ∀ {rows}, SpellsTable rows (unmarked bytes) → (records bytes).map (·.fields) = rows := by
    intro rows h
    rw [records_eq]
    exact Splitter.map_fields_records (settled_opening bytes) (place_opening bytes) h
  constructor
  · exact hread
  · rintro rfl
    obtain ⟨rows, hrows⟩ := exists_spellsTable (unmarked bytes)
    rwa [hread hrows]

end LedgerTotals.Csv
