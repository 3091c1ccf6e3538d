/-
A table that is a text has texts in its fields.

Only commas, quotation marks and line ends part fields and records, and each of them is a character of one byte. The
bytes of a longer character all go to the field at hand (`feed_high`), so no character is cut: `isText_of_mem_records`.
-/
import LedgerTotals.Proofs.Csv.Record
import LedgerTotals.Proofs.Text.Utf8
import LedgerTotals.Csv.Table

namespace LedgerTotals.Csv

/-! ## Fields as texts -/

/-- the bytes are a text in UTF-8 -/
def IsText (bytes : List UInt8) : Prop := ∃ s : String, bytes = Utf8.encode s

def Record.IsText (r : Record) : Prop := ∀ field ∈ r.fields, Csv.IsText field

theorem textsFrom_eq_ok_iff {i : ℕ} {fields : List (List UInt8)} {texts : List String} :
    textsFrom i fields = .ok texts ↔ fields = texts.map Utf8.encode := by
  induction fields generalizing i texts with
  | nil => cases texts <;> simp [textsFrom]
  | cons field fields ih =>
    rw [textsFrom]
    constructor
    · intro h
      cases hfield : Utf8.decode field with
      | error index => simp [hfield] at h
      | ok cs =>
        simp only [hfield] at h
        cases hrest : textsFrom (i + 1) fields with
        | error e => simp [hrest, Except.map] at h
        | ok rest =>
          rw [hrest] at h
          obtain rfl := Except.ok.inj h
          rw [List.map_cons, ← Utf8.encode_of_decode hfield, ← ih.1 hrest]
    · intro h
      cases texts with
      | nil => cases h
      | cons s texts =>
        obtain ⟨rfl, hrest⟩ := List.cons.inj h
        simp only [Utf8.decode_encode, String.ofList_toList, ih.2 hrest]
        rfl

theorem Record.texts_eq_ok_iff {r : Record} {texts : List String} :
    r.texts = .ok texts ↔ r.fields = texts.map Utf8.encode := textsFrom_eq_ok_iff

/-- so the record has texts -/
theorem Record.isText_iff {r : Record} : r.IsText ↔ ∃ texts, r.texts = .ok texts := by
  constructor
  · intro h
    have hrange : r.fields ∈ Set.range (List.map Utf8.encode) := by
      rw [Set.range_list_map]
      intro field hfield
      obtain ⟨s, hs⟩ := h field hfield
      exact ⟨s, hs.symm⟩
    obtain ⟨texts, htexts⟩ := hrange
    exact ⟨texts, texts_eq_ok_iff.2 htexts.symm⟩
  · rintro ⟨texts, htexts⟩ field hfield
    rw [texts_eq_ok_iff.1 htexts] at hfield
    obtain ⟨s, -, rfl⟩ := List.mem_map.1 hfield
    exact ⟨s, rfl⟩

/-! ## Characters -/

theorem isText_nil : IsText [] := ⟨"", by rw [Utf8.encode_eq]; rfl⟩

theorem IsText.append_char {bytes : List UInt8} (h : IsText bytes) (c : Char) :
    IsText (bytes ++ String.utf8EncodeChar c) := by
  obtain ⟨s, rfl⟩ := h
  refine ⟨String.ofList (s.toList ++ [c]), ?_⟩
  rw [Utf8.encode_eq, Utf8.encode_eq, String.toList_ofList, List.flatMap_append, List.flatMap_singleton]

/-- a character is one byte, or has no byte in common with those that are -/
theorem encodeChar_cases (c : Char) :
    (∃ b, String.utf8EncodeChar c = [b]) ∨ ∀ b ∈ String.utf8EncodeChar c, 0x80 ≤ b.toNat := by
  have hbyte : ∀ n, 0x80 ≤ n → n < 256 → 0x80 ≤ (UInt8.ofNat n).toNat := by
    intro n hlow hhigh
    rw [Utf8.toNat_ofNat hhigh]
    exact hlow
  rw [String.utf8EncodeChar]
  split_ifs
  · exact .inl ⟨_, rfl⟩
  all_goals
    right
    simp only [List.forall_mem_cons, List.not_mem_nil, false_implies, implies_true, and_true]
  · exact ⟨hbyte _ (by omega) (by omega), hbyte _ (by omega) (by omega)⟩
  · exact ⟨hbyte _ (by omega) (by omega), hbyte _ (by omega) (by omega), hbyte _ (by omega) (by omega)⟩
  · exact ⟨hbyte _ (by omega) (by omega), hbyte _ (by omega) (by omega), hbyte _ (by omega) (by omega),
      hbyte _ (by omega) (by omega)⟩

namespace Splitter

variable {s : Splitter}

theorem step_high {b : UInt8} (h : 0x80 ≤ b.toNat) (s : Splitter) :
    ∃ t, s.step b = (none, t) ∧ t.field = b :: s.field ∧ t.fields = s.fields := by
  have hquote : b ≠ quote := by rintro rfl; revert h; decide
  have hcomma : b ≠ comma := by rintro rfl; revert h; decide
  have hend : isLineEnd b = false := by
    by_contra hend
    rw [Bool.not_eq_false, isLineEnd, Bool.or_eq_true, decide_eq_true_eq, decide_eq_true_eq] at hend
    rcases hend with rfl | rfl <;> revert h <;> decide
  have houtside : s.outside b = (none, (s.advance b).push .bare b) := by
    rw [outside, if_neg hcomma, if_neg (by simp [hend])]
  unfold Splitter.step
  cases s.place <;> simp only [hquote, hend, houtside, if_false, Bool.false_eq_true] <;> exact ⟨_, rfl, rfl, rfl⟩

/-- bytes of longer characters all go to the field at hand -/
theorem feed_high {bytes : List UInt8} (h : ∀ b ∈ bytes, 0x80 ≤ b.toNat) (s : Splitter) :
    (s.feed bytes).1 = [] ∧ (s.feed bytes).2.field = bytes.reverse ++ s.field ∧ (s.feed bytes).2.fields = s.fields := by
  induction bytes generalizing s with
  | nil => exact ⟨rfl, rfl, rfl⟩
  | cons b bytes ih =>
    obtain ⟨t, hstep, hfield, hfields⟩ := step_high (h b List.mem_cons_self) s
    obtain ⟨hnone, hfield', hfields'⟩ := ih (fun b hb => h b (List.mem_cons_of_mem _ hb)) t
    rw [feed, hstep]
    refine ⟨hnone, ?_, hfields'.trans hfields⟩
    rw [hfield', hfield, List.reverse_cons, List.append_assoc, List.singleton_append]

/-- what is at hand are texts -/
structure InText (s : Splitter) : Prop where
  field : IsText s.field.reverse
  fields : ∀ field ∈ s.fields, IsText field

theorem InText.record (h : InText s) : s.record.IsText := by
  intro field hfield
  rcases List.mem_cons.1 (List.mem_reverse.1 hfield) with rfl | hfield
  · exact h.field
  · exact h.fields field hfield

/-- one character ends texts only, and leaves texts at hand -/
theorem InText.char (h : InText s) (c : Char) :
    InText (s.feed (String.utf8EncodeChar c)).2 ∧ ∀ r ∈ (s.feed (String.utf8EncodeChar c)).1, r.IsText := by
  have hnone : ∀ r ∈ ([] : List Record), r.IsText := fun r hr => absurd hr List.not_mem_nil
  rcases encodeChar_cases c with ⟨b, hb⟩ | hhigh
  · have hlonger := h.field.append_char c
    rw [hb] at hlonger ⊢
    have hsteps := s.steps b
    rw [feed, feed]
    generalize s.step b = out at hsteps ⊢
    cases hsteps with
    | skip field fields => exact ⟨⟨field ▸ h.field, fields ▸ h.fields⟩, hnone⟩
    | push field fields =>
      refine ⟨⟨?_, fields ▸ h.fields⟩, hnone⟩
      rw [field, List.reverse_cons]
      exact hlonger
    | endField field fields =>
      refine ⟨⟨field ▸ isText_nil, ?_⟩, hnone⟩
      rw [fields]
      exact List.forall_mem_cons.2 ⟨h.field, h.fields⟩
    | endRecord field fields =>
      refine ⟨⟨field ▸ isText_nil, ?_⟩, ?_⟩
      · intro f hf
        rw [fields] at hf
        cases hf
      · intro r hr
        obtain rfl := List.mem_singleton.1 hr
        exact h.record
  · obtain ⟨hrecords, hfield, hfields⟩ := feed_high hhigh s
    refine ⟨⟨?_, hfields ▸ h.fields⟩, hrecords ▸ hnone⟩
    rw [hfield, List.reverse_append, List.reverse_reverse]
    exact h.field.append_char c

theorem InText.records (h : InText s) (cs : List Char) :
    ∀ r ∈ s.records (cs.flatMap String.utf8EncodeChar), r.IsText := by
  induction cs generalizing s with
  | nil =>
    intro r hr
    rw [List.flatMap_nil, Splitter.records] at hr
    split_ifs at hr
    · cases hr
    · obtain rfl := List.mem_singleton.1 hr
      exact h.record
  | cons c cs ih =>
    obtain ⟨hafter, hrecords⟩ := h.char c
    intro r hr
    rw [List.flatMap_cons, records_append, List.mem_append] at hr
    rcases hr with hr | hr
    · exact hrecords r hr
    · exact ih hafter r hr

theorem inText_initial (byte : ℕ) : InText (initial byte) := ⟨isText_nil, nofun⟩

end Splitter

/-- **The fields of a text are texts** -/
theorem isText_of_mem_records {s : String} {r : Record} (h : r ∈ records (Utf8.encode s)) : r.IsText := by
  rw [records_eq, unmarked] at h
  split_ifs at h with hmark
  · obtain ⟨bytes, hbytes⟩ := hmark
    have hchar : Utf8.encode s = String.utf8EncodeChar '\uFEFF' ++ bytes := hbytes.symm
    obtain ⟨t, rfl⟩ := Utf8.exists_encode_of_char hchar
    have hdrop : (Utf8.encode s).drop 3 = t.toList.flatMap String.utf8EncodeChar := by
      rw [← hbytes, ← Utf8.encode_eq]
      rfl
    rw [hdrop] at h
    exact (Splitter.inText_initial _).records t.toList r h
  · rw [Utf8.encode_eq] at h
    exact (Splitter.inText_initial _).records s.toList r h

end LedgerTotals.Csv
