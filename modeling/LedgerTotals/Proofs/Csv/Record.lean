/-
A splitter goes on from any byte.

- `records_append`: the records of some bytes with others behind them are the records that end among the first ones, and
  those that the splitter gives from there on;
- `steps`: all that one byte can do to a splitter, so that an invariant is shown by one case for each;
- `Settled`: a splitter in front of a record has nothing at hand.
-/
import Mathlib.Tactic
import LedgerTotals.Csv.Record

namespace LedgerTotals.Csv

namespace Splitter

variable {s : Splitter}

/-! ## Going on -/

/-- the records that end among the bytes, and the splitter behind them -/
def feed (s : Splitter) : List UInt8 → List Record × Splitter
  | [] => ([], s)
  | b :: bytes =>
    let rest := feed (s.step b).2 bytes
    ((s.step b).1.toList ++ rest.1, rest.2)

theorem records_cons (s : Splitter) (b : UInt8) (bytes : List UInt8) :
    s.records (b :: bytes) = (s.step b).1.toList ++ (s.step b).2.records bytes := by
  rw [records]
  rcases s.step b with ⟨_ | r, t⟩ <;> rfl

theorem records_append (s : Splitter) (first bytes : List UInt8) :
    s.records (first ++ bytes) = (s.feed first).1 ++ (s.feed first).2.records bytes := by
  induction first generalizing s with
  | nil => rfl
  | cons b first ih => rw [List.cons_append, records_cons, ih, feed, List.append_assoc]

/-- the bytes are whole records, these ones: the last of them is ended, and no other is begun -/
structure Completes (s : Splitter) (bytes : List UInt8) (rs : List Record) : Prop where
  records : (s.feed bytes).1 = rs
  between : (s.feed bytes).2.place = .between

/-! ## One byte -/

/-- what one byte does: the record that it ends, if it does, and the splitter behind it -/
inductive Steps (s : Splitter) (b : UInt8) : Option Record × Splitter → Prop
  /-- the byte belongs to no field -/
  | skip {t : Splitter} (field : t.field = s.field) (fields : t.fields = s.fields)
      (place : t.place = .between → s.place = .between) : Steps s b (none, t)
  /-- the byte belongs to the field at hand -/
  | push {t : Splitter} (field : t.field = b :: s.field) (fields : t.fields = s.fields) (place : t.place ≠ .between) :
      Steps s b (none, t)
  /-- the field at hand is over -/
  | endField {t : Splitter} (field : t.field = []) (fields : t.fields = s.field.reverse :: s.fields)
      (place : t.place ≠ .between) : Steps s b (none, t)
  /-- the record at hand is over -/
  | endRecord {t : Splitter} (field : t.field = []) (fields : t.fields = []) : Steps s b (some s.record, t)

theorem steps_outside (s : Splitter) (b : UInt8) : Steps s b (s.outside b) := by
  unfold outside
  split_ifs
  · exact .endField rfl rfl nofun
  · exact .endRecord rfl rfl
  · exact .push rfl rfl nofun

/-- a step is one of these -/
theorem steps (s : Splitter) (b : UInt8) : Steps s b (s.step b) := by
  unfold Splitter.step
  cases hplace : s.place with
  | between =>
    dsimp only
    split_ifs
    · exact .skip rfl rfl fun _ => hplace
    · exact .skip rfl rfl nofun
    · exact s.steps_outside b
  | fieldStart =>
    dsimp only
    split_ifs
    · exact .skip rfl rfl nofun
    · exact s.steps_outside b
  | bare => exact s.steps_outside b
  | enclosed =>
    dsimp only
    split_ifs
    · exact .skip rfl rfl nofun
    · exact .push rfl rfl nofun
  | closing =>
    dsimp only
    split_ifs
    · exact .push rfl rfl nofun
    · exact s.steps_outside b

/-! ## Between records -/

/-- in front of a record there is nothing at hand -/
def Settled (s : Splitter) : Prop := s.place = .between → s.field = [] ∧ s.fields = []

theorem settled_initial (byte : ℕ) : Settled (initial byte) := fun _ => ⟨rfl, rfl⟩

theorem Settled.step (h : Settled s) (b : UInt8) : Settled (s.step b).2 := by
  intro hplace
  have hsteps := s.steps b
  generalize s.step b = out at hsteps hplace ⊢
  cases hsteps with
  | skip field fields place => exact ⟨field.trans (h (place hplace)).1, fields.trans (h (place hplace)).2⟩
  | push field fields place => exact absurd hplace place
  | endField field fields place => exact absurd hplace place
  | endRecord field fields => exact ⟨field, fields⟩

theorem Settled.feed (h : Settled s) (bytes : List UInt8) : Settled (s.feed bytes).2 := by
  induction bytes generalizing s with
  | nil => exact h
  | cons b bytes ih => exact ih (h.step b)

end Splitter

/-! ## The byte order mark -/

def mark : List UInt8 := [0xEF, 0xBB, 0xBF]

/-- the bytes behind the mark, if there is one -/
def unmarked (bytes : List UInt8) : List UInt8 := if mark <+: bytes then bytes.drop 3 else bytes

def opening (bytes : List UInt8) : Splitter := .initial (if mark <+: bytes then 3 else 0)

theorem place_opening (bytes : List UInt8) : (opening bytes).place = .between := rfl

theorem settled_opening (bytes : List UInt8) : (opening bytes).Settled := Splitter.settled_initial _

theorem records_eq (bytes : List UInt8) : records bytes = (opening bytes).records (unmarked bytes) := by
  unfold records opening unmarked
  split
  · rw [if_pos (by simp [mark]), if_pos (by simp [mark])]
    rfl
  · rename_i hmark
    have hnone : ¬ mark <+: bytes := by
      rintro ⟨rest, rfl⟩
      exact hmark rest rfl
    rw [if_neg hnone, if_neg hnone]

/-- the records that end among the bytes, from the first byte on, and the splitter behind them -/
def feed (bytes : List UInt8) : List Record × Splitter := (opening bytes).feed (unmarked bytes)

theorem settled_feed (bytes : List UInt8) : (feed bytes).2.Settled := (settled_opening bytes).feed _

/-- where a record has ended, it is known whether there is a mark -/
theorem mark_prefix_append {first : List UInt8} (h : (feed first).1 ≠ []) (bytes : List UInt8) :
    mark <+: first ++ bytes ↔ mark <+: first := by
  constructor
  · intro hlonger
    -- a part of the mark ends no record
    rcases List.prefix_or_prefix_of_prefix hlonger (List.prefix_append first bytes) with hwhole | hpart
    · exact hwhole
    · have hmem : first ∈ mark.inits := (List.mem_inits first mark).2 hpart
      have hnone : ∀ part ∈ mark.inits, (feed part).1 = [] := by decide
      exact absurd (hnone first hmem) h
  · intro hmark
    exact hmark.trans (List.prefix_append first bytes)

/-- the records of bytes of which some records have ended -/
theorem records_append {first : List UInt8} (h : (feed first).1 ≠ []) (bytes : List UInt8) :
    records (first ++ bytes) = (feed first).1 ++ (feed first).2.records bytes := by
  have hmark := mark_prefix_append h bytes
  have hopening : opening (first ++ bytes) = opening first := by
    unfold opening
    simp only [hmark]
  have hunmarked : unmarked (first ++ bytes) = unmarked first ++ bytes := by
    unfold unmarked
    simp only [hmark]
    split_ifs with hfirst
    · exact List.drop_append_of_le_length hfirst.length_le
    · rfl
  rw [records_eq, hopening, hunmarked, Splitter.records_append]
  rfl

end LedgerTotals.Csv
