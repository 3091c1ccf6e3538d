/-
What is encoded is decoded, `decode_encode`, and nothing else is: `encode_of_decode`.

A character takes one to four bytes. The first byte says how many follow it, and in which range the next one lies; the
decoder arrives at the character exactly when its last byte is read (`decodeFrom_encoded`). Conversely, the ranges keep
out longer forms, surrogates and what lies beyond the code space, so that what was read of a character are its bytes
(`exists_encoded_of_decodeFrom`).
-/
import Mathlib.Tactic
import LedgerTotals.Text.Utf8

namespace LedgerTotals.Utf8

/-! ## The bytes of a text -/

theorem toList_loop (bs : ByteArray) (i : ℕ) (r : List UInt8) :
    ByteArray.toList.loop bs i r = r.reverse ++ bs.data.toList.drop i := by
  fun_induction ByteArray.toList.loop bs i r with
  | case1 i r h ih =>
    have hi : i < bs.data.toList.length := by simpa using h
    have hget : bs.get! i = bs.data.toList[i] := by simp [ByteArray.get!, h]
    rw [ih, List.drop_eq_getElem_cons hi, hget]
    simp
  | case2 i r h =>
    rw [List.drop_eq_nil_of_le (by simpa using Nat.le_of_not_lt h)]
    simp

theorem encode_eq (s : String) : encode s = s.toList.flatMap String.utf8EncodeChar := by
  have hbytes : s.toUTF8 = (s.toList.flatMap String.utf8EncodeChar).toByteArray := by
    conv => lhs; rw [← String.ofList_toList (s := s), String.toUTF8_eq_toByteArray, String.toByteArray_ofList]
    rfl
  rw [encode, hbytes, ByteArray.toList, toList_loop]
  simp

/-! ## One character -/

/-- a character is no surrogate, and below the end of the code space -/
theorem toNat_range (c : Char) : c.toNat < 0xD800 ∨ 0xDFFF < c.toNat ∧ c.toNat < 0x110000 := by
  have h := c.valid
  simpa [UInt32.isValidChar, Nat.isValidChar] using h

theorem toNat_ofNat {n : ℕ} (h : n < 256) : (UInt8.ofNat n).toNat = n := by
  simp [Nat.mod_eq_of_lt h]

/-- a first byte that stands alone -/
theorem decodeFrom_single (start index : ℕ) (acc : List Char) {n : ℕ} (h : n < 0x80) (r : List UInt8) :
    decodeFrom start index .none acc (UInt8.ofNat n :: r) =
      decodeFrom (index + 1) (index + 1) .none (Char.ofNat n :: acc) r := by
  simp [decodeFrom, Pending.none, toNat_ofNat (by omega : n < 256), h]

/-- a first byte that others follow -/
theorem decodeFrom_lead (start index : ℕ) (acc : List Char) {n : ℕ} (hn : n < 256) (h : 0x80 ≤ n) {p : Pending}
    (hp : lead? n = some p) (r : List UInt8) :
    decodeFrom start index .none acc (UInt8.ofNat n :: r) = decodeFrom start (index + 1) p acc r := by
  have hlow : ¬ n < 0x80 := by omega
  rw [decodeFrom, toNat_ofNat hn]
  simp [Pending.none, hlow, hp]

/-- a byte in the middle of a character -/
theorem decodeFrom_more (start index : ℕ) (acc : List Char) {left low high value m : ℕ} (hm : m < 64)
    (hlow : low ≤ m + 128) (hhigh : m + 128 ≤ high) (r : List UInt8) :
    decodeFrom start index ⟨left + 2, low, high, value⟩ acc (UInt8.ofNat (m + 128) :: r) =
      decodeFrom start (index + 1) ⟨left + 1, 0x80, 0xBF, 64 * value + m⟩ acc r := by
  rw [decodeFrom, toNat_ofNat (by omega)]
  simp [hlow, hhigh]

/-- the last byte of a character -/
theorem decodeFrom_last (start index : ℕ) (acc : List Char) {low high value m : ℕ} (hm : m < 64)
    (hlow : low ≤ m + 128) (hhigh : m + 128 ≤ high) (r : List UInt8) :
    decodeFrom start index ⟨1, low, high, value⟩ acc (UInt8.ofNat (m + 128) :: r) =
      decodeFrom (index + 1) (index + 1) .none (Char.ofNat (64 * value + m) :: acc) r := by
  rw [decodeFrom, toNat_ofNat (by omega)]
  simp [hlow, hhigh]

/-- the first of two bytes -/
theorem lead?_two {v : ℕ} (h : 0x80 ≤ v) (h' : v ≤ 0x7FF) :
    lead? (v / 64 % 32 + 192) = some ⟨1, 0x80, 0xBF, v / 64⟩ := by
  rw [lead?, if_pos (by omega)]
  simp only [Option.some.injEq, Pending.mk.injEq, true_and]
  omega

/-- the first of three bytes: the second one lies in the range that it asks for -/
theorem lead?_three {v : ℕ} (h : 0x7FF < v) (h' : v ≤ 0xFFFF) (hrange : v < 0xD800 ∨ 0xDFFF < v) :
    ∃ low high, lead? (v / 4096 % 16 + 224) = some ⟨2, low, high, v / 4096⟩ ∧
      low ≤ v / 64 % 64 + 128 ∧ v / 64 % 64 + 128 ≤ high := by
  have hsmall : v / 4096 % 16 = v / 4096 := by omega
  rw [hsmall, lead?, if_neg (by omega)]
  by_cases hfirst : v / 4096 = 0
  · rw [hfirst]
    exact ⟨0xA0, 0xBF, rfl, by omega, by omega⟩
  by_cases hlast : v / 4096 = 0xD
  · rw [hlast]
    exact ⟨0x80, 0x9F, rfl, by omega, by omega⟩
  · refine ⟨0x80, 0xBF, ?_, by omega, by omega⟩
    rw [if_neg (by omega), if_neg (by omega), if_pos (by omega), Nat.add_sub_cancel]

/-- the first of four bytes: the second one lies in the range that it asks for -/
theorem lead?_four {v : ℕ} (h : 0xFFFF < v) (h' : v < 0x110000) :
    ∃ low high, lead? (v / 262144 % 8 + 240) = some ⟨3, low, high, v / 262144⟩ ∧
      low ≤ v / 4096 % 64 + 128 ∧ v / 4096 % 64 + 128 ≤ high := by
  have hsmall : v / 262144 % 8 = v / 262144 := by omega
  rw [hsmall, lead?, if_neg (by omega), if_neg (by omega), if_neg (by omega), if_neg (by omega)]
  by_cases hfirst : v / 262144 = 0
  · rw [hfirst]
    exact ⟨0x90, 0xBF, rfl, by omega, by omega⟩
  by_cases hlast : v / 262144 = 4
  · rw [hlast]
    exact ⟨0x80, 0x8F, rfl, by omega, by omega⟩
  · refine ⟨0x80, 0xBF, ?_, by omega, by omega⟩
    rw [if_neg (by omega), if_pos (by omega), Nat.add_sub_cancel]

/-- the bytes of a character give that character back, and leave nothing pending -/
theorem decodeFrom_encoded (start index : ℕ) (acc : List Char) (c : Char) (r : List UInt8) :
    ∃ next, decodeFrom start index .none acc (String.utf8EncodeChar c ++ r) =
      decodeFrom next next .none (c :: acc) r := by
  have hrange := toNat_range c
  have hc : ∀ n, n = c.toNat → Char.ofNat n = c := fun n hn => hn ▸ Char.ofNat_toNat c
  have hval : c.val.toNat = c.toNat := rfl
  rw [String.utf8EncodeChar]
  simp only [hval]
  generalize c.toNat = v at hrange hc
  split_ifs with h₁ h₂ h₃
  · refine ⟨index + 1, ?_⟩
    rw [List.singleton_append, decodeFrom_single _ _ _ (by omega), hc v rfl]
  · refine ⟨index + 1 + 1, ?_⟩
    simp only [List.cons_append, List.nil_append]
    rw [decodeFrom_lead _ _ _ (by omega) (by omega) (lead?_two (by omega) h₂),
      decodeFrom_last _ _ _ (by omega) (by omega) (by omega), hc _ (by omega)]
  · obtain ⟨low, high, hlead, hlow, hhigh⟩ := lead?_three (by omega : 0x7FF < v) h₃ (by omega)
    refine ⟨index + 1 + 1 + 1, ?_⟩
    simp only [List.cons_append, List.nil_append]
    rw [decodeFrom_lead _ _ _ (by omega) (by omega) hlead, decodeFrom_more _ _ _ (by omega) hlow hhigh,
      decodeFrom_last _ _ _ (by omega) (by omega) (by omega), hc _ (by omega)]
  · obtain ⟨low, high, hlead, hlow, hhigh⟩ := lead?_four (by omega : 0xFFFF < v) (by omega)
    refine ⟨index + 1 + 1 + 1 + 1, ?_⟩
    simp only [List.cons_append, List.nil_append]
    rw [decodeFrom_lead _ _ _ (by omega) (by omega) hlead,
      decodeFrom_more _ _ _ (by omega) hlow hhigh, decodeFrom_more _ _ _ (by omega) (by omega) (by omega),
      decodeFrom_last _ _ _ (by omega) (by omega) (by omega), hc _ (by omega)]

/-! ## The whole text -/

/-- **What is encoded is decoded** -/
theorem decode_encode (s : String) : decode (encode s) = .ok s.toList := by
  have hrun : ∀ (cs acc : List Char) (start : ℕ),
      decodeFrom start start .none acc (cs.flatMap String.utf8EncodeChar) = .ok (acc.reverse ++ cs) := by
    intro cs
    induction cs with
    | nil => simp [decodeFrom, Pending.none]
    | cons c cs ih =>
      intro acc start
      obtain ⟨next, hnext⟩ := decodeFrom_encoded start start acc c (cs.flatMap String.utf8EncodeChar)
      rw [List.flatMap_cons, hnext, ih]
      simp
  rw [decode, encode_eq, hrun, List.reverse_nil, List.nil_append]

/-! ## What is decoded -/

theorem toNat_charOfNat {n : ℕ} (h : n.isValidChar) : (Char.ofNat n).val.toNat = n := by
  rw [Char.ofNat, dif_pos h]
  rfl

/-- the bytes of a character of one byte -/
theorem utf8EncodeChar_one {v : ℕ} (hv : v < 0x80) : String.utf8EncodeChar (Char.ofNat v) = [UInt8.ofNat v] := by
  have hc := toNat_charOfNat (n := v) (.inl (by omega))
  rw [String.utf8EncodeChar]
  simp only [hc]
  rw [if_pos (by omega)]

/-- the bytes of a character of two bytes -/
theorem utf8EncodeChar_two {v m : ℕ} (hv : 2 ≤ v) (hv' : v < 0x20) (hm : m < 64) :
    String.utf8EncodeChar (Char.ofNat (64 * v + m)) = [UInt8.ofNat (v + 0xC0), UInt8.ofNat (m + 128)] := by
  have hc := toNat_charOfNat (n := 64 * v + m) (.inl (by omega))
  have hfirst : (64 * v + m) / 64 % 32 = v := by omega
  have hlast : (64 * v + m) % 64 = m := by omega
  rw [String.utf8EncodeChar]
  simp only [hc]
  rw [if_neg (by omega), if_pos (by omega), hfirst, hlast]

/-- the bytes of a character of three bytes; the bounds are those of the bits in front of the last byte -/
theorem utf8EncodeChar_three {v m m' : ℕ} (hv : v < 0x10) (hm : m < 64) (hm' : m' < 64) (hlow : 0x20 ≤ 64 * v + m)
    (hrange : 64 * v + m < 0x360 ∨ 0x37F < 64 * v + m) :
    String.utf8EncodeChar (Char.ofNat (64 * (64 * v + m) + m')) =
      [UInt8.ofNat (v + 0xE0), UInt8.ofNat (m + 128), UInt8.ofNat (m' + 128)] := by
  have hvalid : (64 * (64 * v + m) + m').isValidChar := by
    unfold Nat.isValidChar
    omega
  have hc := toNat_charOfNat hvalid
  have hfirst : (64 * (64 * v + m) + m') / 4096 % 16 = v := by omega
  have hmiddle : (64 * (64 * v + m) + m') / 64 % 64 = m := by omega
  have hlast : (64 * (64 * v + m) + m') % 64 = m' := by omega
  rw [String.utf8EncodeChar]
  simp only [hc]
  rw [if_neg (by omega), if_neg (by omega), if_pos (by omega), hfirst, hmiddle, hlast]

/-- the bytes of a character of four bytes; the bounds are those of the bits in the first two bytes -/
theorem utf8EncodeChar_four {v m m' m'' : ℕ} (hm : m < 64) (hm' : m' < 64) (hm'' : m'' < 64)
    (hlow : 0x10 ≤ 64 * v + m) (hhigh : 64 * v + m < 0x110) :
    String.utf8EncodeChar (Char.ofNat (64 * (64 * (64 * v + m) + m') + m'')) =
      [UInt8.ofNat (v + 0xF0), UInt8.ofNat (m + 128), UInt8.ofNat (m' + 128), UInt8.ofNat (m'' + 128)] := by
  have hvalid : (64 * (64 * (64 * v + m) + m') + m'').isValidChar := by
    unfold Nat.isValidChar
    omega
  have hc := toNat_charOfNat hvalid
  have hfirst : (64 * (64 * (64 * v + m) + m') + m'') / 262144 % 8 = v := by omega
  have hsecond : (64 * (64 * (64 * v + m) + m') + m'') / 4096 % 64 = m := by omega
  have hthird : (64 * (64 * (64 * v + m) + m') + m'') / 64 % 64 = m' := by omega
  have hlast : (64 * (64 * (64 * v + m) + m') + m'') % 64 = m'' := by omega
  rw [String.utf8EncodeChar]
  simp only [hc]
  rw [if_neg (by omega), if_neg (by omega), if_neg (by omega), hfirst, hsecond, hthird, hlast]

/-- what a first byte says: its own bits, and a range for the next byte that leaves just the bits a character can have -/
theorem lead?_eq_some {b : ℕ} {p : Pending} (h : lead? b = some p) :
    (∃ v, b = v + 0xC0 ∧ 2 ≤ v ∧ v < 0x20 ∧ p = ⟨1, 0x80, 0xBF, v⟩) ∨
      (∃ v low high, b = v + 0xE0 ∧ v < 0x10 ∧ p = ⟨2, low, high, v⟩ ∧ 0x80 ≤ low ∧ high ≤ 0xBF ∧
        ∀ m, low ≤ m + 128 → m + 128 ≤ high →
          0x20 ≤ 64 * v + m ∧ (64 * v + m < 0x360 ∨ 0x37F < 64 * v + m)) ∨
      ∃ v low high, b = v + 0xF0 ∧ p = ⟨3, low, high, v⟩ ∧ 0x80 ≤ low ∧ high ≤ 0xBF ∧
        ∀ m, low ≤ m + 128 → m + 128 ≤ high → 0x10 ≤ 64 * v + m ∧ 64 * v + m < 0x110 := by
  unfold lead? at h
  split_ifs at h with h₁ h₂ h₃ h₄ h₅ h₆ h₇ <;> obtain rfl := Option.some.inj h
  · exact .inl ⟨b - 0xC0, by omega, by omega, by omega, rfl⟩
  · exact .inr (.inl ⟨0, 0xA0, 0xBF, by omega, by omega, rfl, by omega, by omega, fun m _ _ => by omega⟩)
  · exact .inr (.inl ⟨0xD, 0x80, 0x9F, by omega, by omega, rfl, by omega, by omega, fun m _ _ => by omega⟩)
  · exact .inr (.inl ⟨b - 0xE0, 0x80, 0xBF, by omega, by omega, rfl, by omega, by omega, fun m _ _ => by omega⟩)
  · exact .inr (.inr ⟨0, 0x90, 0xBF, by omega, rfl, by omega, by omega, fun m _ _ => by omega⟩)
  · exact .inr (.inr ⟨b - 0xF0, 0x80, 0xBF, by omega, rfl, by omega, by omega, fun m _ _ => by omega⟩)
  · exact .inr (.inr ⟨4, 0x80, 0x8F, by omega, rfl, by omega, by omega, fun m _ _ => by omega⟩)

variable {start index : ℕ} {acc cs : List Char} {bytes : List UInt8}

theorem exists_ofNat (b : UInt8) {n : ℕ} (h : 128 ≤ b.toNat) (hn : b.toNat ≤ n) (h' : n ≤ 0xBF) :
    ∃ m < 64, b = UInt8.ofNat (m + 128) ∧ b.toNat = m + 128 := by
  refine ⟨b.toNat - 128, by omega, ?_, by omega⟩
  rw [Nat.sub_add_cancel h, UInt8.ofNat_toNat]

/-- more than one byte is missing: the next one lies in its range -/
theorem exists_more_of_decodeFrom {left low high value : ℕ} (hlow : 0x80 ≤ low) (hhigh : high ≤ 0xBF)
    (h : decodeFrom start index ⟨left + 2, low, high, value⟩ acc bytes = .ok cs) :
    ∃ m < 64, ∃ r, bytes = UInt8.ofNat (m + 128) :: r ∧ low ≤ m + 128 ∧ m + 128 ≤ high ∧
      decodeFrom start (index + 1) ⟨left + 1, 0x80, 0xBF, 64 * value + m⟩ acc r = .ok cs := by
  cases bytes with
  | nil => simp [decodeFrom] at h
  | cons b r =>
    by_cases hb : low ≤ b.toNat ∧ b.toNat ≤ high
    · obtain ⟨m, hm, rfl, hval⟩ := exists_ofNat b (hlow.trans hb.1) hb.2 hhigh
      rw [hval] at hb
      rw [decodeFrom_more _ _ _ hm hb.1 hb.2] at h
      exact ⟨m, hm, r, rfl, hb.1, hb.2, h⟩
    · simp [decodeFrom, hb] at h

/-- one byte is missing: it lies in its range and ends the character -/
theorem exists_last_of_decodeFrom {low high value : ℕ} (hlow : 0x80 ≤ low) (hhigh : high ≤ 0xBF)
    (h : decodeFrom start index ⟨1, low, high, value⟩ acc bytes = .ok cs) :
    ∃ m < 64, ∃ r, bytes = UInt8.ofNat (m + 128) :: r ∧
      decodeFrom (index + 1) (index + 1) .none (Char.ofNat (64 * value + m) :: acc) r = .ok cs := by
  cases bytes with
  | nil => simp [decodeFrom] at h
  | cons b r =>
    by_cases hb : low ≤ b.toNat ∧ b.toNat ≤ high
    · obtain ⟨m, hm, rfl, hval⟩ := exists_ofNat b (hlow.trans hb.1) hb.2 hhigh
      rw [hval] at hb
      rw [decodeFrom_last _ _ _ hm hb.1 hb.2] at h
      exact ⟨m, hm, r, rfl, h⟩
    · simp [decodeFrom, hb] at h

/-- bytes that are decoded begin with those of a character -/
theorem exists_encoded_of_decodeFrom {b : UInt8} {r : List UInt8}
    (h : decodeFrom start index .none acc (b :: r) = .ok cs) :
    ∃ c r' next, b :: r = String.utf8EncodeChar c ++ r' ∧ decodeFrom next next .none (c :: acc) r' = .ok cs := by
  by_cases hsmall : b.toNat < 0x80
  · have hstep := decodeFrom_single start index acc hsmall r
    rw [UInt8.ofNat_toNat, h] at hstep
    refine ⟨_, r, _, ?_, hstep.symm⟩
    rw [utf8EncodeChar_one hsmall, UInt8.ofNat_toNat, List.singleton_append]
  cases hlead : lead? b.toNat with
  | none => simp [decodeFrom, Pending.none, hsmall, hlead] at h
  | some p =>
    have hstep := decodeFrom_lead start index acc b.toNat_lt (Nat.le_of_not_lt hsmall) hlead r
    rw [UInt8.ofNat_toNat, h] at hstep
    have hb : b = UInt8.ofNat b.toNat := UInt8.ofNat_toNat.symm
    rcases lead?_eq_some hlead with ⟨v, hv, hlow, hhigh, rfl⟩ | ⟨v, low, high, hv, hhigh, rfl, hl, hh, hrange⟩ |
      ⟨v, low, high, hv, rfl, hl, hh, hrange⟩
    · obtain ⟨m, hm, r, rfl, hrest⟩ := exists_last_of_decodeFrom (by omega) (by omega) hstep.symm
      refine ⟨_, r, _, ?_, hrest⟩
      rw [utf8EncodeChar_two hlow hhigh hm, hb, hv]
      rfl
    · obtain ⟨m, hm, r, rfl, hm₁, hm₂, hmore⟩ := exists_more_of_decodeFrom hl hh hstep.symm
      obtain ⟨m', hm', r, rfl, hrest⟩ := exists_last_of_decodeFrom (by omega) (by omega) hmore
      obtain ⟨hlow, hsurrogate⟩ := hrange m hm₁ hm₂
      refine ⟨_, r, _, ?_, hrest⟩
      rw [utf8EncodeChar_three hhigh hm hm' hlow hsurrogate, hb, hv]
      rfl
    · obtain ⟨m, hm, r, rfl, hm₁, hm₂, hmore⟩ := exists_more_of_decodeFrom hl hh hstep.symm
      obtain ⟨m', hm', r, rfl, -, -, hmore'⟩ := exists_more_of_decodeFrom (by omega) (by omega) hmore
      obtain ⟨m'', hm'', r, rfl, hrest⟩ := exists_last_of_decodeFrom (by omega) (by omega) hmore'
      obtain ⟨hlow, hhigh⟩ := hrange m hm₁ hm₂
      refine ⟨_, r, _, ?_, hrest⟩
      rw [utf8EncodeChar_four hm hm' hm'' hlow hhigh, hb, hv]
      rfl

/-- by induction on the number of bytes, since a character takes several of them -/
theorem exists_encoded_of_length_le {n : ℕ} (hn : bytes.length ≤ n)
    (h : decodeFrom start start .none acc bytes = .ok cs) :
    ∃ ds, cs = acc.reverse ++ ds ∧ bytes = ds.flatMap String.utf8EncodeChar := by
  induction n generalizing bytes acc start with
  | zero =>
    obtain rfl := List.length_eq_zero_iff.1 (Nat.le_zero.1 hn)
    refine ⟨[], ?_, rfl⟩
    simpa [decodeFrom, Pending.none, eq_comm] using h
  | succ n ih =>
    cases bytes with
    | nil =>
      refine ⟨[], ?_, rfl⟩
      simpa [decodeFrom, Pending.none, eq_comm] using h
    | cons b r =>
      obtain ⟨c, r', next, hbytes, hrest⟩ := exists_encoded_of_decodeFrom h
      have hlength := congrArg List.length hbytes
      have hsize := c.utf8Size_pos
      rw [List.length_append, String.length_utf8EncodeChar, List.length_cons] at hlength
      rw [List.length_cons] at hn
      obtain ⟨ds, hcs, hr'⟩ := ih (by omega) hrest
      refine ⟨c :: ds, ?_, ?_⟩
      · rw [hcs, List.reverse_cons, List.append_assoc, List.singleton_append]
      · rw [hbytes, hr', List.flatMap_cons]

/-- **Only what is encoded is decoded** -/
theorem encode_of_decode (h : decode bytes = .ok cs) : bytes = encode (String.ofList cs) := by
  obtain ⟨ds, hcs, hbytes⟩ := exists_encoded_of_length_le le_rfl h
  rw [encode_eq, String.toList_ofList, hbytes, hcs, List.reverse_nil, List.nil_append]

/-- what follows the first character of a text is a text -/
theorem exists_encode_of_char {s : String} {c : Char} (h : encode s = String.utf8EncodeChar c ++ bytes) :
    ∃ t, bytes = encode t := by
  have hdecode := decode_encode s
  obtain ⟨next, hnext⟩ := decodeFrom_encoded 0 0 [] c bytes
  rw [h, decode, hnext] at hdecode
  obtain ⟨ds, -, hbytes⟩ := exists_encoded_of_length_le le_rfl hdecode
  refine ⟨String.ofList ds, ?_⟩
  rw [encode_eq, String.toList_ofList, hbytes]

end LedgerTotals.Utf8
