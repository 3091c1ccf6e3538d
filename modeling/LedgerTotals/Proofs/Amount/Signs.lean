/-
Signs in front of the first digit of an amount.

An amount may start with a minus sign, and with no other sign in front of its first digit. A sign right behind the
symbol is looked for before the commas are removed, and the decimal behind it reads a sign of its own. So a sign that
nothing but commas separate from the symbol is read as the sign of the decimal.

- `Decimal.signs_of_ofChars`: in front of its first digit a decimal has no sign but its first character;
- `filter_beforeDigits`: commas do not change what stands in front of the first digit otherwise;
- `Amount.ofText_signs`: a second sign is refused, and an accepted text has one exactly if its number starts with a sign
  once the commas are gone;
- `Amount.signed_behind_comma`: such a text, whose two minus signs cancel.
-/
import LedgerTotals.Proofs.Text.Digits
import LedgerTotals.Amount

namespace LedgerTotals

open Digits

/-! ## In front of the first digit -/

def isSign (c : Char) : Bool := c = '-' || c = '+'

/-- what stands in front of the first digit -/
def beforeDigits (cs : List Char) : List Char := cs.takeWhile (! isDigit ·)

/-- no sign stands in front of the first digit, once a minus sign at the very front is set aside -/
def OnlyLeadingMinus (cs : List Char) : Prop :=
  ∃ rest, (beforeDigits cs = rest ∨ beforeDigits cs = '-' :: rest) ∧ ∀ c ∈ rest, isSign c = false

theorem isSign_of_isDigit {c : Char} (h : isDigit c = true) : isSign c = false := by
  have hminus : c ≠ '-' := ne_of_isDigit h rfl
  have hplus : c ≠ '+' := ne_of_isDigit h rfl
  simp [isSign, hminus, hplus]

theorem isDigit_of_isSign {c : Char} (h : isSign c = true) : isDigit c = false := by
  by_contra hdigit
  rw [isSign_of_isDigit (Bool.not_eq_false _ ▸ hdigit)] at h
  cases h

theorem beforeDigits_of_digit {c : Char} (h : isDigit c = true) (r : List Char) : beforeDigits (c :: r) = [] :=
  List.takeWhile_cons_of_neg (by simp [h])

theorem beforeDigits_append {cs : List Char} (h : ∀ c ∈ cs, isDigit c = false) (r : List Char) :
    beforeDigits (cs ++ r) = cs ++ beforeDigits r :=
  List.takeWhile_append_of_pos fun c hc => by simp [h c hc]

/-- a comma is no digit, so it does not matter whether commas are removed first -/
theorem filter_beforeDigits (cs : List Char) :
    (beforeDigits cs).filter (· ≠ ',') = beforeDigits (cs.filter (· ≠ ',')) := by
  induction cs with
  | nil => rfl
  | cons c cs ih =>
    unfold beforeDigits at ih ⊢
    by_cases hcomma : c = ','
    · subst hcomma
      simpa [List.takeWhile_cons, show isDigit ',' = false from rfl] using ih
    · by_cases hdigit : isDigit c = true
      · simp [hcomma, hdigit]
      · simpa [hcomma, hdigit] using ih

/-! ## Decimals -/

namespace Decimal

/-- the text starts with an optional point and a digit -/
def StartsWithNumber (cs : List Char) : Prop :=
  ∃ point c r, cs = point ++ c :: r ∧ (point = [] ∨ point = ['.']) ∧ isDigit c = true

/-- the text starts with an optional sign, an optional point and a digit -/
def StartsWithSigned (cs : List Char) : Prop :=
  StartsWithNumber cs ∨ ∃ sign r, cs = sign :: r ∧ isSign sign = true ∧ StartsWithNumber r

theorem StartsWithNumber.append {cs : List Char} (h : StartsWithNumber cs) (r : List Char) :
    StartsWithNumber (cs ++ r) := by
  rcases h with ⟨point, c, s, rfl, hpoint, hc⟩
  exact ⟨point, c, s ++ r, by simp, hpoint, hc⟩

theorem StartsWithSigned.append {cs : List Char} (h : StartsWithSigned cs) (r : List Char) :
    StartsWithSigned (cs ++ r) := by
  rcases h with h | ⟨sign, s, rfl, hsign, h⟩
  · exact .inl (h.append r)
  · exact .inr ⟨sign, s ++ r, rfl, hsign, h.append r⟩

theorem digit_of_readFraction {negative : Bool} {m k : ℕ} {hm : m < capacity} {hk : k ≤ maxScale} {cs : List Char}
    {d : Decimal} (h : readFraction negative m k hm hk false cs = .ok d) : ∃ c r, cs = c :: r ∧ isDigit c = true := by
  cases cs with
  | nil => simp [readFraction] at h
  | cons c r =>
    by_cases hc : isDigit c = true
    · exact ⟨c, r, rfl, hc⟩
    · simp [readFraction, hc] at h

/-- before a digit is seen nothing but the point is let through -/
theorem startsWithNumber_of_readWhole {negative : Bool} {m : ℕ} {hm : m < capacity} {cs : List Char} {d : Decimal}
    (h : readWhole negative m hm false cs = .ok d) : StartsWithNumber cs := by
  cases cs with
  | nil => simp [readWhole] at h
  | cons c r =>
    by_cases hc : isDigit c = true
    · exact ⟨[], c, r, rfl, .inl rfl, hc⟩
    · by_cases hpoint : c = '.'
      · subst hpoint
        simp only [readWhole, hc, Bool.false_eq_true, if_false, if_true] at h
        rcases digit_of_readFraction h with ⟨c, s, rfl, hc⟩
        exact ⟨['.'], c, s, rfl, .inr rfl, hc⟩
      · simp [readWhole, hc, hpoint] at h

theorem startsWithSigned_of_ofPlain {cs : List Char} {d : Decimal} (h : ofPlain cs = .ok d) : StartsWithSigned cs := by
  unfold ofPlain at h
  split at h
  · cases h
  · exact .inr ⟨'-', _, rfl, rfl, startsWithNumber_of_readWhole h⟩
  · exact .inr ⟨'+', _, rfl, rfl, startsWithNumber_of_readWhole h⟩
  · exact .inl (startsWithNumber_of_readWhole h)

/-- an exponent stands behind the digits of its base, so the front is that of the base -/
theorem startsWithSigned_of_ofChars {cs : List Char} {d : Decimal} (h : ofChars cs = .ok d) : StartsWithSigned cs := by
  unfold ofChars at h
  split at h
  · rename_i hplain
    exact startsWithSigned_of_ofPlain hplain
  · split at h
    · cases h
    · cases hbase : ofPlain (cs.takeWhile (! isExponentMark ·)) with
      | error e => rw [hbase] at h; cases h
      | ok base =>
        have hfront := (startsWithSigned_of_ofPlain hbase).append (cs.dropWhile (! isExponentMark ·))
        rwa [List.takeWhile_append_dropWhile] at hfront

theorem StartsWithNumber.filter_isSign {cs : List Char} (h : StartsWithNumber cs) :
    (beforeDigits cs).filter isSign = [] ∧ (cs.take 1).filter isSign = [] := by
  rcases h with ⟨point, c, r, rfl, hpoint, hc⟩
  have hsign := isSign_of_isDigit hc
  rcases hpoint with rfl | rfl
  · rw [List.nil_append, beforeDigits_of_digit hc]
    simp [hsign]
  · rw [beforeDigits_append (by simp [show isDigit '.' = false from rfl]), beforeDigits_of_digit hc]
    exact ⟨rfl, rfl⟩

/-- **The signs of a decimal.** In front of its first digit no sign stands but at the very front -/
theorem signs_of_ofChars {cs : List Char} {d : Decimal} (h : ofChars cs = .ok d) :
    (beforeDigits cs).filter isSign = (cs.take 1).filter isSign := by
  rcases startsWithSigned_of_ofChars h with h | ⟨sign, r, rfl, hsign, h⟩
  · rw [h.filter_isSign.1, h.filter_isSign.2]
  · have hfront : beforeDigits (sign :: r) = sign :: beforeDigits r :=
      beforeDigits_append (by simp [isDigit_of_isSign hsign] : ∀ c ∈ [sign], isDigit c = false) r
    rw [hfront]
    simp [hsign, h.filter_isSign.1]

end Decimal

/-! ## Amounts -/

namespace Amount

/-- what stands behind the optional minus sign and the optional symbol -/
def number (cs : List Char) : List Char := (splitSymbol (splitSign cs).2).2

theorem startsWithSign_eq_false_iff (cs : List Char) :
    startsWithSign cs = false ↔ (cs.take 1).filter isSign = [] := by
  cases cs with
  | nil => exact ⟨fun _ => rfl, fun _ => rfl⟩
  | cons c r => simp [startsWithSign, isSign]

theorem append_splitSign (cs : List Char) :
    ∃ minus, cs = minus ++ (splitSign cs).2 ∧ (minus = [] ∨ minus = ['-']) := by
  unfold splitSign
  split
  · exact ⟨['-'], rfl, .inr rfl⟩
  · exact ⟨[], rfl, .inl rfl⟩

theorem append_splitSymbol (cs : List Char) :
    ∃ symbol, cs = symbol ++ (splitSymbol cs).2 ∧ (symbol = [] ∨ symbol = ['$'] ∨ symbol = ['€']) := by
  cases cs with
  | nil => exact ⟨[], rfl, .inl rfl⟩
  | cons c r =>
    unfold splitSymbol Currency.ofSymbol?
    by_cases hdollar : c = '$'
    · subst hdollar
      exact ⟨['$'], rfl, .inr (.inl rfl)⟩
    · by_cases heuro : c = '€'
      · subst heuro
        exact ⟨['€'], rfl, .inr (.inr rfl)⟩
      · simp only [hdollar, heuro, if_false]
        exact ⟨[], rfl, .inl rfl⟩

/-- nothing but a minus sign and a symbol stands in front of the number -/
theorem front_number (cs : List Char) : ∃ minus symbol,
    beforeDigits cs = minus ++ (symbol ++ beforeDigits (number cs)) ∧
    (minus = [] ∨ minus = ['-']) ∧ (symbol = [] ∨ symbol = ['$'] ∨ symbol = ['€']) := by
  rcases append_splitSign cs with ⟨minus, hcs, hminus⟩
  rcases append_splitSymbol (splitSign cs).2 with ⟨symbol, hunsigned, hsymbol⟩
  have hminus' : ∀ c ∈ minus, isDigit c = false := by
    rcases hminus with rfl | rfl <;> simp [show isDigit '-' = false from rfl]
  have hsymbol' : ∀ c ∈ symbol, isDigit c = false := by
    rcases hsymbol with rfl | rfl | rfl <;>
      simp [show isDigit '$' = false from rfl, show isDigit '€' = false from rfl]
  refine ⟨minus, symbol, ?_, hminus, hsymbol⟩
  calc beforeDigits cs = beforeDigits (minus ++ (symbol ++ number cs)) := congrArg beforeDigits (hcs.trans (by
        rw [number, ← hunsigned]))
    _ = minus ++ (symbol ++ beforeDigits (number cs)) := by
        rw [beforeDigits_append hminus', beforeDigits_append hsymbol']

/-- a text whose number does not start with a sign has no second sign exactly if its number has none -/
theorem onlyLeadingMinus_iff {cs : List Char} (h : startsWithSign (number cs) = false) :
    OnlyLeadingMinus cs ↔ (beforeDigits (number cs)).filter isSign = [] := by
  rcases front_number cs with ⟨minus, symbol, hfront, hminus, hsymbol⟩
  have hnone : (beforeDigits (number cs)).filter isSign = [] ↔ ∀ c ∈ beforeDigits (number cs), isSign c = false := by
    simp [List.filter_eq_nil_iff]
  rw [hnone]
  constructor
  · rintro ⟨rest, hrest | hrest, hsigns⟩ c hc
    · apply hsigns c
      rw [← hrest, hfront]
      simp [hc]
    · rw [hfront] at hrest
      rcases hminus with rfl | rfl
      · rcases hsymbol with rfl | rfl | rfl
        · -- the number would start with the minus sign itself
          exfalso
          have hprefix : beforeDigits (number cs) <+: number cs := List.takeWhile_prefix _
          rcases hprefix with ⟨r, hr⟩
          rw [← hr, show beforeDigits (number cs) = '-' :: rest from hrest] at h
          cases h
        · exact absurd (List.cons.inj hrest).1 (by decide)
        · exact absurd (List.cons.inj hrest).1 (by decide)
      · apply hsigns c
        rw [← (List.cons.inj hrest).2]
        simp [hc]
  · intro hsigns
    refine ⟨symbol ++ beforeDigits (number cs), ?_, ?_⟩
    · rw [hfront]
      rcases hminus with rfl | rfl
      · exact .inl rfl
      · exact .inr rfl
    · intro c hc
      rcases List.mem_append.1 hc with hc | hc
      · rcases hsymbol with rfl | rfl | rfl <;> simp at hc <;> subst hc <;> rfl
      · exact hsigns c hc

/-- reading takes the number for a decimal once its commas are gone, unless it starts with a sign before that -/
theorem ofTrimmed_eq {cs : List Char} (h : cs ≠ []) :
    ofTrimmed cs =
      if startsWithSign (number cs) then .error (.misplacedSign (String.ofList cs))
      else match Decimal.ofChars ((number cs).filter (· ≠ ',')) with
        | .ok d =>
          .ok ⟨if (splitSign cs).1 then d.neg else d, ⟨(splitSymbol (splitSign cs).2).1, (number cs).contains ','⟩⟩
        | .error e => .error (.decimal e) := by
  unfold ofTrimmed
  rw [if_neg h]
  rfl

theorem number_of_ofTrimmed {cs : List Char} {a : Amount} (h : ofTrimmed cs = .ok a) :
    startsWithSign (number cs) = false ∧
      (beforeDigits (number cs)).filter isSign = (((number cs).filter (· ≠ ',')).take 1).filter isSign := by
  by_cases hnil : cs = []
  · subst hnil
    exact ⟨rfl, rfl⟩
  · rw [ofTrimmed_eq hnil] at h
    by_cases hsign : startsWithSign (number cs) = true
    · rw [if_pos hsign] at h
      cases h
    · refine ⟨Bool.eq_false_iff.2 hsign, ?_⟩
      rw [if_neg hsign] at h
      cases hdecimal : Decimal.ofChars ((number cs).filter (· ≠ ',')) with
      | error e => rw [hdecimal] at h; cases h
      | ok d =>
        calc (beforeDigits (number cs)).filter isSign
            = ((beforeDigits (number cs)).filter (· ≠ ',')).filter isSign := by
              rw [List.filter_filter]
              congr 1
              funext c
              by_cases hc : c = ','
              · subst hc; rfl
              · simp [hc]
          _ = (beforeDigits ((number cs).filter (· ≠ ','))).filter isSign := by rw [filter_beforeDigits]
          _ = (((number cs).filter (· ≠ ',')).take 1).filter isSign := Decimal.signs_of_ofChars hdecimal

/-- **Signs of an amount.** A sign at the front of the number is refused. In an accepted text no sign but a leading
minus stands in front of the first digit, unless the number starts with a sign once its commas are gone, and then with
one -/
theorem ofText_signs (s : String) :
    (startsWithSign (number (Blank.trim s.toList)) = true →
        ofText s = .error (.misplacedSign (String.ofList (Blank.trim s.toList)))) ∧
      ∀ a, ofText s = .ok a →
        (OnlyLeadingMinus (Blank.trim s.toList) ↔
            startsWithSign ((number (Blank.trim s.toList)).filter (· ≠ ',')) = false) ∧
          ((beforeDigits (number (Blank.trim s.toList))).filter isSign).length ≤ 1 := by
  refine ⟨fun hsign => ?_, fun a h => ?_⟩
  · have hne : Blank.trim s.toList ≠ [] := by
      intro hnil
      rw [hnil] at hsign
      cases hsign
    show ofTrimmed (Blank.trim s.toList) = _
    rw [ofTrimmed_eq hne, if_pos hsign]
  · rcases number_of_ofTrimmed (show ofTrimmed (Blank.trim s.toList) = .ok a from h) with ⟨hsign, hsigns⟩
    constructor
    · rw [onlyLeadingMinus_iff hsign, hsigns, startsWithSign_eq_false_iff]
    · rw [hsigns]
      calc ((((number (Blank.trim s.toList)).filter (· ≠ ',')).take 1).filter isSign).length
          ≤ (((number (Blank.trim s.toList)).filter (· ≠ ',')).take 1).length := List.length_filter_le ..
        _ ≤ 1 := List.length_take_le ..

/-- a sign behind the symbol is refused; with a comma in front of it the text is accepted and breaks the rule, while a
sign in the exponent stands behind digits and breaks nothing -/
theorem ofText_signs_behind_symbol :
    ofText " -$-5 " = .error (.misplacedSign "-$-5") ∧
      (∃ a, ofText "-$,-5" = .ok a) ∧ ¬ OnlyLeadingMinus "-$,-5".toList ∧
      (∃ a, ofText "-€1,234.5e-1" = .ok a) ∧ OnlyLeadingMinus "-€1,234.5e-1".toList := by
  have hcomma : ∃ a, ofText "-$,-5" = .ok a := ⟨_, rfl⟩
  have hexponent : ∃ a, ofText "-€1,234.5e-1" = .ok a := ⟨_, rfl⟩
  refine ⟨(ofText_signs " -$-5 ").1 rfl, hcomma, ?_, hexponent, ?_⟩
  · rcases hcomma with ⟨a, ha⟩
    intro h
    exact absurd (((ofText_signs "-$,-5").2 a ha).1.1 h) (by decide)
  · rcases hexponent with ⟨a, ha⟩
    exact ((ofText_signs "-€1,234.5e-1").2 a ha).1.2 rfl

/-- **Two minus signs cancel** when a comma stands between them: the second is in front of the first digit too -/
theorem signed_behind_comma :
    (ofText "-,-5").map (fun a => (a.value.negative, a.value.mantissa, a.value.scale)) = .ok (false, 5, 0) ∧
      ¬ OnlyLeadingMinus (Blank.trim "-,-5".toList) := by
  refine ⟨rfl, ?_⟩
  have hfront : beforeDigits (Blank.trim "-,-5".toList) = ['-', ',', '-'] := rfl
  rintro ⟨rest, hrest, hsigns⟩
  have hmem : '-' ∈ rest := by
    rw [hfront] at hrest
    rcases hrest with rfl | h
    · simp
    · rw [← (List.cons.inj h).2]
      simp
  exact absurd (hsigns '-' hmem) (by decide)

end Amount

end LedgerTotals
