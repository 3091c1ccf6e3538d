/-
Sums of decimals in order of size.

A sum that is too long for the mantissa is rounded at a scale that depends on its size, so two sums may be rounded at
different scales. `RoundedFrom` says which decimal comes of a number: the one with as many places as there is room for.
It speaks of the number alone, not of the scales of the operands.

- `RoundedFrom.le`: of two numbers, the larger one is not rounded below the smaller one. At a change of scale this hangs
  on the last digit of the bound on mantissas (`capacity_le_ten_mul_digitsAt`);
- `add?_mono`: what is added to the larger of two totals bounds what is added to the smaller, and goes through at the
  smaller total if it does at the larger;
- `sub?_isSome`: the difference of two decimals that are not negative always has a decimal.
-/
import LedgerTotals.Proofs.Decimal.Sum

namespace LedgerTotals

namespace Decimal

/-! ## The decimal that comes of a number -/

/-- the digits of `q` with `k` places after the point -/
def digitsAt (q : ℚ) (k : ℕ) : ℤ := nearestEven (q * 10 ^ k)

theorem digitsAt_mono {p q : ℚ} (h : p ≤ q) (k : ℕ) : digitsAt p k ≤ digitsAt q k :=
  nearestEven_mono (mul_le_mul_of_nonneg_right h (by positivity))

theorem digitsAt_le_of_le {q : ℚ} (hq : 0 ≤ q) {j k : ℕ} (h : j ≤ k) : digitsAt q j ≤ digitsAt q k :=
  nearestEven_mono (mul_le_mul_of_nonneg_left (pow_le_pow_right₀ (by norm_num) h) hq)

/-- with enough places nothing is rounded -/
theorem digitsAt_of_hasPlaces {q : ℚ} {s k : ℕ} (h : HasPlaces s q) (hk : s ≤ k) : (digitsAt q k : ℚ) = q * 10 ^ k := by
  obtain ⟨z, hz⟩ := h
  obtain ⟨j, rfl⟩ := Nat.exists_eq_add_of_le hk
  have hwhole : q * 10 ^ (s + j) = ((z * 10 ^ j : ℤ) : ℚ) := by
    rw [pow_add, ← mul_assoc, hz]
    push_cast
    rfl
  rw [digitsAt, hwhole, nearestEven_intCast]

/-- the decimal is the number, which has at most `s` places, rounded to as many of them as its digits find room for in
the mantissa -/
structure RoundedFrom (s : ℕ) (q : ℚ) (d : Decimal) : Prop where
  places : HasPlaces s q
  scale_le : d.scale ≤ s
  value : d.toRat * 10 ^ d.scale = digitsAt q d.scale
  room : digitsAt q d.scale < capacity
  widest : ∀ k, d.scale < k → k ≤ s → (capacity : ℤ) ≤ digitsAt q k

theorem digitsAt_of_units {q : ℚ} {n exact : ℕ} (hq : q * 10 ^ exact = n) {k : ℕ} (hk : k ≤ exact) :
    (roundHalfEven n (pow10 (exact - k)) : ℤ) = digitsAt q k := by
  obtain ⟨j, rfl⟩ := Nat.exists_eq_add_of_le hk
  rw [roundHalfEven_eq_nearestEven n (pow10_pos _), digitsAt, cast_pow10, Nat.add_sub_cancel_left, ← hq, pow_add,
    ← mul_assoc, mul_div_cancel_right₀ _ (by positivity)]

/-- the search stops at the first scale, from `places` down, that has room -/
theorem fitFrom?_eq_some {q : ℚ} {n exact : ℕ} (hq : q * 10 ^ exact = n) {places : ℕ} (hp : places ≤ maxScale)
    (hpe : places ≤ exact) {d : Decimal} (h : fitFrom? false n exact places hp = some d) :
    d.scale ≤ places ∧ d.toRat * 10 ^ d.scale = digitsAt q d.scale ∧ digitsAt q d.scale < capacity ∧
      ∀ k, d.scale < k → k ≤ places → (capacity : ℤ) ≤ digitsAt q k := by
  have hvalue : ∀ {m k : ℕ} (hm : m < capacity) (hk : k ≤ maxScale), (m : ℤ) = digitsAt q k →
      toRat ⟨false, m, k, hm, hk⟩ * 10 ^ k = digitsAt q k := by
    intro m k hm hk hmk
    rw [← hmk]
    exact toRat_mul_pow_scale ⟨false, m, k, hm, hk⟩
  induction places with
  | zero =>
    have hdigits := digitsAt_of_units hq (Nat.zero_le exact)
    rw [fitFrom?] at h
    split_ifs at h with hm
    cases h
    refine ⟨le_rfl, hvalue _ _ hdigits, ?_, fun k hk hk0 => by omega⟩
    rw [← hdigits]
    exact_mod_cast hm
  | succ places ih =>
    have hdigits := digitsAt_of_units hq hpe
    rw [fitFrom?] at h
    split_ifs at h with hm
    · cases h
      refine ⟨le_rfl, hvalue _ _ hdigits, ?_, fun k hk hkp => by simp only at hk; omega⟩
      rw [← hdigits]
      exact_mod_cast hm
    · obtain ⟨hle, hval, hroom, hwidest⟩ := ih (Nat.le_of_succ_le hp) (Nat.le_of_succ_le hpe) h
      refine ⟨Nat.le_succ_of_le hle, hval, hroom, fun k hk hkp => ?_⟩
      rcases Nat.le_succ_iff.1 hkp with hkp | rfl
      · exact hwidest k hk hkp
      · rw [← hdigits]
        exact_mod_cast Nat.not_lt.1 hm

/-- it finds one if the whole number has room -/
theorem fitFrom?_isSome {q : ℚ} {n exact : ℕ} (hq : q * 10 ^ exact = n) {places : ℕ} (hp : places ≤ maxScale)
    (hroom : digitsAt q 0 < capacity) : (fitFrom? false n exact places hp).isSome := by
  induction places with
  | zero =>
    have hdigits := digitsAt_of_units hq (Nat.zero_le exact)
    have hm : roundHalfEven n (pow10 exact) < capacity := by
      rw [← hdigits] at hroom
      exact_mod_cast hroom
    rw [fitFrom?, dif_pos hm]
    rfl
  | succ places ih =>
    rw [fitFrom?]
    split_ifs
    · rfl
    · exact ih _

theorem fit?_roundedFrom {z : ℤ} (hz : 0 ≤ z) {s : ℕ} (hs : s ≤ maxScale) {d : Decimal} (h : fit? z s hs = some d) :
    RoundedFrom s (z / 10 ^ s) d := by
  have hq : (z : ℚ) / 10 ^ s * 10 ^ s = z := div_mul_cancel₀ _ (by positivity)
  have hunits : (z : ℚ) / 10 ^ s * 10 ^ s = z.natAbs := by
    rw [hq, Nat.cast_natAbs, abs_of_nonneg hz]
  rw [fit?, decide_eq_false (not_lt.2 hz)] at h
  obtain ⟨hle, hval, hroom, hwidest⟩ := fitFrom?_eq_some hunits hs le_rfl h
  exact ⟨⟨z, hq⟩, hle, hval, hroom, hwidest⟩

theorem fit?_isSome_iff {z : ℤ} (hz : 0 ≤ z) {s : ℕ} (hs : s ≤ maxScale) :
    (fit? z s hs).isSome ↔ digitsAt (z / 10 ^ s) 0 < capacity := by
  have hunits : (z : ℚ) / 10 ^ s * 10 ^ s = z.natAbs := by
    rw [div_mul_cancel₀ _ (by positivity), Nat.cast_natAbs, abs_of_nonneg hz]
  constructor
  · intro h
    obtain ⟨d, hd⟩ := Option.isSome_iff_exists.1 h
    have hd' := fit?_roundedFrom hz hs hd
    exact (digitsAt_le_of_le (by positivity) (Nat.zero_le _)).trans_lt hd'.room
  · intro h
    rw [fit?, decide_eq_false (not_lt.2 hz)]
    exact fitFrom?_isSome hunits hs h

/-- every decimal is itself, rounded to its own scale -/
theorem roundedFrom_self (d : Decimal) : RoundedFrom d.scale d.toRat d := by
  have hplaces : HasPlaces d.scale d.toRat := hasPlaces_toRat le_rfl
  have hdigits := digitsAt_of_hasPlaces hplaces le_rfl
  refine ⟨hplaces, le_rfl, hdigits.symm, ?_, fun k hk hkd => absurd hk (not_lt.2 hkd)⟩
  have hcoeff : digitsAt d.toRat d.scale = d.coefficient := by
    rw [toRat_mul_pow_scale] at hdigits
    exact_mod_cast hdigits
  have hlt := d.mantissa_lt
  rw [← natAbs_coefficient] at hlt
  omega

theorem RoundedFrom.toRat_nonneg {s : ℕ} {q : ℚ} {d : Decimal} (h : RoundedFrom s q d) (hq : 0 ≤ q) : 0 ≤ d.toRat := by
  have hdigits : 0 ≤ digitsAt q d.scale := by
    have hmono : nearestEven (0 : ℤ) ≤ digitsAt q d.scale := nearestEven_mono (by push_cast; positivity)
    rwa [nearestEven_intCast] at hmono
  refine le_of_mul_le_mul_right ?_ (show (0 : ℚ) < 10 ^ d.scale by positivity)
  rw [zero_mul, h.value]
  exact_mod_cast hdigits

/-! ## Rounding keeps the order -/

/-- a number whose digits at one place more have no room has a tenth of the room's worth of digits: the bound ends in
a 6, so rounding at the place before cannot fall below it -/
theorem capacity_le_ten_mul_digitsAt {q : ℚ} {k : ℕ} (h : (capacity : ℤ) ≤ digitsAt q (k + 1)) :
    (capacity : ℤ) ≤ 10 * digitsAt q k := by
  have hfine := (abs_le.1 (abs_nearestEven_sub_le (q * 10 ^ (k + 1)))).2
  have hcoarse := (abs_le.1 (abs_nearestEven_sub_le (q * 10 ^ k))).1
  have hnext : q * 10 ^ (k + 1) = 10 * (q * 10 ^ k) := by ring
  have hrat : ((2 * capacity : ℤ) : ℚ) ≤ ((20 * digitsAt q k + 11 : ℤ) : ℚ) := by
    have hcast : ((capacity : ℤ) : ℚ) ≤ (digitsAt q (k + 1) : ℚ) := by exact_mod_cast h
    rw [hnext] at hfine
    rw [digitsAt, hnext] at hcast
    rw [digitsAt]
    push_cast at hcast ⊢
    linarith
  have hint : 2 * (capacity : ℤ) ≤ 20 * digitsAt q k + 11 := by exact_mod_cast hrat
  have hcap : (capacity : ℤ) = 79228162514264337593543950336 := by decide
  omega

/-- **Rounding keeps the order**, whichever scales it comes to -/
theorem RoundedFrom.le {s t : ℕ} {p q : ℚ} {d e : Decimal} (hd : RoundedFrom s p d) (he : RoundedFrom t q e)
    (hp : 0 ≤ p) (hpq : p ≤ q) : d.toRat ≤ e.toRat := by
  have hq : 0 ≤ q := hp.trans hpq
  rcases Nat.lt_trichotomy d.scale e.scale with hlt | heq | hgt
  · -- the smaller number keeps fewer places only if it has no more
    have hscale : d.scale = s := by
      refine hd.scale_le.eq_or_lt.resolve_right fun hs => ?_
      have hfull := hd.widest (d.scale + 1) (Nat.lt_succ_self _) hs
      have hstill := (digitsAt_mono hpq (d.scale + 1)).trans (digitsAt_le_of_le hq hlt)
      exact absurd he.room (not_lt.2 (hfull.trans hstill))
    have hexact := digitsAt_of_hasPlaces hd.places (hscale ▸ hlt.le)
    have hdigits : (digitsAt p e.scale : ℚ) ≤ digitsAt q e.scale := by exact_mod_cast digitsAt_mono hpq e.scale
    have hself : d.toRat = p := by
      have hval := hd.value
      rw [hscale, digitsAt_of_hasPlaces hd.places le_rfl] at hval
      exact mul_right_cancel₀ (by positivity) hval
    rw [← he.value, hexact] at hdigits
    rw [hself]
    exact le_of_mul_le_mul_right hdigits (by positivity)
  · have hdigits : (digitsAt p d.scale : ℚ) ≤ digitsAt q d.scale := by exact_mod_cast digitsAt_mono hpq d.scale
    rw [← hd.value, heq, ← he.value] at hdigits
    exact le_of_mul_le_mul_right hdigits (by positivity)
  · rcases he.scale_le.eq_or_lt with hscale | hs
    · -- the larger number is exact
      have hself : e.toRat = q := by
        have hval := he.value
        rw [hscale, digitsAt_of_hasPlaces he.places le_rfl] at hval
        exact mul_right_cancel₀ (by positivity) hval
      have hdigits : (digitsAt p d.scale : ℚ) ≤ digitsAt q d.scale := by exact_mod_cast digitsAt_mono hpq d.scale
      rw [← hd.value, digitsAt_of_hasPlaces he.places (hscale ▸ hgt.le)] at hdigits
      rw [hself]
      exact le_of_mul_le_mul_right hdigits (by positivity)
    · -- the larger number had no room for one place more, and the smaller one has room for it
      have hfull := capacity_le_ten_mul_digitsAt (he.widest (e.scale + 1) (Nat.lt_succ_self _) hs)
      have hdigits : (digitsAt p d.scale : ℚ) ≤ 10 * digitsAt q e.scale := by exact_mod_cast (hd.room.trans_le hfull).le
      have hpos := hd.toRat_nonneg hp
      refine le_of_mul_le_mul_right ?_ (show (0 : ℚ) < 10 ^ (e.scale + 1) by positivity)
      calc d.toRat * 10 ^ (e.scale + 1) ≤ d.toRat * 10 ^ d.scale :=
            mul_le_mul_of_nonneg_left (pow_le_pow_right₀ (by norm_num) hgt) hpos
        _ = digitsAt p d.scale := hd.value
        _ ≤ 10 * digitsAt q e.scale := hdigits
        _ = e.toRat * 10 ^ (e.scale + 1) := by rw [← he.value]; ring

/-! ## Sums of decimals that are not negative -/

theorem atScale_add_nonneg {a b : Decimal} (ha : 0 ≤ a.toRat) (hb : 0 ≤ b.toRat) :
    0 ≤ a.atScale (commonScale a b) + b.atScale (commonScale a b) := by
  have hsum := add_nonneg ha hb
  rw [toRat_add, le_div_iff₀ (by positivity), zero_mul] at hsum
  exact_mod_cast hsum

/-- the sum, rounded where it has to be -/
theorem add?_roundedFrom {a b c : Decimal} (ha : 0 ≤ a.toRat) (hb : 0 ≤ b.toRat) (h : a.add? b = some c) :
    ∃ s, RoundedFrom s (a.toRat + b.toRat) c := by
  rw [add?] at h
  split_ifs at h with haz hbz
  · cases h
    exact ⟨_, by rw [isZero_iff.1 haz, zero_add]; exact roundedFrom_self b⟩
  · cases h
    exact ⟨_, by rw [isZero_iff.1 hbz, add_zero]; exact roundedFrom_self a⟩
  · rw [toRat_add]
    exact ⟨_, fit?_roundedFrom (atScale_add_nonneg ha hb) _ h⟩

theorem add?_isSome_iff {a b : Decimal} (ha : 0 ≤ a.toRat) (hb : 0 ≤ b.toRat) :
    (a.add? b).isSome ↔ digitsAt (a.toRat + b.toRat) 0 < capacity := by
  rw [add?]
  split_ifs with haz hbz
  · rw [isZero_iff.1 haz, zero_add]
    exact iff_of_true rfl ((digitsAt_le_of_le hb (Nat.zero_le _)).trans_lt (roundedFrom_self b).room)
  · rw [isZero_iff.1 hbz, add_zero]
    exact iff_of_true rfl ((digitsAt_le_of_le ha (Nat.zero_le _)).trans_lt (roundedFrom_self a).room)
  · rw [toRat_add]
    exact fit?_isSome_iff (atScale_add_nonneg ha hb) _

/-- **Sums keep the order of what is added**, rounded or not: if the larger sum has a decimal, so has the smaller -/
theorem add?_mono {a b a' b' c' : Decimal} (ha : 0 ≤ a.toRat) (hb : 0 ≤ b.toRat) (haa : a.toRat ≤ a'.toRat)
    (hbb : b.toRat ≤ b'.toRat) (h : a'.add? b' = some c') : ∃ c, a.add? b = some c ∧ c.toRat ≤ c'.toRat := by
  have hsum := add_le_add haa hbb
  have ha' := ha.trans haa
  have hb' := hb.trans hbb
  have hroom' := (add?_isSome_iff ha' hb').1 (by rw [h]; rfl)
  obtain ⟨c, hc⟩ := Option.isSome_iff_exists.1
    ((add?_isSome_iff ha hb).2 ((digitsAt_mono hsum 0).trans_lt hroom'))
  obtain ⟨s, hs⟩ := add?_roundedFrom ha hb hc
  obtain ⟨t, ht⟩ := add?_roundedFrom ha' hb' h
  exact ⟨c, hc, hs.le ht (add_nonneg ha hb) hsum⟩

/-- adding something does not lower a total -/
theorem le_add? {a b c : Decimal} (ha : 0 ≤ a.toRat) (hb : 0 ≤ b.toRat) (h : a.add? b = some c) :
    a.toRat ≤ c.toRat := by
  obtain ⟨s, hs⟩ := add?_roundedFrom ha hb h
  exact (roundedFrom_self a).le hs ha (le_add_of_nonneg_right hb)

theorem add?_nonneg {a b c : Decimal} (ha : 0 ≤ a.toRat) (hb : 0 ≤ b.toRat) (h : a.add? b = some c) :
    0 ≤ c.toRat :=
  ha.trans (le_add? ha hb h)

/-! ## Differences of decimals that are not negative -/

/-- whether there is room does not depend on the sign -/
theorem isSome_fitFrom? (negative : Bool) (n exact places : ℕ) (hp : places ≤ maxScale) :
    (fitFrom? negative n exact places hp).isSome = (fitFrom? false n exact places hp).isSome := by
  induction places with
  | zero =>
    rw [fitFrom?, fitFrom?]
    split_ifs <;> rfl
  | succ places ih =>
    rw [fitFrom?, fitFrom?]
    split_ifs
    · rfl
    · exact ih _

/-- what is no larger than a decimal has room, whatever its sign -/
theorem fit?_isSome_of_le {z : ℤ} {s : ℕ} (hs : s ≤ maxScale) {d : Decimal} (h : |(z : ℚ)| ≤ d.toRat * 10 ^ s) :
    (fit? z s hs).isSome := by
  have hunits : |(z : ℚ)| / 10 ^ s * 10 ^ s = z.natAbs := by
    rw [div_mul_cancel₀ _ (by positivity), Nat.cast_natAbs, Int.cast_abs]
  have hle : |(z : ℚ)| / 10 ^ s ≤ d.toRat := (div_le_iff₀ (by positivity)).2 h
  have hd : 0 ≤ d.toRat := le_trans (by positivity) hle
  have hroom : digitsAt (|(z : ℚ)| / 10 ^ s) 0 < capacity :=
    calc digitsAt (|(z : ℚ)| / 10 ^ s) 0 ≤ digitsAt d.toRat 0 := digitsAt_mono hle 0
      _ ≤ digitsAt d.toRat d.scale := digitsAt_le_of_le hd (Nat.zero_le _)
      _ < capacity := (roundedFrom_self d).room
  rw [fit?, isSome_fitFrom?]
  exact fitFrom?_isSome hunits hs hroom

/-- a difference never leaves the range of decimals -/
theorem sub?_isSome {a b : Decimal} (ha : 0 ≤ a.toRat) (hb : 0 ≤ b.toRat) : (a.sub? b).isSome := by
  rw [sub?]
  split_ifs
  · rfl
  · rfl
  · rfl
  · have hdiff : ((a.atScale (commonScale a b) - b.atScale (commonScale a b) : ℤ) : ℚ) =
        (a.toRat - b.toRat) * 10 ^ commonScale a b := by
      rw [sub_mul, toRat_mul_pow (scale_le_commonScale_left a b), toRat_mul_pow (scale_le_commonScale_right a b),
        Int.cast_sub]
    have hpow : (0 : ℚ) < 10 ^ commonScale a b := by positivity
    have habs : |((a.atScale (commonScale a b) - b.atScale (commonScale a b) : ℤ) : ℚ)| =
        |a.toRat - b.toRat| * 10 ^ commonScale a b := by
      rw [hdiff, abs_mul, abs_of_pos hpow]
    rcases le_total a.toRat b.toRat with hle | hle
    · refine fit?_isSome_of_le _ (d := b) ?_
      rw [habs]
      refine mul_le_mul_of_nonneg_right ?_ hpow.le
      rw [abs_of_nonpos (sub_nonpos.2 hle)]
      linarith
    · refine fit?_isSome_of_le _ (d := a) ?_
      rw [habs]
      refine mul_le_mul_of_nonneg_right ?_ hpow.le
      rw [abs_of_nonneg (sub_nonneg.2 hle)]
      linarith

theorem negative_fitFrom? {negative : Bool} {n exact places : ℕ} {hp : places ≤ maxScale} {d : Decimal}
    (h : fitFrom? negative n exact places hp = some d) : d.negative = negative := by
  induction places with
  | zero =>
    rw [fitFrom?] at h
    split_ifs at h
    obtain rfl := Option.some.inj h
    rfl
  | succ places ih =>
    rw [fitFrom?] at h
    split_ifs at h
    · obtain rfl := Option.some.inj h
      rfl
    · exact ih h

/-- even where it is rounded, the difference of a decimal and one that is no larger is not below zero -/
theorem sub?_nonneg {a b d : Decimal} (hle : b.toRat ≤ a.toRat) (h : a.sub? b = some d) : 0 ≤ d.toRat := by
  rw [sub?] at h
  split_ifs at h with ha hb hb
  · obtain rfl := Option.some.inj h
    exact (isZero_iff.1 hb).ge
  · obtain rfl := Option.some.inj h
    rw [isZero_iff.1 ha] at hle
    rw [toRat_neg]
    linarith
  · obtain rfl := Option.some.inj h
    rwa [isZero_iff.1 hb] at hle
  · have hpow : (0 : ℚ) < 10 ^ commonScale a b := by positivity
    have hunits : ((b.atScale (commonScale a b) : ℤ) : ℚ) ≤ a.atScale (commonScale a b) := by
      rw [← toRat_mul_pow (scale_le_commonScale_left a b), ← toRat_mul_pow (scale_le_commonScale_right a b)]
      exact mul_le_mul_of_nonneg_right hle hpow.le
    have hz : ¬ a.atScale (commonScale a b) - b.atScale (commonScale a b) < 0 := by
      have hint : b.atScale (commonScale a b) ≤ a.atScale (commonScale a b) := by exact_mod_cast hunits
      omega
    have hsign : d.negative = false := (negative_fitFrom? h).trans (decide_eq_false hz)
    rw [← isNegative_eq_false_iff, isNegative, hsign, Bool.false_and]

end Decimal

end LedgerTotals
