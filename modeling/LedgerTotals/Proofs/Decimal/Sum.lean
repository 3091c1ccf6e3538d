/-
Sums and differences of decimals that lose nothing.

A result that no decimal stands for is rounded without notice. `add?_exact` and `sub?_exact` say that this is the only
way to lose something: if some decimal stands for the exact result, the operation gives one that does, even where the
digits at the larger scale of the operands do not fit the mantissa.

`sum?` is a run of additions from zero. It is exact as long as all the sums on the way are representable
(`sum?_exact`), for instance if the amounts have at most `s` places and their absolute values, in units of `10 ^ -s`,
add up to less than 96 bits hold (`FitsAt`).
-/
import LedgerTotals.Decimal.Arithmetic
import LedgerTotals.Proofs.Decimal.Number

namespace LedgerTotals

namespace Decimal

/-! ## One operation -/

/-- the search goes down from `places`; a scale that holds `n / 10 ^ exact` exactly stops it no later than there, and
every scale from there up holds it exactly too -/
theorem fitFrom?_exact (negative : Bool) {n exact m k : ℕ} (hm : m < capacity) (hn : n = m * pow10 (exact - k))
    {places : ℕ} (hp : places ≤ maxScale) (hk : k ≤ places) (hpe : places ≤ exact) :
    ∃ d, fitFrom? negative n exact places hp = some d ∧ d.negative = negative ∧ d.scale ≤ exact ∧
      d.mantissa * pow10 (exact - d.scale) = n := by
  induction places with
  | zero =>
    obtain rfl : k = 0 := by omega
    have hround : roundHalfEven n (pow10 exact) = m := by rw [hn]; exact roundHalfEven_mul m (pow10_pos _)
    refine ⟨_, dif_pos (hround ▸ hm), rfl, Nat.zero_le _, ?_⟩
    simpa only [hround] using hn.symm
  | succ places ih =>
    -- the exact quotient at this scale
    have hsplit : exact - k = (places + 1 - k) + (exact - (places + 1)) := by omega
    have hround : roundHalfEven n (pow10 (exact - (places + 1))) = m * pow10 (places + 1 - k) := by
      rw [hn, hsplit, pow10_add, ← mul_assoc]
      exact roundHalfEven_mul _ (pow10_pos _)
    rw [fitFrom?]
    split_ifs with hfit
    · refine ⟨_, rfl, rfl, hpe, ?_⟩
      simp only [hround]
      rw [hn, hsplit, pow10_add, mul_assoc]
    · have hne : k ≠ places + 1 := by
        rintro rfl
        rw [hround, Nat.sub_self] at hfit
        exact hfit (by simpa [pow10] using hm)
      exact ih (Nat.le_of_succ_le hp) (by omega) (by omega)

theorem fit?_exact {z : ℤ} {s : ℕ} (hs : s ≤ maxScale) (h : Representable (z / 10 ^ s)) :
    ∃ d, fit? z s hs = some d ∧ d.toRat = z / 10 ^ s := by
  obtain ⟨r, hr⟩ := h
  have hunits : (z.natAbs : ℚ) * 10 ^ r.scale = r.mantissa * 10 ^ s := by
    have habs : (r.mantissa : ℚ) / 10 ^ r.scale = z.natAbs / 10 ^ s := by
      rw [← abs_toRat, hr, abs_div, abs_of_pos (a := (10 : ℚ) ^ s) (by positivity), Nat.cast_natAbs, Int.cast_abs]
    rw [div_eq_div_iff (by positivity) (by positivity)] at habs
    exact habs.symm
  have hnat : z.natAbs * pow10 r.scale = r.mantissa * pow10 s := by
    have := hunits
    rw [← cast_pow10, ← cast_pow10] at this
    exact_mod_cast this
  -- the mantissa and the scale of a decimal for the number that is not finer than `s`
  obtain ⟨m, k, hm, hk, hn⟩ : ∃ m k, m < capacity ∧ k ≤ s ∧ z.natAbs = m * pow10 (s - k) := by
    rcases Nat.le_total r.scale s with hle | hle
    · refine ⟨r.mantissa, r.scale, r.mantissa_lt, hle, ?_⟩
      obtain ⟨j, rfl⟩ := Nat.exists_eq_add_of_le hle
      rw [Nat.add_comm, pow10_add, ← mul_assoc] at hnat
      rw [Nat.add_sub_cancel_left]
      exact Nat.eq_of_mul_eq_mul_right (pow10_pos _) hnat
    · refine ⟨z.natAbs, s, lt_of_le_of_lt ?_ r.mantissa_lt, le_rfl, by simp [pow10]⟩
      obtain ⟨j, hj⟩ := Nat.exists_eq_add_of_le hle
      rw [hj, Nat.add_comm, pow10_add, ← mul_assoc] at hnat
      rw [← Nat.eq_of_mul_eq_mul_right (pow10_pos _) hnat]
      exact Nat.le_mul_of_pos_right _ (pow10_pos _)
  obtain ⟨d, hd, hneg, hds, hmant⟩ := fitFrom?_exact (decide (z < 0)) hm hn hs hk le_rfl
  refine ⟨d, hd, ?_⟩
  have hz : d.atScale s = z := by
    have hcast : (d.mantissa : ℤ) * (pow10 (s - d.scale) : ℕ) = z.natAbs := by exact_mod_cast hmant
    simp only [atScale, coefficient, hneg, decide_eq_true_eq]
    split_ifs
    · rw [neg_mul, hcast]; omega
    · rw [hcast]; omega
  rw [eq_div_iff (by positivity), toRat_mul_pow hds, hz]

theorem scale_le_commonScale_left (a b : Decimal) : a.scale ≤ commonScale a b := Nat.le_max_left _ _

theorem scale_le_commonScale_right (a b : Decimal) : b.scale ≤ commonScale a b := Nat.le_max_right _ _

/-- the sum in units of the larger scale -/
theorem toRat_add (a b : Decimal) : a.toRat + b.toRat =
    ((a.atScale (commonScale a b) + b.atScale (commonScale a b) : ℤ) : ℚ) / 10 ^ commonScale a b := by
  rw [eq_div_iff (by positivity), add_mul, toRat_mul_pow (scale_le_commonScale_left a b),
    toRat_mul_pow (scale_le_commonScale_right a b), Int.cast_add]

/-- a sum is exact if some decimal stands for it -/
theorem add?_exact {a b : Decimal} (h : Representable (a.toRat + b.toRat)) :
    ∃ c, a.add? b = some c ∧ c.toRat = a.toRat + b.toRat := by
  rw [add?]
  split_ifs with ha hb
  · exact ⟨b, rfl, by rw [isZero_iff.1 ha, zero_add]⟩
  · exact ⟨a, rfl, by rw [isZero_iff.1 hb, add_zero]⟩
  · rw [toRat_add] at h ⊢
    exact fit?_exact _ h

/-- a difference is exact if some decimal stands for it -/
theorem sub?_exact {a b : Decimal} (h : Representable (a.toRat - b.toRat)) :
    ∃ c, a.sub? b = some c ∧ c.toRat = a.toRat - b.toRat := by
  rw [sub?]
  split_ifs with ha hb hb
  · exact ⟨b, rfl, by rw [isZero_iff.1 ha, isZero_iff.1 hb, sub_zero]⟩
  · exact ⟨b.neg, rfl, by rw [isZero_iff.1 ha, toRat_neg, zero_sub]⟩
  · exact ⟨a, rfl, by rw [isZero_iff.1 hb, sub_zero]⟩
  · have hdiff : a.toRat - b.toRat =
        ((a.atScale (commonScale a b) - b.atScale (commonScale a b) : ℤ) : ℚ) / 10 ^ commonScale a b := by
      rw [eq_div_iff (by positivity), sub_mul, toRat_mul_pow (scale_le_commonScale_left a b),
        toRat_mul_pow (scale_le_commonScale_right a b), Int.cast_sub]
    rw [hdiff] at h ⊢
    exact fit?_exact _ h

/-! ## A run of additions -/

/-- the sum of a run of decimals, from zero and in order; `none` if a sum on the way is too large -/
def sum? (ds : List Decimal) : Option Decimal := ds.foldlM add? .zero

theorem sum?_snoc (ds : List Decimal) (d : Decimal) : sum? (ds ++ [d]) = (sum? ds).bind (·.add? d) := by
  simp [sum?, List.foldlM_append]

/-- every sum on the way is representable -/
def Lossless (qs : List ℚ) : Prop := ∀ l, l <+: qs → Representable l.sum

theorem Lossless.of_prefix {l qs : List ℚ} (h : Lossless qs) (hl : l <+: qs) : Lossless l :=
  fun _ hp => h _ (hp.trans hl)

theorem sum?_exact {ds : List Decimal} (h : Lossless (ds.map toRat)) :
    ∃ d, sum? ds = some d ∧ d.toRat = (ds.map toRat).sum := by
  induction ds using List.reverseRecOn with
  | nil => exact ⟨.zero, rfl, toRat_zero⟩
  | append_singleton ds x ih =>
    rw [List.map_append] at h ⊢
    obtain ⟨d, hd, hval⟩ := ih (h.of_prefix (List.prefix_append _ _))
    have hrep : Representable (d.toRat + x.toRat) := by
      simpa [hval] using h _ (List.prefix_refl _)
    obtain ⟨c, hc, hcval⟩ := add?_exact hrep
    refine ⟨c, by rw [sum?_snoc, hd, Option.bind_some, hc], ?_⟩
    rw [hcval, hval]
    simp

/-! ## Amounts that fit one scale -/

/-- the amounts have at most `s` places, and their absolute values in units of `10 ^ -s` add up to less than 96 bits
hold -/
structure FitsAt (s : ℕ) (qs : List ℚ) : Prop where
  places : ∀ q ∈ qs, HasPlaces s q
  small : (qs.map fun q => |q|).sum * 10 ^ s < 2 ^ 96

instance (s : ℕ) (qs : List ℚ) : Decidable (FitsAt s qs) :=
  decidable_of_iff ((∀ q ∈ qs, HasPlaces s q) ∧ (qs.map fun q => |q|).sum * 10 ^ s < 2 ^ 96)
    ⟨fun ⟨hp, hs⟩ => ⟨hp, hs⟩, fun h => ⟨h.places, h.small⟩⟩

theorem abs_sum_le (qs : List ℚ) : |qs.sum| ≤ (qs.map fun q => |q|).sum := by
  induction qs with
  | nil => simp
  | cons q qs ih =>
    simp only [List.sum_cons, List.map_cons]
    exact (abs_add_le _ _).trans (add_le_add le_rfl ih)

theorem hasPlaces_sum {s : ℕ} {qs : List ℚ} (h : ∀ q ∈ qs, HasPlaces s q) : HasPlaces s qs.sum := by
  induction qs with
  | nil => exact HasPlaces.zero s
  | cons q qs ih =>
    rw [List.sum_cons]
    exact (h q List.mem_cons_self).add (ih fun p hp => h p (List.mem_cons_of_mem _ hp))

theorem FitsAt.representable {s : ℕ} (hs : s ≤ maxScale) {qs : List ℚ} (h : FitsAt s qs) : Representable qs.sum :=
  (hasPlaces_sum h.places).representable hs
    (lt_of_le_of_lt (mul_le_mul_of_nonneg_right (abs_sum_le qs) (by positivity)) h.small)

/-- fewer amounts fit as well -/
theorem FitsAt.of_subperm {s : ℕ} {l qs : List ℚ} (h : FitsAt s qs) (hl : l.Subperm qs) : FitsAt s l := by
  obtain ⟨l', hperm, hsub⟩ := hl
  refine ⟨fun q hq => h.places q (hsub.subset (hperm.symm.subset hq)), lt_of_le_of_lt ?_ h.small⟩
  refine mul_le_mul_of_nonneg_right ?_ (by positivity)
  rw [((hperm.map fun q => |q|).sum_eq).symm]
  exact (hsub.map _).sum_le_sum (by simp)

theorem FitsAt.lossless {s : ℕ} (hs : s ≤ maxScale) {qs : List ℚ} (h : FitsAt s qs) : Lossless qs :=
  fun _ hl => (h.of_subperm hl.sublist.subperm).representable hs

end Decimal

end LedgerTotals
