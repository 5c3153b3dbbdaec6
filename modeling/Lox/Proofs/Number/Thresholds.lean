import Lox.Proofs.Number.Decimals

/-!
# Whole numbers and powers of ten

A magnitude that receives a whole number is one, so that its shortest decimal has no fraction. And the
leading power of ten of the shortest decimal tells on which side of a rounded power of ten a magnitude
lies.
-/

namespace Lox.Number

namespace Magnitude

variable {x y : Magnitude}

/-! ## Whole numbers -/

theorem natural?_eq_some_iff {n : Nat} : x.natural? = some n ↔ x.value = n := by
  unfold natural? value
  rcases le_or_gt 0 x.exponent with nonneg | neg
  · obtain ⟨k, exponent⟩ := Int.eq_ofNat_of_zero_le nonneg
    rw [if_pos nonneg, exponent, Int.toNat_natCast, zpow_natCast, Nat.pow_eq, Option.some.injEq]
    exact_mod_cast Iff.rfl
  · obtain ⟨k, exponent⟩ := Int.eq_ofNat_of_zero_le (neg_nonneg.2 neg.le)
    have opposite : x.exponent = -k := by omega
    have unit : 0 < 2 ^ k := by positivity
    have product : (x.significand : ℚ) * 2 ^ x.exponent = n ↔ x.significand = n * 2 ^ k := by
      rw [opposite, zpow_neg, zpow_natCast, ← div_eq_mul_inv, div_eq_iff (by positivity)]
      exact_mod_cast Iff.rfl
    rw [product, if_neg (not_le.2 neg), exponent, Int.toNat_natCast, Nat.pow_eq]
    dsimp only
    split
    · next multiple =>
      rw [Option.some.injEq, Nat.div_eq_iff_eq_mul_left unit (Nat.dvd_of_mod_eq_zero multiple)]
    · next rest => exact ⟨nofun, fun whole => absurd (whole ▸ Nat.mul_mod_left ..) rest⟩

/-- Halfway points are not whole, so that only a whole magnitude receives a whole number. -/
theorem Receives.whole {n : Nat} (receives : x.Receives n) : ∃ m : Nat, x.value = m := by
  rcases le_or_gt 0 x.exponent with nonneg | neg
  · obtain ⟨k, exponent⟩ := Int.eq_ofNat_of_zero_le nonneg
    refine ⟨x.significand * 2 ^ k, ?_⟩
    rw [value, exponent, zpow_natCast]
    push_cast
    rfl
  · obtain ⟨k, exponent⟩ := Int.eq_ofNat_of_zero_le (neg_nonneg.2 neg.le)
    have opposite : x.exponent = -k := by omega
    have unit : (0 : ℚ) < 2 ^ k := by positivity
    obtain ⟨low, high⟩ := receives.bounds
    have low : ((x.significand : ℚ) - 1 / 2) * 2 ^ x.exponent ≤ n := by
      refine le_trans (mul_le_mul_of_nonneg_right ?_ x.unit_pos.le) low
      split <;> linarith
    rw [upper] at high
    rw [opposite, zpow_neg, zpow_natCast, ← div_eq_mul_inv] at low high
    rw [div_le_iff₀ unit] at low
    rw [le_div_iff₀ unit] at high
    -- the significand lies within a half of a whole number
    have below : x.significand < n * 2 ^ k + 1 := by
      have below : (x.significand : ℚ) < n * 2 ^ k + 1 := by linarith
      exact_mod_cast below
    have above : n * 2 ^ k < x.significand + 1 := by
      have above : (n : ℚ) * 2 ^ k < x.significand + 1 := by linarith
      exact_mod_cast above
    have whole : x.significand = n * 2 ^ k := by omega
    refine ⟨n, ?_⟩
    rw [value, opposite, zpow_neg, zpow_natCast, ← div_eq_mul_inv, div_eq_iff unit.ne', whole]
    push_cast
    rfl

section Shortest

variable (canonical : x.Canonical) (positive : 0 < x.significand)
include canonical positive

theorem whole_iff : (∃ n : Nat, x.value = n) ↔ 0 ≤ x.shortest.exponent := by
  constructor
  · rintro ⟨n, whole⟩
    have value : (⟨n, 0⟩ : Decimal).value = x.value := by
      rw [Decimal.value, zpow_zero, mul_one, whole]
    exact exponent_le_shortest canonical.least positive (d := ⟨n, 0⟩) (value ▸ x.receives_value)
  · intro nonneg
    obtain ⟨k, exponent⟩ := Int.eq_ofNat_of_zero_le nonneg
    have receives := receives_shortest canonical.least positive
    rw [Decimal.value, exponent, zpow_natCast] at receives
    exact Receives.whole (n := x.shortest.coefficient * 10 ^ k) (by exact_mod_cast receives)

/-! ## Powers of ten -/

/-- The magnitudes from that of a power of ten on are those whose shortest decimal reaches it. -/
theorem le_leading_iff {t : ℤ} (canonical' : y.Canonical) (power : y.Receives (10 ^ t)) :
    y.value ≤ x.value ↔ t ≤ x.shortest.leading := by
  have receives := receives_shortest canonical.least positive
  have coefficient := shortest_coefficient_pos canonical.least positive
  obtain ⟨low, high⟩ := Decimal.value_bounds coefficient
  constructor
  · intro le
    rcases x.below_or_eq_or_below y with below | rfl | below
    · have less := below.receives_lt canonical canonical' x.receives_value y.receives_value
      exact absurd less le.not_gt
    · have value : (⟨1, t⟩ : Decimal).value = 10 ^ t := by rw [Decimal.value, Nat.cast_one, one_mul]
      have coarse := exponent_le_shortest canonical.least positive (d := ⟨1, t⟩) (value ▸ power)
      have length := x.shortest.length_pos
      dsimp only at coarse
      rw [Decimal.leading]
      omega
    · have less := (below.receives_lt canonical' canonical power receives).trans high
      have exponents := (zpow_lt_zpow_iff_right₀ (by norm_num)).1 less
      omega
  · intro reaches
    by_contra less
    have less := receives.lt_of_value_lt power canonical canonical' (not_le.1 less)
    have exponents := (zpow_lt_zpow_iff_right₀ (by norm_num)).1 (low.trans_lt less)
    omega

end Shortest

/-! ### The limits of the positional form -/

section Limits

variable (canonical : x.Canonical) (positive : 0 < x.significand)
include canonical positive

/-- Below a power of ten that is a double itself, the leading power of ten is less. -/
theorem lt_ten_pow_iff {y : Magnitude} (canonical' : y.Canonical) {t : Nat}
    (power : y.value = 10 ^ t) : x.value < 10 ^ t ↔ x.shortest.leading < t := by
  have limit := le_leading_iff canonical positive (t := t) canonical' (by
    rw [zpow_natCast, ← power]
    exact receives_value _)
  rw [← power, ← not_le, limit, not_le]

theorem lt_exactLimit_iff : x.value < 10 ^ 21 ↔ x.shortest.leading ≤ 20 := by
  have limit := lt_ten_pow_iff canonical positive (y := ⟨5 ^ 21 * 2 ^ 4, 17⟩) (t := 21)
    ⟨by norm_num, by simp [leastExponent], fun _ => by norm_num⟩ (by norm_num [value])
  rw [limit]
  omega

theorem lt_ten_pow_sixteen_iff : x.value < 10 ^ 16 ↔ x.shortest.leading ≤ 15 := by
  have limit := lt_ten_pow_iff canonical positive (y := ⟨5 ^ 16 * 2 ^ 15, 1⟩) (t := 16)
    ⟨by norm_num, by simp [leastExponent], fun _ => by norm_num⟩ (by norm_num [value])
  rw [limit]
  omega

end Limits

end Magnitude

/-- The double that is read from `1e-6`. -/
def micro : Double := nearest 1 (10 ^ 6)

theorem micro_finite : micro.IsFinite := by decide +kernel

namespace Magnitude

theorem micro_receives : micro.magnitude.Receives (10 ^ (-6 : ℤ)) := by
  have reads := (nearest_magnitude_iff (n := 1) (d := 10 ^ 6) (Double.magnitude_canonical micro)
    (Double.isFinite_iff.1 micro_finite) (by norm_num)).1 ⟨micro_finite, rfl⟩
  norm_num at reads ⊢
  exact reads

theorem micro_le_iff {x : Magnitude} (canonical : x.Canonical) (positive : 0 < x.significand) :
    micro.magnitude.value ≤ x.value ↔ -6 ≤ x.shortest.leading :=
  le_leading_iff canonical positive (Double.magnitude_canonical micro) micro_receives

end Magnitude

end Lox.Number
