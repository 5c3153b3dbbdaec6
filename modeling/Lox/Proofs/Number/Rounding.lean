import Lox.Proofs.Number.Doubles
import Mathlib.Tactic.FieldSimp
import Mathlib.Tactic.Positivity
import Mathlib.Tactic.Ring

/-!
# Rounding

Each magnitude receives the numbers that lie nearest to it: an interval that ends halfway to its two
neighbours, with the ends if its significand is even. No number is received twice, and the magnitude
that receives a quotient is the one that rounding the quotient finds.
-/

namespace Lox.Number

/-! ## What a magnitude receives -/

namespace Magnitude

/-- Below a power of two the magnitudes lie closer together than above it. -/
def IsNarrow (x : Magnitude) : Prop := x.significand = 2 ^ 52 ∧ leastExponent < x.exponent

instance (x : Magnitude) : Decidable x.IsNarrow := inferInstanceAs (Decidable (_ ∧ _))

/-- The point halfway to the next lower magnitude. -/
def lower (x : Magnitude) : ℚ :=
  (x.significand - if x.IsNarrow then 1 / 4 else 1 / 2) * 2 ^ x.exponent

/-- The point halfway to the next higher magnitude. -/
def upper (x : Magnitude) : ℚ := (x.significand + 1 / 2) * 2 ^ x.exponent

/-- The number rounds to the magnitude. -/
def Receives (x : Magnitude) (q : ℚ) : Prop :=
  if x.significand % 2 = 0 then x.lower ≤ q ∧ q ≤ x.upper else x.lower < q ∧ q < x.upper

variable {x y : Magnitude} {p q r : ℚ}

theorem unit_pos (x : Magnitude) : (0 : ℚ) < 2 ^ x.exponent := zpow_pos (by norm_num) _

theorem lower_lt_value (x : Magnitude) : x.lower < x.value := by
  refine mul_lt_mul_of_pos_right ?_ x.unit_pos
  split <;> linarith

theorem value_lt_upper (x : Magnitude) : x.value < x.upper :=
  mul_lt_mul_of_pos_right (by linarith) x.unit_pos

theorem receives_value (x : Magnitude) : x.Receives x.value := by
  have below := x.lower_lt_value
  have above := x.value_lt_upper
  unfold Receives
  split
  · exact ⟨below.le, above.le⟩
  · exact ⟨below, above⟩

theorem Receives.bounds (receives : x.Receives q) : x.lower ≤ q ∧ q ≤ x.upper := by
  unfold Receives at receives
  split at receives
  · exact receives
  · exact ⟨receives.1.le, receives.2.le⟩

theorem Receives.between (first : x.Receives p) (last : x.Receives r) (le : p ≤ q) (le' : q ≤ r) :
    x.Receives q := by
  unfold Receives at *
  split at first
  · next even =>
    rw [if_pos even] at last ⊢
    exact ⟨first.1.trans le, le'.trans last.2⟩
  · next odd =>
    rw [if_neg odd] at last ⊢
    exact ⟨first.1.trans_le le, le'.trans_lt last.2⟩

theorem unit_le_unit (less : x.exponent < y.exponent) : 2 * (2 : ℚ) ^ x.exponent ≤ 2 ^ y.exponent := by
  have next : (2 : ℚ) ^ (x.exponent + 1) ≤ 2 ^ y.exponent :=
    zpow_le_zpow_right₀ (by norm_num) (by omega)
  rwa [zpow_add_one₀ (by norm_num), mul_comm] at next

/-- The interval of a magnitude with all its bits reaches down to a quarter below the power of two. -/
theorem le_lower (full : 2 ^ 52 ≤ y.significand) (above : leastExponent < y.exponent) :
    ((2 : ℚ) ^ 52 - 1 / 4) * 2 ^ y.exponent ≤ y.lower := by
  refine mul_le_mul_of_nonneg_right ?_ y.unit_pos.le
  split
  · have full : (2 : ℚ) ^ 52 ≤ y.significand := by exact_mod_cast full
    linarith
  · next wide =>
    have other : y.significand ≠ 2 ^ 52 := fun same => wide ⟨same, above⟩
    have beyond : (2 : ℚ) ^ 52 + 1 ≤ y.significand := by
      exact_mod_cast (show 2 ^ 52 + 1 ≤ y.significand by omega)
    linarith

/-- The interval of the last magnitude with an exponent ends where the next exponent begins. -/
theorem upper_le_lower_of_exponent_lt (less : x.exponent < y.exponent) (canonical : x.Canonical)
    (canonical' : y.Canonical) :
    x.upper ≤ y.lower ∧ (x.upper = y.lower → x.significand % 2 = 1) := by
  have above : leastExponent < y.exponent := lt_of_le_of_lt canonical.least less
  have doubled : ((2 : ℚ) ^ 53 - 1 / 2) * 2 ^ x.exponent ≤ y.lower := by
    refine le_trans ?_ (le_lower (canonical'.full above) above)
    have unit := mul_le_mul_of_nonneg_left (unit_le_unit less)
      (show (0 : ℚ) ≤ 2 ^ 52 - 1 / 4 by norm_num)
    linarith
  have bits : (x.significand : ℚ) + 1 ≤ 2 ^ 53 := by
    exact_mod_cast (show x.significand + 1 ≤ 2 ^ 53 from canonical.bits)
  have highest : x.upper ≤ ((2 : ℚ) ^ 53 - 1 / 2) * 2 ^ x.exponent :=
    mul_le_mul_of_nonneg_right (by linarith) x.unit_pos.le
  refine ⟨highest.trans doubled, fun meet => ?_⟩
  -- where they meet, the significand has all its bits set, the last one as well
  have equal : (x.significand + 1 / 2 : ℚ) = 2 ^ 53 - 1 / 2 :=
    mul_right_cancel₀ x.unit_pos.ne' (le_antisymm highest (doubled.trans meet.ge))
  have last : x.significand + 1 = 2 ^ 53 := by
    have sum : (x.significand + 1 : ℚ) = 2 ^ 53 := by linarith
    exact_mod_cast sum
  omega

theorem upper_le_lower_of_significand_lt (same : x.exponent = y.exponent)
    (less : x.significand < y.significand) (canonical : x.Canonical) :
    x.upper ≤ y.lower ∧ (x.upper = y.lower → x.significand + 1 = y.significand) := by
  have wide : ¬ y.IsNarrow := by
    rintro ⟨least, above⟩
    have full := canonical.full (same ▸ above)
    omega
  have step : (x.significand : ℚ) + 1 ≤ y.significand := by exact_mod_cast less
  have lower : y.lower = (y.significand - 1 / 2) * 2 ^ x.exponent := by
    rw [Magnitude.lower, if_neg wide, same]
  rw [lower]
  refine ⟨mul_le_mul_of_nonneg_right (by linarith) x.unit_pos.le, fun meet => ?_⟩
  have equal : (x.significand + 1 / 2 : ℚ) = y.significand - 1 / 2 :=
    mul_right_cancel₀ x.unit_pos.ne' meet
  have sum : (x.significand + 1 : ℚ) = y.significand := by linarith
  exact_mod_cast sum

/-- The intervals of two magnitudes meet in one point at most, which one of them leaves out. -/
theorem Below.upper_le_lower (below : x.Below y) (canonical : x.Canonical)
    (canonical' : y.Canonical) :
    x.upper ≤ y.lower ∧ (x.upper = y.lower → x.significand % 2 = 1 ∨ y.significand % 2 = 1) := by
  rcases below with less | ⟨same, less⟩
  · obtain ⟨le, odd⟩ := upper_le_lower_of_exponent_lt less canonical canonical'
    exact ⟨le, fun meet => .inl (odd meet)⟩
  · obtain ⟨le, next⟩ := upper_le_lower_of_significand_lt same less canonical
    refine ⟨le, fun meet => ?_⟩
    have next := next meet
    omega

theorem Below.receives_lt (below : x.Below y) (canonical : x.Canonical) (canonical' : y.Canonical)
    (receives : x.Receives p) (receives' : y.Receives q) : p < q := by
  obtain ⟨apart, meet⟩ := below.upper_le_lower canonical canonical'
  have above := receives.bounds.2
  have below := receives'.bounds.1
  refine lt_of_le_of_ne (above.trans (apart.trans below)) fun same => ?_
  unfold Receives at receives receives'
  rcases meet (le_antisymm apart (below.trans (same ▸ above))) with odd | odd
  · rw [if_neg (by omega)] at receives
    linarith [receives.2]
  · rw [if_neg (by omega)] at receives'
    linarith [receives'.1]

/-- A number rounds to one magnitude only. -/
theorem Receives.unique (receives : x.Receives q) (receives' : y.Receives q)
    (canonical : x.Canonical) (canonical' : y.Canonical) : x = y := by
  rcases x.below_or_eq_or_below y with below | equal | below
  · exact absurd (below.receives_lt canonical canonical' receives receives') (lt_irrefl q)
  · exact equal
  · exact absurd (below.receives_lt canonical' canonical receives' receives) (lt_irrefl q)

theorem below_of_value_lt (canonical : x.Canonical) (canonical' : y.Canonical)
    (less : x.value < y.value) : x.Below y := by
  rcases x.below_or_eq_or_below y with below | equal | below
  · exact below
  · exact absurd less (equal ▸ lt_irrefl _)
  · have greater := below.receives_lt canonical' canonical y.receives_value x.receives_value
    exact absurd less greater.not_gt

/-- Numbers that round to a lower magnitude are lower. -/
theorem Receives.lt_of_value_lt (receives : x.Receives p) (receives' : y.Receives q)
    (canonical : x.Canonical) (canonical' : y.Canonical) (less : x.value < y.value) : p < q :=
  (below_of_value_lt canonical canonical' less).receives_lt canonical canonical' receives receives'

end Magnitude

/-! ## Quotients -/

/-- The natural number lies nearest to the rational one, and if two do, it is even. -/
structure IsNearest (q : ℚ) (s : Nat) : Prop where
  below : s - 1 / 2 ≤ q
  above : q ≤ s + 1 / 2
  odd : s % 2 = 1 → s - 1 / 2 < q ∧ q < s + 1 / 2

theorem roundQuotient_isNearest (n : Nat) {d : Nat} (positive : 0 < d) :
    IsNearest (n / d) (roundQuotient n d) := by
  have split : d * (n / d) + n % d = n := Nat.div_add_mod n d
  have small : n % d < d := Nat.mod_lt n positive
  generalize hq : n / d = q at split
  generalize hr : n % d = r at split small
  have positive' : (0 : ℚ) < d := by exact_mod_cast positive
  have small' : (r : ℚ) < d := by exact_mod_cast small
  have quotient : (n : ℚ) / d = q + r / d := by
    rw [← split]
    push_cast
    field_simp
  have rest : (r : ℚ) / d < 1 := (div_lt_one positive').2 small'
  have rest' : (0 : ℚ) ≤ r / d := by positivity
  have half : (r : ℚ) / d < 1 / 2 ↔ 2 * r < d := by
    rw [div_lt_div_iff₀ positive' (by norm_num), one_mul, mul_comm]
    exact_mod_cast Iff.rfl
  have half' : (r : ℚ) / d = 1 / 2 ↔ 2 * r = d := by
    rw [div_eq_div_iff positive'.ne' (by norm_num), one_mul, mul_comm]
    exact_mod_cast Iff.rfl
  rw [quotient, roundQuotient, hq, hr]
  generalize (r : ℚ) / d = part at *
  -- The remainder is compared with half of the divisor, and a tie goes to the even neighbour.
  split_ifs with down
  · rcases down with less | ⟨tie, even⟩
    · have less := half.2 less
      exact ⟨by linarith, by linarith, fun _ => ⟨by linarith, by linarith⟩⟩
    · have tie := half'.2 tie
      exact ⟨by linarith, by linarith, fun odd => by omega⟩
  · have more : 1 / 2 ≤ part := not_lt.1 fun less => down (.inl (half.1 less))
    have next : ((q + 1 : ℕ) : ℚ) = q + 1 := Nat.cast_succ q
    refine ⟨by linarith, by linarith, fun odd => ⟨?_, by linarith⟩⟩
    have strict : part ≠ 1 / 2 := fun tie => down (.inr ⟨half'.1 tie, by omega⟩)
    linarith [lt_of_le_of_ne more strict.symm]

theorem two_zpow (e : ℤ) : (2 : ℚ) ^ e = 2 ^ e.toNat / 2 ^ (-e).toNat := by
  rcases le_total 0 e with nonneg | nonpos
  · obtain ⟨k, rfl⟩ := Int.eq_ofNat_of_zero_le nonneg
    simp
  · obtain ⟨k, neg⟩ := Int.eq_ofNat_of_zero_le (neg_nonneg.2 nonpos)
    obtain rfl : e = -k := by omega
    simp

theorem leadingExponent_bounds {n d : Nat} (positive : 0 < n) (positive' : 0 < d) :
    (2 : ℚ) ^ leadingExponent n d ≤ n / d ∧ (n : ℚ) / d < 2 ^ (leadingExponent n d + 1) := by
  have denominator : (0 : ℚ) < d := by exact_mod_cast positive'
  have low : (2 : ℚ) ^ n.log2 ≤ n := by exact_mod_cast Nat.log2_self_le positive.ne'
  have high : (n : ℚ) < 2 ^ (n.log2 + 1) := by exact_mod_cast Nat.lt_log2_self
  have low' : (2 : ℚ) ^ d.log2 ≤ d := by exact_mod_cast Nat.log2_self_le positive'.ne'
  have high' : (d : ℚ) < 2 ^ (d.log2 + 1) := by exact_mod_cast Nat.lt_log2_self
  -- the difference of the logarithms is right or one too large
  have least : (2 : ℚ) ^ ((n.log2 : ℤ) - d.log2 - 1) ≤ n / d := by
    rw [le_div_iff₀ denominator]
    calc (2 : ℚ) ^ ((n.log2 : ℤ) - d.log2 - 1) * d
        ≤ 2 ^ ((n.log2 : ℤ) - d.log2 - 1) * 2 ^ ((d.log2 + 1 : ℕ) : ℤ) := by
          rw [zpow_natCast]
          gcongr
      _ = 2 ^ n.log2 := by
          rw [← zpow_add₀ two_ne_zero, ← zpow_natCast]
          congr 1
          push_cast
          ring
      _ ≤ n := low
  have greatest : (n : ℚ) / d < 2 ^ ((n.log2 : ℤ) - d.log2 + 1) := by
    rw [div_lt_iff₀ denominator]
    calc (n : ℚ) < 2 ^ (n.log2 + 1) := high
      _ = 2 ^ ((n.log2 : ℤ) - d.log2 + 1) * 2 ^ (d.log2 : ℤ) := by
          rw [← zpow_add₀ two_ne_zero, ← zpow_natCast]
          congr 1
          push_cast
          ring
      _ ≤ 2 ^ ((n.log2 : ℤ) - d.log2 + 1) * d := by
          rw [zpow_natCast]
          gcongr
  have compare (e : ℤ) : d * Nat.pow 2 e.toNat ≤ n * Nat.pow 2 (-e).toNat ↔ (2 : ℚ) ^ e ≤ n / d := by
    rw [two_zpow, div_le_div_iff₀ (by positivity) denominator, mul_comm (2 ^ e.toNat : ℚ)]
    exact_mod_cast Iff.rfl
  rw [leadingExponent]
  split
  · next fits => exact ⟨(compare _).1 fits, greatest⟩
  · next larger =>
    have less := not_le.1 (mt (compare _).2 larger)
    exact ⟨least, by simpa using less⟩

/-- Numbers nearest to the significand round to the magnitude, but for some below a power of two. -/
theorem IsNearest.receives {x : Magnitude} {q : ℚ} (nearest : IsNearest q x.significand)
    (narrow : x.IsNarrow → (x.significand : ℚ) ≤ q) : x.Receives (q * 2 ^ x.exponent) := by
  obtain ⟨below, above, odd⟩ := nearest
  have unit := x.unit_pos
  unfold Magnitude.Receives Magnitude.lower Magnitude.upper
  split_ifs with even isNarrow isNarrow
  · have le := narrow isNarrow
    exact ⟨mul_le_mul_of_nonneg_right (by linarith) unit.le,
      mul_le_mul_of_nonneg_right above unit.le⟩
  · exact ⟨mul_le_mul_of_nonneg_right below unit.le, mul_le_mul_of_nonneg_right above unit.le⟩
  · have significand := isNarrow.1
    omega
  · obtain ⟨below, above⟩ := odd (by omega)
    exact ⟨mul_lt_mul_of_pos_right below unit, mul_lt_mul_of_pos_right above unit⟩

/-- A significand that rounds up to `2 ^ 53` has become a bit too long: the next magnitude is a power of
two, and the number lies below it. -/
theorem IsNearest.receives_carry {e : ℤ} {q : ℚ} (nearest : IsNearest q (2 ^ 53))
    (lowest : leastExponent ≤ e) (small : q < 2 ^ 53) :
    (⟨2 ^ 52, e + 1⟩ : Magnitude).Receives (q * 2 ^ e) := by
  have unit : (0 : ℚ) < 2 ^ e := zpow_pos (by norm_num) _
  have narrow : (⟨2 ^ 52, e + 1⟩ : Magnitude).IsNarrow := ⟨rfl, show leastExponent < e + 1 by omega⟩
  have below := nearest.below
  unfold Magnitude.Receives Magnitude.lower Magnitude.upper
  rw [if_pos narrow, if_pos (by norm_num)]
  dsimp only
  rw [zpow_add_one₀ two_ne_zero]
  push_cast at below ⊢
  constructor
  · have bound := mul_le_mul_of_nonneg_right below unit.le
    linarith
  · have bound := mul_le_mul_of_nonneg_right small.le unit.le
    linarith

section Scaled

variable {n d : Nat} (positive : 0 < n) (positive' : 0 < d)
include positive positive'

/-- In units of the last place a quotient has a significand of a double, but for its fraction. -/
theorem scaled_bounds {e : ℤ} (exponent : max (leadingExponent n d - 52) leastExponent = e) :
    (n : ℚ) / d / 2 ^ e < 2 ^ 53 ∧ (leastExponent < e → (2 : ℚ) ^ 52 ≤ n / d / 2 ^ e) := by
  obtain ⟨least, greatest⟩ := leadingExponent_bounds positive positive'
  have unit : (0 : ℚ) < 2 ^ e := zpow_pos (by norm_num) _
  constructor
  · rw [div_lt_iff₀ unit]
    refine greatest.trans_le ?_
    rw [← zpow_natCast, ← zpow_add₀ two_ne_zero]
    exact zpow_le_zpow_right₀ (by norm_num) (by push_cast; omega)
  · intro above
    rw [le_div_iff₀ unit]
    refine le_trans ?_ least
    rw [← zpow_natCast, ← zpow_add₀ two_ne_zero]
    exact zpow_le_zpow_right₀ (by norm_num) (by push_cast; omega)

omit positive in
theorem roundQuotient_scaled (e : ℤ) : IsNearest (n / d / 2 ^ e)
    (roundQuotient (n * Nat.pow 2 (-e).toNat) (d * Nat.pow 2 e.toNat)) := by
  have scaled : ((n * Nat.pow 2 (-e).toNat : ℕ) : ℚ) / ((d * Nat.pow 2 e.toNat : ℕ) : ℚ) =
      n / d / 2 ^ e := by
    rw [two_zpow e]
    simp only [Nat.pow_eq]
    push_cast
    field_simp
  rw [← scaled]
  exact roundQuotient_isNearest _ (by simp only [Nat.pow_eq]; positivity)

/-- The magnitude that receives a positive quotient is found by rounding it. -/
theorem exists_receives : ∃ x : Magnitude, x.Canonical ∧ x.Receives (n / d) ∧
    nearestBits n d = min x.pattern infinityBits := by
  rw [nearestBits, if_neg positive.ne']
  dsimp only
  generalize exponent : max (leadingExponent n d - 52) leastExponent = e
  have lowest : leastExponent ≤ e := exponent ▸ le_max_right _ _
  have unit : (2 : ℚ) ^ e ≠ 0 := (zpow_pos (by norm_num) _).ne'
  have back : (n : ℚ) / d / 2 ^ e * 2 ^ e = n / d := div_mul_cancel₀ _ unit
  obtain ⟨small, large⟩ := scaled_bounds positive positive' exponent
  have nearest := roundQuotient_scaled (n := n) positive' e
  generalize roundQuotient _ _ = s at nearest ⊢
  generalize (n : ℚ) / d / 2 ^ e = q at nearest back small large
  have most : s ≤ 2 ^ 53 := by
    have bound : (s : ℚ) < 2 ^ 53 + 1 := by linarith [nearest.below]
    have bound : s < 2 ^ 53 + 1 := by exact_mod_cast bound
    omega
  rw [← back]
  -- Rounding up may carry into a 54th bit: then the significand is the least one of the next exponent.
  rcases most.lt_or_eq with fits | carries
  · refine ⟨⟨s, e⟩, ⟨fits, lowest, fun above => ?_⟩, nearest.receives fun narrow => ?_, rfl⟩
    · have bound : (2 : ℚ) ^ 52 < s + 1 := by linarith [large above, nearest.above]
      have bound : 2 ^ 52 < s + 1 := by exact_mod_cast bound
      exact Nat.le_of_lt_succ bound
    · have significand : s = 2 ^ 52 := narrow.1
      rw [significand]
      exact_mod_cast large narrow.2
  · subst carries
    refine ⟨⟨2 ^ 52, e + 1⟩, ⟨by norm_num, show leastExponent ≤ e + 1 by omega, fun _ => le_refl _⟩,
      nearest.receives_carry lowest small, congrArg (min · infinityBits) ?_⟩
    have next : (e + 1 - leastExponent).toNat = (e - leastExponent).toNat + 1 := by omega
    rw [Magnitude.pattern, next, Nat.pow_eq]
    dsimp only
    omega

end Scaled

/-! ## The nearest double -/

section Nearest

variable {n d : Nat} {x : Magnitude}

/-- Zero, which receives numbers that are too small for any other magnitude. -/
def Magnitude.zero : Magnitude := ⟨0, leastExponent⟩

theorem Magnitude.zero_canonical : Magnitude.zero.Canonical :=
  ⟨by decide, le_refl _, fun less => absurd less (lt_irrefl _)⟩

theorem Magnitude.zero_value : Magnitude.zero.value = 0 := by
  rw [Magnitude.value, zero, Nat.cast_zero, zero_mul]

theorem nearestBits_eq_pattern_iff (canonical : x.Canonical) (finite : x.pattern < infinityBits)
    (positive : 0 < d) : nearestBits n d = x.pattern ↔ x.Receives (n / d) := by
  rcases Nat.eq_zero_or_pos n with rfl | some
  · have bits : nearestBits 0 d = Magnitude.zero.pattern := by
      simp [nearestBits, Magnitude.pattern, Magnitude.zero]
    have receives : Magnitude.zero.Receives ((0 : ℕ) / d) := by
      rw [Nat.cast_zero, zero_div, ← Magnitude.zero_value]
      exact Magnitude.receives_value _
    rw [bits]
    constructor
    · intro same
      rwa [← Magnitude.eq_of_pattern_eq Magnitude.zero_canonical canonical same]
    · intro receives'
      rw [receives.unique receives' Magnitude.zero_canonical canonical]
  · obtain ⟨y, canonical', receives, bits⟩ := exists_receives some positive
    rw [bits]
    constructor
    · intro same
      have pattern : y.pattern = x.pattern := by omega
      rwa [← Magnitude.eq_of_pattern_eq canonical' canonical pattern]
    · intro receives'
      rw [receives.unique receives' canonical' canonical]
      omega

theorem nearestBits_le (n d : Nat) : nearestBits n d ≤ infinityBits := by
  rw [nearestBits]
  split
  · exact Nat.zero_le _
  · exact Nat.min_le_right _ _

theorem nearest_bits (n d : Nat) : (nearest n d).bits.toNat = nearestBits n d := by
  have bound := nearestBits_le n d
  refine UInt64.toNat_ofNat_of_lt' ?_
  rw [infinityBits_eq] at bound
  simp only [UInt64.size]
  omega

theorem nearest_isNegative (n d : Nat) : (nearest n d).isNegative = false := by
  have bound := nearestBits_le n d
  rw [infinityBits_eq] at bound
  rw [Double.isNegative, nearest_bits, decide_eq_false_iff_not, Nat.pow_eq]
  omega

theorem nearest_value (n d : Nat) : (nearest n d).value = (nearest n d).magnitude.value := by
  rw [Double.value, nearest_isNegative, if_neg Bool.false_ne_true]

/-- A quotient is read as a finite double just if the magnitude of the double receives it. -/
theorem nearest_magnitude_iff (canonical : x.Canonical) (finite : x.pattern < infinityBits)
    (positive : 0 < d) :
    (nearest n d).IsFinite ∧ (nearest n d).magnitude = x ↔ x.Receives (n / d) := by
  have fields := (nearest n d).toNat_bits
  rw [nearest_bits, nearest_isNegative, if_neg Bool.false_ne_true, zero_add] at fields
  rw [← nearestBits_eq_pattern_iff canonical finite positive, fields, Double.isFinite_iff]
  constructor
  · rintro ⟨-, rfl⟩
    rfl
  · intro same
    refine ⟨?_, Magnitude.eq_of_pattern_eq (Double.magnitude_canonical _) canonical same⟩
    rw [same]
    exact finite

end Nearest

end Lox.Number
