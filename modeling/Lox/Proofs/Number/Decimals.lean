import Lox.Number.Shortest
import Lox.Proofs.Number.Rounding

/-!
# Shortest decimals

The search goes from coarse grids to fine ones and stops at the first that has a point which rounds to
the double. So the decimal that it finds rounds to the double, and none that does has a greater exponent,
a trailing zero, or fewer digits.
-/

namespace Lox.Number

/-- The number that a decimal denotes. -/
def Decimal.value (d : Decimal) : ℚ := d.coefficient * 10 ^ d.exponent

namespace Decimal

variable {d : Decimal}

theorem length_pos (d : Decimal) : 0 < d.digits.length := Nat.length_toDigits_pos

theorem coefficient_lt (d : Decimal) : d.coefficient < 10 ^ d.digits.length :=
  (Nat.length_toDigits_le_iff (by norm_num) d.length_pos).1 (le_refl _)

theorem le_coefficient (positive : 0 < d.coefficient) :
    10 ^ (d.digits.length - 1) ≤ d.coefficient := by
  rcases Nat.eq_zero_or_pos (d.digits.length - 1) with single | more
  · rw [single]
    exact positive
  · by_contra less
    have short := (Nat.length_toDigits_le_iff (b := 10) (by norm_num) more).2 (not_le.1 less)
    have length := d.length_pos
    unfold digits at *
    omega

/-- The first digit counts the leading power of ten. -/
theorem value_bounds (positive : 0 < d.coefficient) :
    10 ^ d.leading ≤ d.value ∧ d.value < 10 ^ (d.leading + 1) := by
  have unit : (0 : ℚ) < 10 ^ d.exponent := zpow_pos (by norm_num) _
  have length := d.length_pos
  have leading : d.leading = (d.digits.length - 1 : ℕ) + d.exponent := by
    rw [Decimal.leading]
    omega
  have next : d.leading + 1 = d.digits.length + d.exponent := by
    rw [Decimal.leading]
    omega
  have low : (10 : ℚ) ^ (d.digits.length - 1) ≤ d.coefficient := by
    exact_mod_cast le_coefficient positive
  have high : (d.coefficient : ℚ) < 10 ^ d.digits.length := by exact_mod_cast d.coefficient_lt
  rw [next, leading, zpow_add₀ (by norm_num), zpow_add₀ (by norm_num), zpow_natCast, zpow_natCast]
  exact ⟨mul_le_mul_of_nonneg_right low unit.le, mul_lt_mul_of_pos_right high unit⟩

end Decimal

/-! ## The neighbourhood -/

namespace Magnitude

variable {x : Magnitude}

theorem fivePower_eq : fivePower = 5 ^ scale := by
  delta fivePower
  rw [Nat.pow_eq]

/-- A quarter of a unit in the last place, as the search has it. -/
def quarter (x : Magnitude) : Nat := Nat.pow 2 (x.exponent + scale - 2).toNat * fivePower

theorem quarter_eq (least : leastExponent ≤ x.exponent) :
    (x.quarter : ℚ) = 2 ^ x.exponent / 4 * 10 ^ scale := by
  have bound : (-1074 : ℤ) ≤ x.exponent := least
  have deep : (scale : ℤ) = 1076 := rfl
  have exponent : ((x.exponent + scale - 2).toNat : ℤ) = x.exponent + scale - 2 := by omega
  have ten : (10 : ℚ) ^ scale = 2 ^ scale * 5 ^ scale := by
    rw [← mul_pow]
    norm_num
  rw [quarter, fivePower_eq, Nat.pow_eq, ten]
  push_cast
  rw [← zpow_natCast (2 : ℚ) (Int.toNat _), exponent, zpow_sub₀ two_ne_zero,
    zpow_add₀ two_ne_zero, zpow_natCast]
  ring

theorem quarter_pos (x : Magnitude) : 0 < x.quarter := by
  rw [quarter, fivePower_eq, Nat.pow_eq]
  positivity

theorem neighbourhood_eq (x : Magnitude) :
    x.neighbourhood =
      { value := 4 * x.significand * x.quarter
        lower := (4 * x.significand - if x.IsNarrow then 1 else 2) * x.quarter
        upper := (4 * x.significand + 2) * x.quarter
        closed := x.significand % 2 = 0 } := rfl

section Units

variable (least : leastExponent ≤ x.exponent)
include least

theorem neighbourhood_value : (x.neighbourhood.value : ℚ) = x.value * 10 ^ scale := by
  rw [neighbourhood_eq]
  push_cast
  rw [quarter_eq least, value]
  ring

theorem neighbourhood_upper : (x.neighbourhood.upper : ℚ) = x.upper * 10 ^ scale := by
  rw [neighbourhood_eq]
  push_cast
  rw [quarter_eq least, upper]
  ring

theorem neighbourhood_lower (positive : 0 < x.significand) :
    (x.neighbourhood.lower : ℚ) = x.lower * 10 ^ scale := by
  have cast (k : Nat) (small : k ≤ 4) :
      ((4 * x.significand - k : ℕ) : ℚ) = 4 * x.significand - k := by
    rw [Nat.cast_sub (by omega)]
    push_cast
    rfl
  rw [neighbourhood_eq, lower]
  -- the significand is positive, so that the subtraction of natural numbers cuts nothing off
  split
  · rw [Nat.cast_mul, cast 1 (by omega), quarter_eq least]
    push_cast
    ring
  · rw [Nat.cast_mul, cast 2 (by omega), quarter_eq least]
    push_cast
    ring

/-- The neighbourhood contains the points that round to the magnitude. -/
theorem contains_iff (positive : 0 < x.significand) (p : Nat) :
    x.neighbourhood.contains p = true ↔ x.Receives (p / 10 ^ scale) := by
  have unit : (0 : ℚ) < 10 ^ scale := by positivity
  have closed : x.neighbourhood.closed = decide (x.significand % 2 = 0) := rfl
  rw [Receives, le_div_iff₀ unit, div_le_iff₀ unit, lt_div_iff₀ unit, div_lt_iff₀ unit,
    ← neighbourhood_lower least positive, ← neighbourhood_upper least, Neighbourhood.contains, closed]
  by_cases even : x.significand % 2 = 0
  · simp only [even, decide_true, if_true, Bool.and_eq_true, decide_eq_true_eq, Nat.cast_le]
  · simp only [even, decide_false, Bool.false_eq_true, if_false, Bool.and_eq_true,
      decide_eq_true_eq, Nat.cast_lt]

end Units

end Magnitude

/-! ## The search -/

namespace Neighbourhood

variable {x : Neighbourhood} {p q r : Nat}

theorem contains_between (first : x.contains p = true) (last : x.contains r = true) (le : p ≤ q)
    (le' : q ≤ r) : x.contains q = true := by
  unfold contains at *
  split at first
  · next closed =>
    simp only [closed, if_true, Bool.and_eq_true, decide_eq_true_eq] at *
    omega
  · next strict =>
    simp only [strict, if_false, Bool.and_eq_true, decide_eq_true_eq, Bool.false_eq_true] at *
    omega

theorem contains_of_nearestOnGrid? {n c : Nat} (found : x.nearestOnGrid? n = some c) :
    x.contains (c * 10 ^ n) = true := by
  unfold nearestOnGrid? at found
  dsimp only at found
  split at found
  · next below above =>
    obtain rfl := Option.some.inj found
    split
    · exact below
    · exact above
  · next below _ =>
    obtain rfl := Option.some.inj found
    exact below
  · next above =>
    obtain rfl := Option.some.inj found
    exact above
  · cases found

/-- Between a point of the grid and the value lies one of the two points beside the value. -/
theorem nearestOnGrid?_eq_none {n : Nat} (value : x.contains x.value = true)
    (none : x.nearestOnGrid? n = none) (m : Nat) : x.contains (m * 10 ^ n) = false := by
  have below : x.contains (x.value / 10 ^ n * 10 ^ n) = false ∧
      x.contains ((x.value / 10 ^ n + 1) * 10 ^ n) = false := by
    unfold nearestOnGrid? at none
    dsimp only at none
    split at none
    · cases none
    · cases none
    · cases none
    · next below above => exact ⟨below, above⟩
  obtain ⟨below, above⟩ := below
  refine Bool.eq_false_iff.2 fun found => ?_
  -- The neighbourhood is an interval, so with such a point it would have the one beside the value.
  rcases le_or_gt (m * 10 ^ n) x.value with le | greater
  · have quotient : m ≤ x.value / 10 ^ n := (Nat.le_div_iff_mul_le (by positivity)).2 le
    have between := contains_between found value (Nat.mul_le_mul_right _ quotient)
      (Nat.div_mul_le_self ..)
    rw [between] at below
    cases below
  · have quotient : x.value / 10 ^ n < m := (Nat.div_lt_iff_lt_mul (by positivity)).2 greater
    have beyond : x.value ≤ (x.value / 10 ^ n + 1) * 10 ^ n := by
      rw [mul_comm]
      exact (Nat.lt_mul_div_succ _ (by positivity)).le
    have between := contains_between value found beyond (Nat.mul_le_mul_right _ quotient)
    rw [between] at above
    cases above

/-- The decimal is a point of the neighbourhood, and no coarser grid up to a bound has one. -/
structure Finds (x : Neighbourhood) (top : Nat) (d : Decimal) (k : Nat) : Prop where
  bound : k ≤ top
  exponent : d.exponent = k - scale
  contains : x.contains (d.coefficient * 10 ^ k) = true
  coarser : ∀ j, k < j → j ≤ top → ∀ m, x.contains (m * 10 ^ j) = false

theorem search_finds (value : x.contains x.value = true) (top : Nat) :
    ∃ k, x.Finds top (x.search top) k := by
  induction top with
  | zero =>
    refine ⟨0, le_refl 0, ?_, ?_, fun j above below => absurd above below.not_gt⟩
    · simp [search]
    · simpa [search] using value
  | succ top inductionHypothesis =>
    rw [search]
    split
    · next c found =>
      exact ⟨top + 1, le_refl _, rfl, contains_of_nearestOnGrid? found,
        fun j above below => absurd above below.not_gt⟩
    · next nothing =>
      -- This grid has no decimal that would do, so it may be counted among the coarser ones.
      obtain ⟨k, finds⟩ := inductionHypothesis
      refine ⟨k, finds.bound.trans (Nat.le_succ top), finds.exponent, finds.contains, ?_⟩
      intro j above below m
      rcases below.lt_or_eq with less | rfl
      · exact finds.coarser j above (Nat.le_of_lt_succ less) m
      · exact nearestOnGrid?_eq_none value nothing m

end Neighbourhood

/-- The bound rests on `2 ^ 93 ≤ 10 ^ 28`. -/
theorem lt_ten_pow_digitBound (n : Nat) : n < 10 ^ digitBound (n.log2 + 1) := by
  refine Nat.lt_log2_self.trans_le ?_
  generalize n.log2 + 1 = bits
  refine (Nat.pow_le_pow_iff_left (show 93 ≠ 0 by decide)).1 ?_
  have digits : 28 * bits ≤ 93 * digitBound bits := by
    rw [digitBound]
    omega
  calc (2 ^ bits) ^ 93 = (2 ^ 93) ^ bits := by rw [← pow_mul, ← pow_mul, mul_comm]
    _ ≤ (10 ^ 28) ^ bits := Nat.pow_le_pow_left (by norm_num) bits
    _ = 10 ^ (28 * bits) := by rw [← pow_mul]
    _ ≤ 10 ^ (93 * digitBound bits) := Nat.pow_le_pow_right (by norm_num) digits
    _ = (10 ^ digitBound bits) ^ 93 := by rw [← pow_mul, mul_comm]

/-! ## The shortest decimal -/

namespace Magnitude

variable {x : Magnitude} (least : leastExponent ≤ x.exponent) (positive : 0 < x.significand)
include least positive

theorem contains_value : x.neighbourhood.contains x.neighbourhood.value = true := by
  have unit : (10 : ℚ) ^ scale ≠ 0 := by positivity
  rw [contains_iff least positive, neighbourhood_value least, mul_div_cancel_right₀ _ unit]
  exact x.receives_value

omit least in
/-- On a grid too coarse for the search lie zero and points far above the value. -/
theorem not_contains_beyond {j : Nat}
    (beyond : digitBound (x.neighbourhood.value.log2 + 1) < j) (m : Nat) :
    x.neighbourhood.contains (m * 10 ^ j) = false := by
  have bound := lt_ten_pow_digitBound x.neighbourhood.value
  have step : 10 ^ (digitBound (x.neighbourhood.value.log2 + 1) + 1) ≤ 10 ^ j :=
    Nat.pow_le_pow_right (by norm_num) beyond
  have lower : 0 < x.neighbourhood.lower := by
    rw [neighbourhood_eq]
    refine Nat.mul_pos ?_ x.quarter_pos
    split <;> omega
  have upper : x.neighbourhood.upper ≤ 10 * x.neighbourhood.value := by
    rw [neighbourhood_eq]
    calc (4 * x.significand + 2) * x.quarter ≤ 10 * (4 * x.significand) * x.quarter :=
          Nat.mul_le_mul_right _ (by omega)
      _ = 10 * (4 * x.significand * x.quarter) := mul_assoc ..
  refine Bool.eq_false_iff.2 fun found => ?_
  have within : x.neighbourhood.lower ≤ m * 10 ^ j ∧ m * 10 ^ j ≤ x.neighbourhood.upper := by
    unfold Neighbourhood.contains at found
    split at found <;> simp only [Bool.and_eq_true, decide_eq_true_eq] at found <;> omega
  -- zero lies below the interval, and any other point of the grid above it
  rcases Nat.eq_zero_or_pos m with rfl | some
  · omega
  · have multiple : 10 ^ j ≤ m * 10 ^ j := Nat.le_mul_of_pos_left _ some
    rw [pow_succ] at step
    omega

theorem shortest_finds : ∃ k : Nat, x.neighbourhood.contains (x.shortest.coefficient * 10 ^ k) = true ∧
    x.shortest.exponent = k - scale ∧
    ∀ j, k < j → ∀ m, x.neighbourhood.contains (m * 10 ^ j) = false := by
  obtain ⟨k, finds⟩ := Neighbourhood.search_finds (contains_value least positive)
    (digitBound (x.neighbourhood.value.log2 + 1))
  refine ⟨k, finds.contains, finds.exponent, fun j above m => ?_⟩
  rcases le_or_gt j (digitBound (x.neighbourhood.value.log2 + 1)) with within | beyond
  · exact finds.coarser j above within m
  · exact not_contains_beyond positive beyond m

/-- The shortest decimal rounds to the magnitude. -/
theorem receives_shortest : x.Receives x.shortest.value := by
  obtain ⟨k, contains, exponent, -⟩ := shortest_finds least positive
  rw [contains_iff least positive] at contains
  rw [Decimal.value, exponent, zpow_sub₀ (by norm_num), zpow_natCast, zpow_natCast]
  push_cast at contains
  rwa [← mul_div_assoc]

/-- No decimal that rounds to the magnitude has a greater exponent. -/
theorem exponent_le_shortest {d : Decimal} (receives : x.Receives d.value) :
    d.exponent ≤ x.shortest.exponent := by
  obtain ⟨k, -, exponent, coarser⟩ := shortest_finds least positive
  by_contra greater
  obtain ⟨j, grid⟩ := Int.eq_ofNat_of_zero_le (show 0 ≤ d.exponent + scale by omega)
  -- the decimal is a point of a grid that the search has passed over
  have found : x.neighbourhood.contains (d.coefficient * 10 ^ j) = true := by
    have shift : d.exponent = j - scale := by omega
    rw [Decimal.value, shift, zpow_sub₀ (by norm_num), zpow_natCast, zpow_natCast,
      ← mul_div_assoc] at receives
    rw [contains_iff least positive]
    push_cast
    exact receives
  rw [coarser j (by omega)] at found
  cases found

omit least in
theorem lower_pos : 0 < x.lower := by
  have digit : (1 : ℚ) ≤ x.significand := by exact_mod_cast positive
  refine mul_pos ?_ x.unit_pos
  split <;> linarith

omit least in
theorem Receives.pos {q : ℚ} (receives : x.Receives q) : 0 < q :=
  (lower_pos positive).trans_le receives.bounds.1

omit least in
theorem Receives.coefficient_pos {d : Decimal} (receives : x.Receives d.value) :
    0 < d.coefficient := by
  refine Nat.pos_of_ne_zero fun zero => ?_
  have value := receives.pos positive
  rw [Decimal.value, zero, Nat.cast_zero, zero_mul] at value
  exact lt_irrefl 0 value

theorem shortest_coefficient_pos : 0 < x.shortest.coefficient :=
  (receives_shortest least positive).coefficient_pos positive

/-- The shortest decimal ends in a digit that counts. -/
theorem shortest_mod_ten : x.shortest.coefficient % 10 ≠ 0 := by
  intro zero
  obtain ⟨c, multiple⟩ := Nat.dvd_of_mod_eq_zero zero
  have same : (⟨c, x.shortest.exponent + 1⟩ : Decimal).value = x.shortest.value := by
    rw [Decimal.value, Decimal.value, multiple, zpow_add_one₀ (by norm_num)]
    push_cast
    ring
  -- without the zero it would be a decimal on a coarser grid
  have coarser := exponent_le_shortest least positive (same ▸ receives_shortest least positive)
  dsimp only at coarser
  omega

/-- No decimal that rounds to the magnitude has fewer digits: between it and the shortest one there
would be a power of ten, on a grid too coarse. -/
theorem shortest_digits_le {d : Decimal} (receives : x.Receives d.value) :
    x.shortest.digits.length ≤ d.digits.length := by
  by_contra fewer
  have digits := d.length_pos
  obtain ⟨m, length⟩ : ∃ m, x.shortest.digits.length = m + 1 := ⟨_, (Nat.succ_pred (by omega)).symm⟩
  have coarser := exponent_le_shortest least positive receives
  have small : d.coefficient ≤ 10 ^ m :=
    d.coefficient_lt.le.trans (Nat.pow_le_pow_right (by norm_num) (by omega))
  have large : 10 ^ m ≤ x.shortest.coefficient := by
    have large := Decimal.le_coefficient (shortest_coefficient_pos least positive)
    rwa [length] at large
  have power : (⟨1, m + x.shortest.exponent⟩ : Decimal).value = 10 ^ m * 10 ^ x.shortest.exponent := by
    rw [Decimal.value, Nat.cast_one, one_mul, zpow_add₀ (by norm_num), zpow_natCast]
  have between : x.Receives (⟨1, m + x.shortest.exponent⟩ : Decimal).value := by
    refine receives.between (receives_shortest least positive) ?_ ?_
    · rw [power]
      refine mul_le_mul (by exact_mod_cast small) ?_ (by positivity) (by positivity)
      exact zpow_le_zpow_right₀ (by norm_num) coarser
    · rw [power]
      exact mul_le_mul_of_nonneg_right (by exact_mod_cast large) (by positivity)
  have coarse := exponent_le_shortest least positive between
  dsimp only at coarse
  omega

end Magnitude

end Lox.Number
