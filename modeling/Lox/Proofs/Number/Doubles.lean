import Lox.Number.Binary
import Mathlib.Algebra.Order.Field.Power
import Mathlib.Algebra.Order.Field.Rat
import Mathlib.Tactic.Linarith
import Mathlib.Tactic.NormNum

/-!
# The values of doubles

A finite double stands for a rational number. Its sign and its magnitude determine it, and each magnitude
whose significand fills its bits, or whose exponent is the least, is that of a bit pattern.
-/

namespace Lox.Number

theorem Double.specialExponent_eq : specialExponent = 2047 := rfl

theorem infinityBits_eq : infinityBits = 2047 * 2 ^ 52 := rfl

/-- The number that a magnitude denotes. -/
def Magnitude.value (x : Magnitude) : ℚ := x.significand * 2 ^ x.exponent

/-- Magnitudes as doubles have them: the significand fills its bits, unless the exponent is the least. -/
structure Magnitude.Canonical (x : Magnitude) : Prop where
  bits : x.significand < 2 ^ 53
  least : leastExponent ≤ x.exponent
  full : leastExponent < x.exponent → 2 ^ 52 ≤ x.significand

/-- The bit pattern of a magnitude, if it is not too large for one. -/
def Magnitude.pattern (x : Magnitude) : Nat :=
  (x.exponent - leastExponent).toNat * 2 ^ 52 + x.significand

/-- The first magnitude comes before the second. -/
def Magnitude.Below (x y : Magnitude) : Prop :=
  x.exponent < y.exponent ∨ x.exponent = y.exponent ∧ x.significand < y.significand

namespace Magnitude

variable {x y : Magnitude}

theorem below_or_eq_or_below (x y : Magnitude) : x.Below y ∨ x = y ∨ y.Below x := by
  rcases lt_trichotomy x.exponent y.exponent with less | same | greater
  · exact .inl (.inl less)
  · rcases lt_trichotomy x.significand y.significand with less | equal | greater
    · exact .inl (.inr ⟨same, less⟩)
    · obtain ⟨s, e⟩ := x
      obtain ⟨s', e'⟩ := y
      exact .inr (.inl (by simp_all))
    · exact .inr (.inr (.inr ⟨same.symm, greater⟩))
  · exact .inr (.inr (.inl greater))

/-- Bit patterns are in the order of the magnitudes. -/
theorem Below.pattern_lt (below : x.Below y) (canonical : x.Canonical) (canonical' : y.Canonical) :
    x.pattern < y.pattern := by
  obtain ⟨bits, least, -⟩ := canonical
  obtain ⟨-, least', full⟩ := canonical'
  simp only [pattern, leastExponent] at *
  rcases below with less | ⟨same, less⟩
  · have filled := full (by omega)
    obtain ⟨k, apart⟩ := Int.eq_ofNat_of_zero_le (show 0 ≤ y.exponent - x.exponent - 1 by omega)
    have steps : (y.exponent - -1074).toNat = (x.exponent - -1074).toNat + (k + 1) := by omega
    omega
  · rw [same]
    omega

theorem eq_of_pattern_eq (canonical : x.Canonical) (canonical' : y.Canonical)
    (same : x.pattern = y.pattern) : x = y := by
  rcases x.below_or_eq_or_below y with below | equal | below
  · exact absurd same (below.pattern_lt canonical canonical').ne
  · exact equal
  · exact absurd same (below.pattern_lt canonical' canonical).ne'

end Magnitude

namespace Double

variable {x y : Double}

/-- The bit pattern is neither that of an infinity nor that of a NaN. -/
def IsFinite (x : Double) : Prop := x.exponentField ≠ specialExponent

instance (x : Double) : Decidable x.IsFinite := inferInstanceAs (Decidable (_ ≠ _))

/-- The number that a finite double denotes. -/
def value (x : Double) : ℚ := if x.isNegative then -x.magnitude.value else x.magnitude.value

theorem magnitude_canonical (x : Double) : x.magnitude.Canonical := by
  have small : x.fraction < 2 ^ 52 := Nat.mod_lt _ (by decide)
  unfold magnitude
  split
  · exact ⟨by dsimp only; omega, le_refl _, fun less => absurd less (lt_irrefl _)⟩
  · next e _ =>
    refine ⟨?_, ?_, fun _ => ?_⟩
    · simp only [Nat.pow_eq]
      omega
    · simp only [leastExponent]
      omega
    · simp only [Nat.pow_eq]
      omega

/-- The fields of the bit pattern, put together again. -/
theorem pattern_magnitude (x : Double) :
    x.magnitude.pattern = x.exponentField * 2 ^ 52 + x.fraction := by
  unfold magnitude
  split
  · next field => simp [Magnitude.pattern, field]
  · next e field =>
    have shift : (e + leastExponent - leastExponent).toNat = e := by omega
    simp only [Magnitude.pattern, shift, field, Nat.pow_eq]
    omega

theorem toNat_bits (x : Double) :
    x.bits.toNat = (if x.isNegative then 2 ^ 63 else 0) + x.magnitude.pattern := by
  have range : x.bits.toNat < 2 ^ 64 := x.bits.toNat_lt
  rw [pattern_magnitude]
  simp only [isNegative, exponentField, fraction, Nat.pow_eq, decide_eq_true_eq]
  split <;> omega

/-- A double is determined by its sign and its magnitude. -/
theorem ext_magnitude (sign : x.isNegative = y.isNegative) (magnitude : x.magnitude = y.magnitude) :
    x = y := by
  have bits : x.bits = y.bits := by
    apply UInt64.toNat_inj.1
    rw [toNat_bits, toNat_bits, sign, magnitude]
  exact congrArg Double.mk bits

theorem isFinite_iff : x.IsFinite ↔ x.magnitude.pattern < infinityBits := by
  have small : x.fraction < 2 ^ 52 := Nat.mod_lt _ (by decide)
  have range : x.exponentField < 2 ^ 11 := Nat.mod_lt _ (by decide)
  rw [pattern_magnitude, infinityBits_eq, IsFinite, specialExponent_eq]
  omega

end Double

end Lox.Number
