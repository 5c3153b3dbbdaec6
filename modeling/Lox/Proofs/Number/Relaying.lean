import Lox.Proofs.Number.Layouts
import Lox.Proofs.Number.Thresholds

/-!
# Laying a literal out anew

A program prints a number with the text of its literal, in which an exponent near zero is spelled out and
any other loses the zeros in front of it. For the shortest decimal of a number that is not printed digit by
digit this is the layout with wider limits and no zeros to spare (`relaidText_eq`). The decimals that would
go wrong have a leading power of ten from 16 to 20; only whole numbers below `10 ^ 21` have one of these.
-/

namespace Lox.Number

/-- Printed numbers are positional from `10 ^ -6` up to `10 ^ 20`. -/
def printed : Format :=
  { lowest := -6, highest := 20, pointZero := false, exponentWidth := 1 }

/-! ## Reading the exponent -/

theorem isDigit_eq (c : Char) : c.isDigit = Lox.isDigit c := by
  rw [Bool.eq_iff_iff]
  simp [Char.isDigit, Lox.isDigit, Char.le_def]

theorem readNatural?_of_numeral {digits : List Char} (numeral : IsNumeral digits) :
    readNatural? digits = some (digitsValue digits) := by
  have some : digits.isEmpty = false := by simpa using numeral.1
  have all : digits.any (!·.isDigit) = false := by
    simp only [List.any_eq_false, Bool.not_eq_true', isDigit_eq]
    exact fun c member => by simp [numeral.2 c member]
  rw [readNatural?, some, all, digitsValue, ← Nat.ofDigitChars_eq_foldl]
  rfl

namespace Decimal

variable {d : Decimal}

theorem readInteger?_exponent (d : Decimal) (zeros : Nat) :
    readInteger? (d.exponentSign :: (List.replicate zeros '0' ++ d.exponentDigits)) =
      some d.leading := by
  have natural : readNatural? (List.replicate zeros '0' ++ d.exponentDigits) =
      some d.leading.natAbs := by
    have numeral : IsNumeral d.exponentDigits := toDigits_numeral _
    rw [readNatural?_of_numeral (zeros_numeral numeral zeros), digitsValue_append,
      digitsValue_zeros, exponentDigits, digitsValue_toDigits, Nat.zero_mul, Nat.zero_add]
  unfold exponentSign
  split
  · rw [readInteger?, natural, Option.map_some, Option.some.injEq]
    omega
  · rw [readInteger?, natural, Option.map_some, Option.some.injEq, Int.ofNat_eq_natCast]
    omega

/-! ## Taking the mantissa apart -/

/-- Without its sign and its point, the mantissa is the digits. -/
theorem digits_of_mantissa (d : Decimal) (negative : Bool) :
    ((signed negative d.mantissa).dropWhile (· == '-')).filter (· != '.') = d.digits := by
  have unsigned : d.mantissa.dropWhile (· == '-') = d.mantissa := by
    have head := d.head_mantissa
    cases mantissa : d.mantissa with
    | nil => rfl
    | cons c cs =>
      have other : c ≠ '-' := by simpa [mantissa] using head
      exact List.dropWhile_cons_of_neg (by simpa using other)
  have plain : ∀ {cs : List Char}, (∀ c ∈ cs, Lox.isDigit c = true) → cs.filter (· != '.') = cs := by
    intro cs digits
    refine List.filter_eq_self.2 fun c member => bne_iff_ne.2 ?_
    rintro rfl
    cases digits '.' member
  have signless : (signed negative d.mantissa).dropWhile (· == '-') = d.mantissa := by
    cases negative with
    | false => exact unsigned
    | true => exact (List.dropWhile_cons_of_pos rfl).trans unsigned
  rw [signless]
  rcases d.mantissa_cases with ⟨mantissa, -⟩ | ⟨first, others, digits, before, behind, mantissa⟩
  · rw [mantissa, plain d.digits_numeral.2]
  · have point : ('.' :: others).filter (· != '.') = others := by
      rw [List.filter_cons_of_neg (by simp), plain behind.2]
    rw [mantissa, List.filter_append, plain before.2, point, digits]
    rfl

theorem span_exponential (d : Decimal) (negative : Bool) (width : Nat) :
    (signed negative (d.exponential width)).span (· != 'e') =
      (signed negative d.mantissa, 'e' :: d.exponentSign ::
        (List.replicate (width - d.exponentDigits.length) '0' ++ d.exponentDigits)) := by
  have all : ∀ c ∈ signed negative d.mantissa, (c != 'e') = true := by
    intro c member
    refine bne_iff_ne.2 ?_
    rintro rfl
    cases negative with
    | false => exact d.not_mem_mantissa member
    | true => exact d.not_mem_mantissa (by simpa [signed] using member)
  rw [exponential_eq, signed_append, List.span_eq_takeWhile_dropWhile,
    List.takeWhile_append_of_pos all, List.dropWhile_append_of_pos all]
  simp

/-! ## The layout -/

theorem relaid?_plain {cs : List Char} (plain : 'e' ∉ cs) : relaid? cs = some cs := by
  rw [relaid?, if_neg (by simpa using plain)]
  rfl

/-- An exponent stays if it is far from zero, and otherwise the digits go behind a point. -/
theorem relaid?_exponential (d : Decimal) (negative : Bool) (width : Nat) :
    relaid? (signed negative (d.exponential width)) =
      some (signed negative (if 21 ≤ d.leading ∨ d.leading ≤ -7 then d.exponential 1
        else '0' :: '.' :: List.replicate (-d.leading - 1).toNat '0' ++ d.digits)) := by
  have exponent : (signed negative (d.exponential width)).contains 'e' = true := by
    rw [List.contains_iff_mem, mem_signed]
    exact d.mem_exponential width
  have minus : ((signed negative d.mantissa).head? == some '-') = negative := by
    rw [Bool.eq_iff_iff, beq_iff_eq, signed_head d.head_mantissa]
  rw [relaid?, if_pos exponent, span_exponential]
  simp only [List.tail_cons, readInteger?_exponent, Option.bind_eq_bind, Option.bind_some,
    digits_of_mantissa, minus]
  split
  · next far =>
    have sign : (if 0 < d.leading then '+' else '-') = d.exponentSign := by
      unfold exponentSign
      split <;> split <;> first | rfl | omega
    rw [sign, exponential_one, signed_append]
    rfl
  · rfl

/-- Laid out anew, the literal of a small fraction or of a large number is the printed decimal. -/
theorem relaid?_layOut (apart : d.exponent < 0 ∧ d.leading ≤ 15 ∨ 20 < d.leading)
    (positive : 0 < d.coefficient) (negative : Bool) :
    relaid? (signed negative (literal.layOut d)) = some (signed negative (printed.layOut d)) := by
  have shown : literal.layOut d =
      if -4 ≤ d.leading ∧ d.leading ≤ 15 then d.positional true else d.exponential 2 := rfl
  have direct : printed.layOut d =
      if -6 ≤ d.leading ∧ d.leading ≤ 20 then d.positional false else d.exponential 1 := rfl
  rw [shown, direct]
  by_cases near : -4 ≤ d.leading ∧ d.leading ≤ 15
  -- the text has no exponent, and a fraction has digits behind its point
  · have neg : d.exponent < 0 := by omega
    have same : d.positional true = d.positional false := by
      unfold positional
      dsimp only
      rw [if_neg (not_le.2 neg), if_neg (not_le.2 neg)]
    rw [if_pos near, if_pos (by omega), same]
    refine relaid?_plain ?_
    rw [mem_signed]
    exact (unsignedValue_positional positive false).1
  · rw [if_neg near, relaid?_exponential]
    by_cases far : 21 ≤ d.leading ∨ d.leading ≤ -7
    · rw [if_pos far, if_neg (by omega)]
    · have small : ¬ 0 ≤ d.leading := by omega
      have neg : ¬ 0 ≤ d.exponent := by omega
      rw [if_neg far, if_pos (by omega), positional]
      dsimp only
      rw [if_neg neg, if_neg small]

end Decimal

/-! ## Every finite number -/

namespace Magnitude

variable {x : Magnitude} (canonical : x.Canonical) (positive : 0 < x.significand)
include canonical positive

/-- A number that is not whole is less than `10 ^ 16`, since its significand has 53 bits. -/
theorem leading_of_part (part : ∀ n : Nat, x.value ≠ n) : x.shortest.leading ≤ 15 := by
  have neg : x.exponent < 0 := by
    refine not_le.1 fun nonneg => ?_
    obtain ⟨k, exponent⟩ := Int.eq_ofNat_of_zero_le nonneg
    refine part (x.significand * 2 ^ k) ?_
    rw [value, exponent, zpow_natCast]
    push_cast
    rfl
  have unit : (2 : ℚ) ^ x.exponent ≤ 1 := zpow_le_one_of_nonpos₀ (by norm_num) neg.le
  have bits : (x.significand : ℚ) < 2 ^ 53 := by exact_mod_cast canonical.bits
  refine (lt_ten_pow_sixteen_iff canonical positive).1 ?_
  calc x.value = x.significand * 2 ^ x.exponent := rfl
    _ ≤ x.significand := mul_le_of_le_one_right (Nat.cast_nonneg _) unit
    _ < 2 ^ 53 := bits
    _ < 10 ^ 16 := by norm_num

/-- A literal that is printed at all is laid out anew without fail. -/
theorem relaid?_finiteLiteralText (large : ∀ n : Nat, x.value = n → ¬ x.value < 10 ^ 21)
    (negative : Bool) :
    relaid? (finiteLiteralText negative x) = some (signed negative (printed.layOut x.shortest)) := by
  rw [finiteLiteralText, if_neg positive.ne']
  refine Decimal.relaid?_layOut ?_ (shortest_coefficient_pos canonical.least positive) negative
  by_cases whole : ∃ n : Nat, x.value = n
  · obtain ⟨n, value⟩ := whole
    exact .inr (not_le.1 (mt (lt_exactLimit_iff canonical positive).2 (large n value)))
  · have part := not_exists.1 whole
    refine .inl ⟨not_le.1 (mt (whole_iff canonical positive).2 whole), ?_⟩
    exact leading_of_part canonical positive part

theorem relaidText_eq (large : ∀ n : Nat, x.value = n → ¬ x.value < 10 ^ 21) (negative : Bool) :
    relaidText negative x = signed negative (printed.layOut x.shortest) := by
  rw [relaidText, relaid?_finiteLiteralText canonical positive large, Option.getD_some]

end Magnitude

end Lox.Number
