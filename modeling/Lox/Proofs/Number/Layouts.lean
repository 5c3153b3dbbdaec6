import Lox.Proofs.Number.Digits

/-!
# Layouts of a decimal

However a decimal is laid out, the text denotes it. The positional form of a fraction has digits on both
sides of its point and is as short as it can be; the exponential form has one digit before the point.
-/

namespace Lox.Number

theorem not_mem_of_numeral {digits : List Char} (numeral : IsNumeral digits) {c : Char}
    (other : isDigit c = false) : c ∉ digits := fun member => by
  rw [numeral.2 c member] at other
  cases other

theorem zeros_numeral {digits : List Char} (numeral : IsNumeral digits) (k : Nat) :
    IsNumeral (List.replicate k '0' ++ digits) := by
  refine ⟨by simp [numeral.1], fun c member => ?_⟩
  rcases List.mem_append.1 member with zero | digit
  · rw [(List.mem_replicate.1 zero).2]
    decide
  · exact numeral.2 c digit

namespace Decimal

variable {d : Decimal} {whole fraction : List Char}

theorem digits_numeral (d : Decimal) : IsNumeral d.digits := toDigits_numeral _

/-! ## The positional form -/

/-- Digits on both sides of a point that denote the decimal, without superfluous zeros. -/
structure Split (d : Decimal) (whole fraction : List Char) : Prop where
  before : IsNumeral whole
  behind : IsNumeral fraction
  coefficient : digitsValue (whole ++ fraction) = d.coefficient
  length : (fraction.length : ℤ) = -d.exponent
  lead : whole.head? = some '0' → whole = ['0']
  trail : d.coefficient % 10 ≠ 0 → fraction.getLast? ≠ some '0'

theorem Split.value (split : d.Split whole fraction) :
    mantissaValue (whole ++ '.' :: fraction) = d.value := by
  rw [mantissaValue_point split.before, split.coefficient, Decimal.value, ← neg_neg d.exponent,
    ← split.length, zpow_neg, zpow_natCast, div_eq_mul_inv]

theorem Split.not_mem (split : d.Split whole fraction) {c : Char} (other : isDigit c = false)
    (point : c ≠ '.') : c ∉ whole ++ '.' :: fraction := by
  simp only [List.mem_append, List.mem_cons, not_or]
  exact ⟨not_mem_of_numeral split.before other, point, not_mem_of_numeral split.behind other⟩

theorem getLast_digits (counts : d.coefficient % 10 ≠ 0) : d.digits.getLast? ≠ some '0' := by
  rw [digits, getLast_toDigits]
  intro last
  exact counts (digitChar_eq_zero (Nat.mod_lt _ (by norm_num)) (Option.some.inj last))

/-- The point stands among the digits if the first of them counts ones or more. -/
theorem split_inside (positive : 0 < d.coefficient) (neg : d.exponent < 0) (reaches : 0 ≤ d.leading) :
    d.Split (d.digits.take (d.leading.toNat + 1)) (d.digits.drop (d.leading.toNat + 1)) := by
  have numeral := d.digits_numeral
  have length := d.length_pos
  have size : ((d.leading.toNat + 1 : ℕ) : ℤ) = d.digits.length + d.exponent := by
    rw [leading] at *
    omega
  have some : d.leading.toNat + 1 ≠ 0 := Nat.succ_ne_zero _
  generalize d.leading.toNat + 1 = k at *
  refine ⟨⟨?_, ?_⟩, ⟨?_, ?_⟩, ?_, ?_, ?_, ?_⟩
  · rw [ne_eq, List.take_eq_nil_iff]
    simp [some, numeral.1]
  · exact fun c member => numeral.2 c (List.mem_of_mem_take member)
  · rw [ne_eq, List.drop_eq_nil_iff]
    omega
  · exact fun c member => numeral.2 c (List.mem_of_mem_drop member)
  · rw [List.take_append_drop, digits, digitsValue_toDigits]
  · rw [List.length_drop]
    omega
  · intro zero
    rw [List.head?_take, if_neg some] at zero
    exact absurd zero (head_toDigits positive)
  · intro counts
    rw [List.getLast?_drop, if_neg (by omega)]
    exact getLast_digits counts

/-- Otherwise there is a zero before the point, and zeros behind it make up for what is missing. -/
theorem split_before (below : d.leading < 0) :
    d.Split ['0'] (List.replicate (-d.leading - 1).toNat '0' ++ d.digits) := by
  have numeral := d.digits_numeral
  have length := d.length_pos
  have size : ((-d.leading - 1).toNat : ℤ) = -d.leading - 1 := by omega
  generalize (-d.leading - 1).toNat = k at *
  refine ⟨⟨by simp, by simp; decide⟩, zeros_numeral numeral k, ?_, ?_, fun _ => rfl, ?_⟩
  · have zeros : ['0'] ++ (List.replicate k '0' ++ d.digits) =
        List.replicate (k + 1) '0' ++ d.digits := by
      rw [List.replicate_succ]
      rfl
    rw [zeros, digitsValue_append, digitsValue_zeros, digits, digitsValue_toDigits]
    omega
  · rw [List.length_append, List.length_replicate]
    rw [leading] at *
    push_cast
    omega
  · intro counts
    rw [List.getLast?_append_of_ne_nil _ numeral.1]
    exact getLast_digits counts

/-- A decimal with a negative exponent is laid out with a point among its digits or before them. -/
theorem exists_split (positive : 0 < d.coefficient) (neg : d.exponent < 0) (pointZero : Bool) :
    ∃ whole fraction, d.positional pointZero = whole ++ '.' :: fraction ∧
      d.Split whole fraction := by
  unfold positional
  dsimp only
  rw [if_neg (not_le.2 neg)]
  split
  · next reaches => exact ⟨_, _, rfl, split_inside positive neg reaches⟩
  · next below => exact ⟨_, _, rfl, split_before (not_le.1 below)⟩

theorem positional_of_nonneg (nonneg : 0 ≤ d.exponent) (pointZero : Bool) :
    d.positional pointZero =
      d.digits ++ List.replicate d.exponent.toNat '0' ++ if pointZero then ['.', '0'] else [] :=
  if_pos nonneg

/-- A whole decimal is laid out as digits, and perhaps a point and a zero. -/
theorem value_of_nonneg (nonneg : 0 ≤ d.exponent) :
    IsNumeral (d.digits ++ List.replicate d.exponent.toNat '0') ∧
      (digitsValue (d.digits ++ List.replicate d.exponent.toNat '0') : ℚ) = d.value := by
  obtain ⟨k, exponent⟩ := Int.eq_ofNat_of_zero_le nonneg
  have numeral := d.digits_numeral
  rw [exponent, Int.toNat_natCast]
  refine ⟨⟨by simp [numeral.1], fun c member => ?_⟩, ?_⟩
  · rcases List.mem_append.1 member with digit | zero
    · exact numeral.2 c digit
    · rw [(List.mem_replicate.1 zero).2]
      decide
  · rw [digitsValue_append, digitsValue_zeros, List.length_replicate, digits, digitsValue_toDigits,
      Decimal.value, exponent, zpow_natCast]
    push_cast
    ring

/-- Without an exponent, the text denotes the decimal. -/
theorem unsignedValue_positional (positive : 0 < d.coefficient) (pointZero : Bool) :
    'e' ∉ d.positional pointZero ∧ unsignedValue (d.positional pointZero) = d.value := by
  rcases le_or_gt 0 d.exponent with nonneg | neg
  · obtain ⟨numeral, value⟩ := value_of_nonneg nonneg
    rw [positional_of_nonneg nonneg]
    generalize d.digits ++ List.replicate d.exponent.toNat '0' = digits at *
    have plain : 'e' ∉ digits := not_mem_of_numeral numeral (by decide)
    cases pointZero with
    | false =>
      rw [if_neg Bool.false_ne_true, List.append_nil, unsignedValue_plain plain,
        mantissaValue_whole numeral, value]
      exact ⟨plain, rfl⟩
    | true =>
      have plain' : 'e' ∉ digits ++ ['.', '0'] := by simp [plain]
      rw [if_pos rfl, unsignedValue_plain plain', mantissaValue_point numeral, digitsValue_concat]
      refine ⟨plain', ?_⟩
      rw [← value, List.length_singleton]
      push_cast
      norm_num
  · obtain ⟨whole, fraction, layout, split⟩ := exists_split positive neg pointZero
    have plain := split.not_mem (c := 'e') (by decide) (by decide)
    rw [layout, unsignedValue_plain plain, split.value]
    exact ⟨plain, rfl⟩

/-! ## The exponential form -/

/-- The first digit, and the others behind a point. -/
def mantissa (d : Decimal) : List Char :=
  match d.digits with
  | first :: second :: rest => first :: '.' :: second :: rest
  | short => short

def exponentSign (d : Decimal) : Char := if d.leading < 0 then '-' else '+'

def exponentDigits (d : Decimal) : List Char := Nat.toDigits 10 d.leading.natAbs

theorem exponential_eq (d : Decimal) (width : Nat) :
    d.exponential width = d.mantissa ++ 'e' :: d.exponentSign ::
      (List.replicate (width - d.exponentDigits.length) '0' ++ d.exponentDigits) :=
  List.append_assoc ..

theorem mem_exponential (d : Decimal) (width : Nat) : 'e' ∈ d.exponential width := by
  rw [exponential_eq]
  simp

/-- One digit is always there, so that none is filled in. -/
theorem exponential_one (d : Decimal) :
    d.exponential 1 = d.mantissa ++ 'e' :: d.exponentSign :: d.exponentDigits := by
  have length : 0 < d.exponentDigits.length := List.length_pos_iff.2 (toDigits_numeral _).1
  have none : 1 - d.exponentDigits.length = 0 := by omega
  rw [exponential_eq, none, List.replicate_zero, List.nil_append]

/-- The mantissa is one digit, or one before the point and others behind it. -/
theorem mantissa_cases (d : Decimal) :
    (d.mantissa = d.digits ∧ d.digits.length = 1) ∨
      ∃ first others, d.digits = first :: others ∧ IsNumeral [first] ∧ IsNumeral others ∧
        d.mantissa = [first] ++ '.' :: others := by
  have numeral := d.digits_numeral
  unfold mantissa
  split
  · next first second rest digits =>
    obtain ⟨here, others⟩ := List.forall_mem_cons.1 (digits ▸ numeral.2)
    exact .inr ⟨first, second :: rest, digits, ⟨by simp, by simpa using here⟩, ⟨by simp, others⟩, rfl⟩
  · next short =>
    refine .inl ⟨rfl, ?_⟩
    have length := d.length_pos
    match digits : d.digits with
    | [] => simp [digits] at length
    | [_] => rfl
    | first :: second :: rest => exact absurd digits (short first second rest)

theorem not_mem_mantissa (d : Decimal) : 'e' ∉ d.mantissa := by
  rcases d.mantissa_cases with ⟨mantissa, -⟩ | ⟨first, others, -, before, behind, mantissa⟩
  · rw [mantissa]
    exact not_mem_of_numeral d.digits_numeral (by decide)
  · have first' : 'e' ∉ [first] := not_mem_of_numeral before (by decide)
    have others' : 'e' ∉ others := not_mem_of_numeral behind (by decide)
    rw [mantissa]
    simpa using And.intro (by simpa using first') others'

theorem mantissaValue_mantissa (d : Decimal) :
    mantissaValue d.mantissa = d.coefficient / 10 ^ (d.digits.length - 1) := by
  have value : digitsValue d.digits = d.coefficient := digitsValue_toDigits _
  rcases d.mantissa_cases with ⟨mantissa, single⟩ | ⟨first, others, digits, before, -, mantissa⟩
  · rw [mantissa, mantissaValue_whole d.digits_numeral, value, single, Nat.sub_self, pow_zero, div_one]
  · rw [mantissa, mantissaValue_point before, List.singleton_append, ← digits, value, digits]
    rfl

theorem exponentValue_sign (d : Decimal) (zeros : Nat) :
    exponentValue (d.exponentSign :: (List.replicate zeros '0' ++ d.exponentDigits)) = d.leading := by
  have value : digitsValue (List.replicate zeros '0' ++ d.exponentDigits) = d.leading.natAbs := by
    rw [digitsValue_append, digitsValue_zeros, exponentDigits, digitsValue_toDigits]
    omega
  unfold exponentSign
  split
  · change -(digitsValue _ : ℤ) = d.leading
    omega
  · change (digitsValue _ : ℤ) = d.leading
    omega

/-- With an exponent, the text denotes the decimal as well. -/
theorem unsignedValue_exponential (d : Decimal) (width : Nat) :
    unsignedValue (d.exponential width) = d.value := by
  have length := d.length_pos
  have leading : d.leading = (d.digits.length - 1 : ℕ) + d.exponent := by
    rw [Decimal.leading]
    omega
  rw [exponential_eq, unsignedValue_exponent d.not_mem_mantissa, mantissaValue_mantissa,
    exponentValue_sign, leading, zpow_add₀ (by norm_num), zpow_natCast, Decimal.value]
  field_simp

/-! ## Both forms -/

theorem unsignedValue_layOut (positive : 0 < d.coefficient) (f : Format) :
    unsignedValue (f.layOut d) = d.value := by
  unfold Format.layOut
  split
  · exact (unsignedValue_positional positive _).2
  · exact unsignedValue_exponential d _

theorem head_of_numeral {digits : List Char} (numeral : IsNumeral digits) (rest : List Char) :
    (digits ++ rest).head? ≠ some '-' := by
  rw [List.head?_append_of_ne_nil _ numeral.1]
  intro minus
  have digit := numeral.2 '-' (List.mem_of_mem_head? minus)
  cases digit

theorem head_positional (positive : 0 < d.coefficient) (pointZero : Bool) :
    (d.positional pointZero).head? ≠ some '-' := by
  rcases le_or_gt 0 d.exponent with nonneg | neg
  · rw [positional_of_nonneg nonneg]
    exact head_of_numeral (value_of_nonneg nonneg).1 _
  · obtain ⟨whole, fraction, layout, split⟩ := exists_split positive neg pointZero
    rw [layout]
    exact head_of_numeral split.before _

theorem head_mantissa (d : Decimal) : d.mantissa.head? ≠ some '-' := by
  rcases d.mantissa_cases with ⟨mantissa, -⟩ | ⟨first, others, -, before, -, mantissa⟩
  · have head := head_of_numeral d.digits_numeral []
    rwa [List.append_nil, ← mantissa] at head
  · rw [mantissa]
    exact head_of_numeral before _

theorem mantissa_ne_nil (d : Decimal) : d.mantissa ≠ [] := by
  rcases d.mantissa_cases with ⟨mantissa, -⟩ | ⟨first, others, -, -, -, mantissa⟩
  · rw [mantissa]
    exact d.digits_numeral.1
  · simp [mantissa]

theorem head_exponential (d : Decimal) (width : Nat) : (d.exponential width).head? ≠ some '-' := by
  rw [exponential_eq, List.head?_append_of_ne_nil _ d.mantissa_ne_nil]
  exact d.head_mantissa

/-- No layout starts with a sign. -/
theorem head_layOut (positive : 0 < d.coefficient) (f : Format) :
    (f.layOut d).head? ≠ some '-' := by
  unfold Format.layOut
  split
  · exact head_positional positive _
  · exact d.head_exponential _

end Decimal

/-! ## Signs -/

theorem signed_head {cs : List Char} (unsigned : cs.head? ≠ some '-') (negative : Bool) :
    (signed negative cs).head? = some '-' ↔ negative = true := by
  cases negative with
  | true => simp [signed]
  | false => simpa [signed] using unsigned

theorem mem_signed {cs : List Char} (negative : Bool) : 'e' ∈ signed negative cs ↔ 'e' ∈ cs := by
  cases negative <;> simp [signed]

theorem signed_append (negative : Bool) (front back : List Char) :
    signed negative (front ++ back) = signed negative front ++ back := by
  cases negative <;> rfl

theorem suffix_signed {negative : Bool} {cs : List Char} (suffix : ['.', '0'] <:+ signed negative cs) :
    ['.', '0'] <:+ cs := by
  cases negative with
  | false => exact suffix
  | true =>
    rcases List.suffix_cons_iff.1 suffix with equal | suffix
    · cases equal
    · exact suffix

end Lox.Number
