import Lox.Proofs.Number.Relaying

/-!
# Printed numbers

A number is printed in one of three forms: as a whole number, digit by digit; as digits around a point;
or with an exponent. The text denotes the number itself or the decimal that is shown for a literal, so
that different numbers have different texts.
-/

namespace Lox.Number

/-! ## Values -/

namespace Magnitude

variable {x y : Magnitude}

theorem value_nonneg (x : Magnitude) : 0 ≤ x.value :=
  mul_nonneg (Nat.cast_nonneg _) x.unit_pos.le

theorem value_pos (positive : 0 < x.significand) : 0 < x.value :=
  mul_pos (by exact_mod_cast positive) x.unit_pos

theorem eq_of_value_eq (canonical : x.Canonical) (canonical' : y.Canonical)
    (same : x.value = y.value) : x = y :=
  x.receives_value.unique (same ▸ y.receives_value) canonical canonical'

end Magnitude

namespace Double

variable {x : Double}

theorem abs_value (x : Double) : |x.value| = x.magnitude.value := by
  unfold value
  split
  · rw [abs_neg, abs_of_nonneg x.magnitude.value_nonneg]
  · rw [abs_of_nonneg x.magnitude.value_nonneg]

theorem significand_pos (other : x.value ≠ 0) : 0 < x.magnitude.significand := by
  refine Nat.pos_of_ne_zero fun zero => other ?_
  rw [← abs_eq_zero, abs_value, Magnitude.value, zero, Nat.cast_zero, zero_mul]

theorem value_ne_zero (positive : 0 < x.magnitude.significand) : x.value ≠ 0 := by
  rw [← abs_ne_zero, abs_value]
  exact (Magnitude.value_pos positive).ne'

theorem isNegative_iff (other : x.value ≠ 0) : x.isNegative = true ↔ x.value < 0 := by
  have positive := Magnitude.value_pos (significand_pos other)
  unfold value
  cases x.isNegative with
  | true => simpa using positive
  | false => simpa using positive.le

theorem whole_iff (x : Double) : (∃ n : ℤ, x.value = n) ↔ ∃ n : Nat, x.magnitude.value = n := by
  constructor
  · rintro ⟨n, whole⟩
    refine ⟨n.natAbs, ?_⟩
    rw [← abs_value, whole, Nat.cast_natAbs]
    push_cast
    rfl
  · rintro ⟨n, whole⟩
    unfold value
    rw [whole]
    split
    · exact ⟨-n, by push_cast; rfl⟩
    · exact ⟨n, by push_cast; rfl⟩

end Double

/-! ## The three forms -/

/-- A whole number that is printed digit by digit. -/
def Magnitude.IsExact (x : Magnitude) : Prop := (∃ n : Nat, x.value = n) ∧ x.value < 10 ^ 21

/-- How the magnitude of a number other than zero is printed. -/
inductive Magnitude.Form (x : Magnitude) : List Char → Prop where
  | whole {n : Nat} (value : x.value = n) (small : x.value < 10 ^ 21) : Form x (Nat.toDigits 10 n)
  | point {before behind : List Char} (part : ∀ n : Nat, x.value ≠ n) (low : -6 ≤ x.shortest.leading)
      (high : x.shortest.leading ≤ 20) (split : x.shortest.Split before behind) :
      Form x (before ++ '.' :: behind)
  | exponent (inexact : ¬ x.IsExact)
      (far : x.shortest.leading < -6 ∨ 20 < x.shortest.leading) : Form x (x.shortest.exponential 1)

theorem exactLimit_eq : exactLimit = 10 ^ 21 := rfl

namespace Magnitude

variable {x : Magnitude} {cs : List Char} (canonical : x.Canonical) (positive : 0 < x.significand)

include canonical positive in
/-- From the limit on, a whole number is laid out like any other. -/
theorem layOut_form_of_large (large : ¬ x.value < 10 ^ 21) : x.Form (printed.layOut x.shortest) := by
  have far : 20 < x.shortest.leading := not_le.1 (mt (lt_exactLimit_iff canonical positive).2 large)
  rw [Format.layOut, if_neg (fun near => far.not_ge near.2)]
  exact .exponent (fun exact => large exact.2) (.inr far)

include canonical positive in
theorem layOut_form_of_part (part : ∀ n : Nat, x.value ≠ n) :
    x.Form (printed.layOut x.shortest) := by
  unfold Format.layOut
  split
  · next near =>
    have neg : x.shortest.exponent < 0 := by
      refine not_le.1 fun nonneg => ?_
      obtain ⟨n, value⟩ := (whole_iff canonical positive).2 nonneg
      exact part n value
    obtain ⟨before, behind, layout, split⟩ :=
      Decimal.exists_split (shortest_coefficient_pos canonical.least positive) neg false
    change x.Form (x.shortest.positional false)
    rw [layout]
    exact .point part near.1 near.2 split
  · next far =>
    have far : x.shortest.leading < -6 ∨ 20 < x.shortest.leading := by
      simp only [printed] at far
      omega
    exact .exponent (fun exact => exact.1.elim part) far

include canonical positive in
/-- A number that is not printed digit by digit is printed as its shortest decimal, laid out anew. -/
theorem relaidText_form (inexact : ¬ x.IsExact) (negative : Bool) :
    relaid? (finiteLiteralText negative x) = some (relaidText negative x) ∧
      ∃ cs, relaidText negative x = signed negative cs ∧ x.Form cs := by
  have large : ∀ n : Nat, x.value = n → ¬ x.value < 10 ^ 21 :=
    fun n value small => inexact ⟨⟨n, value⟩, small⟩
  have laid := relaid?_finiteLiteralText canonical positive large negative
  have text := relaidText_eq canonical positive large negative
  refine ⟨text ▸ laid, _, text, ?_⟩
  by_cases whole : ∃ n : Nat, x.value = n
  · exact layOut_form_of_large canonical positive fun small => inexact ⟨whole, small⟩
  · exact layOut_form_of_part canonical positive (not_exists.1 whole)

/-- Which branch prints a number: whole numbers below the limit go one way, all others the other. -/
theorem finiteText_cases (x : Magnitude) (negative : Bool) :
    (∃ n : Nat, x.value = n ∧ x.value < 10 ^ 21 ∧
      finiteText negative x = signed (negative && n != 0) (Nat.toDigits 10 n)) ∨
    (¬ x.IsExact ∧ finiteText negative x = relaidText negative x) := by
  unfold finiteText
  cases whole : x.natural? with
  | some n =>
    have value := natural?_eq_some_iff.1 whole
    have limit : n < exactLimit ↔ x.value < 10 ^ 21 := by
      rw [value, exactLimit_eq]
      exact_mod_cast Iff.rfl
    dsimp only
    split
    · next small => exact .inl ⟨n, value, limit.1 small, rfl⟩
    · next large => exact .inr ⟨fun exact => large (limit.2 exact.2), rfl⟩
  | none =>
    refine .inr ⟨fun exact => ?_, rfl⟩
    obtain ⟨n, value⟩ := exact.1
    rw [natural?_eq_some_iff.2 value] at whole
    cases whole

include canonical positive in
theorem finiteText_form (negative : Bool) :
    ∃ cs, finiteText negative x = signed negative cs ∧ x.Form cs := by
  rcases x.finiteText_cases negative with ⟨n, value, small, text⟩ | ⟨inexact, text⟩
  · have some : n ≠ 0 := by
      rintro rfl
      exact (value_pos positive).ne' (by rw [value, Nat.cast_zero])
    have sign : (negative && n != 0) = negative := by simp [some]
    exact ⟨_, by rw [text, sign], .whole value small⟩
  · rw [text]
    exact (relaidText_form canonical positive inexact negative).2

/-- A whole number below the limit denotes itself, and any other the shortest decimal. -/
theorem Form.value (form : x.Form cs) : (x.IsExact → unsignedValue cs = x.value) ∧
    (¬ x.IsExact → unsignedValue cs = x.shortest.value) := by
  cases form with
  | @whole n value small =>
    have numeral := toDigits_numeral n
    refine ⟨fun _ => ?_, fun inexact => absurd ⟨⟨n, value⟩, small⟩ inexact⟩
    rw [unsignedValue_plain (not_mem_of_numeral numeral (by decide)), mantissaValue_whole numeral,
      digitsValue_toDigits, value]
  | point part _ _ split =>
    refine ⟨fun exact => exact.1.elim fun n value => absurd value (part n), fun _ => ?_⟩
    rw [unsignedValue_plain (split.not_mem (by decide) (by decide)), split.value]
  | exponent inexact _ =>
    exact ⟨fun exact => absurd exact inexact, fun _ => Decimal.unsignedValue_exponential _ _⟩

/-- Of the three forms only one has an exponent. -/
theorem Form.eq_exponential (form : x.Form cs) (exponent : 'e' ∈ cs) :
    cs = x.shortest.exponential 1 := by
  cases form with
  | whole => exact absurd exponent (not_mem_of_numeral (toDigits_numeral _) (by decide))
  | point _ _ _ split => exact absurd exponent (split.not_mem (by decide) (by decide))
  | exponent => rfl

/-- No form starts with a sign. -/
theorem Form.head (form : x.Form cs) : cs.head? ≠ some '-' := by
  cases form with
  | @whole n =>
    have unsigned := Decimal.head_of_numeral (toDigits_numeral n) []
    rwa [List.append_nil] at unsigned
  | point _ _ _ split => exact Decimal.head_of_numeral split.before _
  | exponent => exact Decimal.head_exponential _ _

include canonical positive

theorem Form.receives (form : x.Form cs) : x.Receives (unsignedValue cs) := by
  by_cases exact : x.IsExact
  · rw [form.value.1 exact]
    exact x.receives_value
  · rw [form.value.2 exact]
    exact receives_shortest canonical.least positive

theorem Form.plain_iff (form : x.Form cs) :
    'e' ∉ cs ↔ -6 ≤ x.shortest.leading ∧ x.shortest.leading ≤ 20 := by
  cases form with
  | @whole n value small =>
    have plain : 'e' ∉ Nat.toDigits 10 n := not_mem_of_numeral (toDigits_numeral n) (by decide)
    have high := (lt_exactLimit_iff canonical positive).1 small
    have nonneg := (whole_iff canonical positive).1 ⟨n, value⟩
    have length := x.shortest.length_pos
    have low : 0 ≤ x.shortest.leading := by
      rw [Decimal.leading]
      omega
    exact iff_of_true plain ⟨by omega, high⟩
  | point _ low high split =>
    exact iff_of_true (split.not_mem (by decide) (by decide)) ⟨low, high⟩
  | exponent _ far => exact iff_of_false (not_not.2 (Decimal.mem_exponential _ _)) (by omega)

/-- A form has no more zeros than it needs. -/
theorem Form.trim (form : x.Form cs) (plain : 'e' ∉ cs) :
    ¬ ['.', '0'] <:+ cs ∧ (cs.head? = some '0' → ['0', '.'] <+: cs) := by
  have coefficient := shortest_coefficient_pos canonical.least positive
  cases form with
  | @whole n value small =>
    have numeral := toDigits_numeral n
    have point : '.' ∉ Nat.toDigits 10 n := not_mem_of_numeral numeral (by decide)
    have some : 0 < n := by
      have pos := value_pos positive
      rw [value] at pos
      exact_mod_cast pos
    exact ⟨fun suffix => point (suffix.subset (by simp)), fun zero => absurd zero (head_toDigits some)⟩
  | @point before behind part low high split =>
    refine ⟨fun suffix => ?_, fun zero => ?_⟩
    -- A zero at the end would be a digit to spare, and the shortest decimal has none.
    · obtain ⟨front, equal⟩ := suffix
      have last := congrArg List.getLast? equal
      rw [List.append_cons before, List.getLast?_append_of_ne_nil _ split.behind.1,
        List.getLast?_append_of_ne_nil _ (by simp)] at last
      exact split.trail (shortest_mod_ten canonical.least positive) last.symm
    · rw [List.head?_append_of_ne_nil _ split.before.1] at zero
      rw [split.lead zero]
      simp
  | exponent => exact absurd (Decimal.mem_exponential _ _) plain

end Magnitude

/-! ## The texts of a double -/

namespace Double

variable {x : Double} (finite : x.IsFinite)
include finite

theorem not_special : x.isNaN = false ∧ x.isInfinite = false := by
  simp only [isNaN, isInfinite, decide_eq_false_iff_not]
  exact ⟨fun special => finite special.1, fun special => finite special.1⟩

theorem write_toList (infinity notANumber : String) (write' : Bool → Magnitude → List Char) :
    (write infinity notANumber write' x).toList = write' x.isNegative x.magnitude := by
  obtain ⟨number, bounded⟩ := not_special finite
  rw [write, number, bounded]
  simp

theorem text_toList : (text x).toList = finiteText x.isNegative x.magnitude :=
  write_toList finite ..

theorem literalText_toList (some : 0 < x.magnitude.significand) :
    (literalText x).toList = signed x.isNegative (literal.layOut x.magnitude.shortest) := by
  rw [literalText, write_toList finite, finiteLiteralText, if_neg some.ne']

end Double

/-! ## The decimal of a double -/

/-- The double that is read from a decimal. -/
def Decimal.read (d : Decimal) : Double :=
  nearest (d.coefficient * 10 ^ d.exponent.toNat) (10 ^ (-d.exponent).toNat)

/-- The decimal is read as the number, but for its sign, and none with fewer digits is. -/
structure Double.IsShortest (x : Double) (d : Decimal) : Prop where
  finite : d.read.IsFinite
  reads : d.read.value = |x.value|
  fewest : ∀ d' : Decimal, d'.read.IsFinite → d'.read.value = |x.value| →
    d.digits.length ≤ d'.digits.length

theorem Decimal.quotient (d : Decimal) :
    ((d.coefficient * 10 ^ d.exponent.toNat : ℕ) : ℚ) / ((10 ^ (-d.exponent).toNat : ℕ) : ℚ) =
      d.value := by
  rw [Decimal.value]
  rcases le_total 0 d.exponent with nonneg | nonpos
  · obtain ⟨k, exponent⟩ := Int.eq_ofNat_of_zero_le nonneg
    rw [exponent]
    simp
  · obtain ⟨k, neg⟩ := Int.eq_ofNat_of_zero_le (neg_nonneg.2 nonpos)
    have exponent : d.exponent = -k := by omega
    rw [exponent]
    simp [div_eq_mul_inv]

/-- A quotient is read as the number, but for its sign, just if the magnitude receives it. -/
theorem Double.nearest_iff {x : Double} (finite : x.IsFinite) {n d : Nat} (positive : 0 < d) :
    (nearest n d).IsFinite ∧ (nearest n d).value = |x.value| ↔ x.magnitude.Receives (n / d) := by
  rw [← nearest_magnitude_iff x.magnitude_canonical (Double.isFinite_iff.1 finite) positive,
    x.abs_value, nearest_value]
  constructor
  · rintro ⟨readable, same⟩
    exact ⟨readable, Magnitude.eq_of_value_eq (magnitude_canonical _) x.magnitude_canonical same⟩
  · rintro ⟨readable, same⟩
    exact ⟨readable, congrArg Magnitude.value same⟩

theorem Decimal.read_iff {x : Double} (finite : x.IsFinite) (d : Decimal) :
    d.read.IsFinite ∧ d.read.value = |x.value| ↔ x.magnitude.Receives d.value := by
  rw [← d.quotient]
  exact Double.nearest_iff finite (by positivity)

theorem Double.isShortest {x : Double} (finite : x.IsFinite) (other : x.value ≠ 0) :
    x.IsShortest x.magnitude.shortest := by
  have least := x.magnitude_canonical.least
  have positive := significand_pos other
  obtain ⟨readable, reads⟩ := (Decimal.read_iff finite _).2 (Magnitude.receives_shortest least positive)
  refine ⟨readable, reads, fun d' readable' reads' => ?_⟩
  exact Magnitude.shortest_digits_le least positive ((Decimal.read_iff finite d').1 ⟨readable', reads'⟩)

/-! ## Every number -/

/-- How a finite number other than zero is printed, of which a literal shows the given decimal. -/
structure Double.Prints (x : Double) (d : Decimal) : Prop where
  /-- A whole number below the limit is printed exactly. -/
  exact : (∃ n : ℤ, x.value = n) → |x.value| < 10 ^ 21 → denoted (text x).toList = x.value
  /-- Any other text is that of the literal, laid out anew without fail, and denotes the same. -/
  literal : ¬ ((∃ n : ℤ, x.value = n) ∧ |x.value| < 10 ^ 21) →
    relaid? (literalText x).toList = some (text x).toList ∧
      denoted (text x).toList = denoted (literalText x).toList
  plain_iff : 'e' ∉ (text x).toList ↔ -6 ≤ d.leading ∧ d.leading ≤ 20
  /-- Only the zeros in front of the exponent are left out. -/
  exponent : 'e' ∈ (text x).toList → ∃ zeros digits,
    (text x).toList = signed x.isNegative d.mantissa ++ 'e' :: d.exponentSign :: digits ∧
    (literalText x).toList = signed x.isNegative d.mantissa ++ 'e' :: d.exponentSign ::
      (List.replicate zeros '0' ++ digits) ∧
    IsNumeral digits ∧ digits.head? ≠ some '0'
  trim : 'e' ∉ (text x).toList → ¬ ['.', '0'] <:+ (text x).toList ∧
    ∃ cs, (text x).toList = signed x.isNegative cs ∧
      (cs.head? = some '0' → ['0', '.'] <+: cs)
  minus : (text x).toList.head? = some '-' ↔ x.value < 0

/-- An exponent far from zero is written without a leading zero. -/
theorem Decimal.exponentDigits_trim {d : Decimal} (far : d.leading ≠ 0) :
    IsNumeral d.exponentDigits ∧ d.exponentDigits.head? ≠ some '0' :=
  ⟨toDigits_numeral _, head_toDigits (Int.natAbs_pos.2 far)⟩

namespace Double

variable {x : Double} (finite : x.IsFinite) (other : x.value ≠ 0)
include finite other

/-- The text is a form of the magnitude, with the sign in front of it. -/
theorem exists_form : ∃ cs, (text x).toList = signed x.isNegative cs ∧ x.magnitude.Form cs := by
  obtain ⟨cs, same, form⟩ :=
    Magnitude.finiteText_form x.magnitude_canonical (significand_pos other) x.isNegative
  exact ⟨cs, (text_toList finite).trans same, form⟩

theorem denoted_literalText : denoted (literalText x).toList =
    if x.isNegative then -x.magnitude.shortest.value else x.magnitude.shortest.value := by
  have coefficient :=
    Magnitude.shortest_coefficient_pos x.magnitude_canonical.least (significand_pos other)
  rw [literalText_toList finite (significand_pos other),
    denoted_signed (Decimal.head_layOut coefficient _), Decimal.unsignedValue_layOut coefficient]

theorem prints : x.Prints x.magnitude.shortest := by
  have canonical := x.magnitude_canonical
  have positive := significand_pos other
  obtain ⟨cs, printed, form⟩ := exists_form finite other
  have sum : denoted (text x).toList =
      if x.isNegative then -unsignedValue cs else unsignedValue cs := by
    rw [printed, denoted_signed form.head]
  have exact_iff : ((∃ n : ℤ, x.value = n) ∧ |x.value| < 10 ^ 21) ↔ x.magnitude.IsExact := by
    rw [x.whole_iff, x.abs_value, Magnitude.IsExact]
  refine ⟨fun whole small => ?_, fun inexact => ?_, ?_, fun exponent => ?_, fun plain => ?_, ?_⟩
  · rw [sum, form.value.1 (exact_iff.1 ⟨whole, small⟩), value]
  · have inexact := mt exact_iff.2 inexact
    refine ⟨?_, by rw [sum, form.value.2 inexact, denoted_literalText finite other]⟩
    rcases x.magnitude.finiteText_cases x.isNegative with ⟨n, whole, small, -⟩ | ⟨-, text⟩
    · exact absurd ⟨⟨n, whole⟩, small⟩ inexact
    · rw [text_toList finite, text, literalText, write_toList finite]
      exact (Magnitude.relaidText_form canonical positive inexact _).1
  · rw [printed, mem_signed, form.plain_iff canonical positive]
  · rw [printed, mem_signed] at exponent
    have far := mt (form.plain_iff canonical positive).2 (not_not.2 exponent)
    -- a literal has an exponent too, for its limits are narrower
    have shown : literal.layOut x.magnitude.shortest = x.magnitude.shortest.exponential 2 := by
      rw [Format.layOut, if_neg]
      · rfl
      · simp only [literal]
        omega
    obtain ⟨numeral, head⟩ := Decimal.exponentDigits_trim (d := x.magnitude.shortest) (by omega)
    refine ⟨2 - x.magnitude.shortest.exponentDigits.length, _, ?_, ?_, numeral, head⟩
    · rw [printed, form.eq_exponential exponent, Decimal.exponential_one, signed_append]
    · rw [literalText_toList finite positive, shown, Decimal.exponential_eq, signed_append]
  · rw [printed, mem_signed] at plain
    obtain ⟨pointZero, lead⟩ := form.trim canonical positive plain
    exact ⟨fun suffix => pointZero (suffix_signed (printed ▸ suffix)), cs, printed, lead⟩
  · rw [printed, signed_head form.head, isNegative_iff other]

/-- The text determines the number: what it denotes rounds to one magnitude only. -/
theorem text_injective {y : Double} (finite' : y.IsFinite) (other' : y.value ≠ 0)
    (same : text x = text y) : x = y := by
  obtain ⟨cs, printed, form⟩ := exists_form finite other
  obtain ⟨cs', printed', form'⟩ := exists_form finite' other'
  have sign : x.isNegative = y.isNegative := by
    have heads : x.isNegative = true ↔ y.isNegative = true := by
      rw [← signed_head form.head, ← signed_head form'.head, ← printed, ← printed', same]
    exact Bool.eq_iff_iff.2 heads
  have texts : signed x.isNegative cs = signed x.isNegative cs' := by
    rw [← printed, same, printed', sign]
  -- behind equal signs stand equal digits
  have rest : cs = cs' := by
    cases negative : x.isNegative <;> simpa [signed, negative] using texts
  subst rest
  have receives := form.receives x.magnitude_canonical (significand_pos other)
  have receives' := form'.receives y.magnitude_canonical (significand_pos other')
  exact ext_magnitude sign (receives.unique receives' x.magnitude_canonical y.magnitude_canonical)

end Double

/--
A finite number other than zero is printed as the number itself if it is whole and below `10 ^ 21`, and
otherwise as the decimal that is shown for it as a literal, whose text is laid out anew: the decimal
with the fewest digits that is read as the number. The text has an exponent just if the leading power
of ten of that decimal lies outside of `-6` to `20`, it has no zeros that it does not need, and a minus
sign just if the number is negative. So different numbers have different texts.
-/
theorem printed_layout :
    (∀ x : Double, x.IsFinite → x.value ≠ 0 → ∃ d : Decimal, x.IsShortest d ∧
      literalText x = String.ofList (signed x.isNegative (literal.layOut d)) ∧ x.Prints d) ∧
    ∀ x y : Double, x.IsFinite → y.IsFinite → x.value ≠ 0 → y.value ≠ 0 → x ≠ y →
      text x ≠ text y := by
  constructor
  · intro x finite other
    refine ⟨x.magnitude.shortest, Double.isShortest finite other, ?_, Double.prints finite other⟩
    rw [← Double.literalText_toList finite (Double.significand_pos other), String.ofList_toList]
  · intro x y finite finite' other other' apart same
    exact apart (Double.text_injective finite other finite' other' same)

/-- A number so small that it is printed with an exponent, and one that is printed with a point. -/
def tiny : Double := nearest 5 (10 ^ 7)

def half : Double := nearest 1 2

theorem printed_layout_tiny :
    (tiny.IsFinite ∧ tiny.value ≠ 0 ∧ ∃ d : Decimal, tiny.IsShortest d ∧
      literalText tiny = String.ofList (signed tiny.isNegative (literal.layOut d)) ∧ tiny.Prints d) ∧
    half.IsFinite ∧ half.value ≠ 0 ∧ tiny ≠ half ∧ text tiny ≠ text half := by
  obtain ⟨prints, apart⟩ := printed_layout
  have finite : tiny.IsFinite := by decide +kernel
  have finite' : half.IsFinite := by decide +kernel
  have other : tiny.value ≠ 0 := Double.value_ne_zero (by decide +kernel)
  have other' : half.value ≠ 0 := Double.value_ne_zero (by decide +kernel)
  have different : tiny ≠ half := by decide +kernel
  exact ⟨⟨finite, other, prints tiny finite other⟩, finite', other', different,
    apart tiny half finite finite' other other' different⟩

example : text (nearest 5 (10 ^ 7)) = "5e-7" ∧ literalText (nearest 5 (10 ^ 7)) = "5e-07" := by
  decide +kernel

end Lox.Number
