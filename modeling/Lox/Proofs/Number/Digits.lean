import Lox.Number.Text
import Lox.Proofs.Number.Decimals
import Lox.Proofs.Text.Layout

/-!
# Digits and what they denote

The digits of a number denote the number. They start with a zero only if it is zero, and end in one only
if it is a multiple of ten. With a point among them they denote a fraction, and with an exponent behind
them a multiple of a power of ten.
-/

namespace Lox.Number

/-! ## Digits -/

theorem isDigit_of_mem_toDigits {n : Nat} {c : Char} (member : c ∈ Nat.toDigits 10 n) :
    Lox.isDigit c = true := by
  have digit := Nat.isDigit_of_mem_toDigits (by norm_num) (by norm_num) member
  simp only [Char.isDigit, Bool.and_eq_true, decide_eq_true_eq] at digit
  simp only [Lox.isDigit, Bool.and_eq_true, decide_eq_true_eq]
  exact digit

theorem toDigits_numeral (n : Nat) : IsNumeral (Nat.toDigits 10 n) :=
  ⟨Nat.toDigits_ne_nil, fun _ => isDigit_of_mem_toDigits⟩

theorem digitChar_eq_zero {k : Nat} (small : k < 10) (zero : k.digitChar = '0') : k = 0 := by
  have digits : ∀ k < 10, k.digitChar = '0' → k = 0 := by decide
  exact digits k small zero

/-- The induction is on the number, which loses its last digit. -/
theorem head_toDigits {n : Nat} (positive : 0 < n) : (Nat.toDigits 10 n).head? ≠ some '0' := by
  induction n using Nat.strongRecOn with
  | ind n inductionHypothesis =>
    rcases Nat.lt_or_ge n 10 with small | large
    · rw [Nat.toDigits_of_lt_base small]
      intro first
      have zero := digitChar_eq_zero small (Option.some.inj first)
      omega
    · rw [Nat.toDigits_of_base_le (by norm_num) large, List.head?_append_of_ne_nil _ Nat.toDigits_ne_nil]
      exact inductionHypothesis (n / 10) (by omega) (by omega)

theorem getLast_toDigits (n : Nat) : (Nat.toDigits 10 n).getLast? = some (n % 10).digitChar := by
  rcases Nat.lt_or_ge n 10 with small | large
  · rw [Nat.toDigits_of_lt_base small, Nat.mod_eq_of_lt small]
    rfl
  · rw [Nat.toDigits_of_base_le (by norm_num) large, List.getLast?_concat]

theorem digitsValue_toDigits (n : Nat) : digitsValue (Nat.toDigits 10 n) = n := by
  rw [digitsValue, ← Nat.ofDigitChars_eq_foldl, Nat.ofDigitChars_toDigits (by norm_num) (by norm_num)]

theorem digitsValue_concat (cs : List Char) (c : Char) :
    digitsValue (cs ++ [c]) = 10 * digitsValue cs + (c.toNat - '0'.toNat) := by
  rw [digitsValue, List.foldl_append]
  rfl

theorem digitsValue_append (front back : List Char) :
    digitsValue (front ++ back) = digitsValue front * 10 ^ back.length + digitsValue back := by
  induction back using List.reverseRecOn with
  | nil => simp [digitsValue]
  | append_singleton back c inductionHypothesis =>
    rw [← List.append_assoc, digitsValue_concat, digitsValue_concat, inductionHypothesis,
      List.length_append, List.length_singleton, pow_succ]
    ring

theorem digitsValue_zeros (k : Nat) : digitsValue (List.replicate k '0') = 0 := by
  induction k with
  | zero => rfl
  | succ k inductionHypothesis =>
    rw [List.replicate_succ', digitsValue_concat, inductionHypothesis]
    rfl

/-! ## Texts -/

/-- What digits denote, with at most one point among them. -/
def mantissaValue (cs : List Char) : ℚ :=
  let (whole, rest) := cs.span isDigit
  digitsValue (whole ++ rest.tail) / 10 ^ rest.tail.length

/-- What a sign and digits denote. -/
def exponentValue : List Char → ℤ
  | '-' :: digits => -digitsValue digits
  | '+' :: digits => digitsValue digits
  | digits => digitsValue digits

/-- What a text without a sign denotes: a mantissa, and an exponent of ten if an `e` follows. -/
def unsignedValue (cs : List Char) : ℚ :=
  let (mantissa, rest) := cs.span (· != 'e')
  mantissaValue mantissa * 10 ^ exponentValue rest.tail

/-- The number that a text denotes. -/
def denoted : List Char → ℚ
  | '-' :: cs => -unsignedValue cs
  | cs => unsignedValue cs

theorem mantissaValue_whole {digits : List Char} (numeral : IsNumeral digits) :
    mantissaValue digits = digitsValue digits := by
  have stops : ∀ c ∈ ([] : List Char).head?, isDigit c = false := nofun
  have ends := takeWhile_dropWhile_of_all numeral.2 stops
  rw [List.append_nil] at ends
  simp [mantissaValue, List.span_eq_takeWhile_dropWhile, ends]

theorem mantissaValue_point {whole : List Char} (numeral : IsNumeral whole) (fraction : List Char) :
    mantissaValue (whole ++ '.' :: fraction) =
      digitsValue (whole ++ fraction) / 10 ^ fraction.length := by
  have point : ∀ c ∈ ('.' :: fraction).head?, isDigit c = false := by
    rintro _ ⟨⟩
    decide
  have ends := takeWhile_dropWhile_of_all numeral.2 point
  simp [mantissaValue, List.span_eq_takeWhile_dropWhile, ends]

theorem unsignedValue_plain {cs : List Char} (plain : 'e' ∉ cs) :
    unsignedValue cs = mantissaValue cs := by
  have all : ∀ c ∈ cs, (c != 'e') = true := fun c member =>
    bne_iff_ne.2 fun same => plain (same ▸ member)
  have stops : ∀ c ∈ ([] : List Char).head?, (c != 'e') = false := nofun
  have ends := takeWhile_dropWhile_of_all all stops
  rw [List.append_nil] at ends
  simp [unsignedValue, List.span_eq_takeWhile_dropWhile, ends, exponentValue, digitsValue]

theorem unsignedValue_exponent {mantissa : List Char} (plain : 'e' ∉ mantissa)
    (exponent : List Char) :
    unsignedValue (mantissa ++ 'e' :: exponent) =
      mantissaValue mantissa * 10 ^ exponentValue exponent := by
  have all : ∀ c ∈ mantissa, (c != 'e') = true := fun c member =>
    bne_iff_ne.2 fun same => plain (same ▸ member)
  have stops : ∀ c ∈ ('e' :: exponent).head?, (c != 'e') = false := by
    rintro _ ⟨⟩
    decide
  have ends := takeWhile_dropWhile_of_all all stops
  simp [unsignedValue, List.span_eq_takeWhile_dropWhile, ends]

theorem denoted_signed {cs : List Char} (unsigned : cs.head? ≠ some '-') (negative : Bool) :
    denoted (signed negative cs) = if negative then -unsignedValue cs else unsignedValue cs := by
  cases negative with
  | true => rfl
  | false =>
    rw [signed, if_neg Bool.false_ne_true, if_neg Bool.false_ne_true]
    unfold denoted
    split
    · exact absurd rfl unsigned
    · rfl

end Lox.Number
