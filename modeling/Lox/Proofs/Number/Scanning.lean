import Lox.Proofs.Number.Printing

/-!
# Printed numbers are scanned back

A number that is printed without an exponent is scanned as the number that it is, after a minus sign if it
is negative. A text with an exponent is never one number to the scanner, which knows no exponents and goes
on with a word.
-/

namespace Lox

/-! ## Number tokens -/

namespace Lexeme

variable {value : Number.Double} {text : List Char}
  (lexeme : Lexeme (.token .number (.number value)) text)
include lexeme

/-- The literal of a number token is the double nearest to what its lexeme denotes. -/
theorem number_nearest :
    ∃ n d : Nat, 0 < d ∧ value = Number.nearest n d ∧ (n : ℚ) / d = Number.mantissaValue text := by
  cases lexeme with
  | whole numeral =>
    refine ⟨_, _, Nat.one_pos, rfl, ?_⟩
    rw [Number.mantissaValue_whole numeral, List.append_nil]
    simp
  | @fraction digits decimals numeral decimal =>
    refine ⟨_, _, Nat.pow_pos (by norm_num), rfl, ?_⟩
    rw [Number.mantissaValue_point numeral]
    push_cast
    rfl

theorem number_oneLine : lineEnds text = 0 := by
  refine List.count_eq_zero.2 ?_
  cases lexeme with
  | whole numeral => exact Number.not_mem_of_numeral numeral (by decide)
  | fraction numeral decimal =>
    have before := Number.not_mem_of_numeral numeral (c := '\n') (by decide)
    have behind := Number.not_mem_of_numeral decimal (c := '\n') (by decide)
    simp [before, behind]

end Lexeme

section Cuts

variable {line : Nat} {tail : List Char} {others : List Segment}

theorem Cuts.of_cut_oneLine {content : Content} {c : Char} {cs text : List Char}
    (found : (cut line c cs).2 = (content, text, tail)) (oneLine : lineEnds text = 0)
    (rest : Cuts line tail others) : Cuts line (c :: cs) (⟨content, text, line⟩ :: others) := by
  have same : line + lineEnds text = line := by rw [oneLine, Nat.add_zero]
  have cuts := Cuts.of_cut found (same.symm ▸ rest)
  rwa [same] at cuts

theorem Cuts.number {value : Number.Double} {text : List Char}
    (lexeme : Lexeme (.token .number (.number value)) text) (ends : EndsNumber tail)
    (rest : Cuts line tail others) :
    Cuts line (text ++ tail) (⟨.token .number (.number value), text, line⟩ :: others) := by
  have oneLine := lexeme.number_oneLine
  obtain ⟨c, cs, rfl, found⟩ := lexeme.cut_number ends line
  exact Cuts.of_cut_oneLine found oneLine rest

theorem Cuts.punctuation {c : Char} {kind : TokenKind} (mark : punctuation? c = some kind)
    (rest : Cuts line tail others) :
    Cuts line (c :: tail) (⟨.token kind .nil, [c], line⟩ :: others) := by
  have oneLine : lineEnds [c] = 0 := by
    refine List.count_eq_zero.2 fun member => ?_
    obtain rfl := List.mem_singleton.1 member
    cases mark
  exact Cuts.of_cut_oneLine (congrArg Prod.snd (cut_punctuation mark tail)) oneLine rest

/-- A single `e` is a word, if what follows does not go on with it. -/
theorem Cuts.letter_e (ends : ∀ c ∈ tail.head?, isWordPart c = false)
    (rest : Cuts line tail others) :
    Cuts line ('e' :: tail) (⟨.token .identifier .nil, ['e'], line⟩ :: others) := by
  have all : ∀ c ∈ ['e'], isWordPart c = true := by
    intro c member
    rw [List.mem_singleton.1 member]
    decide
  have word := takeWhile_dropWhile_of_all all ends
  rw [List.singleton_append] at word
  have found : (cut line 'e' tail).2 = _ := congrArg Prod.snd (cut_letter (by decide) tail)
  rw [word.1, word.2] at found
  exact Cuts.of_cut_oneLine found (by decide) rest

end Cuts

theorem scan_of_cuts {source : String} {found : List Segment} (cuts : Cuts 1 source.toList found) :
    scan source = ⟨found.filterMap Segment.token? ++
      [endToken (1 + lineEnds source.toList : Nat)], found.filterMap Segment.error?⟩ := by
  rw [scan, ← lastLine_segments, (segments_cuts source.toList).unique cuts]

theorem scan_kinds {source : String} {found : List Segment} (cuts : Cuts 1 source.toList found) :
    (scan source).tokens.map Token.kind =
      (found.filterMap Segment.token?).map Token.kind ++ [.endOfInput] := by
  rw [scan_of_cuts cuts, List.map_append]
  rfl

theorem scan_number {value : Number.Double} {source : String}
    (lexeme : Lexeme (.token .number (.number value)) source.toList) :
    scan source = ⟨[⟨.number, source, .number value, 1⟩, endToken 1], []⟩ := by
  have cuts : Cuts 1 source.toList [⟨.token .number (.number value), source.toList, 1⟩] := by
    have cuts := Cuts.number lexeme (by rintro _ ⟨⟩) (.nil 1)
    rwa [List.append_nil] at cuts
  rw [scan_of_cuts cuts, lexeme.number_oneLine]
  simp [Segment.token?, Segment.error?]

theorem scan_minus_number {value : Number.Double} {digits : String}
    (lexeme : Lexeme (.token .number (.number value)) digits.toList) :
    scan ("-" ++ digits) =
      ⟨[⟨.minus, "-", .nil, 1⟩, ⟨.number, digits, .number value, 1⟩, endToken 1], []⟩ := by
  have text : ("-" ++ digits).toList = '-' :: digits.toList := by simp
  have cuts : Cuts 1 ("-" ++ digits).toList
      [⟨.token .minus .nil, ['-'], 1⟩, ⟨.token .number (.number value), digits.toList, 1⟩] := by
    have cuts := Cuts.number lexeme (by rintro _ ⟨⟩) (.nil 1)
    rw [List.append_nil] at cuts
    rw [text]
    exact .punctuation rfl cuts
  have oneLine : lineEnds ('-' :: digits.toList) = 0 := by
    rw [← List.singleton_append, lineEnds_append, lexeme.number_oneLine]
    rfl
  rw [scan_of_cuts cuts, text, oneLine]
  simp [Segment.token?, Segment.error?]

namespace Number

/-! ## Texts without an exponent -/

theorem Magnitude.Form.lexeme {x : Magnitude} {cs : List Char} (form : x.Form cs)
    (plain : 'e' ∉ cs) : ∃ value, Lexeme (.token .number (.number value)) cs := by
  cases form with
  | @whole n => exact ⟨_, .whole (toDigits_numeral n)⟩
  | point _ _ _ split => exact ⟨_, .fraction split.before split.behind⟩
  | exponent => exact absurd (Decimal.mem_exponential _ _) plain

/-- A number token whose lexeme denotes what rounds to a number has that number as its literal. -/
theorem Double.literal_value {x value : Double} {cs : List Char} (finite : x.IsFinite)
    (lexeme : Lexeme (.token .number (.number value)) cs)
    (receives : x.magnitude.Receives (mantissaValue cs)) :
    value.IsFinite ∧ value.value = |x.value| := by
  obtain ⟨n, d, positive, rfl, quotient⟩ := lexeme.number_nearest
  rw [← quotient] at receives
  exact (nearest_iff finite positive).2 receives

/-! ## Texts with an exponent -/

namespace Decimal

variable (d : Decimal)

theorem mantissa_lexeme : ∃ value, Lexeme (.token .number (.number value)) d.mantissa := by
  rcases d.mantissa_cases with ⟨mantissa, -⟩ | ⟨first, others, -, before, behind, mantissa⟩
  · rw [mantissa]
    exact ⟨_, .whole d.digits_numeral⟩
  · rw [mantissa]
    exact ⟨_, .fraction before behind⟩

theorem exponentSign_mark : ∃ kind, punctuation? d.exponentSign = some kind ∧
    isWordPart d.exponentSign = false := by
  unfold exponentSign
  split
  · exact ⟨.minus, rfl, rfl⟩
  · exact ⟨.plus, rfl, rfl⟩

/-- A number with an exponent is a number, a word, a sign and a number to the scanner. -/
theorem exponential_cuts (width line : Nat) : ∃ found sign, Cuts line (d.exponential width) found ∧
    (found.filterMap Segment.token?).map Token.kind = [.number, .identifier, sign, .number] := by
  obtain ⟨value, mantissa⟩ := d.mantissa_lexeme
  obtain ⟨sign, mark, apart⟩ := d.exponentSign_mark
  have digits : IsNumeral
      (List.replicate (width - d.exponentDigits.length) '0' ++ d.exponentDigits) :=
    zeros_numeral (toDigits_numeral _) _
  -- the segments are put together from the right to the left
  have last := Cuts.number (.whole digits) (by rintro _ ⟨⟩) (.nil line)
  rw [List.append_nil] at last
  have word := (last.punctuation mark).letter_e (by rintro _ ⟨⟩; exact apart)
  have cuts := word.number mantissa (by rintro _ ⟨⟩; decide)
  rw [← exponential_eq] at cuts
  exact ⟨_, sign, cuts, rfl⟩

/-- With an exponent, a text is not one number to the scanner. -/
theorem scan_exponential {source : String} {negative : Bool} {width : Nat}
    (written : source.toList = signed negative (d.exponential width)) :
    ∃ sign, (scan source).tokens.map Token.kind = (if negative then [.minus] else []) ++
      [.number, .identifier, sign, .number, .endOfInput] := by
  obtain ⟨found, sign, cuts, kinds⟩ := d.exponential_cuts width 1
  refine ⟨sign, ?_⟩
  cases negative with
  | false =>
    rw [signed, if_neg Bool.false_ne_true] at written
    rw [scan_kinds (written ▸ cuts), kinds]
    rfl
  | true =>
    rw [signed, if_pos rfl] at written
    have cuts := cuts.punctuation (show punctuation? '-' = some .minus from rfl)
    rw [scan_kinds (written ▸ cuts)]
    simp [Segment.token?, kinds]

end Decimal

/-! ## Every number -/

/-- One number, perhaps after a minus sign, and the end of the input. -/
def IsOneNumber (tokens : List Token) : Prop :=
  tokens.map Token.kind = [.number, .endOfInput] ∨
    tokens.map Token.kind = [.minus, .number, .endOfInput]

namespace Double

variable {x : Double} (finite : x.IsFinite)
include finite

/-- Both zeros are printed as the digit, which is read as the positive one. -/
theorem scan_zero (zero : x.value = 0) : ∃ y : Double, y.IsFinite ∧ y.value = x.value ∧
    scan (text x) = ⟨[⟨.number, text x, .number y, 1⟩, endToken 1], []⟩ := by
  have none : x.magnitude.value = 0 := by rw [← abs_value, zero, abs_zero]
  have whole : x.magnitude.natural? = some 0 := by
    rw [Magnitude.natural?_eq_some_iff, none, Nat.cast_zero]
  have printed : (text x).toList = ['0'] := by
    rw [text_toList finite, finiteText, whole]
    dsimp only
    -- a zero has no sign
    rw [if_pos (by decide)]
    simp [signed]
  have numeral : IsNumeral ['0'] := by simpa using toDigits_numeral 0
  have receives := x.magnitude.receives_value
  rw [none, ← Nat.cast_zero, ← digitsValue_zeros 1, List.replicate_one,
    ← mantissaValue_whole numeral] at receives
  obtain ⟨finite', value⟩ := literal_value finite (.whole numeral) receives
  refine ⟨_, finite', by rw [value, zero, abs_zero], scan_number ?_⟩
  rw [printed]
  exact .whole numeral

section Other

variable (other : x.value ≠ 0)
include other

/-- The numbers that are printed without an exponent. -/
theorem plain_iff :
    'e' ∉ (text x).toList ↔ micro.value ≤ |x.value| ∧ |x.value| < 10 ^ 21 := by
  have canonical := x.magnitude_canonical
  have positive := significand_pos other
  rw [(prints finite other).plain_iff, ← Magnitude.micro_le_iff canonical positive,
    ← Magnitude.lt_exactLimit_iff canonical positive, x.abs_value, micro, nearest_value]

/-- Without an exponent, the text is a number token with the absolute value, and perhaps a sign. -/
theorem exists_lexeme (near : micro.value ≤ |x.value| ∧ |x.value| < 10 ^ 21) :
    ∃ (cs : List Char) (y : Double), y.IsFinite ∧ y.value = |x.value| ∧
      text x = String.ofList (signed x.isNegative cs) ∧
      Lexeme (.token .number (.number y)) cs := by
  have plain := (plain_iff finite other).2 near
  obtain ⟨cs, printed, form⟩ := exists_form finite other
  rw [printed, mem_signed] at plain
  obtain ⟨y, lexeme⟩ := form.lexeme plain
  have receives := form.receives x.magnitude_canonical (significand_pos other)
  rw [unsignedValue_plain plain] at receives
  obtain ⟨finite', value⟩ := literal_value finite lexeme receives
  exact ⟨cs, y, finite', value, by rw [← printed, String.ofList_toList], lexeme⟩

theorem not_oneNumber (far : ¬ (micro.value ≤ |x.value| ∧ |x.value| < 10 ^ 21)) :
    ¬ IsOneNumber (scan (text x)).tokens := by
  have exponent := mt (plain_iff finite other).1 far
  obtain ⟨cs, printed, form⟩ := exists_form finite other
  rw [printed, mem_signed] at exponent
  rw [form.eq_exponential (not_not.1 exponent)] at printed
  obtain ⟨sign, kinds⟩ := x.magnitude.shortest.scan_exponential printed
  rw [IsOneNumber, kinds]
  cases x.isNegative <;> simp

end Other

theorem scan_positive (positive : 0 < x.value)
    (near : micro.value ≤ x.value ∧ x.value < 10 ^ 21) :
    ∃ y : Double, y.IsFinite ∧ y.value = x.value ∧
      scan (text x) = ⟨[⟨.number, text x, .number y, 1⟩, endToken 1], []⟩ := by
  have same : |x.value| = x.value := abs_of_pos positive
  have sign : x.isNegative = false := by
    rw [Bool.eq_false_iff, ne_eq, isNegative_iff positive.ne']
    exact positive.not_gt
  obtain ⟨cs, y, finite', value, printed, lexeme⟩ :=
    exists_lexeme finite positive.ne' (same.symm ▸ near)
  rw [sign, signed, if_neg Bool.false_ne_true] at printed
  refine ⟨y, finite', by rw [value, same], scan_number ?_⟩
  rwa [printed, String.toList_ofList]

theorem scan_negative (negative : x.value < 0)
    (near : micro.value ≤ -x.value ∧ -x.value < 10 ^ 21) :
    ∃ (y : Double) (digits : String), y.IsFinite ∧ y.value = -x.value ∧
      text x = "-" ++ digits ∧
      scan (text x) =
        ⟨[⟨.minus, "-", .nil, 1⟩, ⟨.number, digits, .number y, 1⟩, endToken 1], []⟩ := by
  have opposite : |x.value| = -x.value := abs_of_neg negative
  obtain ⟨cs, y, finite', value, printed, lexeme⟩ :=
    exists_lexeme finite negative.ne (opposite.symm ▸ near)
  rw [(isNegative_iff negative.ne).2 negative, signed, if_pos rfl] at printed
  have text : text x = "-" ++ String.ofList cs := by
    rw [printed, ← String.toList_inj]
    simp
  refine ⟨y, String.ofList cs, finite', by rw [value, opposite], text, ?_⟩
  rw [text]
  refine scan_minus_number ?_
  rwa [String.toList_ofList]

end Double

/--
What is printed for a finite number is scanned back. For zero and the numbers from the double of `1e-6` up
to `10 ^ 21` there is no error, and the tokens are a number with an equal value and the end of the input;
for their opposites there is a minus sign in front, and the number has the opposite value. Any other text
is not one number.
-/
theorem printed_numbers_scan_back (x : Double) (finite : x.IsFinite) :
    (x.value = 0 ∨ (micro.value ≤ x.value ∧ x.value < 10 ^ 21) →
      ∃ y : Double, y.IsFinite ∧ y.value = x.value ∧
        scan (text x) = ⟨[⟨.number, text x, .number y, 1⟩, endToken 1], []⟩) ∧
    (micro.value ≤ -x.value ∧ -x.value < 10 ^ 21 →
      ∃ (y : Double) (digits : String), y.IsFinite ∧ y.value = -x.value ∧
        text x = "-" ++ digits ∧
        scan (text x) =
          ⟨[⟨.minus, "-", .nil, 1⟩, ⟨.number, digits, .number y, 1⟩, endToken 1], []⟩) ∧
    (x.value ≠ 0 → ¬ (micro.value ≤ |x.value| ∧ |x.value| < 10 ^ 21) →
      ¬ IsOneNumber (scan (text x)).tokens) := by
  have micro_pos : 0 < micro.value := by
    rw [micro, nearest_value]
    exact Magnitude.value_pos (by decide +kernel)
  refine ⟨?_, fun near => ?_, Double.not_oneNumber finite⟩
  · rintro (zero | near)
    · exact Double.scan_zero finite zero
    · exact Double.scan_positive finite (micro_pos.trans_le near.1) near
  · exact Double.scan_negative finite (neg_pos.1 (micro_pos.trans_le near.1)) near

def minusHalf : Double := ⟨0xBFE0000000000000⟩

theorem printed_numbers_scan_back_half :
    (half.IsFinite ∧ (micro.value ≤ half.value ∧ half.value < 10 ^ 21) ∧
      ∃ y : Double, y.IsFinite ∧ y.value = half.value ∧
        scan (text half) = ⟨[⟨.number, text half, .number y, 1⟩, endToken 1], []⟩) ∧
    (minusHalf.IsFinite ∧ (micro.value ≤ -minusHalf.value ∧ -minusHalf.value < 10 ^ 21) ∧
      ∃ (y : Double) (digits : String), y.IsFinite ∧ y.value = -minusHalf.value ∧
        text minusHalf = "-" ++ digits ∧
        scan (text minusHalf) =
          ⟨[⟨.minus, "-", .nil, 1⟩, ⟨.number, digits, .number y, 1⟩, endToken 1], []⟩) ∧
    tiny.IsFinite ∧ tiny.value ≠ 0 ∧ ¬ (micro.value ≤ |tiny.value| ∧ |tiny.value| < 10 ^ 21) ∧
      ¬ IsOneNumber (scan (text tiny)).tokens := by
  have value : micro.value = 4722366482869645 * 2 ^ (-72 : ℤ) ∧ half.value = 1 / 2 ∧
      minusHalf.value = -1 / 2 ∧ tiny.value = 4722366482869645 * 2 ^ (-73 : ℤ) := by
    have micro' : micro.isNegative = false ∧ micro.magnitude = ⟨4722366482869645, -72⟩ := by
      decide +kernel
    have half' : half.isNegative = false ∧ half.magnitude = ⟨2 ^ 52, -53⟩ := by decide +kernel
    have minusHalf' : minusHalf.isNegative = true ∧ minusHalf.magnitude = ⟨2 ^ 52, -53⟩ := by
      decide +kernel
    have tiny' : tiny.isNegative = false ∧ tiny.magnitude = ⟨4722366482869645, -73⟩ := by
      decide +kernel
    simp only [Double.value, Magnitude.value, micro', half', minusHalf', tiny']
    norm_num
  obtain ⟨microValue, halfValue, minusHalfValue, tinyValue⟩ := value
  have finite : half.IsFinite ∧ minusHalf.IsFinite ∧ tiny.IsFinite := by decide +kernel
  have near : micro.value ≤ half.value ∧ half.value < 10 ^ 21 := by
    rw [microValue, halfValue]
    norm_num
  have near' : micro.value ≤ -minusHalf.value ∧ -minusHalf.value < 10 ^ 21 := by
    rw [microValue, minusHalfValue]
    norm_num
  have far : tiny.value ≠ 0 ∧ ¬ (micro.value ≤ |tiny.value| ∧ |tiny.value| < 10 ^ 21) := by
    rw [microValue, tinyValue, abs_of_pos (by norm_num)]
    norm_num
  exact ⟨⟨finite.1, near, (printed_numbers_scan_back half finite.1).1 (.inr near)⟩,
    ⟨finite.2.1, near', (printed_numbers_scan_back minusHalf finite.2.1).2.1 near'⟩,
    finite.2.2, far.1, far.2, (printed_numbers_scan_back tiny finite.2.2).2.2 far.1 far.2⟩

example : (scan (text (nearest 5 (10 ^ 7)))).tokens.map Token.kind =
    [.number, .identifier, .minus, .number, .endOfInput] := by decide +kernel

end Number

end Lox
