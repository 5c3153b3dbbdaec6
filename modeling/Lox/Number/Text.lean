import Lox.Number.Shortest

/-!
# The text of a number

`literalText` shows the value of a number token: the shortest decimal, always as a fraction. `text` is
what a program prints. Whole numbers below `10 ^ 21` are printed exactly and have no point; the text of
any other number is that of the literal, laid out anew if it has an exponent.
-/

namespace Lox.Number

/-! ## Literals -/

/-- How a decimal is laid out. -/
structure Format where
  /-- The least power of ten of a first digit that is written positionally. -/
  lowest : Int
  /-- The greatest such power of ten. -/
  highest : Int
  /-- Whether a positional whole number ends in `.0`. -/
  pointZero : Bool
  /-- The least number of digits of an exponent. -/
  exponentWidth : Nat

/-- Literals are positional from `10 ^ -4` up to `10 ^ 15`, and exponents have two digits. -/
def literal : Format :=
  { lowest := -4, highest := 15, pointZero := true, exponentWidth := 2 }

/-- The decimal without an exponent. -/
def Decimal.positional (d : Decimal) (pointZero : Bool) : List Char :=
  let digits := d.digits
  if 0 ≤ d.exponent then
    digits ++ List.replicate d.exponent.toNat '0' ++ if pointZero then ['.', '0'] else []
  else if 0 ≤ d.leading then
    let whole := d.leading.toNat + 1
    digits.take whole ++ '.' :: digits.drop whole
  else
    '0' :: '.' :: List.replicate (-d.leading - 1).toNat '0' ++ digits

/-- The decimal with one digit before the point and an exponent. -/
def Decimal.exponential (d : Decimal) (exponentWidth : Nat) : List Char :=
  let mantissa := match d.digits with
    | first :: second :: rest => first :: '.' :: second :: rest
    | short => short
  let exponent := Nat.toDigits 10 d.leading.natAbs
  mantissa ++ 'e' :: (if d.leading < 0 then '-' else '+') ::
    List.replicate (exponentWidth - exponent.length) '0' ++ exponent

/-- The decimal in the given format. -/
def Format.layOut (f : Format) (d : Decimal) : List Char :=
  if f.lowest ≤ d.leading ∧ d.leading ≤ f.highest then d.positional f.pointZero
  else d.exponential f.exponentWidth

/-- A minus sign in front if `negative` holds. -/
def signed (negative : Bool) (digits : List Char) : List Char :=
  if negative then '-' :: digits else digits

/-- The digits of the value of a finite number token. Zero has no shortest decimal of its own. -/
def finiteLiteralText (negative : Bool) (x : Magnitude) : List Char :=
  signed negative (literal.layOut (if x.significand = 0 then ⟨0, 0⟩ else x.shortest))

/-- A number, given its names if it is not finite and how it is written if it is. -/
def write (infinity notANumber : String) (finite : Bool → Magnitude → List Char) (x : Double) :
    String :=
  if x.isNaN then notANumber
  else if x.isInfinite then String.ofList (signed x.isNegative infinity.toList)
  else String.ofList (finite x.isNegative x.magnitude)

/-- The number as the value of a token is shown: with a point or an exponent. -/
def literalText (x : Double) : String := write "inf" "nan" finiteLiteralText x

/-! ## Printed numbers -/

/-- The natural number that decimal digits denote, if the text is one. -/
def readNatural? (text : List Char) : Option Nat :=
  if text.isEmpty || text.any (!·.isDigit) then none else some (Nat.ofDigitChars 10 text 0)

/-- The integer that decimal digits denote, perhaps behind a sign. -/
def readInteger? : List Char → Option Int
  | '-' :: digits => (readNatural? digits).map fun n : Nat => -(n : Int)
  | '+' :: digits => (readNatural? digits).map Int.ofNat
  | digits => (readNatural? digits).map Int.ofNat

/--
The text of a literal, laid out as a program prints it. A text without an exponent stays as it is. An
exponent far from zero is written without the zeros in front of it. Any other exponent is that of a small
fraction: the digits of the mantissa go behind a point, with zeros between. There is no result if no
integer stands behind the `e`.
-/
def relaid? (shown : List Char) : Option (List Char) :=
  if shown.contains 'e' then do
    let (mantissa, rest) := shown.span (· != 'e')
    let exponent ← readInteger? rest.tail
    if 21 ≤ exponent ∨ exponent ≤ -7 then
      return mantissa ++ 'e' :: (if 0 < exponent then '+' else '-') ::
        Nat.toDigits 10 exponent.natAbs
    else
      let digits := (mantissa.dropWhile (· == '-')).filter (· != '.')
      return signed (mantissa.head? == some '-')
        ('0' :: '.' :: List.replicate (-exponent - 1).toNat '0' ++ digits)
  else return shown

/--
The text of a literal as a program prints it. It can be laid out anew for every number that is not printed
digit by digit.
-/
def relaidText (negative : Bool) (x : Magnitude) : List Char :=
  (relaid? (finiteLiteralText negative x)).getD []

/-- The first whole number that is not printed digit by digit. -/
def exactLimit : Nat := Nat.pow 10 21

/-- A finite number as a program prints it. Negative zero has no sign. -/
def finiteText (negative : Bool) (x : Magnitude) : List Char :=
  match x.natural? with
  | some n =>
    if n < exactLimit then signed (negative && n != 0) (Nat.toDigits 10 n) else relaidText negative x
  | none => relaidText negative x

/-- The number as a program prints it. -/
def text (x : Double) : String := write "Infinity" "NaN" finiteText x

end Lox.Number
