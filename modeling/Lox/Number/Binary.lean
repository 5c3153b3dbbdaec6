/-!
# Doubles

A `Double` is a binary64 number by its bit pattern. If it is finite it has a sign and a magnitude
`significand * 2 ^ exponent`, which `magnitude` reads off the pattern; `nearest` goes the other way and
rounds a quotient of natural numbers to the double that lies nearest, a tie going to the even
significand. Arithmetic is done on `Float`, which holds the same numbers but only one NaN.
-/

namespace Lox.Number

/-- A binary64 number. Unlike a float, it keeps the bits of a NaN. -/
structure Double where
  bits : UInt64
deriving DecidableEq, Inhabited, Repr

namespace Double

def ofFloat (x : Float) : Double := ⟨x.toBits⟩

def toFloat (x : Double) : Float := .ofBits x.bits

/-- Whether the sign bit is set. -/
def isNegative (x : Double) : Bool := Nat.pow 2 63 ≤ x.bits.toNat

/-- The eleven bits of the exponent. -/
def exponentField (x : Double) : Nat := x.bits.toNat / Nat.pow 2 52 % Nat.pow 2 11

/-- The fifty-two bits of the significand. -/
def fraction (x : Double) : Nat := x.bits.toNat % Nat.pow 2 52

/-- The exponent of infinities and NaNs. -/
def specialExponent : Nat := Nat.pow 2 11 - 1

def isNaN (x : Double) : Bool := x.exponentField = specialExponent ∧ x.fraction ≠ 0

def isInfinite (x : Double) : Bool := x.exponentField = specialExponent ∧ x.fraction = 0

end Double

/-- The number `significand * 2 ^ exponent`. -/
structure Magnitude where
  significand : Nat
  exponent : Int
deriving DecidableEq, Inhabited, Repr

/-- The least exponent of a double; subnormal numbers have it too. -/
def leastExponent : Int := -1074

/-- The bit pattern of positive infinity. Every finite magnitude has a smaller one. -/
def infinityBits : Nat := Double.specialExponent * Nat.pow 2 52

/-- The magnitude of a finite double. -/
def Double.magnitude (x : Double) : Magnitude :=
  match x.exponentField with
  | 0 => ⟨x.fraction, leastExponent⟩
  | e + 1 => ⟨Nat.pow 2 52 + x.fraction, e + leastExponent⟩

/-- The whole number that the magnitude denotes, if it denotes one. -/
def Magnitude.natural? (x : Magnitude) : Option Nat :=
  if 0 ≤ x.exponent then some (x.significand * Nat.pow 2 x.exponent.toNat)
  else
    let unit := Nat.pow 2 (-x.exponent).toNat
    if x.significand % unit = 0 then some (x.significand / unit) else none

/-- The natural number nearest to `n / d`, a tie going to the even one. -/
def roundQuotient (n d : Nat) : Nat :=
  let q := n / d
  let twice := 2 * (n % d)
  if twice < d ∨ (twice = d ∧ q % 2 = 0) then q else q + 1

/-- The integer `e` with `2 ^ e ≤ n / d < 2 ^ (e + 1)`, for positive `n` and `d`. -/
def leadingExponent (n d : Nat) : Int :=
  let e : Int := (n.log2 : Int) - d.log2
  if d * Nat.pow 2 e.toNat ≤ n * Nat.pow 2 (-e).toNat then e else e - 1

/--
The bit pattern of the double nearest to `n / d`. A significand that rounds up to `2 ^ 53` carries
into the exponent field, which is where the next double is.
-/
def nearestBits (n d : Nat) : Nat :=
  if n = 0 then 0
  else
    let e := max (leadingExponent n d - 52) leastExponent
    let significand := roundQuotient (n * Nat.pow 2 (-e).toNat) (d * Nat.pow 2 e.toNat)
    min ((e - leastExponent).toNat * Nat.pow 2 52 + significand) infinityBits

/-- The double nearest to `n / d`. -/
def nearest (n d : Nat) : Double :=
  ⟨UInt64.ofNat (nearestBits n d)⟩

end Lox.Number
