import Lox.Number.Binary

/-!
# Shortest decimals

The decimal with the fewest digits that reads back as a given double, and of those the one nearest
to it. Every double and every midpoint between two doubles is a whole number of units of
`10 ^ -1076`, so the search compares natural numbers only.
-/

namespace Lox.Number

/-- The number `coefficient * 10 ^ exponent`. -/
structure Decimal where
  coefficient : Nat
  exponent : Int
deriving DecidableEq, Inhabited, Repr

/-- The unit of the search is `10 ^ -scale`. -/
def scale : Nat := 1076

/-- The factor that, with a power of two, turns halves of a unit in the last place into units. -/
def fivePower : Nat := Nat.pow 5 scale

/-- A double and the ends of the interval of numbers that round to it, all in units. -/
structure Neighbourhood where
  value : Nat
  lower : Nat
  upper : Nat
  /-- Whether the ends themselves round to the double, which they do if its significand is even. -/
  closed : Bool
deriving DecidableEq, Inhabited, Repr

/--
The interval of numbers that round to `x`. It ends halfway to each neighbour, and the neighbour
below a power of two is only half as far away as the one above.
-/
def Magnitude.neighbourhood (x : Magnitude) : Neighbourhood :=
  let quarter := Nat.pow 2 (x.exponent + scale - 2).toNat * fivePower
  let narrow := x.significand = Nat.pow 2 52 ∧ leastExponent < x.exponent
  { value := 4 * x.significand * quarter
    lower := (4 * x.significand - if narrow then 1 else 2) * quarter
    upper := (4 * x.significand + 2) * quarter
    closed := x.significand % 2 = 0 }

/-- Whether the point `p`, given in units, rounds to the double. -/
def Neighbourhood.contains (x : Neighbourhood) (p : Nat) : Bool :=
  if x.closed then x.lower ≤ p && p ≤ x.upper else x.lower < p && p < x.upper

/--
The multiple of `10 ^ n` units that rounds to the double and lies nearest to it, divided by
`10 ^ n`. Only the two neighbours of the double on that grid can be nearest; a tie goes to the
even one.
-/
def Neighbourhood.nearestOnGrid? (x : Neighbourhood) (n : Nat) : Option Nat :=
  let unit := Nat.pow 10 n
  let below := x.value / unit
  let above := below + 1
  match x.contains (below * unit), x.contains (above * unit) with
  | true, true =>
    let twice := 2 * (x.value % unit)
    some (if twice < unit ∨ (twice = unit ∧ below % 2 = 0) then below else above)
  | true, false => some below
  | false, true => some above
  | false, false => none

/-- Searches the grids from `10 ^ n` units down; the finest holds the double itself. -/
def Neighbourhood.search (x : Neighbourhood) : Nat → Decimal
  | 0 => ⟨x.value, -scale⟩
  | n + 1 =>
    match x.nearestOnGrid? (n + 1) with
    | some c => ⟨c, (n + 1 : Nat) - (scale : Int)⟩
    | none => x.search n

/-- A number of decimal digits that no number below `2 ^ bits` exceeds. -/
def digitBound (bits : Nat) : Nat :=
  bits * 28 / 93 + 1

/-- The decimal with the fewest digits that reads back as the positive magnitude `x`. -/
def Magnitude.shortest (x : Magnitude) : Decimal :=
  let near := x.neighbourhood
  near.search (digitBound (near.value.log2 + 1))

/-- The digits of the coefficient. -/
def Decimal.digits (d : Decimal) : List Char :=
  Nat.toDigits 10 d.coefficient

/-- The power of ten that the first digit counts. -/
def Decimal.leading (d : Decimal) : Int :=
  d.digits.length - 1 + d.exponent

end Lox.Number
