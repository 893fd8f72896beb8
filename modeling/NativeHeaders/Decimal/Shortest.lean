import NativeHeaders.Decimal.Binary

/-!
# The shortest decimal that reads back

Around every floating-point number lies an interval of reals that round to it; its ends belong to
it exactly when the significand is even. The shortest decimal of the number lies on the coarsest
grid of powers of ten that has a point in the interval: of the two neighbours of the number on
that grid the nearer one that lies inside, and of two equally near ones the upper.

Everything is decided in natural numbers. `Grid` scales the number and the interval to the unit of
a grid, by powers of two and ten that make all of them integers.
-/

set_option autoImplicit false

namespace NativeHeaders.Decimal

/-- The value `digits * 10 ^ exponent`. -/
structure Numeral where
  digits : Nat
  exponent : Int
deriving DecidableEq

/-- The reals that round to a number, in quarters of its last place: it stands at
`4 * significand`. -/
structure Interval where
  low : Nat
  high : Nat
  /-- Whether the ends round to the number too. -/
  closed : Bool
deriving DecidableEq

/-- The interval of a number. It is narrower below a power of two, where the spacing halves. -/
def Interval.around (f : BinaryFormat) (significand : Nat) : Interval where
  low := 4 * significand - (if significand = f.leadingBit then 1 else 2)
  high := 4 * significand + 2
  closed := significand % 2 == 0

/-- A grid of multiples of a power of ten, beside a number: a point of the grid is `point * unit`
and a quarter of the number's last place is `quarter`, both in one integral measure. -/
structure Grid where
  unit : Nat
  quarter : Nat
deriving DecidableEq

namespace Grid

/-- The grid of `10 ^ exponent` beside a number whose last place is `2 ^ place`. -/
def of (place exponent : Int) : Grid where
  unit := Nat.pow 10 exponent.toNat * Nat.pow 2 (2 - place).toNat
  quarter := Nat.pow 10 (-exponent).toNat * Nat.pow 2 (place - 2).toNat

/-- Whether a point of the grid lies in an interval. -/
def holds (g : Grid) (i : Interval) (point : Nat) : Bool :=
  if i.closed then
    decide (i.low * g.quarter ≤ point * g.unit ∧ point * g.unit ≤ i.high * g.quarter)
  else decide (i.low * g.quarter < point * g.unit ∧ point * g.unit < i.high * g.quarter)

/-- The greatest point of the grid that is not above the number. -/
def below (g : Grid) (significand : Nat) : Nat := 4 * significand * g.quarter / g.unit

/-- The point of the grid that is chosen for a number: the nearer of its two neighbours inside
the interval, the upper one when both are equally near. -/
def choose (g : Grid) (i : Interval) (significand : Nat) : Option Nat :=
  let value := 4 * significand * g.quarter
  let lower := g.below significand
  let upper := lower + 1
  -- a tie between the two goes up
  if g.holds i upper
      && (!g.holds i lower || decide (upper * g.unit - value ≤ value - lower * g.unit)) then
    some upper
  else if g.holds i lower then some lower
  else none

end Grid

/-- Looks for a point of a grid in the interval, from an exponent downwards. -/
def Numeral.search (i : Interval) (m : Magnitude) : Nat → Int → Numeral
  -- not reached: a grid finer than the interval has a point in it
  | 0, _ => ⟨4 * m.significand, m.exponent⟩
  | steps + 1, exponent =>
    match (Grid.of m.exponent exponent).choose i m.significand with
    | some point => ⟨point, exponent⟩
    | none => search i m steps (exponent - 1)

/-- An exponent whose power of ten exceeds a magnitude. -/
def Magnitude.decimalBound (m : Magnitude) : Nat :=
  (Nat.toDigits 10 (m.significand * Nat.pow 2 m.exponent.toNat)).length

/-- The shortest decimal that rounds to a positive magnitude of a format. The search ends at the
latest where the grid is finer than a quarter of the last place. -/
def Numeral.shortest (f : BinaryFormat) (m : Magnitude) : Numeral :=
  search (Interval.around f m.significand) m (m.decimalBound + (2 - m.exponent).toNat + 1)
    m.decimalBound

end NativeHeaders.Decimal
