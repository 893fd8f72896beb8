import NativeHeaders.Decimal.Shortest

/-!
# Writing decimals out

A decimal is written positionally, with at least one digit on either side of the point, or
scientifically, with one digit before the point and at least one after it, `E` and an exponent.
Which of the two is chosen by magnitude, and the bounds are fields of a `Layout`.
-/

set_option autoImplicit false

namespace NativeHeaders.Decimal

/-- The magnitudes that are written positionally: zero, and from `least` up to but without
`limit`. -/
structure Layout where
  least : Magnitude
  limit : Magnitude
deriving DecidableEq

/-- Whether a magnitude is written positionally. -/
def Layout.isPositional (l : Layout) (m : Magnitude) : Bool :=
  m.significand == 0 || (!m.lt l.least && m.lt l.limit)

namespace Numeral

/-- The digits of a numeral, most significant first. -/
def text (n : Numeral) : List Char := Nat.toDigits 10 n.digits

/-- Digits, or a zero where there are none. -/
def orZero (cs : List Char) : List Char := if cs.isEmpty then ['0'] else cs

/-- A numeral with its point in place. -/
def positional (n : Numeral) : List Char :=
  let digits := n.text
  let places := (-n.exponent).toNat
  let whole := digits ++ List.replicate n.exponent.toNat '0'
  -- zeros in front, so that a digit is left of the point
  let padded := List.replicate (places + 1 - whole.length) '0' ++ whole
  padded.take (padded.length - places) ++ '.' :: orZero (padded.drop (padded.length - places))

/-- A numeral with one digit before its point, and an exponent. -/
def scientific (n : Numeral) : List Char :=
  let exponent := n.exponent + (n.text.length - 1 : Nat)
  n.text.take 1 ++ '.' :: orZero (n.text.drop 1) ++ 'E' :: (toString exponent).toList

end Numeral

/-- The text of a finite number of a format. -/
def Layout.write (l : Layout) (f : BinaryFormat) (negative : Bool) (m : Magnitude) : List Char :=
  let numeral := if m.significand = 0 then ⟨0, 0⟩ else Numeral.shortest f m
  (if negative then ['-'] else []) ++
    (if l.isPositional m then numeral.positional else numeral.scientific)

end NativeHeaders.Decimal
