/-!
# Binary floating-point numbers as exact values

A binary interchange format has a sign bit, an exponent field and a fraction field. `Binary.decode`
turns the bits of a number into a class; a finite number is a sign and a magnitude `m * 2 ^ q`,
kept as the pair of `m` and `q`, so that nothing is ever rounded.
-/

set_option autoImplicit false

namespace NativeHeaders.Decimal

/-- A binary interchange format, by the widths of two of its fields. -/
structure BinaryFormat where
  exponentBits : Nat
  fractionBits : Nat
deriving DecidableEq

namespace BinaryFormat

/-- The 32-bit format. -/
def binary32 : BinaryFormat := ⟨8, 23⟩

/-- The 64-bit format. -/
def binary64 : BinaryFormat := ⟨11, 52⟩

/-- The greatest value of the exponent field; it marks what is not a finite number. -/
def topExponent (f : BinaryFormat) : Nat := Nat.pow 2 f.exponentBits - 1

/-- The significand of the least normal number, and of every power of two above it. -/
def leadingBit (f : BinaryFormat) : Nat := Nat.pow 2 f.fractionBits

/-- The binary exponent of the last place of a subnormal number. -/
def leastExponent (f : BinaryFormat) : Int :=
  2 - (Nat.pow 2 (f.exponentBits - 1) : Int) - (f.fractionBits : Int)

end BinaryFormat

/-- The value `significand * 2 ^ exponent`. -/
structure Magnitude where
  significand : Nat
  exponent : Int
deriving DecidableEq

/-- What the bits of a floating-point number stand for. -/
inductive Binary where
  | nan
  | infinite (negative : Bool)
  | finite (negative : Bool) (value : Magnitude)
deriving DecidableEq

/-- The number that a format gives to some bits. -/
def Binary.decode (f : BinaryFormat) (bits : Nat) : Binary :=
  let fraction := bits % Nat.pow 2 f.fractionBits
  let field := bits / Nat.pow 2 f.fractionBits % Nat.pow 2 f.exponentBits
  let negative := bits / Nat.pow 2 (f.fractionBits + f.exponentBits) % 2 == 1
  if field = f.topExponent then
    if fraction = 0 then .infinite negative else .nan
  -- subnormal numbers lack the leading bit and share the least exponent
  else if field = 0 then .finite negative ⟨fraction, f.leastExponent⟩
  else .finite negative ⟨f.leadingBit + fraction, f.leastExponent + (field - 1 : Nat)⟩

/-- Whether a magnitude is less than another. -/
def Magnitude.lt (a b : Magnitude) : Bool :=
  let shift := min a.exponent b.exponent
  decide (a.significand * Nat.pow 2 (a.exponent - shift).toNat
    < b.significand * Nat.pow 2 (b.exponent - shift).toNat)

end NativeHeaders.Decimal
