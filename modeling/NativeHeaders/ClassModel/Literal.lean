import NativeHeaders.Decimal.Layout

/-!
# Constants as C literals

An integer constant is its decimal numeral with the suffix `L` or `LL`. A floating-point constant
is the shortest decimal that reads back, positional from a thousandth up to ten million, with the
suffix `f` in single precision; what is not finite is a quotient by zero.
-/

set_option autoImplicit false

namespace NativeHeaders

/-- The value of a primitive constant. Numbers narrower than 32 bits, and truth values, are stored
as `int`; floating-point numbers as their bits. -/
inductive ConstantValue where
  | int (value : Int32)
  | long (value : Int64)
  | float (bits : UInt32)
  | double (bits : UInt64)
deriving DecidableEq

namespace ConstantValue

/-- The decimals of header files. The least positional magnitude is the double nearest to a
thousandth. -/
def literalLayout : Decimal.Layout where
  least := ⟨0x10624dd2f1a9fc, -62⟩
  limit := ⟨10000000, 0⟩

/-- The literal of a floating-point number; `suffix` marks its precision. -/
def floatLiteral (suffix : String) (f : Decimal.BinaryFormat) (bits : Nat) : String :=
  match Decimal.Binary.decode f bits with
  | .nan => "(0.0" ++ suffix ++ "/0.0" ++ suffix ++ ")"
  | .infinite false => "(1.0" ++ suffix ++ "/0.0" ++ suffix ++ ")"
  | .infinite true => "(-1.0" ++ suffix ++ "/0.0" ++ suffix ++ ")"
  | .finite negative value => String.ofList (literalLayout.write f negative value) ++ suffix

/-- A constant as a C literal. -/
def literal : ConstantValue → String
  | int value => toString value.toInt ++ "L"
  | long value => toString value.toInt ++ "LL"
  | float bits => floatLiteral "f" .binary32 bits.toNat
  | double bits => floatLiteral "" .binary64 bits.toNat

/-- Whether a constant is a floating-point value that is not a number. -/
def isNaN : ConstantValue → Bool
  | float bits => Decimal.Binary.decode .binary32 bits.toNat == .nan
  | double bits => Decimal.Binary.decode .binary64 bits.toNat == .nan
  | _ => false

end ConstantValue

end NativeHeaders
