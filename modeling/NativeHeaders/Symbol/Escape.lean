import NativeHeaders.Text.Hex
import NativeHeaders.Text.Units

/-!
# Escaping names into C identifiers

The binding convention spells a class, method or descriptor in the letters of a C identifier. It
works on sixteen-bit units, in one pass from the left:

* `/` and `.` become `_` and open a new segment;
* `_`, `;` and `[` become `_1`, `_2` and `_3`;
* ASCII letters and digits stand for themselves, except that a digit `0` to `3` that opens a
  segment is escaped, because after `_` it would read as one of the escapes;
* every other unit becomes `_0` and four hexadecimal digits.

The escape of a unit therefore depends on what stands before it, and `Symbol.escape` carries that
in its first argument.
-/

set_option autoImplicit false

namespace NativeHeaders.Symbol

open Text (Units)

/-- The number of hexadecimal digits in the escape of a unit. -/
def escapeWidth : Nat := 4

/-- The escape of a unit that has no shorter spelling. -/
def escapeNumber (u : UInt16) : List Char := '_' :: '0' :: Text.fixedHex escapeWidth u.toNat

/-- A separator ends a segment of a name. -/
def isSeparator (u : UInt16) : Bool := u == 0x2f || u == 0x2e

/-- The digits that may not open a segment unescaped. -/
def isEscapeDigit (c : Char) : Bool := c == '0' || c == '1' || c == '2' || c == '3'

/-- The spelling of a unit that is not a separator; `opening` says that it opens a segment. -/
def escapeUnit (opening : Bool) (u : UInt16) : List Char :=
  match Text.ascii? u with
  | none => escapeNumber u
  | some c =>
    if c == '_' then ['_', '1']
    else if c == ';' then ['_', '2']
    else if c == '[' then ['_', '3']
    -- behind the `_` of a separator one of these digits would look like the escapes above
    else if c.isAlphanum && !(opening && isEscapeDigit c) then [c]
    else escapeNumber u

/-- The spelling of a name from a place where a segment opens, or does not, on. -/
def escape : Bool → Units → List Char
  | _, [] => []
  | opening, u :: us =>
    if isSeparator u then '_' :: escape true us else escapeUnit opening u ++ escape false us

/-- A class, method or descriptor fragment in the letters of a C identifier. -/
def escapeName (name : String) : String := String.ofList (escape true (Text.unitsOf name))

/-! ## Fields -/

/-- The spelling of a unit of a field's name: unlike elsewhere, `_` stays as it is, so that names
such as `MAX_VALUE` remain readable. -/
def escapeFieldUnit (u : UInt16) : List Char :=
  match Text.ascii? u with
  | none => escapeNumber u
  | some c => if c == '_' || c.isAlphanum then [c] else escapeNumber u

/-- A field's name in the letters of a C identifier. -/
def escapeFieldName (name : String) : String :=
  String.ofList ((Text.unitsOf name).flatMap escapeFieldUnit)

end NativeHeaders.Symbol
