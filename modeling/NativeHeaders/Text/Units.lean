/-!
# Text in sixteen-bit units

Class files count text in sixteen-bit units, and so do the names of linked symbols: a character
above `0xffff` takes two units, a high surrogate followed by a low one. A list of units is text
exactly when every surrogate in it has its partner, and `Text.string?` is the partial inverse of
`Text.unitsOf` that says so.
-/

set_option autoImplicit false

namespace NativeHeaders.Text

/-- Sixteen-bit text units, in order. A surrogate may stand without its partner. -/
abbrev Units := List UInt16

/-! ## From text to units -/

/-- The units of one character: the character itself below `0x10000`, a surrogate pair above. -/
def unitsOfChar (c : Char) : Units :=
  if c.toNat < 0x10000 then [UInt16.ofNat c.toNat]
  else
    [UInt16.ofNat (0xd800 + (c.toNat - 0x10000) / 0x400),
      UInt16.ofNat (0xdc00 + (c.toNat - 0x10000) % 0x400)]

/-- The units of a sequence of characters. -/
def unitsOfChars (cs : List Char) : Units := cs.flatMap unitsOfChar

/-- The units of a text. -/
def unitsOf (s : String) : Units := unitsOfChars s.toList

@[simp] theorem unitsOfChars_nil : unitsOfChars [] = [] := rfl

@[simp] theorem unitsOfChars_cons (c : Char) (cs : List Char) :
    unitsOfChars (c :: cs) = unitsOfChar c ++ unitsOfChars cs := rfl

@[simp] theorem unitsOfChars_append (cs ds : List Char) :
    unitsOfChars (cs ++ ds) = unitsOfChars cs ++ unitsOfChars ds := by
  simp [unitsOfChars]

/-! ## From units to text -/

/-- A high surrogate opens a pair. -/
def isHighSurrogate (u : UInt16) : Bool := decide (0xd800 ≤ u.toNat ∧ u.toNat < 0xdc00)

/-- A low surrogate closes a pair. -/
def isLowSurrogate (u : UInt16) : Bool := decide (0xdc00 ≤ u.toNat ∧ u.toNat < 0xe000)

/-- The character that a surrogate pair stands for. -/
def pairedChar (high low : UInt16) : Char :=
  Char.ofNat (0x10000 + (high.toNat - 0xd800) * 0x400 + (low.toNat - 0xdc00))

/-- The characters of a list of units, unless a surrogate in it is unpaired. -/
def chars? : Units → Option (List Char)
  | [] => some []
  | u :: us =>
    if isHighSurrogate u then
      match us with
      | v :: us => if isLowSurrogate v then (chars? us).map (pairedChar u v :: ·) else none
      | [] => none
    else if isLowSurrogate u then none
    else (chars? us).map (Char.ofNat u.toNat :: ·)

/-- The text of a list of units, unless a surrogate in it is unpaired. -/
def string? (us : Units) : Option String := (chars? us).map String.ofList

/-- The ASCII character that a unit stands for, if any. -/
def ascii? (u : UInt16) : Option Char :=
  if u.toNat < 0x80 then some (Char.ofNat u.toNat) else none

end NativeHeaders.Text
