import NativeHeaders.ClassFile.Decoder

/-!
# Names in archives

A member's name is in UTF-8 if its entry says so, and otherwise in the older code of one byte for a
character, whose lower half is ASCII. In a name that claims to be UTF-8 and is not, a mark replaces
the bytes that spell no character: one mark for the longest beginning of a character that breaks
off, and one for each byte that cannot begin any.
-/

set_option autoImplicit false

namespace NativeHeaders.ArchiveName

/-! ## The older code -/

/-- The characters of the upper half of the older code. -/
def upperHalf : Array Char :=
  ("ÇüéâäàåçêëèïîìÄÅÉæÆôöòûùÿÖÜ¢£¥₧ƒ" ++
    "áíóúñÑªº¿⌐¬½¼¡«»░▒▓│┤╡╢╖╕╣║╗╝╜╛┐" ++
    "└┴┬├─┼╞╟╚╔╩╦╠═╬╧╨╤╥╙╘╒╓╫╪┘┌█▄▌▐▀" ++
    "αßΓπΣσµτΦΘΩδ∞φε∩≡±≥≤⌠⌡÷≈°∙·√ⁿ²■\u00a0").toList.toArray

/-- The character of a byte in the older code. -/
def olderChar (b : UInt8) : Char :=
  if b.toNat < 0x80 then Char.ofNat b.toNat else upperHalf.getD (b.toNat - 0x80) ' '

/-! ## UTF-8 that may be broken -/

/-- The mark in place of bytes that spell no character. -/
def replacement : Char := '\ufffd'

/-- A character of which some bytes are still to come. -/
structure Unfinished where
  /-- The number that its bytes spell so far. -/
  value : Nat
  /-- How many bytes are to come after the next one. -/
  later : Nat
  /-- The bounds of the next byte. -/
  lowest : Nat
  highest : Nat
deriving DecidableEq

/-- The characters that a byte between two characters spells by itself, or the one that it begins.
The bounds of the second byte keep out what has a shorter spelling, halves of surrogate pairs, and
numbers above the last character. -/
def start (b : Nat) : List Char × Option Unfinished :=
  if b < 0x80 then ([Char.ofNat b], none)
  else if b < 0xc2 || 0xf4 < b then ([replacement], none)
  else if b < 0xe0 then ([], some ⟨b - 0xc0, 0, 0x80, 0xbf⟩)
  else if b < 0xf0 then
    ([], some ⟨b - 0xe0, 1, if b = 0xe0 then 0xa0 else 0x80, if b = 0xed then 0x9f else 0xbf⟩)
  else
    ([], some ⟨b - 0xf0, 2, if b = 0xf0 then 0x90 else 0x80, if b = 0xf4 then 0x8f else 0xbf⟩)

/-- The characters that bytes spell which follow those of an unfinished character, if there is
one. -/
def charsFrom : Option Unfinished → Bytes → List Char
  | none, [] => []
  | some _, [] => [replacement]
  | none, b :: rest =>
    let (chars, begun) := start b.toNat
    chars ++ charsFrom begun rest
  | some u, b :: rest =>
    if u.lowest ≤ b.toNat && b.toNat ≤ u.highest then
      let value := u.value * 64 + b.toNat % 64
      match u.later with
      | 0 => Char.ofNat value :: charsFrom none rest
      | later + 1 => charsFrom (some ⟨value, later, 0x80, 0xbf⟩) rest
    else
      -- the byte does not belong to the character before it, and may begin another
      let (chars, begun) := start b.toNat
      replacement :: (chars ++ charsFrom begun rest)

/-! ## Either -/

/-- The name that some bytes spell. -/
def ofBytes (isUnicode : Bool) (bytes : Bytes) : String :=
  String.ofList (if isUnicode then charsFrom none bytes else bytes.map olderChar)

end NativeHeaders.ArchiveName
