import NativeHeaders.Text.Units

/-!
# The modified UTF-8 of class files

Each sixteen-bit unit is written on its own: `0x0001` to `0x007f` in one byte, `0x0000` and
`0x0080` to `0x07ff` in two, all others in three. So a text holds neither a zero byte nor a byte
above `0xef`, and a surrogate pair takes six bytes. The decoder also takes overlong groups.
-/

set_option autoImplicit false

namespace NativeHeaders.Text.ModifiedUtf8

/-! ## Writing -/

/-- The bytes of one unit. -/
def encodeUnit (u : UInt16) : List UInt8 :=
  let n := u.toNat
  if 0x01 ≤ n ∧ n < 0x80 then [UInt8.ofNat n]
  else if n < 0x800 then [UInt8.ofNat (0xc0 + n / 0x40), UInt8.ofNat (0x80 + n % 0x40)]
  else
    [UInt8.ofNat (0xe0 + n / 0x1000), UInt8.ofNat (0x80 + n / 0x40 % 0x40),
      UInt8.ofNat (0x80 + n % 0x40)]

/-- The bytes of a list of units. -/
def encode (us : Units) : List UInt8 := us.flatMap encodeUnit

/-- The bytes of a text. -/
def encodeString (s : String) : List UInt8 := encode (unitsOf s)

/-! ## Reading -/

/-- A continuation byte carries six bits of a group that a lead byte opened. -/
def isContinuation (b : UInt8) : Bool := decide (0x80 ≤ b.toNat ∧ b.toNat < 0xc0)

/-- A lead byte of a group of one. -/
def isSingle (b : UInt8) : Bool := decide (0x01 ≤ b.toNat ∧ b.toNat < 0x80)

/-- A lead byte of a group of two. -/
def isLeadOfTwo (b : UInt8) : Bool := decide (0xc0 ≤ b.toNat ∧ b.toNat < 0xe0)

/-- A lead byte of a group of three. -/
def isLeadOfThree (b : UInt8) : Bool := decide (0xe0 ≤ b.toNat ∧ b.toNat < 0xf0)

/-- The unit that a group of two bytes carries. -/
def unitOfTwo (a b : UInt8) : UInt16 :=
  UInt16.ofNat ((a.toNat - 0xc0) * 0x40 + (b.toNat - 0x80))

/-- The unit that a group of three bytes carries. -/
def unitOfThree (a b c : UInt8) : UInt16 :=
  UInt16.ofNat ((a.toNat - 0xe0) * 0x1000 + (b.toNat - 0x80) * 0x40 + (c.toNat - 0x80))

/-- The units of a byte string, if it splits into groups of one, two and three bytes. -/
def decode? : List UInt8 → Option Units
  | [] => some []
  | a :: rest =>
    if isSingle a then (decode? rest).map (UInt16.ofNat a.toNat :: ·)
    else if isLeadOfTwo a then
      match rest with
      | b :: rest => if isContinuation b then (decode? rest).map (unitOfTwo a b :: ·) else none
      | [] => none
    else if isLeadOfThree a then
      match rest with
      | b :: c :: rest =>
        if isContinuation b && isContinuation c then (decode? rest).map (unitOfThree a b c :: ·)
        else none
      | _ => none
    else none

end NativeHeaders.Text.ModifiedUtf8
