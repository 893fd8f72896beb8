import NativeHeaders.ClassFile.Error

/-!
# Taking values off a stream of bytes

A decoder takes a value off the front of a stream, or says why it cannot. The stream counts the
bytes that were taken off it. All numbers are big-endian.
-/

set_option autoImplicit false

namespace NativeHeaders

/-- The content of a file. -/
abbrev Bytes := List UInt8

/-- Bytes that are read from the front on. -/
structure ByteStream where
  /-- What was not read yet. -/
  rest : Bytes
  /-- The number of bytes that were read so far. -/
  position : Nat
deriving DecidableEq

/-- A decoder from the front of a stream. -/
abbrev Decoder (α : Type) := StateT ByteStream (Except ClassFileError) α

/-- The number that some bytes spell, most significant first. -/
def bigEndian (bytes : Bytes) : Nat := bytes.foldl (fun n b => n * 256 + b.toNat) 0

namespace Decoder

variable {α : Type}

/-- The next `n` bytes; `what` is named if there are fewer. -/
def take (what : Shortfall) (n : Nat) : Decoder Bytes := fun s =>
  if (s.rest.take n).length = n then .ok (s.rest.take n, ⟨s.rest.drop n, s.position + n⟩)
  else .error (.ended what)

/-- Exactly the bytes in front are taken and counted, and what follows them is left alone. -/
theorem take_append {what : Shortfall} {n p : Nat} {front rest : Bytes} (h : front.length = n) :
    take what n ⟨front ++ rest, p⟩ = .ok (front, ⟨rest, p + n⟩) := by
  subst h
  simp [take]

/-- Gives up with an error. -/
def fail (e : ClassFileError) : Decoder α := fun _ => .error e

/-- The next number of `n` bytes. -/
def number (n : Nat) : Decoder Nat := do
  let bytes ← take .number n
  return bigEndian bytes

/-- The next byte. -/
def u1 : Decoder UInt8 := UInt8.ofNat <$> number 1

/-- The next two-byte number. -/
def u2 : Decoder UInt16 := UInt16.ofNat <$> number 2

/-- The next four-byte number. -/
def u4 : Decoder UInt32 := UInt32.ofNat <$> number 4

/-- The next eight-byte number. -/
def u8 : Decoder UInt64 := UInt64.ofNat <$> number 8

/-- The next block of `n` bytes. -/
def block (n : Nat) : Decoder Bytes := take .block n

/-- `n` values in a row. -/
def times (n : Nat) (item : Decoder α) : Decoder (List α) :=
  match n with
  | 0 => return []
  | n + 1 => do
    let first ← item
    let others ← times n item
    return first :: others

/-- A two-byte count and as many values. -/
def counted (item : Decoder α) : Decoder (List α) := do
  let count ← u2
  times count.toNat item

end Decoder

end NativeHeaders
