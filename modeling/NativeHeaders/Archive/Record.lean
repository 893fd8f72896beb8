import NativeHeaders.ClassFile.Decoder

/-!
# The records of an archive

An archive is made of records. A record starts with the number of its kind, its signature, and goes
on with numbers, least significant byte first, and with blocks of bytes. A record that breaks off
is told from one that says what it must not say, since what follows differs.
-/

set_option autoImplicit false

namespace NativeHeaders

/-- Why a record cannot be read. -/
inductive RecordFault where
  /-- There are fewer bytes than it should have. -/
  | brokenOff
  /-- It says what no record may say. -/
  | wrong
deriving DecidableEq

/-- A reader from the front of the remaining bytes. -/
abbrev RecordReader (α : Type) := StateT Bytes (Except RecordFault) α

/-- The number that some bytes spell, least significant first. -/
def littleEndian (bytes : Bytes) : Nat := bigEndian bytes.reverse

namespace RecordReader

variable {α : Type}

/-- Gives up on a record. -/
def fail (fault : RecordFault) : RecordReader α := fun _ => .error fault

/-- Gives up on a record that says what it must not, unless a condition holds. -/
def check (holds : Bool) : RecordReader Unit := if holds then return () else fail .wrong

/-- The next `n` bytes. -/
def block (n : Nat) : RecordReader Bytes := fun bytes =>
  if (bytes.take n).length = n then .ok (bytes.take n, bytes.drop n) else .error .brokenOff

/-- Passes over the next `n` bytes. -/
def skip (n : Nat) : RecordReader Unit := do
  let _ ← block n
  return ()

/-- The next number of `width` bytes. -/
def number (width : Nat) : RecordReader Nat := do
  let bytes ← block width
  return littleEndian bytes

/-- The signature of a kind of record. -/
def signature (expected : Nat) : RecordReader Unit := do
  let found ← number 4
  check (found == expected)

/-- `n` records in a row. -/
def times (n : Nat) (record : RecordReader α) : RecordReader (List α) :=
  match n with
  | 0 => return []
  | n + 1 => do
    let first ← record
    let others ← times n record
    return first :: others

/-- The record at an offset, if it can be read. -/
def at? (record : RecordReader α) (bytes : Bytes) (offset : Nat) : Option α :=
  match record (bytes.drop offset) with
  | .ok (value, _) => some value
  | .error _ => none

end RecordReader

/-- The offsets of a signature in bytes that start at an offset. -/
def signatureOffsets (signature offset : Nat) : Bytes → List Nat
  | [] => []
  | b :: rest =>
    if littleEndian ((b :: rest).take 4) == signature then
      offset :: signatureOffsets signature (offset + 1) rest
    else signatureOffsets signature (offset + 1) rest

/-- The offsets of a signature between two offsets. -/
def signaturesBetween (signature first last : Nat) (bytes : Bytes) : List Nat :=
  signatureOffsets signature first ((bytes.take last).drop first)

end NativeHeaders
