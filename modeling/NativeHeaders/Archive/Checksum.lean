import NativeHeaders.ClassFile.Decoder

/-!
# Checksums

The checksum of some bytes is the remainder of a division of polynomials over bits, lowest bits
first.
-/

set_option autoImplicit false

namespace NativeHeaders.Checksum

/-- One step of the division, for one bit. -/
def step (crc : UInt32) : UInt32 :=
  if crc &&& 1 == 1 then (crc >>> 1) ^^^ 0xedb88320 else crc >>> 1

/-- The checksum of some bytes. -/
def ofBytes (bytes : Bytes) : Nat :=
  let crc := bytes.foldl (fun crc b => Nat.repeat step 8 (crc ^^^ b.toUInt32)) 0xffffffff
  (crc ^^^ 0xffffffff).toNat

end NativeHeaders.Checksum
