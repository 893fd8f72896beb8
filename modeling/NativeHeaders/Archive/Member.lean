import NativeHeaders.Archive.Name
import NativeHeaders.Archive.Record

/-!
# Members of an archive

The directory of an archive has an entry for each member, with its name, its checksum and the place
of its header. The header stands before the content and is what tells where the content starts; all
else that it repeats of the entry is left alone.
-/

set_option autoImplicit false

namespace NativeHeaders

/-- A member of an archive as its directory lists it. -/
structure ArchiveMember where
  name : String
  /-- The bytes that spell the name. -/
  nameBytes : Bytes
  /-- The comment in UTF-8. -/
  comment : Bytes
  isEncrypted : Bool
  /-- Whether a field says by which cipher it is encrypted. -/
  hasCipher : Bool
  /-- How the content is stored. -/
  method : Nat
  checksum : Nat
  storedSize : Nat
  fullSize : Nat
  /-- Where the member's header is. -/
  offset : Nat
deriving DecidableEq

namespace ArchiveMember

open RecordReader

/-! ## Signatures -/

/-- How an entry of the directory starts. -/
def entrySignature : Nat := 0x02014b50

/-- How the header of a member starts. -/
def headerSignature : Nat := 0x04034b50

/-! ## Readers -/

/-- The member of an entry, and the bytes of the entry's extra fields. -/
def entry : RecordReader (ArchiveMember × Bytes) := do
  signature entrySignature
  -- who wrote it, and what is needed to read it
  skip 4
  let flags ← number 2
  let method ← number 2
  -- when it was last changed
  skip 4
  let checksum ← number 4
  let storedSize ← number 4
  let fullSize ← number 4
  let nameSize ← number 2
  let extraSize ← number 2
  let commentSize ← number 2
  -- the volume, and attributes of the file
  skip 8
  let offset ← number 4
  let nameBytes ← block nameSize
  let extra ← block extraSize
  let comment ← block commentSize
  let isUnicode := flags / 0x800 % 2 == 1
  let member : ArchiveMember := {
    name := ArchiveName.ofBytes isUnicode nameBytes
    nameBytes
    comment := (ArchiveName.ofBytes isUnicode comment).toUTF8.toList
    isEncrypted := flags % 2 == 1
    hasCipher := false
    method, checksum, storedSize, fullSize, offset }
  return (member, extra)

/-- The size of a member's header. -/
def header : RecordReader Nat := do
  signature headerSignature
  -- what the entry says too
  skip 22
  let nameSize ← number 2
  let extraSize ← number 2
  return 30 + nameSize + extraSize

end ArchiveMember

end NativeHeaders
