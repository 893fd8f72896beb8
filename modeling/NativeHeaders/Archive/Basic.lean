import NativeHeaders.Archive.Deflate
import NativeHeaders.Archive.End
import NativeHeaders.Archive.Extra
import NativeHeaders.Archive.Library

/-!
# Archives

An archive ends in a record that says where its directory is. The directory lists the members with
their checksums and places; before the content of a member stands a header of its own, which is
looked at only when the member is read.

Bytes may hold several records that could be the one at the end, since anything may stand in a
comment or behind the archive. The last one counts whose directory can be read.

This is one library for archives (`Archive.library`), and nothing but the program as it is put
together in the end depends on it.
-/

set_option autoImplicit false

namespace NativeHeaders

/-- An archive that was opened. -/
structure Archive where
  bytes : Bytes
  members : List ArchiveMember
deriving DecidableEq

namespace Archive

open RecordReader

/-! ## Opening -/

/-- The next member that a directory lists. Its header must start before the directory. -/
def member (e : ArchiveEnd) : RecordReader ArchiveMember := do
  let (listed, extra) ← ArchiveMember.entry
  match listed.withExtra? extra with
  | none => fail .wrong
  | some corrected =>
    let offset := corrected.offset + e.shift
    check (decide (offset < e.directory))
    return { corrected with offset }

/-- The archive that ends in the record at an offset. -/
def endingAt? (bytes : Bytes) (offset : Nat) : Option Archive := do
  let e ← ArchiveEnd.at? bytes offset
  let members ← (times e.count (member e)).at? bytes e.directory
  return ⟨bytes, members⟩

/-- The archive that some bytes are, unless they are damaged. An archive of several volumes is not
taken. -/
def ofBytes? (bytes : Bytes) : Option Archive :=
  (signatureOffsets ArchiveEnd.endSignature 0 bytes).reverse.findSome? (endingAt? bytes)

/-! ## Reading members -/

/-- The content that is stored in some way: as it is, or compressed. -/
def restore? (method : Nat) (stored : Bytes) : Option Bytes :=
  match method with
  | 0 => some stored
  | 8 => Deflate.expand? stored
  | _ => none

/-- The content of a member, of which some bytes are stored. Content that breaks off with the
archive is damaged only if its checksum says so. -/
def contentOf (m : ArchiveMember) (stored : Bytes) : Except FileFault Bytes :=
  match restore? m.method stored with
  | none => .error (.invalidData "corrupt deflate stream")
  | some content =>
    if Checksum.ofBytes content == m.checksum then .ok content
    else .error (.invalidData "Invalid checksum")

/-- A member that is about to be read, unless it is encrypted or stored in an unknown way. -/
def fileOf (archive : Archive) (m : ArchiveMember) : Except ArchiveFault ArchivedFile :=
  match ArchiveMember.header.at? archive.bytes m.offset with
  | none => .error (.damaged "invalid Zip archive: Invalid local file header")
  | some headerSize =>
    if m.isEncrypted || m.hasCipher || !(m.method == 0 || m.method == 8) then
      .error (.damaged "unsupported Zip archive")
    else
      let stored := (archive.bytes.drop (m.offset + headerSize)).take m.storedSize
      .ok ⟨UInt64.ofNat m.fullSize, contentOf m stored⟩

/-- The member of a name; of several the last counts. -/
def member? (archive : Archive) (name : String) : Option ArchiveMember :=
  archive.members.reverse.find? fun member => member.name == name

/-- The library of these operations. -/
def library : ArchiveLibrary Archive where
  ofBytes := fun bytes =>
    match ofBytes? bytes with
    | none => .error (.damaged "invalid Zip archive")
    | some archive => .ok archive
  member := fun archive name =>
    match archive.member? name with
    | none => .error .noMember
    | some m => archive.fileOf m

end Archive

end NativeHeaders
