import NativeHeaders.Archive.Member

/-!
# The end of an archive

The record at the end says where the directory of an archive is and how many members it lists. If
these numbers do not fit into it, a record of wide numbers stands somewhere before it, and a record
right before it says where.

Something may stand before the archive. Then all places count from where the archive really starts,
which is found from where the directory, or the record of wide numbers, is found.
-/

set_option autoImplicit false

namespace NativeHeaders

/-- Where the directory of an archive is, how many members it lists, and what stands before the
archive. -/
structure ArchiveEnd where
  directory : Nat
  count : Nat
  /-- How many bytes stand before the archive. -/
  shift : Nat
deriving DecidableEq

/-- The record at the end, or the record of wide numbers. -/
structure EndRecord where
  /-- The volume with the record. -/
  volume : Nat
  /-- The volume with the directory. -/
  directoryVolume : Nat
  /-- How many members the directory lists on the volume. -/
  countHere : Nat
  /-- How many members the directory lists. -/
  count : Nat
  /-- Where the directory is said to start. -/
  directory : Nat
deriving DecidableEq

/-- A record of wide numbers. -/
structure WideEndRecord extends EndRecord where
  /-- The size of the record from the next number on. -/
  size : Nat
  /-- The version of the program that wrote the archive. -/
  writtenBy : Nat
  /-- The version that can read it. -/
  neededVersion : Nat
deriving DecidableEq

/-- The record that says where the record of wide numbers is. -/
structure WideEndLocator where
  directoryVolume : Nat
  /-- Where the record of wide numbers is said to start. -/
  place : Nat
  volumes : Nat
deriving DecidableEq

namespace ArchiveEnd

open RecordReader

/-! ## Records -/

/-- How the record at the end starts. -/
def endSignature : Nat := 0x06054b50

/-- How the record of wide numbers starts. -/
def wideSignature : Nat := 0x06064b50

/-- How the record starts that says where it is. -/
def locatorSignature : Nat := 0x07064b50

/-- The size of that record. -/
def locatorSize : Nat := 20

/-- The record at the end, with its comment. -/
def endRecord : RecordReader EndRecord := do
  signature endSignature
  let volume ← number 2
  let directoryVolume ← number 2
  let countHere ← number 2
  let count ← number 2
  -- the size of the directory
  skip 4
  let directory ← number 4
  let commentSize ← number 2
  skip commentSize
  return { volume, directoryVolume, countHere, count, directory }

/-- The record of wide numbers, without what may follow them. -/
def wideEndRecord : RecordReader WideEndRecord := do
  signature wideSignature
  let size ← number 8
  let writtenBy ← number 2
  let neededVersion ← number 2
  let volume ← number 4
  let directoryVolume ← number 4
  let countHere ← number 8
  let count ← number 8
  -- the size of the directory
  skip 8
  let directory ← number 8
  return { volume, directoryVolume, countHere, count, directory, size, writtenBy, neededVersion }

/-- The record that says where the record of wide numbers is. -/
def wideEndLocator : RecordReader WideEndLocator := do
  signature locatorSignature
  let directoryVolume ← number 4
  let place ← number 8
  let volumes ← number 4
  return { directoryVolume, place, volumes }

/-! ## Archives with narrow numbers -/

/-- The end of an archive whose record at the end is at an offset. The directory starts with the
first entry from where it is said to start. If it lists nothing, it is said to end where the record
starts. -/
def ofRecord? (bytes : Bytes) (offset : Nat) (record : EndRecord) : Option ArchiveEnd :=
  if record.volume != record.directoryVolume then none
  else if record.count = 0 then
    let shift := offset - record.directory
    some ⟨record.directory + shift, record.countHere, shift⟩
  else
    (signaturesBetween ArchiveMember.entrySignature record.directory offset bytes).head?.map
      fun found => ⟨found, record.countHere, found - record.directory⟩

/-! ## Archives with wide numbers -/

/-- Whether a number of the record at the end is the one that stands for what does not fit. -/
def isTooNarrow (record : EndRecord) : Bool :=
  record.count == 0xffff || record.directory == 0xffffffff

/-- The record that says where the record of wide numbers is, and its offset. -/
def locatorBefore? (bytes : Bytes) (offset : Nat) : Option (Nat × WideEndLocator) :=
  if offset < locatorSize then none
  else (wideEndLocator.at? bytes (offset - locatorSize)).map fun locator =>
    (offset - locatorSize, locator)

/-- The record of wide numbers at an offset, if it reaches up to the record that says where it is
and there is room before it for the directory. -/
def wideRecordAt? (bytes : Bytes) (locatorOffset : Nat) (locator : WideEndLocator) (offset : Nat) :
    Option (Nat × WideEndRecord) := do
  let record ← wideEndRecord.at? bytes offset
  -- the numbers behind the size take up 44 bytes, those up to it 12, and an entry at least 46
  if 44 ≤ record.size && offset + record.size + 12 == locatorOffset
      && record.directoryVolume == locator.directoryVolume
      && record.directory + record.count * 46 ≤ offset then
    return (offset, record)
  else none

/-- The end of an archive that has a record of wide numbers. The first record counts that could be
meant, from where it is said to start. -/
def ofLocator? (bytes : Bytes) (locatorOffset : Nat) (locator : WideEndLocator) :
    Option ArchiveEnd := do
  if locator.volumes > 1 then none
  else
    let candidates := signaturesBetween wideSignature locator.place locatorOffset bytes
    let (offset, record) ← candidates.findSome? (wideRecordAt? bytes locatorOffset locator)
    let shift := offset - locator.place
    if record.countHere ≤ record.count && record.neededVersion ≤ record.writtenBy
        && record.volume == record.directoryVolume then
      return ⟨record.directory + shift, record.count, shift⟩
    else none

/-! ## Either -/

/-- The end of an archive whose record at the end is at an offset, unless records contradict each
other or the archive has several volumes. -/
def at? (bytes : Bytes) (offset : Nat) : Option ArchiveEnd := do
  let record ← endRecord.at? bytes offset
  match if isTooNarrow record then locatorBefore? bytes offset else none with
  | some (locatorOffset, locator) => ofLocator? bytes locatorOffset locator
  | none => ofRecord? bytes offset record

end ArchiveEnd

end NativeHeaders
