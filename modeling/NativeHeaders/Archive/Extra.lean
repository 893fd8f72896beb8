import NativeHeaders.Archive.Checksum
import NativeHeaders.Archive.Member

/-!
# Extra fields

An entry of a directory may carry extra fields, each with a number for its kind and the size of its
data. Some correct what the entry says of the member: numbers that do not fit into four bytes, a
name or a comment in Unicode, or the method of an encrypted member. Others must only be well-formed.

Fields that break off are no fault. They end the row of fields, and what was read before stays in
force, even if it is a part of the same field. Anything else that is wrong makes the entry wrong.
-/

set_option autoImplicit false

namespace NativeHeaders

/-- A reader of extra fields: of the member as it was corrected so far, and of the bytes to come.
What is found out before a fault is kept. -/
abbrev FieldReader (α : Type) := ExceptT RecordFault (StateM (ArchiveMember × Bytes)) α

namespace FieldReader

open RecordReader

variable {α : Type}

/-- Takes the next part of a field. -/
def take (part : RecordReader α) : FieldReader α := fun (member, bytes) =>
  match part bytes with
  | .ok (value, rest) => (.ok value, (member, rest))
  | .error fault => (.error fault, (member, bytes))

/-- The member as it was corrected so far. -/
def member : FieldReader ArchiveMember := do
  let (member, _) ← get
  return member

/-- Corrects the member. -/
def correct (f : ArchiveMember → ArchiveMember) : FieldReader Unit :=
  modify fun (member, bytes) => (f member, bytes)

/-! ## Wide numbers -/

/-- The number that stands in an entry for one that does not fit into four bytes. -/
def tooWide : Nat := 0xffffffff

/-- The eight-byte form of a number, if the field has it, and how many bytes it took. -/
def wideNumber (isPresent : Bool) (set : Nat → ArchiveMember → ArchiveMember) :
    FieldReader Nat := do
  if isPresent then
    let n ← take (number 8)
    correct (set n)
    return 8
  else return 0

/-- The sizes and the place of a member in eight bytes each. A field that has room for all has all;
else it has those that did not fit into the entry. -/
def wideNumbers (size : Nat) : FieldReader Unit := do
  let m ← member
  let isPresent (inEntry : Nat) : Bool := decide (24 ≤ size) || inEntry == tooWide
  let full ← wideNumber (isPresent m.fullSize) fun n m => { m with fullSize := n }
  let stored ← wideNumber (isPresent m.storedSize) fun n m => { m with storedSize := n }
  let place ← wideNumber (isPresent m.offset) fun n m => { m with offset := n }
  let taken := full + stored + place
  take (check (decide (taken ≤ size)))
  take (skip (size - taken))

/-! ## Encryption -/

/-- The cipher of an encrypted member, and the method by which its content was stored before. -/
def cipher (size : Nat) : FieldReader Unit := do
  take (check (size == 7))
  let version ← take (number 2)
  let vendor ← take (number 2)
  let strength ← take (number 1)
  let method ← take (number 2)
  take (check (vendor == 0x4541 && (version == 1 || version == 2)
    && decide (1 ≤ strength ∧ strength ≤ 3)))
  correct fun m => { m with method, hasCipher := true }

/-! ## Unicode -/

/-- The text that replaces one in an older code. The field tells by a checksum which text it is
meant for. -/
def replacementText (size : Nat) (replaced : Bytes) : RecordReader (Bytes × String) := do
  -- the version of the field
  skip 1
  let checksum ← number 4
  check (decide (5 ≤ size))
  let content ← block (size - 5)
  check (checksum == Checksum.ofBytes replaced)
  match String.fromUTF8? ⟨content.toArray⟩ with
  | some text => return (content, text)
  | none => fail .wrong

/-- The name in Unicode. -/
def unicodeName (size : Nat) : FieldReader Unit := do
  let m ← member
  let (nameBytes, name) ← take (replacementText size m.nameBytes)
  correct fun m => { m with name, nameBytes }

/-- The comment in Unicode. -/
def unicodeComment (size : Nat) : FieldReader Unit := do
  let m ← member
  let (comment, _) ← take (replacementText size m.comment)
  correct fun m => { m with comment }

/-! ## Times -/

/-- Three times of a file in the finest unit. -/
def fineTimes (size : Nat) : RecordReader Unit := do
  check (size == 32)
  skip 4
  let tag ← number 2
  check (tag == 1)
  let tagged ← number 2
  check (tagged == 24)
  skip 24

/-- Up to three times of a file in seconds. Flags tell which, but one time alone may go with any
flags. -/
def coarseTimes (size : Nat) : RecordReader Unit := do
  let flags ← number 1
  let times := flags % 2 + flags / 2 % 2 + flags / 4 % 2
  check (decide (flags < 8) && (size == 5 || size == 1 + 4 * times))
  skip (size - 1)

/-! ## Fields -/

/-- The data of a field of some kind and size. -/
def field (kind size : Nat) : FieldReader Unit :=
  match kind with
  | 0x0001 => wideNumbers size
  | 0x000a => take (fineTimes size)
  | 0x5455 => take (coarseTimes size)
  | 0x6375 => unicodeComment size
  | 0x7075 => unicodeName size
  | 0x9901 => cipher size
  | _ => take (skip size)

/-- The fields to come, at most `fuel` of them. -/
def fields : (fuel : Nat) → FieldReader Unit
  | 0 => return ()
  | fuel + 1 => do
    let kind ← take (number 2)
    let size ← take (number 2)
    field kind size
    fields fuel

end FieldReader

namespace ArchiveMember

/-- The method that stands for an encrypted member whose cipher a field tells. -/
def cipherMethod : Nat := 99

/-- A member corrected by extra fields, unless one of them is wrong or one that it needs is
missing. Each field takes up bytes, so there are no more fields than bytes. -/
def withExtra? (m : ArchiveMember) (extra : Bytes) : Option ArchiveMember :=
  match FieldReader.fields extra.length (m, extra) with
  | (.error .wrong, _) => none
  | (_, (m, _)) => if m.method == cipherMethod && !m.hasCipher then none else some m

end ArchiveMember

end NativeHeaders
