import NativeHeaders.ClassFile.Decoder
import NativeHeaders.GenerationError

/-!
# What is asked of a library for archives

Archives are read by a library. It opens the bytes of an archive and then gives its members by their
names; what it keeps of an archive that is open is its own affair. The size of a member is what the
archive declares, and need not be that of the content, which is only had by reading it.
-/

set_option autoImplicit false

namespace NativeHeaders

/-- Why a library does not give what it is asked for. -/
inductive ArchiveFault where
  | file (fault : FileFault)
  | noMember
  | damaged (text : String)
deriving DecidableEq

/-- The file fault that stands for a fault of an archive. -/
def ArchiveFault.fileFault : ArchiveFault → FileFault
  | file fault => fault
  | noMember => .invalidData "specified file not found in archive"
  | damaged text => .invalidData text

/-- A member of an archive that is about to be read. -/
structure ArchivedFile where
  /-- The size that the archive declares. -/
  size : UInt64
  content : Except FileFault Bytes

/-- The operations of a library; `α` is what it keeps of an archive that is open. -/
structure ArchiveLibrary (α : Type) where
  /-- Opens the archive that some bytes are. -/
  ofBytes : Bytes → Except ArchiveFault α
  /-- The member of a name. -/
  member : α → String → Except ArchiveFault ArchivedFile

end NativeHeaders
