import NativeHeaders.ClassFile.Decoder
import NativeHeaders.Files.Path
import NativeHeaders.GenerationError

/-!
# What the generator asks of a file system

The generator reads files, makes directories and writes files, and nothing else. `FileAccess`
gives these operations in a monad, so that the same program runs on a tree in memory and on disk.
-/

set_option autoImplicit false

namespace NativeHeaders

/-- The operations on files that the generator uses. -/
structure FileAccess (m : Type → Type) where
  /-- The content of a file. -/
  read : Path → m (Except FileFault Bytes)
  /-- Makes a directory and those above it, as far as they are missing. -/
  makeDirectories : Path → m (Except FileFault Unit)
  /-- Gives a file, which need not exist, a content. -/
  write : Path → Bytes → m (Except FileFault Unit)

end NativeHeaders
