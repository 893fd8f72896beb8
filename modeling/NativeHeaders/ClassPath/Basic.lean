import NativeHeaders.Archive.Library
import NativeHeaders.Files.Access

/-!
# Class paths

A class path lists directories and archives. A class is looked for under several file names, since
a dot in its name may stand for the `$` of a nested class; each name is tried in every entry before
the next name is. An archive is opened when it is first needed and then stays open, whatever becomes
of its file; one that is missing stays missing, and one that cannot be opened is tried again.

Memory is asked for by the size that an archive declares for a member. No program can have more than
`maxCapacity` bytes, and one that asks for more is ended.
-/

set_option autoImplicit false

namespace NativeHeaders

/-- An entry of a class path. -/
inductive ClassPathEntry where
  | directory (path : Path)
  | archive (path : Path)
deriving DecidableEq

/-- The entry of a path: archives are known by their extension. -/
def ClassPathEntry.ofPath (path : Path) : ClassPathEntry :=
  match (Path.extension? path).map fun extension => extension.toList.map Char.toLower with
  | some ['j', 'a', 'r'] => archive path
  | some ['z', 'i', 'p'] => archive path
  | _ => directory path

/-- What is known of an archive of a class path. -/
inductive ArchiveState (α : Type) where
  | unopened
  | missing
  | opened (archive : α)
deriving DecidableEq

/-- An entry of a class path and, for an archive, what is known of it. -/
structure ClassPathSlot (α : Type) where
  entry : ClassPathEntry
  state : ArchiveState α
deriving DecidableEq

/-- The places where classes are looked for, in order. -/
structure ClassPath (α : Type) where
  slots : List (ClassPathSlot α)
deriving DecidableEq

/-- Why a lookup gives no answer: for a fault that is reported, or because the program is ended. -/
inductive Halt where
  | fault (e : LoadFault)
  | panic
deriving DecidableEq

/-- The largest number of bytes for which memory can be asked. -/
def maxCapacity : UInt64 := 0x7fffffffffffffff

/-- Reads a member of an archive into memory that has room for its declared size. -/
def ArchivedFile.load (f : ArchivedFile) : Except Halt Bytes :=
  if maxCapacity < f.size then .error .panic
  else
    match f.content with
    | .ok content => .ok content
    | .error e => .error (.fault (.file e))

namespace ClassPath

variable {α : Type}

/-! ## Making class paths -/

/-- The class path of some entries, of which nothing is known yet. -/
def ofEntries (entries : List ClassPathEntry) : ClassPath α :=
  ⟨entries.map fun entry => ⟨entry, .unopened⟩⟩

/-- The class path of a list of paths with `:` between them; empty paths are passed over. -/
def parse (paths : String) : ClassPath α :=
  let parts := (Text.splitOn ':' paths.toList).filter fun part => !part.isEmpty
  ofEntries (parts.map fun part => ClassPathEntry.ofPath (String.ofList part))

/-- The class path that is asked for, or else that of the environment, or else the working
directory. -/
def ofOption (asked environment : Option String) : ClassPath α :=
  match asked, environment with
  | some paths, _ => parse paths
  | none, some paths => parse (if paths = "" then "." else paths)
  | none, none => parse "."

/-- The entries of a class path. -/
def entries (cp : ClassPath α) : List ClassPathEntry := cp.slots.map ClassPathSlot.entry

/-! ## File names of a class -/

/-- A name whose separators after the first `kept` are those of nested classes. -/
def nestAfter : Nat → List Char → List Char
  | _, [] => []
  | kept, c :: cs =>
    if c = '/' then
      match kept with
      | 0 => '$' :: nestAfter 0 cs
      | kept + 1 => '/' :: nestAfter kept cs
    else c :: nestAfter kept cs

/-- The names that a class may have, most likely first: at first all separators are those of
packages, and then one after the other, from the last on, becomes one of a nested class. -/
def candidates (className : String) : List String :=
  let name := className.toList.map fun c => if c = '.' then '/' else c
  ((List.range (name.count '/' + 1)).reverse.map fun kept => nestAfter kept name).map String.ofList

/-- The file of a class below a directory. -/
def fileBelow (directory : Path) (name : String) : Path :=
  (Path.pieces name).foldl Path.join directory

/-! ## Looking for a class -/

/-- What a lookup found: the content of a class file, or nothing. -/
abbrev Found := Except Halt (Option Bytes)

variable {m : Type → Type} [Monad m] (library : ArchiveLibrary α)
  (read : Path → m (Except FileFault Bytes))

/-- The content of a file below a directory. -/
def readDirectory (directory : Path) (name : String) : m Found := do
  match ← read (fileBelow directory name) with
  | .ok content => return .ok (some content)
  -- only a missing file lets the search go on
  | .error .notFound => return .ok none
  | .error e => return .error (.fault (.file e))

/-- The state of an archive once it was needed, or why it cannot be opened. -/
def openArchive (path : Path) (state : ArchiveState α) :
    m (Except FileFault (ArchiveState α)) := do
  match state with
  | .unopened =>
    match ← read path with
    | .error .notFound => return .ok .missing
    | .error e => return .error e
    | .ok bytes =>
      match library.ofBytes bytes with
      | .ok archive => return .ok (.opened archive)
      | .error e => return .error e.fileFault
  | known => return .ok known

/-- The content of a member of an archive. -/
def findIn (state : ArchiveState α) (name : String) : Found :=
  match state with
  | .opened archive =>
    match library.member archive name with
    | .error .noMember => .ok none
    | .error e => .error (.fault (.file e.fileFault))
    | .ok file => file.load.map some
  | _ => .ok none

/-- Looks for a file in one entry. -/
def probe (name : String) (slot : ClassPathSlot α) : m (Found × ClassPathSlot α) := do
  match slot.entry with
  | .directory path => return (← readDirectory read path name, slot)
  | .archive path =>
    match ← openArchive library read path slot.state with
    | .error e => return (.error (.fault (.file e)), slot)
    | .ok state => return (findIn library state name, { slot with state })

/-- Looks for a file in one entry after the other, up to the first that has it or fails. -/
def probeAll (name : String) : List (ClassPathSlot α) → m (Found × List (ClassPathSlot α))
  | [] => return (.ok none, [])
  | slot :: slots => do
    let (found, slot) ← probe library read name slot
    match found with
    | .ok none =>
      let (found, slots) ← probeAll name slots
      return (found, slot :: slots)
    | found => return (found, slot :: slots)

/-- Looks for one name after the other, up to the first that is found or fails. -/
def search : List String → List (ClassPathSlot α) → m (Found × List (ClassPathSlot α))
  | [], slots => return (.ok none, slots)
  | name :: names, slots => do
    let (found, slots) ← probeAll library read (name ++ ".class") slots
    match found with
    | .ok none => search names slots
    | found => return (found, slots)

/-- The class file of a class, if an entry has it. -/
def find (className : String) : StateT (ClassPath α) m Found := fun cp => do
  let (found, slots) ← search library read (candidates className) cp.slots
  return (found, ⟨slots⟩)

/-- The class file that is asked for: a path to one, or the name of a class. -/
def resolve (className : String) : StateT (ClassPath α) m (Except Halt Bytes) := do
  if Path.extension? className = some "class" then
    match ← read className with
    | .ok content => return .ok content
    | .error e => return .error (.fault (.file e))
  else
    match ← find library read className with
    | .ok (some content) => return .ok content
    | .ok none => return .error (.fault (.notOnClassPath className))
    | .error e => return .error e

end ClassPath

end NativeHeaders
