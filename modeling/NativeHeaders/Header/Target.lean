import NativeHeaders.Files.Access
import NativeHeaders.Header.Basic

/-!
# Where headers are written

Headers go into a directory, one file each, or all into one file. A file that already has the
content it would get is left alone. The first operation that fails ends the writing.
-/

set_option autoImplicit false

namespace NativeHeaders

/-- Where headers go. -/
inductive Target where
  | directory (path : Path)
  | combined (path : Path)
deriving DecidableEq

/-- Why headers could not be written. -/
inductive WriteError where
  | directoryNotMade (path : Path) (fault : FileFault)
  | fileNotWritten (path : Path) (fault : FileFault)
deriving DecidableEq

namespace WriteError

/-- The wording of a write error. -/
def message : WriteError → String
  | directoryNotMade path _ => "failed to create directory " ++ path
  | fileNotWritten path _ => "failed to write " ++ path

/-- What the file system said. -/
def fault : WriteError → FileFault
  | directoryNotMade _ fault => fault
  | fileNotWritten _ fault => fault

end WriteError

namespace Target

variable {m : Type → Type} [Monad m]

/-- The bytes of a text in a file. -/
def bytesOf (text : String) : Bytes := text.toUTF8.toList

/-- Gives a file a text unless it has it already; the answer is whether it was written. -/
def writeIfChanged (files : FileAccess m) (path : Path) (text : String) :
    m (Except WriteError Bool) := do
  let existing ← files.read path
  if existing.toOption = some (bytesOf text) then return .ok false
  else
    match ← files.write path (bytesOf text) with
    | .ok () => return .ok true
    | .error fault => return .error (.fileNotWritten path fault)

/-- Writes headers into a directory; the answer is the paths that were written. -/
def writeEach (files : FileAccess m) (directory : Path) :
    List Header → m (Except WriteError (List Path))
  | [] => return .ok []
  | h :: headers => do
    let path := Path.join directory h.fileName
    match ← writeIfChanged files path h.text with
    | .error e => return .error e
    | .ok written =>
      match ← writeEach files directory headers with
      | .error e => return .error e
      | .ok paths => return .ok (if written then path :: paths else paths)

/-- Makes a directory and goes on. -/
def within {α : Type} (files : FileAccess m) (directory : Path)
    (next : m (Except WriteError α)) : m (Except WriteError α) := do
  match ← files.makeDirectories directory with
  | .error fault => return .error (.directoryNotMade directory fault)
  | .ok () => next

/-- Writes one file for all headers. -/
def writeCombined (files : FileAccess m) (path : Path) (headers : List Header) :
    m (Except WriteError (List Path)) := do
  match ← writeIfChanged files path (Header.combinedText headers) with
  | .error e => return .error e
  | .ok written => return .ok (if written then [path] else [])

/-- Writes headers to a target; the answer is the paths that were written. -/
def write (files : FileAccess m) (target : Target) (headers : List Header) :
    m (Except WriteError (List Path)) :=
  match target with
  | directory path => within files path (writeEach files path headers)
  | combined path =>
    match Path.above path with
    | [] => writeCombined files path headers
    | parent :: _ => within files parent (writeCombined files path headers)

end Target

end NativeHeaders
