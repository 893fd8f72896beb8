import NativeHeaders.Batch
import NativeHeaders.ClassPath.Basic
import NativeHeaders.CommandLine.Invocation

/-!
# Running the generator

A run loads the settings, generates the headers of all classes and only then writes anything. It
ends with an error when one of these fails; classes that fail without ending the run are reported,
and then the exit status is one.

Archives and settings are texts and bytes in formats of their own, which libraries understand. They
are given to a run.
-/

set_option autoImplicit false

namespace NativeHeaders.CommandLine

/-! ## Errors -/

/-- Why the settings could not be had. -/
inductive ConfigError where
  | unreadable (path : Path) (fault : FileFault)
  | invalid (path : Path) (text : String)
deriving DecidableEq

/-- Why a run ended early. -/
inductive RunError where
  | config (e : ConfigError)
  | generation (e : GenerationError)
  | write (e : WriteError)
  /-- The program was ended while it looked for a class. -/
  | panicked
deriving DecidableEq

/-- The wordings of an error and of what caused it, outermost first. -/
def ConfigError.chain : ConfigError → List String
  | unreadable path fault => ["failed to read config " ++ path, fault.message]
  | invalid path text => ["invalid config " ++ path, text]

/-- The wordings of an error and of what caused it, outermost first. -/
def RunError.chain : RunError → List String
  | config e => e.chain
  | generation e => "header generation failed" :: e.message :: e.causes
  | write e => [e.message, e.fault.message]
  | panicked => ["capacity overflow"]

/-! ## Libraries -/

/-- The libraries that a run uses. -/
structure Libraries (α : Type) where
  archives : ArchiveLibrary α
  /-- The settings that a text spells, or what is wrong with it. -/
  settings : String → Except String Settings

variable {α : Type} {m : Type → Type} [Monad m] (libraries : Libraries α)

/-! ## Settings -/

/-- The settings in a file. -/
def loadSettings (files : FileAccess m) (path : Path) : m (Except ConfigError Settings) := do
  match ← files.read path with
  | .error fault => return .error (.unreadable path fault)
  | .ok content =>
    match String.fromUTF8? ⟨content.toArray⟩ with
    | none =>
      return .error (.unreadable path (.invalidData "stream did not contain valid UTF-8"))
    | some text =>
      match libraries.settings text with
      | .error e => return .error (.invalid path e)
      | .ok settings => return .ok settings

/-- The settings of a run: those of a file, if one is given, as the options change them. -/
def settingsOf (files : FileAccess m) (i : Invocation) : m (Except ConfigError Settings) := do
  match i.config with
  | none => return .ok (i.override {})
  | some path =>
    match ← loadSettings libraries files path with
    | .error e => return .error e
    | .ok settings => return .ok (i.override settings)

/-! ## The run -/

/-- How a run ended that was not cut short. -/
structure Ended where
  /-- The paths that were written. -/
  written : List Path
  failures : List GenerationError
deriving DecidableEq

/-- The exit status of a run. -/
def Ended.status (e : Ended) : UInt32 := if e.failures.isEmpty then 0 else 1

/-- The line that reports a failure: its wording and those of its causes. -/
def reportLine (e : GenerationError) : String :=
  "javah: " ++ ": ".intercalate (e.message :: e.causes)

/-- The bytes of a class; a program that is ended gives nothing any more. -/
def load (files : FileAccess m) (className : String) :
    StateT (ClassPath α) (OptionT m) (Except LoadFault Bytes) := fun cp => OptionT.mk do
  match ← ClassPath.resolve libraries.archives files.read className cp with
  | (.ok content, cp) => return some (.ok content, cp)
  | (.error (.fault e), cp) => return some (.error e, cp)
  | (.error .panic, _) => return none

/-- Generates the headers that are asked for, unless the program is ended. -/
def generate (files : FileAccess m) (cp : ClassPath α) (settings : Settings)
    (classNames : List String) : m (Option (Generated Report)) := do
  let ended ← (Batch.run settings (.ofLoad (load libraries files)) classNames cp).run
  return ended.map Prod.fst

/-- Runs the generator; `classPath` is the class path of the environment. -/
def run (files : FileAccess m) (classPath : Option String) (i : Invocation) :
    m (Except RunError Ended) := do
  match ← settingsOf libraries files i with
  | .error e => return .error (.config e)
  | .ok settings =>
    match ← generate libraries files (ClassPath.ofOption i.classPath classPath) settings
      i.classes with
    | none => return .error .panicked
    | some (.error e) => return .error (.generation e)
    | some (.ok report) =>
      match ← i.target.write files report.headers with
      | .error e => return .error (.write e)
      | .ok written => return .ok ⟨written, report.failures⟩

end NativeHeaders.CommandLine
