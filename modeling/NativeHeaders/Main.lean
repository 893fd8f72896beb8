import NativeHeaders.CommandLine.Standard
import NativeHeaders.CommandLine.Usage
import NativeHeaders.CommandLine.Verbosity

/-!
# The program

The command line on a real file system. What is done is `CommandLine.run`; here the arguments and
the class path of the environment are fetched, and the result is told on the standard streams.
-/

set_option autoImplicit false

namespace NativeHeaders

/-! ## Files on disk -/

/-- The fault that the operating system gives a number, which may come negated, and a wording. -/
def FileFault.ofSystem (code : UInt32) (details : String) : FileFault :=
  match if code < 0x80000000 then code else 0 - code with
  | 2 => notFound
  | 13 => permissionDenied
  | 17 => alreadyExists
  | 20 => notADirectory
  | 21 => isADirectory
  | code => other (details ++ " (os error " ++ toString code.toNat ++ ")")

/-- The fault behind an error of an operation on a file. -/
def FileFault.ofError : IO.Error → FileFault
  | .noFileOrDirectory _ code details => ofSystem code details
  | .alreadyExists _ code details => ofSystem code details
  | .inappropriateType _ code details => ofSystem code details
  | .permissionDenied _ code details => ofSystem code details
  | .resourceExhausted _ code details => ofSystem code details
  | .invalidArgument _ code details => ofSystem code details
  | e => other (toString e)

/-- Runs an operation on a file and catches its error. -/
def attempt {α : Type} (operation : IO α) : IO (Except FileFault α) := do
  try
    return .ok (← operation)
  catch e =>
    return .error (.ofError e)

/-- The operations on the files of the operating system. -/
def diskAccess : FileAccess IO where
  read := fun path => attempt do return (← IO.FS.readBinFile path).toList
  makeDirectories := fun path =>
    attempt (if path = "" then pure () else IO.FS.createDirAll path)
  write := fun path content => attempt (IO.FS.writeBinFile path ⟨content.toArray⟩)

/-! ## Telling the result -/

/-- Logs a message of some severity. -/
def log (level severity : LogLevel) (message : String) : IO Unit :=
  if level.admits severity then IO.eprintln (severity.label ++ " " ++ message) else pure ()

/-- Runs what a command line asks for and tells how it ended. -/
def perform (i : CommandLine.Invocation) : IO UInt32 := do
  let level := LogLevel.ofCounts i.verbose i.quiet
  match ← CommandLine.run .standard diskAccess (← IO.getEnv "CLASSPATH") i with
  | .error .panicked =>
    IO.eprintln (": ".intercalate CommandLine.RunError.panicked.chain)
    return 101
  | .error e =>
    IO.eprintln ("javah: " ++ ": ".intercalate e.chain)
    return 2
  | .ok ended =>
    ended.written.forM fun path => log level .info ("wrote header path=" ++ path)
    ended.failures.forM fun e => IO.eprintln (CommandLine.reportLine e)
    return ended.status

/-- Shows what is said instead of a run. -/
def explain (e : CommandLine.UsageError) : IO UInt32 := do
  match e with
  | .asked _ => IO.println e.text
  | e => IO.eprintln e.text
  return e.status

end NativeHeaders

/-- The program. -/
def main (arguments : List String) : IO UInt32 :=
  match NativeHeaders.CommandLine.Invocation.ofArguments arguments with
  | .error e => NativeHeaders.explain e
  | .ok i => NativeHeaders.perform i
