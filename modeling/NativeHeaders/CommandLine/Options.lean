/-!
# Options of the command line

An option takes a value, is a switch, counts how often it is given, or asks for information
instead of a run. Each has a long name, a short one or both.
-/

set_option autoImplicit false

namespace NativeHeaders.CommandLine

/-- The options that take a value. -/
inductive ValueKey where
  | directory | output | classPath | config | jobs
deriving DecidableEq

/-- The options that are given or not. -/
inductive SwitchKey where
  | emitEmpty | keepGoing
deriving DecidableEq

/-- The options that count how often they are given. -/
inductive CounterKey where
  | verbose | quiet
deriving DecidableEq

/-- What is shown instead of a run. -/
inductive Information where
  | help | version
deriving DecidableEq

/-- An option. -/
inductive OptionKey where
  | value (key : ValueKey)
  | switch (key : SwitchKey)
  | counter (key : CounterKey)
  | information (what : Information)
deriving DecidableEq

namespace OptionKey

/-- The option of a letter. -/
def ofShort? : Char → Option OptionKey
  | 'd' => some (value .directory)
  | 'o' => some (value .output)
  | 'j' => some (value .jobs)
  | 'v' => some (counter .verbose)
  | 'q' => some (counter .quiet)
  | 'h' => some (information .help)
  | 'V' => some (information .version)
  | _ => none

/-- The option of a long name, which cannot be shortened. -/
def ofLong? : String → Option OptionKey
  | "class-path" => some (value .classPath)
  | "classpath" => some (value .classPath)
  | "config" => some (value .config)
  | "jobs" => some (value .jobs)
  | "emit-empty" => some (switch .emitEmpty)
  | "keep-going" => some (switch .keepGoing)
  | "verbose" => some (counter .verbose)
  | "quiet" => some (counter .quiet)
  | "help" => some (information .help)
  | "version" => some (information .version)
  | _ => none

end OptionKey

end NativeHeaders.CommandLine
