import NativeHeaders.CommandLine.Options
import NativeHeaders.Header.Target
import NativeHeaders.Settings.Basic

/-!
# Reading the command line

The arguments are taken from left to right. Short options may run together behind one dash. The
value of an option stands behind it, after `=` or, for a short option, directly; or it is the next
argument, if that does not look like an option. Such a value is looked at when the next option or
class has been recognised, so an unknown option is reported before a bad value in front of it.
After `--` everything is a class.
-/

set_option autoImplicit false

namespace NativeHeaders.CommandLine

/-- Why a command line does not ask for a run. -/
inductive UsageError where
  | unknownArgument
  /-- Options that exclude each other, or one that may be given once given again. -/
  | conflict
  | missingValue
  | notANumber
  /-- A value for an option that takes none. -/
  | unwantedValue
  | missingClass
  | asked (what : Information)
deriving DecidableEq

/-- What a command line asks for. -/
structure Invocation where
  directory : Option Path := none
  output : Option Path := none
  classPath : Option String := none
  config : Option Path := none
  jobs : Option UInt64 := none
  emitEmpty : Bool := false
  keepGoing : Bool := false
  verbose : UInt8 := 0
  quiet : UInt8 := 0
  /-- The classes, by name or by the path of a class file. -/
  classes : List String := []
deriving DecidableEq

/-- The result of reading arguments. -/
abbrev Usage (α : Type) := Except UsageError α

/-! ## Options -/

/-- Accepts the spellings of the class path option with one dash. -/
def normalize (arguments : List String) : List String :=
  arguments.map fun a => if a = "-cp" || a = "-classpath" then "--class-path" else a

/-- The number that a text spells in decimal digits, with or without a plus sign. -/
def number? (text : String) : Option UInt64 :=
  let digits := match text.toList with
    | '+' :: rest => rest
    | cs => cs
  if digits.isEmpty || !digits.all Char.isDigit then none
  else
    let n := digits.foldl (fun n c => n * 10 + (c.toNat - 0x30)) 0
    if n < UInt64.size then some (UInt64.ofNat n) else none

/-- The value of an option that is a path. -/
def path (text : String) : Usage Path := if text = "" then .error .missingValue else .ok text

/-- An option is given a value once. -/
def once {α : Type} (given : Option α) (value : Usage α) : Usage (Option α) :=
  if given.isSome then .error .conflict else some <$> value

/-- Gives an option a value. -/
def assign (i : Invocation) (key : ValueKey) (text : String) : Usage Invocation := do
  match key with
  | .directory => return { i with directory := ← once i.directory (path text) }
  | .output => return { i with output := ← once i.output (path text) }
  | .classPath => return { i with classPath := ← once i.classPath (.ok text) }
  | .config => return { i with config := ← once i.config (path text) }
  | .jobs =>
    let value := match number? text with
      | some n => .ok n
      | none => .error .notANumber
    return { i with jobs := ← once i.jobs value }

/-- A count that stops at the greatest value of its type. -/
def countUp (n : UInt8) : UInt8 := if n = 255 then n else n + 1

/-- Sets an option that takes no value. -/
def enable (i : Invocation) (key : OptionKey) : Usage Invocation :=
  match key with
  | .switch .emitEmpty =>
    if i.emitEmpty then .error .conflict else .ok { i with emitEmpty := true }
  | .switch .keepGoing =>
    if i.keepGoing then .error .conflict else .ok { i with keepGoing := true }
  | .counter .verbose => .ok { i with verbose := countUp i.verbose }
  | .counter .quiet => .ok { i with quiet := countUp i.quiet }
  | .information what => .error (.asked what)
  | .value _ => .error .missingValue

/-! ## Arguments -/

/-- An option whose value has not been looked at. -/
inductive Pending where
  | none
  /-- The value is still to come. -/
  | awaiting (key : ValueKey)
  | given (key : ValueKey) (text : String)
deriving DecidableEq

/-- What has been read, and the option that is pending. -/
structure Progress where
  invocation : Invocation
  pending : Pending
deriving DecidableEq

/-- Looks at the value of the pending option. -/
def settle (p : Progress) : Usage Invocation :=
  match p.pending with
  | .none => .ok p.invocation
  | .awaiting _ => .error .missingValue
  | .given key text => assign p.invocation key text

/-- Takes an option that was recognised, and the value that is attached to it, if any. -/
def takeOption (p : Progress) (key : OptionKey) (attached : Option String) : Usage Progress := do
  match key, attached with
  | .value key, some text => return ⟨← assign (← settle p) key text, .none⟩
  -- the value is the next argument, unless that looks like an option
  | .value key, none => return ⟨← settle p, .awaiting key⟩
  | key, _ => return ⟨← enable (← settle p) key, .none⟩

/-- Takes short options that run together. -/
def takeShort (p : Progress) : List Char → Usage Progress
  | [] => .ok p
  | c :: cs =>
    match OptionKey.ofShort? c with
    | none => .error .unknownArgument
    | some (.value key) =>
      -- an option with a value ends the run of letters
      let attached := match cs with
        | [] => none
        | '=' :: text => some (String.ofList text)
        | text => some (String.ofList text)
      takeOption p (.value key) attached
    | some key => do
      let p ← takeOption p key none
      takeShort p cs

/-- Takes a long option, with what stands behind `=`. -/
def takeLong (p : Progress) (cs : List Char) : Usage Progress :=
  let attached := match cs.dropWhile (· != '=') with
    | [] => none
    | _ :: text => some (String.ofList text)
  match OptionKey.ofLong? (String.ofList (cs.takeWhile (· != '='))), attached with
  | none, _ => .error .unknownArgument
  | some (.value key), attached => takeOption p (.value key) attached
  | some _, some _ => .error .unwantedValue
  | some key, none => takeOption p key none

/-- Takes an argument that does not look like an option: a value that is awaited, or a class. -/
def takePlain (p : Progress) (argument : String) : Usage Progress := do
  match p.pending with
  | .awaiting key => return ⟨p.invocation, .given key argument⟩
  | _ =>
    let i ← settle p
    return ⟨{ i with classes := i.classes ++ [argument] }, .none⟩

/-- Takes one argument. -/
def takeArgument (p : Progress) (argument : String) : Usage Progress :=
  match argument.toList with
  | '-' :: '-' :: cs => takeLong p cs
  | '-' :: c :: cs => takeShort p (c :: cs)
  | _ => takePlain p argument

/-- Takes all arguments. -/
def takeAll (p : Progress) : List String → Usage Invocation
  | [] => settle p
  | argument :: others => do
    if argument = "--" then
      let i ← settle p
      return { i with classes := i.classes ++ others }
    else
      let p ← takeArgument p argument
      takeAll p others

/-- Options that exclude each other are not given together, and a class is. -/
def check (i : Invocation) : Usage Invocation :=
  if (i.directory.isSome && i.output.isSome) || (i.verbose != 0 && i.quiet != 0) then
    .error .conflict
  else if i.classes.isEmpty then .error .missingClass
  else .ok i

namespace Invocation

/-- What some arguments ask for. -/
def ofArguments (arguments : List String) : Usage Invocation := do
  check (← takeAll ⟨{}, .none⟩ (normalize arguments))

/-- Where the headers go: into one file, into a directory, or into the working directory. -/
def target (i : Invocation) : Target :=
  match i.output, i.directory with
  | some file, _ => .combined file
  | none, some directory => .directory directory
  | none, none => .directory "."

/-- Settings as the options change them. -/
def override (i : Invocation) (settings : Settings) : Settings where
  emitEmpty := i.emitEmpty || settings.emitEmpty
  emitConstants := settings.emitConstants
  abi := settings.abi
  errorPolicy := if i.keepGoing then .skipAndReport else settings.errorPolicy
  jobs := i.jobs <|> settings.jobs

end Invocation

end NativeHeaders.CommandLine
