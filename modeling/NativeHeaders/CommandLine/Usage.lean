import NativeHeaders.CommandLine.Invocation

/-!
# What is said about the command line

The texts that are shown instead of a run: the help, the version, and what is wrong with the
arguments. Being asked for information is no failure, so then the exit status is zero.
-/

set_option autoImplicit false

namespace NativeHeaders.CommandLine

/-- The version of the program. -/
def versionText : String := "javah 0.1.0"

/-- The arguments in one line. -/
def synopsis : String := "Usage: javah [OPTIONS] <CLASSES>..."

/-- The help. -/
def helpText : String :=
  "\n".intercalate [
    "Generate C header files for the native methods of Java classes",
    "",
    synopsis,
    "",
    "Arguments:",
    "  <CLASSES>...  Fully-qualified class names or paths to .class files",
    "",
    "Options:",
    "  -d <DIR>                 Output directory for the generated headers",
    "  -o <FILE>                Concatenate all headers into FILE",
    "      --class-path <PATH>  Directories and .jar/.zip archives to search for classes" ++
      " [aliases: --classpath]",
    "      --config <FILE>      TOML file with generator settings",
    "      --emit-empty         Also write headers for classes without native methods",
    "      --keep-going         Skip classes that fail and report them at the end",
    "  -j, --jobs <N>           Number of worker threads",
    "  -v, --verbose...         More log output (repeatable)",
    "  -q, --quiet...           Less log output",
    "  -h, --help               Print help",
    "  -V, --version            Print version"]

namespace UsageError

/-- The wording of what is wrong with the arguments, or the information that was asked for. -/
def message : UsageError → String
  | unknownArgument => "unexpected argument found"
  | conflict => "an argument cannot be used with another one that was given"
  | missingValue => "a value is required for an argument but none was supplied"
  | notANumber => "invalid value for '--jobs <N>'"
  | unwantedValue => "unexpected value for an argument that takes none"
  | missingClass => "the following required arguments were not provided:\n  <CLASSES>..."
  | asked .help => helpText
  | asked .version => versionText

/-- The text that is shown. -/
def text (e : UsageError) : String :=
  match e with
  | asked _ => e.message
  | _ => "error: " ++ e.message ++ "\n\n" ++ synopsis ++ "\n\nFor more information, try '--help'."

/-- The exit status. -/
def status : UsageError → UInt32
  | asked _ => 0
  | _ => 2

end UsageError

end NativeHeaders.CommandLine
