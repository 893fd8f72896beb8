import NativeHeaders.Archive.Basic
import NativeHeaders.CommandLine.Run
import NativeHeaders.Settings.Toml

/-!
# The libraries of the program

What is proved of a run holds for any libraries. These are the ones that the program comes with.
-/

set_option autoImplicit false

namespace NativeHeaders.CommandLine

/-- The libraries that the program comes with. -/
def Libraries.standard : Libraries Archive where
  archives := Archive.library
  settings := fun text => (Settings.ofToml text).mapError SettingsError.message

end NativeHeaders.CommandLine
