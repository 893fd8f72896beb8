import NativeHeaders.Settings.Basic

/-!
# Settings as keys and values

However settings are stored, they are a list of keys with values. Every key may be missing, an
unknown key is refused, and so is a value of another type than the key asks for.
-/

set_option autoImplicit false

namespace NativeHeaders

/-- The value of a key. -/
inductive SettingValue where
  | flag (value : Bool)
  | integer (value : Int)
  | text (value : String)
  | absent
  /-- A value of a type that no setting has. -/
  | foreign
deriving DecidableEq

/-- Why settings are refused. -/
inductive SettingsError where
  | syntaxError (line : Nat)
  | repeatedKey (key : String)
  | unknownKey (key : String)
  | badValue (key : String)
deriving DecidableEq

/-- The wording of a settings error. -/
def SettingsError.message : SettingsError → String
  | syntaxError line => "syntax error in line " ++ toString line
  | repeatedKey key => "repeated key " ++ key
  | unknownKey key => "unknown key " ++ key
  | badValue key => "bad value for " ++ key

namespace Settings

/-- The keys of the settings. -/
def keys : List String :=
  ["emit-for-classes-with-no-natives", "emit-constants", "abi", "error-policy", "jobs"]

/-- Settings with a key set, if the value suits it. -/
def set? (settings : Settings) (key : String) (value : SettingValue) : Option Settings :=
  match key, value with
  | "emit-for-classes-with-no-natives", .flag b => some { settings with emitEmpty := b }
  | "emit-constants", .flag b => some { settings with emitConstants := b }
  | "abi", .text "jni1" => some { settings with abi := .jni1 }
  | "error-policy", .text "fail-fast" => some { settings with errorPolicy := .failFast }
  | "error-policy", .text "skip-and-report" =>
    some { settings with errorPolicy := .skipAndReport }
  | "jobs", .absent => some { settings with jobs := none }
  | "jobs", .integer n =>
    if 0 ≤ n ∧ n < UInt64.size then
      some { settings with jobs := some (UInt64.ofNat n.toNat) }
    else none
  | _, _ => none

/-- Settings with some keys set. -/
def setAll (settings : Settings) : List (String × SettingValue) → Except SettingsError Settings
  | [] => .ok settings
  | (key, value) :: entries =>
    match settings.set? key value with
    | some settings => setAll settings entries
    | none => .error (if key ∈ keys then .badValue key else .unknownKey key)

/-- The settings that some keys and values give. -/
def ofEntries (entries : List (String × SettingValue)) : Except SettingsError Settings :=
  setAll {} entries

end Settings

end NativeHeaders
