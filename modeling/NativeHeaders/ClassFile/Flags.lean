import NativeHeaders.ClassFile.Decoder

/-!
# Access flags

Each kind of access flags declares its bits. A `FlagSet` holds declared bits only.
-/

set_option autoImplicit false

namespace NativeHeaders

/-- The declared bits of a kind of access flags. -/
def FlagKind.mask : FlagKind → UInt16
  | ofClass => 0xf631
  | ofInnerClass => 0x761f
  | ofField => 0x50df
  | ofMethod => 0x1dff

/-- Access flags of a kind, all of them declared. -/
structure FlagSet (kind : FlagKind) where
  bits : UInt16
  declared : bits &&& kind.mask = bits
deriving DecidableEq

namespace FlagSet

variable {kind : FlagKind}

/-- The flags of some bits, if all of them are declared. -/
def ofBits? (kind : FlagKind) (bits : UInt16) : Option (FlagSet kind) :=
  if h : bits &&& kind.mask = bits then some ⟨bits, h⟩ else none

@[simp] theorem ofBits?_bits (flags : FlagSet kind) : ofBits? kind flags.bits = some flags := by
  simp [ofBits?, flags.declared]

/-- Whether a flag is set. -/
def has (flags : FlagSet kind) (flag : UInt16) : Bool := flags.bits &&& flag == flag

/-- The flag of public members. -/
def publicFlag : UInt16 := 0x0001

/-- The flag of protected members. -/
def protectedFlag : UInt16 := 0x0004

/-- The flag of static members. -/
def staticFlag : UInt16 := 0x0008

/-- The flag of final members. -/
def finalFlag : UInt16 := 0x0010

/-- The flag of native methods. -/
def nativeFlag : UInt16 := 0x0100

/-- The next two bytes as flags of a kind. -/
def decode (kind : FlagKind) : Decoder (FlagSet kind) := do
  let bits ← Decoder.u2
  match ofBits? kind bits with
  | some flags => return flags
  | none => Decoder.fail (.badFlags kind bits)

end FlagSet

end NativeHeaders
