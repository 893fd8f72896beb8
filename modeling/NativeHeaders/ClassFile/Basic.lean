import NativeHeaders.ClassFile.Attribute

/-!
# Class files

The parts of a class file in the order in which they stand. Whatever follows the last attribute is
ignored.
-/

set_option autoImplicit false

namespace NativeHeaders

/-- A field or method. -/
structure Member (kind : FlagKind) where
  flags : FlagSet kind
  nameIndex : UInt16
  descriptorIndex : UInt16
  attributes : AttributeTable
deriving DecidableEq

/-- A field. -/
abbrev Field := Member .ofField

/-- A method. -/
abbrev Method := Member .ofMethod

namespace Member

variable {kind : FlagKind}

/-- Whether a member belongs to the class rather than to its objects. -/
def isStatic (m : Member kind) : Bool := m.flags.has FlagSet.staticFlag

/-- Whether a field is static and final. -/
def isStaticFinal (m : Member kind) : Bool :=
  m.flags.has (FlagSet.staticFlag ||| FlagSet.finalFlag)

/-- Whether a method is native. -/
def isNative (m : Member kind) : Bool := m.flags.has FlagSet.nativeFlag

/-- The next member. -/
def decode (kind : FlagKind) (pool : Option ConstantPool) : Decoder (Member kind) := do
  let flags ← FlagSet.decode kind
  let nameIndex ← Decoder.u2
  let descriptorIndex ← Decoder.u2
  let attributes ← AttributeTable.decode pool
  return ⟨flags, nameIndex, descriptorIndex, attributes⟩

end Member

/-- A decoded class file. -/
structure ClassFile where
  majorVersion : UInt16
  minorVersion : UInt16
  pool : ConstantPool
  flags : FlagSet .ofClass
  thisClass : UInt16
  superClass : UInt16
  interfaces : List UInt16
  fields : List Field
  methods : List Method
  attributes : AttributeTable
deriving DecidableEq

namespace ClassFile

/-- What every class file starts with. -/
def magic : UInt32 := 0xcafebabe

/-- The next class file. -/
def decode : Decoder ClassFile := do
  let found ← Decoder.u4
  if found ≠ magic then Decoder.fail (.badMagic found)
  else
    let minorVersion ← Decoder.u2
    let majorVersion ← Decoder.u2
    let pool ← ConstantPool.decode
    let flags ← FlagSet.decode .ofClass
    let thisClass ← Decoder.u2
    let superClass ← Decoder.u2
    let interfaces ← Decoder.counted Decoder.u2
    let fields ← Decoder.counted (Member.decode .ofField (some pool))
    let methods ← Decoder.counted (Member.decode .ofMethod (some pool))
    let attributes ← AttributeTable.decode (some pool)
    return { majorVersion, minorVersion, pool, flags, thisClass, superClass, interfaces, fields,
             methods, attributes }

/-- The class file that some bytes start with. -/
def ofBytes (bytes : Bytes) : Except ClassFileError ClassFile :=
  match decode ⟨bytes, 0⟩ with
  | .ok (file, _) => .ok file
  | .error e => .error e

/-- The name of the class in the file. -/
def name (file : ClassFile) : Except ClassFileError String := file.pool.classNameAt file.thisClass

end ClassFile

end NativeHeaders
