import NativeHeaders.ClassFile.Basic

/-!
# The bytes of a class file

Here the parts of a class file are laid out in bytes. A draft is a class file of which nothing has
been checked: its flags are any bits and its attributes any blocks. A decoded class file has a
draft, so it has a layout too, and reading that layout is the inverse of writing it as long as
counts and lengths fit their fields.
-/

set_option autoImplicit false

namespace NativeHeaders

/-! ## Numbers and lists -/

namespace Layout

/-- The last `width` bytes of a number, most significant first. -/
def number : Nat → Nat → Bytes
  | 0, _ => []
  | width + 1, n => number width (n / 256) ++ [UInt8.ofNat n]

/-- One byte. -/
def u1 (n : UInt8) : Bytes := number 1 n.toNat

/-- A two-byte number. -/
def u2 (n : UInt16) : Bytes := number 2 n.toNat

/-- A four-byte number. -/
def u4 (n : UInt32) : Bytes := number 4 n.toNat

/-- An eight-byte number. -/
def u8 (n : UInt64) : Bytes := number 8 n.toNat

/-- A two-byte count and as many items. -/
def counted {α : Type} (item : α → Bytes) (items : List α) : Bytes :=
  u2 (UInt16.ofNat items.length) ++ items.flatMap item

@[simp] theorem length_number (width n : Nat) : (number width n).length = width := by
  induction width generalizing n with
  | zero => rfl
  | succ width ih => simp [number, ih]

end Layout

/-! ## Constants -/

namespace PoolEntry

open Layout

/-- The tag of an entry; a slot that is not usable has none. -/
def tag : PoolEntry → UInt8
  | utf8 _ => 1
  | integer _ => 3
  | float _ => 4
  | long _ => 5
  | double _ => 6
  | classRef _ => 7
  | string _ => 8
  | fieldRef _ _ => 9
  | methodRef _ _ => 10
  | interfaceMethodRef _ _ => 11
  | nameAndType _ _ => 12
  | methodHandle _ _ => 15
  | methodType _ => 16
  | dynamic _ _ => 17
  | invokeDynamic _ _ => 18
  | module _ => 19
  | package _ => 20
  | unusable => 0

/-- An entry after its tag. -/
def bodyLayout : PoolEntry → Bytes
  | utf8 text =>
    let encoded := Text.ModifiedUtf8.encode text
    u2 (UInt16.ofNat encoded.length) ++ encoded
  | integer value => u4 value.toUInt32
  | float bits => u4 bits
  | long value => u8 value.toUInt64
  | double bits => u8 bits
  | classRef nameIndex => u2 nameIndex
  | string stringIndex => u2 stringIndex
  | fieldRef classIndex nameAndTypeIndex => u2 classIndex ++ u2 nameAndTypeIndex
  | methodRef classIndex nameAndTypeIndex => u2 classIndex ++ u2 nameAndTypeIndex
  | interfaceMethodRef classIndex nameAndTypeIndex => u2 classIndex ++ u2 nameAndTypeIndex
  | nameAndType nameIndex descriptorIndex => u2 nameIndex ++ u2 descriptorIndex
  | methodHandle kind referenceIndex => u1 kind.code ++ u2 referenceIndex
  | methodType descriptorIndex => u2 descriptorIndex
  | dynamic bootstrapIndex nameAndTypeIndex => u2 bootstrapIndex ++ u2 nameAndTypeIndex
  | invokeDynamic bootstrapIndex nameAndTypeIndex => u2 bootstrapIndex ++ u2 nameAndTypeIndex
  | module nameIndex => u2 nameIndex
  | package nameIndex => u2 nameIndex
  | unusable => []

/-- The bytes of an entry. The second slot of a wide entry has none of its own. -/
def layout (entry : PoolEntry) : Bytes :=
  if entry = unusable then [] else u1 entry.tag ++ entry.bodyLayout

end PoolEntry

/-- The bytes of a constant pool, after a count of one more than its slots. -/
def ConstantPool.layout (pool : ConstantPool) : Bytes :=
  Layout.u2 (UInt16.ofNat (pool.slots.length + 1)) ++ pool.slots.flatMap PoolEntry.layout

/-! ## Attributes and members -/

/-- An attribute that is not decoded. -/
structure AttributeDraft where
  nameIndex : UInt16
  content : Bytes
deriving DecidableEq

/-- The bytes of an attribute. -/
def AttributeDraft.layout (a : AttributeDraft) : Bytes :=
  Layout.u2 a.nameIndex ++ Layout.u4 (UInt32.ofNat a.content.length) ++ a.content

/-- The bytes of an entry of an `InnerClasses` attribute. -/
def InnerClass.layout (entry : InnerClass) : Bytes :=
  Layout.u2 entry.innerIndex ++ Layout.u2 entry.outerIndex ++ Layout.u2 entry.nameIndex
    ++ Layout.u2 entry.flags.bits

/-- The block of an attribute. -/
def AttributeBody.block : AttributeBody → Bytes
  | constantValue index => Layout.u2 index
  | innerClasses entries => Layout.counted InnerClass.layout entries
  | enclosingMethod classIndex methodIndex => Layout.u2 classIndex ++ Layout.u2 methodIndex
  | raw content => content

/-- An attribute with its block laid out. -/
def Attribute.draft (a : Attribute) : AttributeDraft := ⟨a.nameIndex, a.body.block⟩

/-- A field or method of which nothing is checked. -/
structure MemberDraft where
  flags : UInt16
  nameIndex : UInt16
  descriptorIndex : UInt16
  attributes : List AttributeDraft
deriving DecidableEq

/-- The bytes of a member. -/
def MemberDraft.layout (m : MemberDraft) : Bytes :=
  Layout.u2 m.flags ++ Layout.u2 m.nameIndex ++ Layout.u2 m.descriptorIndex
    ++ Layout.counted AttributeDraft.layout m.attributes

/-- A member with its attributes laid out. -/
def Member.draft {kind : FlagKind} (m : Member kind) : MemberDraft :=
  ⟨m.flags.bits, m.nameIndex, m.descriptorIndex, m.attributes.map Attribute.draft⟩

/-! ## Class files -/

/-- A class file of which nothing is checked. -/
structure ClassDraft where
  majorVersion : UInt16
  minorVersion : UInt16
  pool : ConstantPool
  flags : UInt16
  thisClass : UInt16
  superClass : UInt16
  interfaces : List UInt16
  fields : List MemberDraft
  methods : List MemberDraft
  attributes : List AttributeDraft
deriving DecidableEq

/-- The bytes of a class file. -/
def ClassDraft.layout (d : ClassDraft) : Bytes :=
  Layout.u4 ClassFile.magic ++ Layout.u2 d.minorVersion ++ Layout.u2 d.majorVersion
    ++ d.pool.layout ++ Layout.u2 d.flags ++ Layout.u2 d.thisClass ++ Layout.u2 d.superClass
    ++ Layout.counted Layout.u2 d.interfaces
    ++ Layout.counted MemberDraft.layout d.fields
    ++ Layout.counted MemberDraft.layout d.methods
    ++ Layout.counted AttributeDraft.layout d.attributes

namespace ClassFile

/-- A decoded class file with its attributes laid out. -/
def draft (file : ClassFile) : ClassDraft where
  majorVersion := file.majorVersion
  minorVersion := file.minorVersion
  pool := file.pool
  flags := file.flags.bits
  thisClass := file.thisClass
  superClass := file.superClass
  interfaces := file.interfaces
  fields := file.fields.map Member.draft
  methods := file.methods.map Member.draft
  attributes := file.attributes.map Attribute.draft

/-- The bytes of a decoded class file. -/
def layout (file : ClassFile) : Bytes := file.draft.layout

end ClassFile

end NativeHeaders
