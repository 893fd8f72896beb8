import NativeHeaders.ClassFile.Decoder
import NativeHeaders.Text.ModifiedUtf8

/-!
# The constant pool

The pool holds its entries by slot, counted from one. A `long` or `double` entry takes two slots,
of which the second is unusable; one in the last declared slot has no second slot. Lookups take
the index that stands in the file and say what is wrong with it.
-/

set_option autoImplicit false

namespace NativeHeaders

/-- What a method handle does with its reference. -/
inductive ReferenceKind where
  | getField | getStatic | putField | putStatic | invokeVirtual | invokeStatic | invokeSpecial
  | newInvokeSpecial | invokeInterface
deriving DecidableEq

namespace ReferenceKind

/-- The number of a reference kind in a class file. -/
def code : ReferenceKind → UInt8
  | getField => 1
  | getStatic => 2
  | putField => 3
  | putStatic => 4
  | invokeVirtual => 5
  | invokeStatic => 6
  | invokeSpecial => 7
  | newInvokeSpecial => 8
  | invokeInterface => 9

/-- The reference kind of a number. -/
def ofCode? (code : UInt8) : Option ReferenceKind :=
  match code.toNat with
  | 1 => some getField
  | 2 => some getStatic
  | 3 => some putField
  | 4 => some putStatic
  | 5 => some invokeVirtual
  | 6 => some invokeStatic
  | 7 => some invokeSpecial
  | 8 => some newInvokeSpecial
  | 9 => some invokeInterface
  | _ => none

@[simp] theorem ofCode?_code (kind : ReferenceKind) : ofCode? kind.code = some kind := by
  cases kind <;> rfl

end ReferenceKind

/-- What a slot of the constant pool holds. Floating-point numbers are kept as their bits. -/
inductive PoolEntry where
  | utf8 (text : Text.Units)
  | integer (value : Int32)
  | float (bits : UInt32)
  | long (value : Int64)
  | double (bits : UInt64)
  | classRef (nameIndex : UInt16)
  | string (stringIndex : UInt16)
  | fieldRef (classIndex nameAndTypeIndex : UInt16)
  | methodRef (classIndex nameAndTypeIndex : UInt16)
  | interfaceMethodRef (classIndex nameAndTypeIndex : UInt16)
  | nameAndType (nameIndex descriptorIndex : UInt16)
  | methodHandle (kind : ReferenceKind) (referenceIndex : UInt16)
  | methodType (descriptorIndex : UInt16)
  | dynamic (bootstrapIndex nameAndTypeIndex : UInt16)
  | invokeDynamic (bootstrapIndex nameAndTypeIndex : UInt16)
  | module (nameIndex : UInt16)
  | package (nameIndex : UInt16)
  /-- The second slot of a wide entry. -/
  | unusable
deriving DecidableEq

/-- Whether an entry takes two slots. -/
def PoolEntry.isWide : PoolEntry → Bool
  | long _ => true
  | double _ => true
  | _ => false

/-- The constants of a class file by slot. -/
structure ConstantPool where
  slots : List PoolEntry
deriving DecidableEq

namespace ConstantPool

/-! ## Lookup -/

/-- The entry at an index, if the index is in range and its slot usable. -/
def entryAt (pool : ConstantPool) (index : UInt16) : Except ClassFileError PoolEntry :=
  if index = 0 then .error (.badIndex index)
  else
    match pool.slots[index.toNat - 1]? with
    | none => .error (.badIndex index)
    | some .unusable => .error (.badIndex index)
    | some entry => .ok entry

/-- The units of the text at an index. -/
def unitsAt (pool : ConstantPool) (index : UInt16) : Except ClassFileError Text.Units := do
  match ← pool.entryAt index with
  | .utf8 text => return text
  | _ => throw (.unexpectedEntry index .utf8)

/-- The text at an index, provided that no surrogate in it is unpaired. -/
def textAt (pool : ConstantPool) (index : UInt16) : Except ClassFileError String := do
  let units ← pool.unitsAt index
  match Text.string? units with
  | some text => return text
  | none => throw (.unpairedSurrogate index)

/-- The name of the class that the entry at an index refers to. -/
def classNameAt (pool : ConstantPool) (index : UInt16) : Except ClassFileError String := do
  match ← pool.entryAt index with
  | .classRef nameIndex => pool.textAt nameIndex
  | _ => throw (.unexpectedEntry index .classRef)

end ConstantPool

/-! ## Decoding -/

open Decoder in
/-- The next pool entry, after its tag. -/
def PoolEntry.decodeBody (tag : UInt8) : Decoder PoolEntry := do
  match tag.toNat with
  | 1 =>
    let length ← u2
    -- the text is looked at only when all of it is there
    let bytes ← block length.toNat
    match Text.ModifiedUtf8.decode? bytes with
    | some text => return utf8 text
    | none => fail .invalidUtf8
  | 3 => return integer (← u4).toInt32
  | 4 => return float (← u4)
  | 5 => return long (← u8).toInt64
  | 6 => return double (← u8)
  | 7 => return classRef (← u2)
  | 8 => return string (← u2)
  | 9 => return fieldRef (← u2) (← u2)
  | 10 => return methodRef (← u2) (← u2)
  | 11 => return interfaceMethodRef (← u2) (← u2)
  | 12 => return nameAndType (← u2) (← u2)
  | 15 =>
    let code ← u1
    match ReferenceKind.ofCode? code with
    | some kind => return methodHandle kind (← u2)
    | none => fail (.unknownReferenceKind code)
  | 16 => return methodType (← u2)
  | 17 => return dynamic (← u2) (← u2)
  | 18 => return invokeDynamic (← u2) (← u2)
  | 19 => return module (← u2)
  | 20 => return package (← u2)
  | _ => fail (.unknownTag tag)

/-- The next pool entry. -/
def PoolEntry.decode : Decoder PoolEntry := do
  let tag ← Decoder.u1
  decodeBody tag

namespace ConstantPool

/-- Entries for the next `n` slots. A wide entry also fills the slot after its own, if there is
one. -/
def decodeSlots : Nat → Decoder (List PoolEntry)
  | 0 => return []
  -- the last slot has none after it, whatever the entry
  | 1 => return [← PoolEntry.decode]
  | n + 2 => do
    let entry ← PoolEntry.decode
    if entry.isWide then
      let others ← decodeSlots n
      return entry :: .unusable :: others
    else
      let others ← decodeSlots (n + 1)
      return entry :: others

/-- The pool of a class file, after its count, which is one more than the number of slots. -/
def decode : Decoder ConstantPool := do
  let count ← Decoder.u2
  let slots ← decodeSlots (count.toNat - 1)
  return ⟨slots⟩

end ConstantPool

end NativeHeaders
