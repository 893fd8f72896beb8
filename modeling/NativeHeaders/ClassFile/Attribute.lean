import NativeHeaders.ClassFile.ConstantPool
import NativeHeaders.ClassFile.Flags

/-!
# Attributes

An attribute is a name index and a block of declared length. With a pool at hand its name decides
whether the block is decoded, and then the block has to hold exactly what its kind says; without
one it is kept as it is under the number of its name. A block is fetched whole before anything in
it is looked at.
-/

set_option autoImplicit false

namespace NativeHeaders

/-- An entry of an `InnerClasses` attribute. An index of zero stands for none. -/
structure InnerClass where
  innerIndex : UInt16
  outerIndex : UInt16
  nameIndex : UInt16
  flags : FlagSet .ofInnerClass
deriving DecidableEq

/-- What an attribute holds. -/
inductive AttributeBody where
  | constantValue (index : UInt16)
  | innerClasses (entries : List InnerClass)
  | enclosingMethod (classIndex methodIndex : UInt16)
  /-- A block that is kept as it is. -/
  | raw (content : Bytes)
deriving DecidableEq

/-- An attribute under its name. -/
structure Attribute where
  nameIndex : UInt16
  name : String
  body : AttributeBody
deriving DecidableEq

/-- The attributes of a class, field or method, in file order. -/
abbrev AttributeTable := List Attribute

namespace AttributeTable

/-- The attributes of a name, in file order. -/
def named (table : AttributeTable) (name : String) : List AttributeBody :=
  (table.filter (·.name == name)).map Attribute.body

/-- The entries of the first `InnerClasses` attribute. -/
def innerClasses (table : AttributeTable) : List InnerClass :=
  ((table.named AttributeKind.innerClasses.name).findSome? fun
    | .innerClasses entries => some entries
    | _ => none).getD []

/-- The index in the first `ConstantValue` attribute. -/
def constantValue? (table : AttributeTable) : Option UInt16 :=
  (table.named AttributeKind.constantValue.name).findSome? fun
    | .constantValue index => some index
    | _ => none

/-- The class and method indices in the first `EnclosingMethod` attribute. -/
def enclosingMethod? (table : AttributeTable) : Option (UInt16 × UInt16) :=
  (table.named AttributeKind.enclosingMethod.name).findSome? fun
    | .enclosingMethod classIndex methodIndex => some (classIndex, methodIndex)
    | _ => none

end AttributeTable

/-! ## Decoding -/

/-- The next entry of an `InnerClasses` attribute. -/
def InnerClass.decode : Decoder InnerClass := do
  let innerIndex ← Decoder.u2
  let outerIndex ← Decoder.u2
  let nameIndex ← Decoder.u2
  let flags ← FlagSet.decode .ofInnerClass
  return ⟨innerIndex, outerIndex, nameIndex, flags⟩

/-- The kind of attribute that a name stands for. -/
def AttributeKind.ofName? (name : String) : Option AttributeKind :=
  if name = constantValue.name then some constantValue
  else if name = innerClasses.name then some innerClasses
  else if name = enclosingMethod.name then some enclosingMethod
  else none

namespace AttributeBody

/-- The next body of a kind of attribute. -/
def decodeKind : AttributeKind → Decoder AttributeBody
  | .constantValue => return constantValue (← Decoder.u2)
  | .innerClasses => return innerClasses (← Decoder.counted InnerClass.decode)
  | .enclosingMethod => return enclosingMethod (← Decoder.u2) (← Decoder.u2)

/-- The body that a whole block spells for a kind of attribute. -/
def ofBlock (kind : AttributeKind) (content : Bytes) : Except ClassFileError AttributeBody :=
  match decodeKind kind ⟨content, 0⟩ with
  | .ok (body, s) =>
    -- a block that is too long and one that is too short are the same fault
    if s.position = content.length then .ok body else .error (.malformedAttribute kind)
  | .error (.ended _) => .error (.malformedAttribute kind)
  | .error e => .error e

end AttributeBody

namespace Attribute

/-- The attribute that a name index and a block make up. -/
def ofBlock (pool : Option ConstantPool) (nameIndex : UInt16) (content : Bytes) :
    Except ClassFileError Attribute :=
  match pool with
  -- nothing can be looked up, so the number stands for the name
  | none => .ok ⟨nameIndex, "#" ++ toString nameIndex.toNat, .raw content⟩
  | some pool =>
    match pool.textAt nameIndex with
    | .error e => .error e
    | .ok name =>
      match AttributeKind.ofName? name with
      | none => .ok ⟨nameIndex, name, .raw content⟩
      | some kind =>
        match AttributeBody.ofBlock kind content with
        | .error e => .error e
        | .ok body => .ok ⟨nameIndex, name, body⟩

/-- The next attribute. -/
def decode (pool : Option ConstantPool) : Decoder Attribute := do
  let nameIndex ← Decoder.u2
  let length ← Decoder.u4
  let content ← Decoder.block length.toNat
  match ofBlock pool nameIndex content with
  | .ok found => return found
  | .error e => Decoder.fail e

end Attribute

/-- The next table of attributes, after its count. -/
def AttributeTable.decode (pool : Option ConstantPool) : Decoder AttributeTable :=
  Decoder.counted (Attribute.decode pool)

end NativeHeaders
