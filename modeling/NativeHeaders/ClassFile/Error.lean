import NativeHeaders.Text.Hex

/-!
# Why a class file cannot be read

Each cause is a constructor, and `ClassFileError.message` holds the wording of all of them.
-/

set_option autoImplicit false

namespace NativeHeaders

/-- The kinds of access flags in a class file. -/
inductive FlagKind where
  | ofClass | ofInnerClass | ofField | ofMethod
deriving DecidableEq

/-- The kinds of attributes that are decoded. -/
inductive AttributeKind where
  | constantValue | innerClasses | enclosingMethod
deriving DecidableEq

/-- The name under which an attribute is stored. -/
def AttributeKind.name : AttributeKind → String
  | constantValue => "ConstantValue"
  | innerClasses => "InnerClasses"
  | enclosingMethod => "EnclosingMethod"

/-- The kinds of pool entries that a lookup asks for. -/
inductive EntryKind where
  | utf8 | classRef
deriving DecidableEq

/-- What was being read when the bytes ran out. -/
inductive Shortfall where
  /-- A number of a fixed width. -/
  | number
  /-- A block whose length stands before it. -/
  | block
deriving DecidableEq

/-- Why bytes are not a class file, or a lookup in one fails. -/
inductive ClassFileError where
  | ended (what : Shortfall)
  | badMagic (found : UInt32)
  | unknownTag (tag : UInt8)
  | invalidUtf8
  | unpairedSurrogate (index : UInt16)
  | badIndex (index : UInt16)
  | unexpectedEntry (index : UInt16) (wanted : EntryKind)
  | unknownReferenceKind (kind : UInt8)
  | badFlags (kind : FlagKind) (bits : UInt16)
  | malformedAttribute (kind : AttributeKind)
deriving DecidableEq

/-- The wording for bytes that ran out. -/
def Shortfall.message : Shortfall → String
  | number => "failed to fill whole buffer"
  | block => "unexpected end of file"

/-- How a lookup names the kind of entry it asks for. -/
def EntryKind.name : EntryKind → String
  | utf8 => "Utf8"
  | classRef => "Class"

/-- How an error names a kind of access flags. -/
def FlagKind.name : FlagKind → String
  | ofClass => "class"
  | ofInnerClass => "inner class"
  | ofField => "field"
  | ofMethod => "method"

namespace ClassFileError

/-- A number in hexadecimal, at a fixed width. -/
def hex (width n : Nat) : String := "0x" ++ String.ofList (Text.fixedHex width n)

/-- The wording of an error. -/
def message : ClassFileError → String
  | ended what => "failed to read class file: " ++ what.message
  | badMagic found => "bad magic number " ++ hex 8 found.toNat
  | unknownTag tag => "unknown constant pool tag " ++ toString tag.toNat
  | invalidUtf8 => "invalid modified UTF-8 in constant pool"
  | unpairedSurrogate index =>
    "constant pool entry " ++ toString index.toNat ++ " holds an unpaired surrogate"
  | badIndex index => "constant pool index " ++ toString index.toNat ++ " is out of range"
  | unexpectedEntry index wanted =>
    "constant pool entry " ++ toString index.toNat ++ " is not a " ++ wanted.name ++ " constant"
  | unknownReferenceKind kind => "unknown method handle reference kind " ++ toString kind.toNat
  | badFlags kind bits => "bad " ++ kind.name ++ " access flags " ++ hex 4 bits.toNat
  | malformedAttribute kind => "malformed " ++ kind.name ++ " attribute"

/-- The wordings of what caused an error in its turn. -/
def causes : ClassFileError → List String
  | ended what => [what.message]
  | _ => []

end ClassFileError

end NativeHeaders
