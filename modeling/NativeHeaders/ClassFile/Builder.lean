import NativeHeaders.ClassFile.Layout

/-!
# Building class files

A builder grows the draft of a class file step by step. Texts and class references are interned:
asking for one again gives the index that it already has. All other constants get a slot of their
own. The entries for inner classes are collected, and become one attribute at the end.
-/

set_option autoImplicit false

namespace NativeHeaders

/-- A constant that a field can be given. -/
inductive FieldConstant where
  | int (value : Int32)
  | long (value : Int64)
  | float (bits : UInt32)
  | double (bits : UInt64)
  | string (text : String)
deriving DecidableEq

/-- An entry for an inner class of which nothing is checked. -/
structure InnerClassDraft where
  innerIndex : UInt16
  outerIndex : UInt16
  nameIndex : UInt16
  flags : UInt16
deriving DecidableEq

/-- The bytes of an entry for an inner class. -/
def InnerClassDraft.layout (entry : InnerClassDraft) : Bytes :=
  Layout.u2 entry.innerIndex ++ Layout.u2 entry.outerIndex ++ Layout.u2 entry.nameIndex
    ++ Layout.u2 entry.flags

/-- A class file in the making. -/
structure ClassBuilder where
  draft : ClassDraft
  /-- The texts that are interned, with their indices. -/
  texts : List (String × UInt16)
  /-- The classes that are interned, with their indices. -/
  classes : List (String × UInt16)
  innerClasses : List InnerClassDraft
deriving DecidableEq

/-- A step of building. -/
abbrev Build (α : Type) := StateM ClassBuilder α

namespace ClassBuilder

/-! ## Constants -/

/-- Gives an entry the next free slot, and its second slot if it is wide. -/
def push (entry : PoolEntry) : Build UInt16 := fun b =>
  let slots := b.draft.pool.slots
  (UInt16.ofNat (slots.length + 1),
    { b with draft := { b.draft with pool :=
        ⟨slots ++ entry :: if entry.isWide then [.unusable] else []⟩ } })

/-- The index of a text, which is interned. -/
def utf8 (text : String) : Build UInt16 := do
  match (← get).texts.lookup text with
  | some index => return index
  | none =>
    let index ← push (.utf8 (Text.unitsOf text))
    modify fun b => { b with texts := (text, index) :: b.texts }
    return index

/-- The index of a class reference, which is interned. -/
def classRef (name : String) : Build UInt16 := do
  match (← get).classes.lookup name with
  | some index => return index
  | none =>
    let nameIndex ← utf8 name
    let index ← push (.classRef nameIndex)
    modify fun b => { b with classes := (name, index) :: b.classes }
    return index

/-- The index of a new constant. -/
def constant : FieldConstant → Build UInt16
  | .int value => push (.integer value)
  | .long value => push (.long value)
  | .float bits => push (.float bits)
  | .double bits => push (.double bits)
  | .string text => do
    let textIndex ← utf8 text
    push (.string textIndex)

/-- Adds a string constant whose text is any units; neither of its entries is interned. -/
def addStringOfUnits (units : Text.Units) : Build Unit := do
  let textIndex ← push (.utf8 units)
  let _ ← push (.string textIndex)

/-! ## Members -/

/-- Sets the access flags of the class. -/
def setFlags (flags : UInt16) : Build Unit :=
  modify fun b => { b with draft := { b.draft with flags := flags } }

/-- Adds a method without attributes. -/
def addMethod (flags : UInt16) (name descriptor : String) : Build Unit := do
  let nameIndex ← utf8 name
  let descriptorIndex ← utf8 descriptor
  modify fun b => { b with draft := { b.draft with
    methods := b.draft.methods ++ [⟨flags, nameIndex, descriptorIndex, []⟩] } }

/-- Adds a public native method. -/
def addNativeMethod (name descriptor : String) : Build Unit :=
  addMethod (FlagSet.publicFlag ||| FlagSet.nativeFlag) name descriptor

/-- Adds a public static native method. -/
def addStaticNativeMethod (name descriptor : String) : Build Unit :=
  addMethod (FlagSet.publicFlag ||| FlagSet.staticFlag ||| FlagSet.nativeFlag) name descriptor

/-- Adds a field without attributes. -/
def addField (flags : UInt16) (name descriptor : String) : Build Unit := do
  let nameIndex ← utf8 name
  let descriptorIndex ← utf8 descriptor
  modify fun b => { b with draft := { b.draft with
    fields := b.draft.fields ++ [⟨flags, nameIndex, descriptorIndex, []⟩] } }

/-- Adds a public static final field with a constant value. -/
def addConstantField (name descriptor : String) (value : FieldConstant) : Build Unit := do
  let valueIndex ← constant value
  let nameIndex ← utf8 name
  let descriptorIndex ← utf8 descriptor
  -- the name of the attribute is interned last, at the first such field
  let attributeName ← utf8 AttributeKind.constantValue.name
  let flags := FlagSet.publicFlag ||| FlagSet.staticFlag ||| FlagSet.finalFlag
  modify fun b => { b with draft := { b.draft with
    fields := b.draft.fields ++
      [⟨flags, nameIndex, descriptorIndex, [⟨attributeName, Layout.u2 valueIndex⟩]⟩] } }

/-! ## Attributes -/

/-- Adds an attribute to the class. -/
def addAttribute (name : String) (content : Bytes) : Build Unit := do
  let nameIndex ← utf8 name
  modify fun b => { b with draft := { b.draft with
    attributes := b.draft.attributes ++ [⟨nameIndex, content⟩] } }

/-- Adds an attribute that names the class around a local class. -/
def addEnclosingClass (name : String) : Build Unit := do
  let index ← classRef name
  addAttribute AttributeKind.enclosingMethod.name (Layout.u2 index ++ Layout.u2 0)

/-- The index that something optional gives, or zero. -/
def orZero {α : Type} (index : α → Build UInt16) : Option α → Build UInt16
  | some a => index a
  | none => return 0

/-- Adds an entry for an inner class. -/
def addInnerClass (inner : String) (outer simpleName : Option String) (flags : UInt16) :
    Build Unit := do
  let innerIndex ← classRef inner
  let outerIndex ← orZero classRef outer
  let nameIndex ← orZero utf8 simpleName
  modify fun b => { b with innerClasses :=
    b.innerClasses ++ [⟨innerIndex, outerIndex, nameIndex, flags⟩] }

/-! ## The class file -/

/-- The access flags that a class has at first: public, with the modern meaning of calls to the
superclass. -/
def initialFlags : UInt16 := 0x0021

/-- The draft of version 52 without anything in it. -/
def emptyDraft : ClassDraft where
  majorVersion := 52
  minorVersion := 0
  pool := ⟨[]⟩
  flags := initialFlags
  thisClass := 0
  superClass := 0
  interfaces := []
  fields := []
  methods := []
  attributes := []

/-- Names the class and its superclass. -/
def start (name : String) : Build Unit := do
  let thisClass ← classRef name
  let superClass ← classRef "java/lang/Object"
  modify fun b => { b with draft := { b.draft with thisClass, superClass } }

/-- A builder for a public class that directly extends the root of all classes. -/
def ofName (name : String) : ClassBuilder := (start name ⟨emptyDraft, [], [], []⟩).2

/-- Turns the entries for inner classes, if there are any, into an attribute. -/
def close : Build Unit := do
  let entries := (← get).innerClasses
  if entries.isEmpty then return ()
  else
    addAttribute AttributeKind.innerClasses.name (Layout.counted InnerClassDraft.layout entries)

/-- The bytes of the class file. -/
def build (b : ClassBuilder) : Bytes := (close b).2.draft.layout

end ClassBuilder

end NativeHeaders
