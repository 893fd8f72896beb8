import NativeHeaders.ClassFile.Basic
import NativeHeaders.ClassModel.Basic
import NativeHeaders.ClassModel.Nesting
import NativeHeaders.GenerationError

/-!
# The class in a class file

The name is looked up first, then the classes around it, then the methods, then the constant
fields; the first lookup that fails decides the error. Every method is checked, native or not, so
that what was read can be turned into a header.
-/

set_option autoImplicit false

namespace NativeHeaders

/-- The result of generating something for one class. -/
abbrev Generated (α : Type) := Except GenerationError α

/-- A lookup in the file of a class that is known by name. -/
def Generated.lookup {α : Type} (className : String) (found : Except ClassFileError α) :
    Generated α :=
  match found with
  | .ok a => .ok a
  | .error e => .error (.malformedClass className (.undecodable e))

namespace ClassFile

/-- The name that stands in errors about a class whose own name cannot be read. -/
def unknownName : String := "<unknown>"

/-! ## Enclosing classes -/

/-- The links from inner to outer classes; an entry without an outer class adds none. -/
def nestingLinks (pool : ConstantPool) : List InnerClass → Except ClassFileError Nesting.Links
  | [] => .ok []
  | entry :: entries =>
    -- a class that is no member; its own index is not even looked up
    if entry.outerIndex = 0 then nestingLinks pool entries
    else do
      let inner ← pool.classNameAt entry.innerIndex
      let outer ← pool.classNameAt entry.outerIndex
      let others ← nestingLinks pool entries
      return (inner, outer) :: others

/-- The class directly around a class: its outer class, or else the one around the method that it
is declared in. -/
def directlyEnclosing (file : ClassFile) (links : Nesting.Links) (name : String) :
    Except ClassFileError (Option String) :=
  match Nesting.outerOf links name with
  | some outer => .ok (some outer)
  | none =>
    match file.attributes.enclosingMethod? with
    | none => .ok none
    | some (classIndex, _) => some <$> file.pool.classNameAt classIndex

/-- The classes around the class of a file, outermost first. -/
def enclosing (file : ClassFile) (name : String) : Generated (List String) := do
  let links ← Generated.lookup name (nestingLinks file.pool file.attributes.innerClasses)
  match ← Generated.lookup name (file.directlyEnclosing links name) with
  | none => return []
  | some first =>
    match Nesting.walk links [name] first with
    | .ok outward => return outward.reverse
    | .error through => throw (.malformedClass name (.cyclicNesting through))

/-! ## Methods -/

/-- A method of the class with a name. -/
def readMethod (pool : ConstantPool) (className : String) (method : Method) :
    Generated MethodModel := do
  let name ← Generated.lookup className (pool.textAt method.nameIndex)
  let descriptor ← Generated.lookup className (pool.textAt method.descriptorIndex)
  match MethodDescriptor.parse descriptor with
  | .error e => throw (GenerationError.ofDescriptor className name descriptor e)
  | .ok _ =>
    return {
      name, descriptor
      isNative := method.isNative
      isStatic := method.isStatic
      isPublic := method.flags.has FlagSet.publicFlag
      isProtected := method.flags.has FlagSet.protectedFlag }

/-! ## Constants -/

/-- The value that a pool entry holds for a field of a primitive type. -/
def constantValue? : Primitive → PoolEntry → Option ConstantValue
  | .boolean, .integer value => some (.int value)
  | .byte, .integer value => some (.int value)
  | .char, .integer value => some (.int value)
  | .short, .integer value => some (.int value)
  | .int, .integer value => some (.int value)
  | .long, .long value => some (.long value)
  | .float, .float bits => some (.float bits)
  | .double, .double bits => some (.double bits)
  | _, _ => none

/-- A lookup that a constant field asks for. -/
def constantLookup {α : Type} (found : Except ClassFileError α) : Except ConstantFlaw α :=
  match found with
  | .ok a => .ok a
  | .error e => .error (.unresolved e)

/-- The constant that a static final field declares, if it is primitive. -/
def readConstant (pool : ConstantPool) (field : Field) :
    Except ConstantFlaw (Option Constant) :=
  match field.attributes.constantValue? with
  | none => .ok none
  | some index => do
    let name ← constantLookup (pool.textAt field.nameIndex)
    let descriptor ← constantLookup (pool.textAt field.descriptorIndex)
    match FieldType.parse descriptor with
    | .error e => throw (.badDescriptor name descriptor e)
    -- only now the value matters: a text or an array is no constant of a header
    | .ok (.primitive type) =>
      let entry ← constantLookup (pool.entryAt index)
      match constantValue? type entry with
      | some value => return some ⟨name, value⟩
      | none => throw (.mismatched name descriptor)
    | .ok _ => return none

/-- The constants that static final fields declare, in field order. -/
def readConstants (pool : ConstantPool) : List Field → Except ConstantFlaw (List Constant)
  | [] => .ok []
  | field :: fields =>
    if field.isStaticFinal then do
      let found ← readConstant pool field
      let others ← readConstants pool fields
      return found.toList ++ others
    else readConstants pool fields

/-! ## The class -/

/-- The class in a class file. -/
def model (file : ClassFile) : Generated ClassModel := do
  let name ← Generated.lookup unknownName file.name
  let enclosing ← file.enclosing name
  let methods ← file.methods.mapM (readMethod file.pool name)
  match readConstants file.pool file.fields with
  | .error flaw => throw (.malformedClass name (.badConstant flaw))
  | .ok constants => return { name, enclosing, methods, constants }

end ClassFile

end NativeHeaders
