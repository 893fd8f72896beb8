/-!
# Descriptors

A field descriptor spells a type, a method descriptor a list of parameter types and what the
method returns. `FieldType.print` and `MethodDescriptor.print` give the one spelling of each.
-/

set_option autoImplicit false

namespace NativeHeaders

/-- The primitive types. -/
inductive Primitive where
  | byte | char | double | float | int | long | short | boolean
deriving DecidableEq

/-- The type of a field or parameter. -/
inductive FieldType where
  | primitive (type : Primitive)
  | object (className : String)
  | array (element : FieldType)
deriving DecidableEq

/-- What a method returns. -/
inductive ReturnType where
  | void
  | value (type : FieldType)
deriving DecidableEq

/-- The parameters of a method and what it returns. -/
structure MethodDescriptor where
  parameters : List FieldType
  result : ReturnType
deriving DecidableEq

/-! ## Spelling -/

/-- The letter of a primitive type. -/
def Primitive.code : Primitive → Char
  | byte => 'B'
  | char => 'C'
  | double => 'D'
  | float => 'F'
  | int => 'I'
  | long => 'J'
  | short => 'S'
  | boolean => 'Z'

/-- The primitive type of a letter. -/
def Primitive.ofCode? : Char → Option Primitive
  | 'B' => some byte
  | 'C' => some char
  | 'D' => some double
  | 'F' => some float
  | 'I' => some int
  | 'J' => some long
  | 'S' => some short
  | 'Z' => some boolean
  | _ => none

@[simp] theorem Primitive.ofCode?_code (p : Primitive) : ofCode? p.code = some p := by
  cases p <;> rfl

/-- The spelling of a type. -/
def FieldType.print : FieldType → List Char
  | primitive type => [type.code]
  | object className => 'L' :: (className.toList ++ [';'])
  | array element => '[' :: element.print

/-- The spelling of what a method returns. -/
def ReturnType.print : ReturnType → List Char
  | void => ['V']
  | value type => type.print

/-- The spelling of a method descriptor. -/
def MethodDescriptor.print (d : MethodDescriptor) : List Char :=
  '(' :: (d.parameters.flatMap FieldType.print ++ ')' :: d.result.print)

end NativeHeaders
