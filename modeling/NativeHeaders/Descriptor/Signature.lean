import NativeHeaders.Descriptor.Parser

/-!
# C signatures of native methods

Each type of a descriptor has one counterpart in the C interface. A native function takes the
environment, then the object it is called on, or the class for a static method, then the
parameters of the method.
-/

set_option autoImplicit false

namespace NativeHeaders

/-- The types of the C interface. -/
inductive CType where
  | void
  | scalar (type : Primitive)
  | object
  | classObject
  | string
  | throwable
  | scalarArray (element : Primitive)
  | objectArray
deriving DecidableEq

/-- The name of a primitive type. -/
def Primitive.name : Primitive → String
  | byte => "byte"
  | char => "char"
  | double => "double"
  | float => "float"
  | int => "int"
  | long => "long"
  | short => "short"
  | boolean => "boolean"

namespace CType

/-- The C spelling of a type. -/
def name : CType → String
  | void => "void"
  | scalar type => "j" ++ type.name
  | object => "jobject"
  | classObject => "jclass"
  | string => "jstring"
  | throwable => "jthrowable"
  | scalarArray element => "j" ++ element.name ++ "Array"
  | objectArray => "jobjectArray"

/-- The counterpart of an object type: three classes have one of their own. -/
def ofClassName (className : String) : CType :=
  if className = "java/lang/String" then string
  else if className = "java/lang/Class" then classObject
  else if className = "java/lang/Throwable" then throwable
  else object

/-- The counterpart of a type. -/
def ofFieldType : FieldType → CType
  | .primitive type => scalar type
  | .object className => ofClassName className
  | .array (.primitive element) => scalarArray element
  | .array _ => objectArray

/-- The counterpart of what a method returns. -/
def ofReturnType : ReturnType → CType
  | .void => void
  | .value type => ofFieldType type

end CType

/-- The C signature of a native method. -/
structure Signature where
  /-- The class for a static method, the object it is called on otherwise. -/
  receiver : CType
  parameters : List CType
  result : CType
deriving DecidableEq

namespace Signature

/-- The signature of a method that is declared with a descriptor. -/
def ofMethod (descriptor : MethodDescriptor) (isStatic : Bool) : Signature where
  receiver := if isStatic then .classObject else .object
  parameters := descriptor.parameters.map CType.ofFieldType
  result := CType.ofReturnType descriptor.result

/-- The signature of a method that is declared with the text of a descriptor. -/
def ofDescriptor (descriptor : String) (isStatic : Bool) : Except DescriptorError Signature :=
  match MethodDescriptor.parse descriptor with
  | .error e => .error e
  | .ok parsed => .ok (ofMethod parsed isStatic)

/-- The parameters as a header lists them, starting with the environment. -/
def parameterList (s : Signature) : String :=
  "JNIEnv *, " ++ s.receiver.name ++ String.join (s.parameters.map fun type => ", " ++ type.name)

end Signature

end NativeHeaders
