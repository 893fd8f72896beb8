import NativeHeaders.ClassModel.Literal

/-!
# What a header needs to know of a class

A class is its name, the classes around it, its methods and its primitive constants, each in the
order of declaration. Names are in internal form, with `/` between their segments.
-/

set_option autoImplicit false

namespace NativeHeaders

/-- A method as a class declares it. -/
structure MethodModel where
  name : String
  descriptor : String
  isNative : Bool
  isStatic : Bool
  isPublic : Bool
  isProtected : Bool
deriving DecidableEq

/-- A method's name and descriptor run together, as messages show it. -/
def MethodModel.display (m : MethodModel) : String := m.name ++ m.descriptor

/-- A primitive constant field. -/
structure Constant where
  name : String
  value : ConstantValue
deriving DecidableEq

/-- A class. -/
structure ClassModel where
  name : String
  /-- The classes around it, outermost first. -/
  enclosing : List String
  methods : List MethodModel
  constants : List Constant
deriving DecidableEq

namespace ClassModel

/-- A name in internal form: `/` stands for `.`. -/
def internalName (name : String) : String :=
  String.ofList (name.toList.map fun c => if c = '.' then '/' else c)

/-- A class without members, by its name in either form. -/
def named (name : String) : ClassModel := ⟨internalName name, [], [], []⟩

/-- Whether a class declares a native method. -/
def hasNatives (c : ClassModel) : Bool := c.methods.any (·.isNative)

end ClassModel

end NativeHeaders
