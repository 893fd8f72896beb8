import NativeHeaders.ClassModel.Basic

/-!
# Native methods by name

The native methods of a class fall into groups of one name, in the order in which the names are
first seen. Methods that are not native belong to no group, so they do not make a native method
overloaded.
-/

set_option autoImplicit false

namespace NativeHeaders

/-- A native method and its place among all methods of the class. -/
structure NativeMethod where
  index : Nat
  method : MethodModel
deriving DecidableEq

/-- The native methods of one name, in the order of declaration. -/
structure OverloadGroup where
  name : String
  members : List NativeMethod
deriving DecidableEq

namespace OverloadGroup

/-- Whether the members of a group have to be told apart by their parameters. -/
def isOverloaded (g : OverloadGroup) : Bool := decide (1 < g.members.length)

/-- Adds a native method to the group of its name, which is opened at the end if there is none. -/
def insert (native : NativeMethod) : List OverloadGroup → List OverloadGroup
  | [] => [⟨native.method.name, [native]⟩]
  | g :: groups =>
    if g.name = native.method.name then { g with members := g.members ++ [native] } :: groups
    else g :: insert native groups

end OverloadGroup

namespace ClassModel

/-- The native methods among methods whose places start at `index`. -/
def nativesFrom (index : Nat) : List MethodModel → List NativeMethod
  | [] => []
  | m :: methods =>
    if m.isNative then ⟨index, m⟩ :: nativesFrom (index + 1) methods
    else nativesFrom (index + 1) methods

/-- The native methods of a class, in the order of declaration. -/
def natives (c : ClassModel) : List NativeMethod := nativesFrom 0 c.methods

/-- The native methods of a class by name. -/
def overloadGroups (c : ClassModel) : List OverloadGroup :=
  c.natives.foldl (fun groups native => OverloadGroup.insert native groups) []

end ClassModel

end NativeHeaders
