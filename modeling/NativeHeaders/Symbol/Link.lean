import NativeHeaders.Symbol.Escape

/-!
# The symbols of native methods

A native method is linked under `Java_`, its class and its name, both escaped and joined by `_`.
A method that shares its name with another native method of the class adds `__` and the escaped
parameters of its descriptor. What it returns plays no part.
-/

set_option autoImplicit false

namespace NativeHeaders

namespace Symbol

/-- What the symbol of every native method starts with. -/
def opening : String := "Java_"

/-- What stands between the name of an overloaded method and its parameters. -/
def overloadSeparator : String := "__"

/-- The part of a method descriptor between `(` and the first `)`, or all of it when it is not
bracketed like that. -/
def parameterPortion : List Char → List Char
  -- no class name in a descriptor holds a bracket, so the first `)` closes the parameters
  | '(' :: rest => if ')' ∈ rest then rest.takeWhile (· != ')') else '(' :: rest
  | descriptor => descriptor

/-- The parameters of a method descriptor in the letters of a C identifier. -/
def escapeParameters (descriptor : String) : String :=
  escapeName (String.ofList (parameterPortion descriptor.toList))

end Symbol

/-- The name under which a native method is linked. -/
structure Symbol where
  /-- Class and method. -/
  base : String
  /-- The parameters, for an overloaded method only. -/
  suffix : Option String
deriving DecidableEq

namespace Symbol

/-- The symbol of a method of a class; `overloaded` says that it shares its name. -/
def link (className method descriptor : String) (overloaded : Bool) : Symbol where
  base := opening ++ escapeName className ++ "_" ++ escapeName method
  suffix := if overloaded then some (overloadSeparator ++ escapeParameters descriptor) else none

/-- The symbol as one identifier. -/
def fullName (s : Symbol) : String := s.base ++ s.suffix.getD ""

end Symbol

end NativeHeaders
