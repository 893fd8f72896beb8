import NativeHeaders.ClassModel.Overloads
import NativeHeaders.ClassModel.Reading
import NativeHeaders.Header.Basic
import NativeHeaders.Settings.Basic

/-!
# The header of a class

A class without native methods needs no header unless the settings ask for one. Otherwise the
constants are defined as they are declared, and the native methods are taken group by group, which
decides the error when several descriptors are bad, and then put back into the order of
declaration. Two methods that would be linked under one symbol have no header.
-/

set_option autoImplicit false

namespace NativeHeaders

namespace Header

/-- A prototype and the place of its method among all methods of the class. -/
structure Placed where
  index : Nat
  prototype : Prototype
deriving DecidableEq

/-- The prototype of a native method; `overloaded` says that it shares its name. -/
def prototypeOf (className : String) (overloaded : Bool) (native : NativeMethod) :
    Generated Placed :=
  match Signature.ofDescriptor native.method.descriptor native.method.isStatic with
  | .error e =>
    .error (GenerationError.ofDescriptor className native.method.name native.method.descriptor e)
  | .ok signature =>
    .ok ⟨native.index, {
      method := native.method.name
      descriptor := native.method.descriptor
      symbol := Symbol.link className native.method.name native.method.descriptor overloaded
      signature }⟩

/-- The native methods of a class group by group, each with whether its group is overloaded. -/
def byGroup (groups : List OverloadGroup) : List (Bool × NativeMethod) :=
  groups.flatMap fun g => g.members.map fun native => (g.isOverloaded, native)

/-- The prototypes of a class in the order of declaration. -/
def prototypesOf (c : ClassModel) : Generated (List Prototype) := do
  -- in group order, so that this order decides which bad descriptor is reported
  let placed ← (byGroup c.overloadGroups).mapM fun (overloaded, native) =>
    prototypeOf c.name overloaded native
  return (placed.mergeSort fun a b => decide (a.index ≤ b.index)).map Placed.prototype

/-- The first prototype whose symbol is taken, as an error. `linked` holds the symbols that are
taken, with the descriptors of the methods that have them. -/
def clash? (className : String) (linked : List (String × String)) :
    List Prototype → Option GenerationError
  | [] => none
  | p :: prototypes =>
    match linked.lookup p.symbol.fullName with
    | some first => some (.ambiguousSymbol className p.method p.symbol.fullName first p.descriptor)
    | none => clash? className ((p.symbol.fullName, p.descriptor) :: linked) prototypes

/-- The definition of a constant of a class. -/
def definitionOf (escapedName : String) (c : Constant) : Definition where
  name := escapedName ++ "_" ++ Symbol.escapeFieldName c.name
  literal := c.value.literal

/-- The header of a class, or none where none is needed. -/
def ofClass (settings : Settings) (c : ClassModel) : Generated (Option Header) :=
  if !c.hasNatives && !settings.emitEmpty then .ok none
  else do
    let escapedName := Symbol.escapeName c.name
    let prototypes ← prototypesOf c
    match clash? c.name [] prototypes with
    | some e => throw e
    | none =>
      return some { empty c.name escapedName with
        constants :=
          if settings.emitConstants then c.constants.map (definitionOf escapedName) else []
        prototypes }

/-- The header of the class in a class file. -/
def ofClassFile (settings : Settings) (file : ClassFile) : Generated (Option Header) := do
  let c ← file.model
  ofClass settings c

end Header

end NativeHeaders
