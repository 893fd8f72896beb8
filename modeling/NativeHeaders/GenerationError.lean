import NativeHeaders.ClassFile.Error
import NativeHeaders.Descriptor.Parser

/-!
# Why a header cannot be generated

Every error names the class that it concerns. Its wording is `GenerationError.message`, and
`GenerationError.causes` holds the wordings of what caused it, nearest first.
-/

set_option autoImplicit false

namespace NativeHeaders

/-- Why an operation on a file failed. -/
inductive FileFault where
  | notFound
  | alreadyExists
  | notADirectory
  | isADirectory
  | permissionDenied
  /-- The content of a file is not what it should be. -/
  | invalidData (text : String)
  | other (text : String)
deriving DecidableEq

/-- The wording of a file fault. -/
def FileFault.message : FileFault → String
  | notFound => "No such file or directory (os error 2)"
  | alreadyExists => "File exists (os error 17)"
  | notADirectory => "Not a directory (os error 20)"
  | isADirectory => "Is a directory (os error 21)"
  | permissionDenied => "Permission denied (os error 13)"
  | invalidData text => text
  | other text => text

/-- Why the bytes of a class could not be had. -/
inductive LoadFault where
  | file (fault : FileFault)
  | notOnClassPath (className : String)
  | other (text : String)
deriving DecidableEq

/-- The wording of a load fault. -/
def LoadFault.message : LoadFault → String
  | file fault => fault.message
  | notOnClassPath className => "class " ++ className ++ " not found on the class path"
  | other text => text

/-- What is wrong with a constant field. -/
inductive ConstantFlaw where
  | unresolved (e : ClassFileError)
  | badDescriptor (field descriptor : String) (e : DescriptorError)
  | mismatched (field descriptor : String)
deriving DecidableEq

/-- The wording of a flaw of a constant field. -/
def ConstantFlaw.message : ConstantFlaw → String
  | unresolved e => e.message
  | badDescriptor field descriptor e =>
    "field " ++ field ++ " has invalid descriptor " ++ descriptor ++ ": " ++ e.message
  | mismatched field descriptor =>
    "constant field " ++ field ++ " of type " ++ descriptor ++ " has a mismatched ConstantValue"

/-- What makes a class malformed. -/
inductive ClassFlaw where
  | undecodable (e : ClassFileError)
  | badDescriptor (method descriptor : String) (e : DescriptorError)
  | cyclicNesting (through : String)
  | badConstant (flaw : ConstantFlaw)
deriving DecidableEq

namespace ClassFlaw

/-- The wording of a flaw. -/
def message : ClassFlaw → String
  | undecodable _ => "could not decode class file"
  | badDescriptor method descriptor e =>
    "method " ++ method ++ ": bad descriptor " ++ descriptor ++ ": " ++ e.message
  | cyclicNesting through => "cyclic nesting through " ++ through
  | badConstant flaw => flaw.message

/-- The wordings of what caused a flaw. -/
def causes : ClassFlaw → List String
  | undecodable e => e.message :: e.causes
  | _ => []

end ClassFlaw

/-- Why there is no header for a class. -/
inductive GenerationError where
  | malformedClass (className : String) (flaw : ClassFlaw)
  | unsupportedDescriptor (className method : String) (code : Char) (descriptor : String)
  /-- Two native methods, given by their descriptors, would be linked under one symbol. -/
  | ambiguousSymbol (className method symbol first second : String)
  | unresolved (className : String) (fault : LoadFault)
  | cancelled (className : String)
deriving DecidableEq

namespace GenerationError

/-- The class that an error concerns. -/
def className : GenerationError → String
  | malformedClass className _ => className
  | unsupportedDescriptor className _ _ _ => className
  | ambiguousSymbol className _ _ _ _ => className
  | unresolved className _ => className
  | cancelled className => className

/-- Whether a class was never started. -/
def isCancelled : GenerationError → Bool
  | cancelled _ => true
  | _ => false

/-- The wording of an error. -/
def message : GenerationError → String
  | malformedClass className flaw => "malformed class " ++ className ++ ": " ++ flaw.message
  | unsupportedDescriptor className method code descriptor =>
    "class " ++ className ++ ", method " ++ method ++ ": unsupported type code '"
      ++ code.toString ++ "' in descriptor " ++ descriptor
  | ambiguousSymbol className method symbol first second =>
    "class " ++ className ++ ": native methods " ++ method ++ first ++ " and " ++ method ++ second
      ++ " both link as " ++ symbol
  | unresolved className _ => "could not load class " ++ className
  | cancelled className => "processing stopped before class " ++ className

/-- The wordings of what caused an error, nearest first. -/
def causes : GenerationError → List String
  | malformedClass _ flaw => flaw.causes
  | unresolved _ fault => [fault.message]
  | _ => []

/-- The error for a method descriptor: a code that no type has is unsupported, any other mistake
means that the class is malformed. -/
def ofDescriptor (className method descriptor : String) : DescriptorError → GenerationError
  | .unknownTypeCode code => unsupportedDescriptor className method code descriptor
  | e => malformedClass className (.badDescriptor method descriptor e)

end GenerationError

end NativeHeaders
