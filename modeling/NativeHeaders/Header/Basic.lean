import NativeHeaders.Descriptor.Signature
import NativeHeaders.Symbol.Link

/-!
# Headers and their text

A header declares the constants and native methods of one class. Its text is a list of segments,
each a comment or code, so that what a C compiler reads is told apart from what it skips. Several
headers share one preamble when they are combined.
-/

set_option autoImplicit false

namespace NativeHeaders

/-- The declaration of a native method. -/
structure Prototype where
  method : String
  descriptor : String
  symbol : Symbol
  signature : Signature
deriving DecidableEq

/-- The definition of a constant. -/
structure Definition where
  name : String
  literal : String
deriving DecidableEq

/-- The header of a class. -/
structure Header where
  className : String
  /-- The class name as symbols spell it. -/
  escapedName : String
  fileName : String
  /-- The token that keeps the header from being read twice. -/
  guard : String
  constants : List Definition
  /-- In the order of declaration. -/
  prototypes : List Prototype
deriving DecidableEq

/-- A header without constants and prototypes. -/
def Header.empty (className escapedName : String) : Header where
  className := className
  escapedName := escapedName
  fileName := escapedName ++ ".h"
  guard := "_Included_" ++ escapedName
  constants := []
  prototypes := []

/-! ## Text -/

/-- A piece of a header's text. -/
inductive Segment where
  /-- A block comment, given by what stands between its delimiters. -/
  | comment (body : String)
  | code (text : String)
deriving DecidableEq

/-- The text of a piece. -/
def Segment.text : Segment → String
  | comment body => "/*" ++ body ++ "*/"
  | code text => text

/-- The definition of a constant, which replaces any earlier one. -/
def Definition.segments (d : Definition) : List Segment :=
  [.code ("#undef " ++ d.name ++ "\n#define " ++ d.name ++ " " ++ d.literal ++ "\n")]

/-- A prototype under a comment that shows what it stands for. -/
def Prototype.segments (escapedName : String) (p : Prototype) : List Segment :=
  [.comment ("\n * Class:     " ++ escapedName ++ "\n * Method:    " ++ p.method
      ++ "\n * Signature: " ++ p.descriptor ++ "\n "),
    .code ("\nJNIEXPORT " ++ p.signature.result.name ++ " JNICALL " ++ p.symbol.fullName
      ++ "\n  (" ++ p.signature.parameterList ++ ");\n\n")]

namespace Header

/-- What every file starts with. -/
def preamble : List Segment :=
  [.comment " DO NOT EDIT THIS FILE - it is machine generated ", .code "\n#include <jni.h>\n"]

/-- A header after the preamble. -/
def segments (h : Header) : List Segment :=
  [.comment (" Header for class " ++ h.escapedName ++ " "),
    .code ("\n\n#ifndef " ++ h.guard ++ "\n#define " ++ h.guard
      ++ "\n#ifdef __cplusplus\nextern \"C\" \x7b\n#endif\n")]
    ++ h.constants.flatMap Definition.segments
    ++ h.prototypes.flatMap (Prototype.segments h.escapedName)
    ++ [.code "#ifdef __cplusplus\n\x7d\n#endif\n#endif\n"]

/-- The text of some pieces. -/
def textOf (segments : List Segment) : String := String.join (segments.map Segment.text)

/-- The text of the file of a header. -/
def text (h : Header) : String := textOf (preamble ++ h.segments)

/-- The text of one file for several headers. -/
def combinedText (headers : List Header) : String :=
  textOf (preamble ++ headers.flatMap segments)

end Header

end NativeHeaders
