/-!
# Settings of the generator
-/

set_option autoImplicit false

namespace NativeHeaders

/-- The conventions by which native methods are linked. There is one so far. -/
inductive Abi where
  | jni1
deriving DecidableEq

/-- What a failing class does to the rest of a batch. -/
inductive ErrorPolicy where
  /-- The error of the first failing class is the answer. -/
  | failFast
  /-- Failures are reported beside the headers. -/
  | skipAndReport
deriving DecidableEq

/-- The settings that all classes of a batch share. -/
structure Settings where
  /-- Whether a class without native methods gets a header. -/
  emitEmpty : Bool := false
  /-- Whether headers define the primitive constants. -/
  emitConstants : Bool := true
  abi : Abi := .jni1
  errorPolicy : ErrorPolicy := .failFast
  /-- The number of workers. Answers do not depend on it. -/
  jobs : Option UInt64 := none
deriving DecidableEq

end NativeHeaders
