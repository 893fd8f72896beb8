import NativeHeaders.Descriptor.Basic

/-!
# Reading descriptors

The reader takes a type off the front of the remaining characters. It counts the bytes of what it
took in UTF-8, so that an error can say where it arose. `typeAt_length` says that a type takes at
least one character, which is why the list of parameters ends.
-/

set_option autoImplicit false

namespace NativeHeaders

/-- Why a text is not a descriptor. Offsets count UTF-8 bytes from its start. -/
inductive DescriptorError where
  | unknownTypeCode (code : Char)
  | unexpectedEnd
  | expected (wanted : Char) (offset : Nat)
  | emptyClassName (offset : Nat)
  | illegalClassName (offset : Nat)
  | trailingCharacters (offset : Nat)
deriving DecidableEq

/-- The wording of a descriptor error. -/
def DescriptorError.message : DescriptorError → String
  | unknownTypeCode code => "unknown type code '" ++ code.toString ++ "'"
  | unexpectedEnd => "descriptor ends unexpectedly"
  | expected wanted offset =>
    "expected '" ++ wanted.toString ++ "' at offset " ++ toString offset
  | emptyClassName offset => "empty class name at offset " ++ toString offset
  | illegalClassName offset => "illegal character in class name at offset " ++ toString offset
  | trailingCharacters offset => "unexpected characters after offset " ++ toString offset

namespace Descriptor

/-- The length of a text in UTF-8. -/
def byteLength : List Char → Nat
  | [] => 0
  | c :: cs => c.utf8Size + byteLength cs

/-- A character that no class name in a descriptor may hold. -/
def isIllegalInName (c : Char) : Bool := c == '.' || c == '[' || c == '(' || c == ')'

/-- What a reader found, the offset it reached and the characters that remain. -/
abbrev Found (α : Type) := Except DescriptorError (α × Nat × List Char)

/-- A class name that runs up to `;`, after an `L` at `start`. -/
def classNameAt (start : Nat) (cs : List Char) : Found FieldType :=
  match cs.dropWhile (· != ';') with
  | [] => .error .unexpectedEnd
  | _ :: rest =>
    let name := cs.takeWhile (· != ';')
    -- both faults are reported where the type starts, at its `L`
    if name = [] then .error (.emptyClassName start)
    else if name.any isIllegalInName then .error (.illegalClassName start)
    -- `L` and `;` take one byte each
    else .ok (.object (String.ofList name), start + byteLength name + 2, rest)

/-- A type at an offset. -/
def typeAt (offset : Nat) : List Char → Found FieldType
  | [] => .error .unexpectedEnd
  | c :: rest =>
    if c = 'L' then classNameAt offset rest
    else if c = '[' then
      match typeAt (offset + 1) rest with
      | .ok (element, found) => .ok (.array element, found)
      | .error e => .error e
    else
      match Primitive.ofCode? c with
      | some type => .ok (.primitive type, offset + 1, rest)
      | none => .error (.unknownTypeCode c)

theorem classNameAt_length {start offset : Nat} {cs rest : List Char} {type : FieldType}
    (h : classNameAt start cs = .ok (type, offset, rest)) : rest.length < cs.length := by
  have key : (cs.dropWhile (· != ';')).length ≤ cs.length :=
    (List.dropWhile_suffix (· != ';')).length_le
  unfold classNameAt at h
  split at h
  · contradiction
  · rename_i c found heq
    rw [heq] at key
    simp only at h
    split at h
    · contradiction
    · split at h
      · contradiction
      · obtain ⟨⟩ := h
        simp only [List.length_cons] at key
        omega

/-- A type takes at least one character. -/
theorem typeAt_length {start offset : Nat} {cs rest : List Char} {type : FieldType}
    (h : typeAt start cs = .ok (type, offset, rest)) : rest.length < cs.length := by
  induction cs generalizing start offset rest type with
  | nil => contradiction
  | cons c cs ih =>
    unfold typeAt at h
    split at h
    · have := classNameAt_length h
      simp only [List.length_cons]
      omega
    · split at h
      · split at h
        · rename_i element found heq
          obtain ⟨reached, left⟩ := found
          obtain ⟨⟩ := h
          have := ih heq
          simp only [List.length_cons]
          omega
        · contradiction
      · split at h <;> cases h
        simp

/-- Types up to a closing bracket. -/
def parametersAt (offset : Nat) (cs : List Char) : Found (List FieldType) :=
  match cs with
  | [] => .error .unexpectedEnd
  | c :: tail =>
    if c = ')' then .ok ([], offset + 1, tail)
    else
      -- the equation is what shows that the rest is shorter
      match _h : typeAt offset (c :: tail) with
      | .error e => .error e
      | .ok (type, next, rest) =>
        match parametersAt next rest with
        | .error e => .error e
        | .ok (types, found) => .ok (type :: types, found)
termination_by cs.length
decreasing_by exact typeAt_length _h

/-- What a method returns, at an offset. -/
def returnTypeAt (offset : Nat) : List Char → Found ReturnType
  | 'V' :: rest => .ok (.void, offset + 1, rest)
  | cs =>
    match typeAt offset cs with
    | .error e => .error e
    | .ok (type, found) => .ok (.value type, found)

/-- What was found, provided that nothing remains. -/
def complete {α : Type} : Found α → Except DescriptorError α
  | .error e => .error e
  | .ok (a, _, []) => .ok a
  | .ok (_, offset, _ :: _) => .error (.trailingCharacters offset)

/-- A bracketed list of parameters and what the method returns. -/
def methodAt : List Char → Found MethodDescriptor
  | [] => .error .unexpectedEnd
  | c :: cs =>
    if c = '(' then
      match parametersAt 1 cs with
      | .error e => .error e
      | .ok (parameters, offset, rest) =>
        match returnTypeAt offset rest with
        | .error e => .error e
        | .ok (result, found) => .ok (⟨parameters, result⟩, found)
    else .error (.expected '(' 0)

end Descriptor

/-- Reads a field descriptor such as `[J`. -/
def FieldType.parse (descriptor : String) : Except DescriptorError FieldType :=
  Descriptor.complete (Descriptor.typeAt 0 descriptor.toList)

/-- Reads a method descriptor such as `(I)V`. -/
def MethodDescriptor.parse (descriptor : String) : Except DescriptorError MethodDescriptor :=
  Descriptor.complete (Descriptor.methodAt descriptor.toList)

end NativeHeaders
