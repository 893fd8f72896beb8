import Mathlib.Data.List.Forall2
import NativeHeaders.Proofs.Symbol.Injectivity

/-!
# Parameters are escaped one by one

Escaping two texts in a row is not escaping each of them: the first one may leave a segment open,
and a digit `0` to `3` in front of the second one is spelled accordingly (`escape_append`). Texts
that end with no separator and start with no such digit are `Detached`, and a row of those is
escaped piece by piece (`escape_flatten`).

The spelling of every type is detached. It starts with a letter or `[` and ends with a letter or
`;`, whatever the class name in it holds. So the parameters of a method are escaped one by one, and
what the method returns plays no part (`parameters_escaped_one_by_one`).
-/

set_option autoImplicit false

namespace NativeHeaders

namespace Symbol

open Text (Units)

/-! ## Texts in a row -/

/-- Whether a segment opens behind some units. -/
def opensBehind : Bool → Units → Bool
  | opening, [] => opening
  | _, u :: us => opensBehind (isSeparator u) us

theorem escape_append (opening : Bool) (us vs : Units) :
    escape opening (us ++ vs) = escape opening us ++ escape (opensBehind opening us) vs := by
  induction us generalizing opening with
  | nil => rfl
  | cons u us ih =>
    rw [List.cons_append, escape, escape, opensBehind, ih, ih]
    by_cases hu : isSeparator u = true
    · rw [if_pos hu, if_pos hu, hu, List.cons_append]
    · rw [if_neg hu, if_neg hu, Bool.eq_false_iff.2 hu, List.append_assoc]

example : escapeName ("a" ++ "2") ≠ escapeName "a" ++ escapeName "2" := by decide

theorem opensBehind_append (opening : Bool) (us vs : Units) :
    opensBehind opening (us ++ vs) = opensBehind (opensBehind opening us) vs := by
  induction us generalizing opening with
  | nil => rfl
  | cons u us ih => exact ih (isSeparator u)

/-- Whether units are escaped alike wherever they stand, and leave no segment open. -/
structure Detached (us : Units) : Prop where
  front : ∀ opening, escape opening us = escape true us
  back : ∀ opening, opensBehind opening us = false

/-- **Detached texts in a row** are escaped one by one, as if each opened a segment. -/
theorem escape_flatten {pieces : List Units} (h : ∀ us ∈ pieces, Detached us) (opening : Bool) :
    escape opening pieces.flatten = pieces.flatMap (escape true) := by
  induction pieces generalizing opening with
  | nil => rfl
  | cons us pieces ih =>
    obtain ⟨hus, hpieces⟩ := List.forall_mem_cons.1 h
    -- whatever the first piece finds open, the pieces behind it find nothing open
    rw [List.flatten_cons, List.flatMap_cons, escape_append, hus.front, ih hpieces]

/-! ## The spelling of a type -/

/-- Only the digits of escapes see whether they open a segment. -/
theorem escape_cons_of_not_escapeDigit {u : UInt16} {c : Char} (hascii : Text.ascii? u = some c)
    (hc : isEscapeDigit c = false) (opening : Bool) (us : Units) :
    escape opening (u :: us) = escape true (u :: us) := by
  have hunit : escapeUnit opening u = escapeUnit true u := by
    simp only [escapeUnit, hascii, hc, Bool.and_false]
  rw [escape, escape, hunit]

theorem detached_primitive (p : Primitive) :
    Detached (Text.unitsOfChars (FieldType.primitive p).print) := by
  refine ⟨fun opening => ?_, fun opening => ?_⟩
  · have hc : isEscapeDigit p.code = false := by cases p <;> rfl
    have hunits : ∃ u, Text.unitsOfChars (FieldType.primitive p).print = [u]
        ∧ Text.ascii? u = some p.code := by
      cases p <;> exact ⟨_, rfl, rfl⟩
    obtain ⟨u, hu, hascii⟩ := hunits
    rw [hu]
    exact escape_cons_of_not_escapeDigit hascii hc opening []
  · cases p <;> rfl

/-- The name of a class stands between two letters that keep it apart from what is around it. -/
theorem detached_object (name : String) :
    Detached (Text.unitsOfChars (FieldType.object name).print) := by
  have hunits : Text.unitsOfChars (FieldType.object name).print
      = 0x4c :: (Text.unitsOf name ++ [0x3b]) := by
    rw [FieldType.print, Text.unitsOfChars_cons, Text.unitsOfChars_append]
    rfl
  rw [hunits]
  refine ⟨fun opening => ?_, fun opening => ?_⟩
  · exact escape_cons_of_not_escapeDigit (c := 'L') rfl rfl opening _
  · rw [opensBehind, opensBehind_append]
    rfl

theorem detached_print (type : FieldType) : Detached (Text.unitsOfChars type.print) := by
  induction type with
  | primitive p => exact detached_primitive p
  | object name => exact detached_object name
  | array element ih =>
    have hunits : Text.unitsOfChars (FieldType.array element).print
        = 0x5b :: Text.unitsOfChars element.print := by
      rw [FieldType.print, Text.unitsOfChars_cons]
      rfl
    rw [hunits]
    refine ⟨fun opening => ?_, fun opening => ih.back (isSeparator 0x5b)⟩
    exact escape_cons_of_not_escapeDigit (c := '[') rfl rfl opening _

theorem unitsOfChars_printAll (types : List FieldType) :
    Text.unitsOfChars (Descriptor.printAll types)
      = (types.map fun type => Text.unitsOfChars type.print).flatten := by
  induction types with
  | nil => rfl
  | cons type types ih =>
    rw [Descriptor.printAll_cons, Text.unitsOfChars_append, ih, List.map_cons, List.flatten_cons]

/-! ## The parameters of a method -/

variable {descriptor : String} {d : MethodDescriptor}

theorem escapeParameters_of_parse (h : MethodDescriptor.parse descriptor = .ok d) :
    escapeParameters descriptor
      = String.join (d.parameters.map fun type => escapeName (String.ofList type.print)) := by
  have hdetached : ∀ us ∈ d.parameters.map fun type => Text.unitsOfChars type.print,
      Detached us := by
    intro us hus
    obtain ⟨type, -, rfl⟩ := List.mem_map.1 hus
    exact detached_print type
  rw [← String.toList_inj, escapeParameters, parameterPortion_eq_printAll h, escapeName,
    String.toList_ofList, Text.unitsOf, String.toList_ofList, unitsOfChars_printAll,
    escape_flatten hdetached, String.toList_join, List.flatMap_map, List.flatMap_map]
  simp only [escapeName, Text.unitsOf, String.toList_ofList]

/-- The first `)` of a descriptor is its only one. -/
theorem split_of_parse (h : MethodDescriptor.parse descriptor = .ok d) {front back : String}
    (hsplit : descriptor = front ++ ")" ++ back) :
    front.toList = '(' :: Descriptor.printAll d.parameters ∧ back.toList = d.result.print := by
  obtain ⟨hprint, hparameters, hresult⟩ := MethodDescriptor.parse_eq_ok_iff.1 h
  have hclose : ')' ∈ ['.', '(', ')'] := by decide
  have hfront : ')' ∉ '(' :: Descriptor.printAll d.parameters := by
    rw [List.mem_cons]
    rintro (hopen | hmem)
    · exact absurd hopen (by decide)
    · exact Descriptor.not_mem_printAll hparameters hclose hmem
  have hback : ')' ∉ d.result.print := by
    rcases hd : d.result with _ | type
    · decide
    · rw [hd] at hresult
      exact Descriptor.not_mem_print hresult hclose
  have htext : ('(' :: Descriptor.printAll d.parameters) ++ ')' :: d.result.print
      = front.toList ++ ')' :: back.toList := by
    have hlist := congrArg String.toList (hprint.symm.trans hsplit)
    rw [String.toList_ofList, String.toList_append, String.toList_append, List.append_assoc]
      at hlist
    exact hlist
  -- neither side of the spelled `)` holds another one, so both texts are cut in the same place
  obtain ⟨hfronts, -, hbacks⟩ := (List.append_cons_inj_of_notMem hfront hback).1 htext
  exact ⟨hfronts.symm, hbacks.symm⟩

theorem parse_append_parameter (h : MethodDescriptor.parse descriptor = .ok d)
    {front back : String} (hsplit : descriptor = front ++ ")" ++ back) {type : FieldType}
    (hlegal : type.Legal) :
    MethodDescriptor.parse (front ++ String.ofList type.print ++ ")" ++ back)
      = .ok { d with parameters := d.parameters ++ [type] } := by
  obtain ⟨-, hparameters, hresult⟩ := MethodDescriptor.parse_eq_ok_iff.1 h
  obtain ⟨hfront, hback⟩ := split_of_parse h hsplit
  refine MethodDescriptor.parse_eq_ok_iff.2 ⟨?_, ?_, hresult⟩
  · rw [← String.toList_inj]
    simp [hfront, hback, Descriptor.print_method, Descriptor.printAll]
  · intro other hother
    rcases List.mem_append.1 hother with hother | hother
    · exact hparameters other hother
    · rw [List.mem_singleton.1 hother]
      exact hlegal

/-- **Parameters are escaped one by one.** The parameters of a descriptor stand in a row behind its
bracket, and in that order their texts are escaped, each for itself. So descriptors that differ in
what they return are escaped alike, and a parameter that is put behind the others puts its own
escape behind theirs, which stay as they are. -/
theorem parameters_escaped_one_by_one (h : MethodDescriptor.parse descriptor = .ok d) :
    (∃ (texts : List String) (result : String),
      List.Forall₂ (fun text type => FieldType.parse text = .ok type) texts d.parameters
      ∧ descriptor = "(" ++ String.join texts ++ ")" ++ result
      ∧ escapeParameters descriptor = String.join (texts.map escapeName))
    ∧ (∀ (other : String) (d' : MethodDescriptor), MethodDescriptor.parse other = .ok d' →
        d'.parameters = d.parameters → escapeParameters other = escapeParameters descriptor)
    ∧ (∀ (front back text : String) (type : FieldType), descriptor = front ++ ")" ++ back →
        FieldType.parse text = .ok type →
        MethodDescriptor.parse (front ++ text ++ ")" ++ back)
          = .ok { d with parameters := d.parameters ++ [type] }
        ∧ escapeParameters (front ++ text ++ ")" ++ back)
          = escapeParameters descriptor ++ escapeName text) := by
  obtain ⟨hprint, hparameters, -⟩ := MethodDescriptor.parse_eq_ok_iff.1 h
  refine ⟨?_, ?_, ?_⟩
  · refine ⟨d.parameters.map fun type => String.ofList type.print, String.ofList d.result.print,
      ?_, ?_, ?_⟩
    · rw [List.forall₂_map_left_iff, List.forall₂_same]
      intro type htype
      exact FieldType.parse_eq_ok_iff.2 ⟨rfl, hparameters type htype⟩
    · rw [← String.toList_inj, hprint]
      simp [String.toList_join, List.flatMap_map, Descriptor.print_method, Descriptor.printAll]
    · rw [escapeParameters_of_parse h, List.map_map]
      rfl
  · intro other d' hother hsame
    rw [escapeParameters_of_parse h, escapeParameters_of_parse hother, hsame]
  · intro front back text type hsplit htext
    obtain ⟨rfl, hlegal⟩ := FieldType.parse_eq_ok_iff.1 htext
    have happended := parse_append_parameter h hsplit hlegal
    refine ⟨happended, ?_⟩
    rw [escapeParameters_of_parse happended, escapeParameters_of_parse h, ← String.toList_inj]
    simp [String.toList_join]

/-- A class name whose last segment is a digit, and another one that is a digit throughout. -/
theorem parameters_escaped_one_by_one_of_digits :
    MethodDescriptor.parse "(I[La/2;)V"
        = .ok ⟨[.primitive .int, .array (.object "a/2")], .void⟩
    ∧ MethodDescriptor.parse "(I[La/2;)J"
        = .ok ⟨[.primitive .int, .array (.object "a/2")], .value (.primitive .long)⟩
    ∧ FieldType.parse "L3;" = .ok (.object "3")
    ∧ escapeParameters "(I[La/2;)J" = escapeParameters "(I[La/2;)V"
    ∧ escapeParameters "(I[La/2;L3;)V" = escapeParameters "(I[La/2;)V" ++ escapeName "L3;" := by
  have hvoid : MethodDescriptor.parse "(I[La/2;)V"
      = .ok ⟨[.primitive .int, .array (.object "a/2")], .void⟩ :=
    MethodDescriptor.parse_eq_ok_iff.2 ⟨by decide, by decide⟩
  have hlong : MethodDescriptor.parse "(I[La/2;)J"
      = .ok ⟨[.primitive .int, .array (.object "a/2")], .value (.primitive .long)⟩ :=
    MethodDescriptor.parse_eq_ok_iff.2 ⟨by decide, by decide⟩
  have hdigit : FieldType.parse "L3;" = .ok (.object "3") :=
    FieldType.parse_eq_ok_iff.2 ⟨by decide, by decide⟩
  obtain ⟨-, hresult, happend⟩ := parameters_escaped_one_by_one hvoid
  exact ⟨hvoid, hlong, hdigit, hresult _ _ hlong rfl,
    (happend "(I[La/2;" "V" "L3;" _ (by decide) hdigit).2⟩

end Symbol

end NativeHeaders
