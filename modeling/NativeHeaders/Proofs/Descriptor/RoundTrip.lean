import NativeHeaders.Descriptor.Parser

/-!
# Reading descriptors is the inverse of printing them

A reader takes a text off the front of the remaining characters, so its specification speaks of
that text and of what follows: `typeAt_eq_ok_iff` says that a type is found exactly where its
spelling stands, that the offset moves by the bytes of that spelling, and that what follows is left
alone. From it come the same statements about the parameters of a method, about what a method
returns, and about a whole method descriptor.

The grammar is the printer together with `Legal`, which says what the names of classes may hold.
The search for `;` may run far ahead over other structure; it is `Legal` that brings it back,
because a name that swallowed structure holds one of the characters that no name may hold.
-/

set_option autoImplicit false

namespace NativeHeaders

open Descriptor

/-! ## What class names may hold -/

/-- The characters that no class name in a descriptor holds: the one that ends it, the dot of
another spelling of class names, and those that structure a descriptor. -/
def Descriptor.reserved : List Char := [';', '.', '[', '(', ')']

/-- A class name as a descriptor can spell it. -/
def Descriptor.IsClassName (name : String) : Prop :=
  name ≠ "" ∧ ∀ c ∈ name.toList, c ∉ reserved

/-- Every class name in a type can be spelled. -/
def FieldType.Legal : FieldType → Prop
  | primitive _ => True
  | object className => IsClassName className
  | array element => element.Legal

/-- Every class name in what a method returns can be spelled. -/
def ReturnType.Legal : ReturnType → Prop
  | void => True
  | value type => type.Legal

/-- Every class name in a method descriptor can be spelled. -/
def MethodDescriptor.Legal (d : MethodDescriptor) : Prop :=
  (∀ type ∈ d.parameters, type.Legal) ∧ d.result.Legal

namespace Descriptor

instance (name : String) : Decidable (IsClassName name) :=
  -- by way of the characters of the name, because a test of all characters would never end
  @instDecidableAnd _ _ inferInstance (List.decidableBAll _ name.toList)

/-- Whether a type is legal can be computed by walking down its arrays. -/
instance decidableLegal : (type : FieldType) → Decidable type.Legal
  | .primitive _ => inferInstanceAs (Decidable True)
  | .object className => inferInstanceAs (Decidable (IsClassName className))
  | .array element => decidableLegal element

instance (result : ReturnType) : Decidable result.Legal :=
  match result with
  | .void => inferInstanceAs (Decidable True)
  | .value type => inferInstanceAs (Decidable type.Legal)

instance (d : MethodDescriptor) : Decidable d.Legal :=
  inferInstanceAs (Decidable (_ ∧ _))

theorem mem_reserved {c : Char} : c ∈ reserved ↔ c = ';' ∨ isIllegalInName c = true := by
  simp only [reserved, isIllegalInName, List.mem_cons, List.not_mem_nil, or_false, Bool.or_eq_true,
    beq_iff_eq, or_assoc]

/-! ## Lengths in bytes -/

@[simp] theorem byteLength_append (cs ds : List Char) :
    byteLength (cs ++ ds) = byteLength cs + byteLength ds := by
  induction cs with
  | nil => simp [byteLength]
  | cons c cs ih =>
    rw [List.cons_append, byteLength, byteLength, ih]
    omega

/-- A class type takes two bytes more than its name, one for `L` and one for `;`. -/
theorem byteLength_print_object (name : String) :
    byteLength (FieldType.object name).print = byteLength name.toList + 2 := by
  have hl : 'L'.utf8Size = 1 := rfl
  have hsemi : byteLength [';'] = 1 := rfl
  rw [FieldType.print, byteLength, byteLength_append, hl, hsemi]
  omega

theorem byteLength_print_primitive (p : Primitive) :
    byteLength (FieldType.primitive p).print = 1 := by
  cases p <;> rfl

theorem byteLength_print_array (element : FieldType) :
    byteLength (FieldType.array element).print = byteLength element.print + 1 := by
  have hbracket : '['.utf8Size = 1 := rfl
  rw [FieldType.print, byteLength, hbracket]
  omega

/-! ## Class names -/

/-- Where the search for `;` succeeds, the text is what it passed over, the `;` and the rest. -/
theorem eq_of_dropWhile_semicolon {cs rest : List Char} {c : Char}
    (h : cs.dropWhile (· != ';') = c :: rest) :
    c = ';' ∧ cs = cs.takeWhile (· != ';') ++ ';' :: rest := by
  have hhead := List.head_dropWhile_not (· != ';') (l := cs) (by rw [h]; simp)
  have hc : c = ';' := by simpa [h] using hhead
  have hsplit := List.takeWhile_append_dropWhile (p := (· != ';')) (l := cs)
  rw [h, hc] at hsplit
  exact ⟨hc, hsplit.symm⟩

/-- What the search for `;` passes over holds none. -/
theorem ne_semicolon_of_mem_takeWhile {cs : List Char} {c : Char}
    (h : c ∈ cs.takeWhile (· != ';')) : c ≠ ';' := by
  simpa using List.all_eq_true.1 (List.all_takeWhile (p := (· != ';'))) c h

/-- A name that holds no `;` is found in front of one. -/
theorem takeWhile_semicolon {name : List Char} (h : ∀ c ∈ name, c ≠ ';') (rest : List Char) :
    (name ++ ';' :: rest).takeWhile (· != ';') = name
      ∧ (name ++ ';' :: rest).dropWhile (· != ';') = ';' :: rest := by
  have hall : ∀ c ∈ name, (c != ';') = true := by simpa using h
  constructor
  · rw [List.takeWhile_append_of_pos hall, List.takeWhile_cons_of_neg (by simp), List.append_nil]
  · rw [List.dropWhile_append_of_pos hall, List.dropWhile_cons_of_neg (by simp)]

/-- A class type is found exactly where a legal name and `;` stand. -/
theorem classNameAt_eq_ok_iff {start offset : Nat} {cs rest : List Char} {type : FieldType} :
    classNameAt start cs = .ok (type, offset, rest) ↔
      ∃ name : String, IsClassName name ∧ type = .object name
        ∧ cs = name.toList ++ ';' :: rest ∧ offset = start + byteLength name.toList + 2 := by
  constructor
  · intro h
    unfold classNameAt at h
    split at h
    · contradiction
    · rename_i c left heq
      obtain ⟨-, hcs⟩ := eq_of_dropWhile_semicolon heq
      simp only at h
      split at h
      · contradiction
      · rename_i hne
        split at h
        · contradiction
        · rename_i hany
          obtain ⟨⟩ := h
          refine ⟨String.ofList (cs.takeWhile (· != ';')), ⟨?_, ?_⟩, rfl, ?_, ?_⟩
          · simpa using hne
          · intro c hc hres
            rw [String.toList_ofList] at hc
            rcases mem_reserved.1 hres with hsemi | hillegal
            · exact ne_semicolon_of_mem_takeWhile hc hsemi
            · exact hany (List.any_eq_true.2 ⟨c, hc, hillegal⟩)
          · rw [String.toList_ofList]
            exact hcs
          · rw [String.toList_ofList]
  · rintro ⟨name, ⟨hne, hlegal⟩, rfl, rfl, rfl⟩
    have hsemi : ∀ c ∈ name.toList, c ≠ ';' := fun c hc heq =>
      hlegal c hc (mem_reserved.2 (Or.inl heq))
    have hany : ¬ name.toList.any isIllegalInName = true := by
      rw [List.any_eq_true]
      rintro ⟨c, hc, hillegal⟩
      exact hlegal c hc (mem_reserved.2 (Or.inr hillegal))
    have hnil : name.toList ≠ [] := by simpa using hne
    obtain ⟨htake, hdrop⟩ := takeWhile_semicolon hsemi rest
    unfold classNameAt
    rw [hdrop]
    simp only [htake]
    rw [if_neg hnil, if_neg hany, String.ofList_toList]

/-! ## Types -/

/-- A letter that is read as a primitive type is the letter of that type. -/
theorem code_of_ofCode? {c : Char} {p : Primitive} (h : Primitive.ofCode? c = some p) :
    c = p.code := by
  unfold Primitive.ofCode? at h
  split at h <;> cases h <;> rfl

theorem code_ne (p : Primitive) : p.code ≠ 'L' ∧ p.code ≠ '[' ∧ p.code ≠ ')' ∧ p.code ≠ 'V' := by
  cases p <;> decide

/-- What is found as a type is its spelling, and the offset moves by the bytes of it. -/
theorem eq_of_typeAt_ok {start offset : Nat} {cs rest : List Char} {type : FieldType}
    (h : typeAt start cs = .ok (type, offset, rest)) :
    type.Legal ∧ cs = type.print ++ rest ∧ offset = start + byteLength type.print := by
  induction cs generalizing start offset rest type with
  | nil => contradiction
  | cons c cs ih =>
    unfold typeAt at h
    split at h
    · rename_i hl
      obtain ⟨name, hname, rfl, rfl, rfl⟩ := classNameAt_eq_ok_iff.1 h
      refine ⟨hname, ?_, ?_⟩
      · rw [hl, FieldType.print, List.cons_append, List.append_assoc, List.singleton_append]
      · rw [byteLength_print_object, Nat.add_assoc]
    · split at h
      · rename_i hbracket
        split at h
        · rename_i element found heq
          obtain ⟨reached, left⟩ := found
          obtain ⟨⟩ := h
          obtain ⟨hlegal, hcs, hoffset⟩ := ih heq
          refine ⟨hlegal, ?_, ?_⟩
          · rw [hbracket, hcs, FieldType.print, List.cons_append]
          · rw [byteLength_print_array, hoffset]
            omega
        · contradiction
      · split at h
        · rename_i p heq
          obtain ⟨⟩ := h
          refine ⟨trivial, ?_, ?_⟩
          · rw [code_of_ofCode? heq, FieldType.print, List.singleton_append]
          · rw [byteLength_print_primitive]
        · contradiction

/-- Where the spelling of a type stands the type is found, whatever follows. -/
theorem typeAt_print {type : FieldType} (hlegal : type.Legal) (start : Nat) (rest : List Char) :
    typeAt start (type.print ++ rest)
      = .ok (type, start + byteLength type.print, rest) := by
  induction type generalizing start with
  | primitive p =>
    obtain ⟨hl, hbracket, -, -⟩ := code_ne p
    rw [byteLength_print_primitive, FieldType.print, List.singleton_append, typeAt, if_neg hl,
      if_neg hbracket, Primitive.ofCode?_code]
  | object name =>
    rw [byteLength_print_object, FieldType.print, List.cons_append, typeAt, if_pos rfl,
      List.append_assoc, List.singleton_append]
    exact classNameAt_eq_ok_iff.2 ⟨name, hlegal, rfl, rfl, by omega⟩
  | array element ih =>
    have hne : '[' ≠ 'L' := by decide
    have hoffset : start + 1 + byteLength element.print
        = start + byteLength (FieldType.array element).print := by
      rw [byteLength_print_array]
      omega
    rw [← hoffset, FieldType.print, List.cons_append, typeAt, if_neg hne, if_pos rfl,
      ih hlegal (start + 1)]

/-- **Types.** A type is found exactly where its spelling stands. -/
theorem typeAt_eq_ok_iff {start offset : Nat} {cs rest : List Char} {type : FieldType} :
    typeAt start cs = .ok (type, offset, rest) ↔
      type.Legal ∧ cs = type.print ++ rest ∧ offset = start + byteLength type.print := by
  constructor
  · exact eq_of_typeAt_ok
  · rintro ⟨hlegal, rfl, rfl⟩
    exact typeAt_print hlegal start rest

/-- No type is spelled like `)`, which closes the parameters, or like void. -/
theorem exists_print_eq_cons (type : FieldType) :
    ∃ c tail, type.print = c :: tail ∧ c ≠ ')' ∧ c ≠ 'V' := by
  rcases type with p | name | element
  · exact ⟨p.code, [], rfl, (code_ne p).2.2⟩
  · exact ⟨'L', name.toList ++ [';'], rfl, by decide, by decide⟩
  · exact ⟨'[', element.print, rfl, by decide, by decide⟩

/-! ## Methods -/

/-- The spelling of types in a row. -/
def printAll (types : List FieldType) : List Char := types.flatMap FieldType.print

@[simp] theorem printAll_nil : printAll [] = [] := rfl

@[simp] theorem printAll_cons (type : FieldType) (types : List FieldType) :
    printAll (type :: types) = type.print ++ printAll types := rfl

/-- Neither the dot nor a round bracket stands in the spelling of a legal type. -/
theorem not_mem_print {type : FieldType} (hlegal : type.Legal) {c : Char}
    (hc : c ∈ ['.', '(', ')']) : c ∉ type.print := by
  have hreserved : c ∈ reserved := by
    simp only [reserved, List.mem_cons, List.not_mem_nil, or_false] at hc ⊢
    rcases hc with rfl | rfl | rfl <;> decide
  induction type with
  | primitive p =>
    rw [FieldType.print, List.mem_singleton]
    rintro rfl
    cases p <;> simp [Primitive.code] at hc
  | object name =>
    rw [FieldType.print, List.mem_cons, List.mem_append, List.mem_singleton]
    rintro (rfl | hname | rfl)
    · simp at hc
    · exact hlegal.2 c hname hreserved
    · simp at hc
  | array element ih =>
    rw [FieldType.print, List.mem_cons]
    rintro (rfl | helement)
    · simp at hc
    · exact ih hlegal helement

theorem not_mem_printAll {types : List FieldType} (hlegal : ∀ type ∈ types, type.Legal) {c : Char}
    (hc : c ∈ ['.', '(', ')']) : c ∉ printAll types := by
  intro hmem
  obtain ⟨type, htype, hprint⟩ := List.mem_flatMap.1 hmem
  exact not_mem_print (hlegal type htype) hc hprint

/-- What is wrong with a type is wrong with the parameters that begin with it. -/
theorem parametersAt_of_typeAt {start : Nat} {c : Char} {tail : List Char} {e : DescriptorError}
    (hclose : c ≠ ')') (h : typeAt start (c :: tail) = .error e) :
    parametersAt start (c :: tail) = .error e := by
  rw [parametersAt, if_neg hclose]
  split
  · rename_i e' heq
    rw [h] at heq
    rw [Except.error.inj heq]
  · rename_i heq
    rw [h] at heq
    contradiction

/-- A type in front of more parameters. -/
theorem parametersAt_print {type : FieldType} (hlegal : type.Legal) (start : Nat)
    (rest : List Char) :
    parametersAt start (type.print ++ rest) =
      match parametersAt (start + byteLength type.print) rest with
      | .error e => .error e
      | .ok (types, found) => .ok (type :: types, found) := by
  have hread := typeAt_print hlegal start rest
  obtain ⟨c, tail, hprint, hclose, -⟩ := exists_print_eq_cons type
  rw [hprint, List.cons_append] at hread
  rw [hprint, List.cons_append, parametersAt, if_neg hclose]
  split
  · rename_i e heq
    rw [hread] at heq
    contradiction
  · rename_i found next left heq
    rw [hread] at heq
    obtain ⟨⟩ := heq
    rfl

/-- **Parameters.** They are found exactly where their spellings stand in a row before `)`. -/
theorem parametersAt_eq_ok_iff {start offset : Nat} {cs rest : List Char}
    {types : List FieldType} :
    parametersAt start cs = .ok (types, offset, rest) ↔
      (∀ type ∈ types, type.Legal) ∧ cs = printAll types ++ ')' :: rest
        ∧ offset = start + byteLength (printAll types) + 1 := by
  constructor
  · intro h
    fun_induction parametersAt start cs generalizing offset rest types with
    | case1 => contradiction
    | case2 start tail =>
      obtain ⟨⟩ := h
      exact ⟨by simp, rfl, rfl⟩
    | case3 => contradiction
    | case4 => contradiction
    | case5 start c tail hc type next left htype others found hothers ih =>
      obtain ⟨reached, remaining⟩ := found
      obtain ⟨⟩ := h
      obtain ⟨hlegal, hcs, hnext⟩ := typeAt_eq_ok_iff.1 htype
      obtain ⟨hlegals, hleft, hreached⟩ := ih hothers
      refine ⟨?_, ?_, ?_⟩
      · intro t ht
        rcases List.mem_cons.1 ht with rfl | ht
        · exact hlegal
        · exact hlegals t ht
      · rw [hcs, hleft, printAll_cons, List.append_assoc]
      · rw [hreached, hnext, printAll_cons, byteLength_append]
        omega
  · rintro ⟨hlegal, rfl, rfl⟩
    induction types generalizing start with
    | nil =>
      rw [printAll_nil, List.nil_append, parametersAt, if_pos rfl]
      rfl
    | cons type types ih =>
      rw [printAll_cons, List.append_assoc,
        parametersAt_print (hlegal type List.mem_cons_self),
        ih fun t ht => hlegal t (List.mem_cons_of_mem _ ht)]
      simp only [byteLength_append, Nat.add_assoc]

/-- **Results.** What a method returns is found exactly where its spelling stands. -/
theorem returnTypeAt_eq_ok_iff {start offset : Nat} {cs rest : List Char} {result : ReturnType} :
    returnTypeAt start cs = .ok (result, offset, rest) ↔
      result.Legal ∧ cs = result.print ++ rest ∧ offset = start + byteLength result.print := by
  constructor
  · intro h
    unfold returnTypeAt at h
    split at h
    · obtain ⟨⟩ := h
      exact ⟨trivial, rfl, rfl⟩
    · split at h
      · contradiction
      · rename_i type found heq
        obtain ⟨reached, left⟩ := found
        obtain ⟨⟩ := h
        exact typeAt_eq_ok_iff.1 heq
  · rintro ⟨hlegal, rfl, rfl⟩
    rcases result with _ | type
    · rfl
    · have hread := typeAt_print hlegal start rest
      obtain ⟨c, tail, hprint, -, hvoid⟩ := exists_print_eq_cons type
      unfold returnTypeAt
      split
      · -- no type starts like void
        rename_i left heq
        rw [ReturnType.print, hprint, List.cons_append] at heq
        exact absurd (List.cons.inj heq).1 hvoid
      · rw [ReturnType.print, hread]

theorem print_method (d : MethodDescriptor) :
    d.print = '(' :: (printAll d.parameters ++ ')' :: d.result.print) := rfl

/-- The brackets of a method descriptor take one byte each. -/
theorem byteLength_print_method (d : MethodDescriptor) :
    byteLength d.print
      = 1 + byteLength (printAll d.parameters) + 1 + byteLength d.result.print := by
  have hopen : '('.utf8Size = 1 := rfl
  have hclose : ')'.utf8Size = 1 := rfl
  rw [print_method, byteLength, byteLength_append, byteLength, hopen, hclose]
  omega

/-- **Methods.** A method descriptor is found exactly where its spelling stands. -/
theorem methodAt_eq_ok_iff {offset : Nat} {cs rest : List Char} {d : MethodDescriptor} :
    methodAt cs = .ok (d, offset, rest) ↔
      d.Legal ∧ cs = d.print ++ rest ∧ offset = byteLength d.print := by
  constructor
  · intro h
    unfold methodAt at h
    split at h
    · contradiction
    · split at h
      · rename_i c tail hc
        split at h
        · contradiction
        · rename_i parameters reached left hparameters
          split at h
          · contradiction
          · rename_i result found hresult
            obtain ⟨next, remaining⟩ := found
            obtain ⟨⟩ := h
            obtain ⟨hlegals, htail, hreached⟩ := parametersAt_eq_ok_iff.1 hparameters
            obtain ⟨hlegal, hleft, hnext⟩ := returnTypeAt_eq_ok_iff.1 hresult
            refine ⟨⟨hlegals, hlegal⟩, ?_, ?_⟩
            · rw [hc, htail, hleft, print_method, List.cons_append, List.append_assoc,
                List.cons_append]
            · rw [hnext, hreached, byteLength_print_method]
      · contradiction
  · rintro ⟨⟨hlegals, hlegal⟩, rfl, rfl⟩
    have hparameters : parametersAt 1 (printAll d.parameters ++ ')' :: (d.result.print ++ rest))
        = .ok (d.parameters, 1 + byteLength (printAll d.parameters) + 1, d.result.print ++ rest) :=
      parametersAt_eq_ok_iff.2 ⟨hlegals, rfl, rfl⟩
    have hresult : returnTypeAt (1 + byteLength (printAll d.parameters) + 1)
          (d.result.print ++ rest)
        = .ok (d.result, byteLength d.print, rest) :=
      returnTypeAt_eq_ok_iff.2 ⟨hlegal, rfl, byteLength_print_method d⟩
    have hspelling : d.print ++ rest
        = '(' :: (printAll d.parameters ++ ')' :: (d.result.print ++ rest)) := by
      rw [print_method, List.cons_append, List.append_assoc, List.cons_append]
    rw [hspelling, methodAt, if_pos rfl, hparameters]
    simp only [hresult]

/-! ## Whole descriptors -/

/-- A text is read completely when something is found that nothing follows. -/
theorem complete_eq_ok_iff {α : Type} {found : Found α} {a : α} :
    complete found = .ok a ↔ ∃ offset, found = .ok (a, offset, []) := by
  constructor
  · intro h
    unfold complete at h
    split at h
    · contradiction
    · rename_i offset
      obtain ⟨⟩ := h
      exact ⟨offset, rfl⟩
    · contradiction
  · rintro ⟨offset, rfl⟩
    rfl

end Descriptor

/-- A method descriptor is read from its spelling and from no other text. -/
theorem MethodDescriptor.parse_eq_ok_iff {s : String} {d : MethodDescriptor} :
    MethodDescriptor.parse s = .ok d ↔ s = String.ofList d.print ∧ d.Legal := by
  rw [MethodDescriptor.parse, complete_eq_ok_iff]
  constructor
  · rintro ⟨offset, h⟩
    obtain ⟨hlegal, hs, -⟩ := methodAt_eq_ok_iff.1 h
    rw [List.append_nil] at hs
    exact ⟨by rw [← hs, String.ofList_toList], hlegal⟩
  · rintro ⟨rfl, hlegal⟩
    refine ⟨byteLength d.print, methodAt_eq_ok_iff.2 ⟨hlegal, ?_, rfl⟩⟩
    rw [String.toList_ofList, List.append_nil]

/-- A field descriptor is read from its spelling and from no other text. -/
theorem FieldType.parse_eq_ok_iff {s : String} {type : FieldType} :
    FieldType.parse s = .ok type ↔ s = String.ofList type.print ∧ type.Legal := by
  rw [FieldType.parse, complete_eq_ok_iff]
  constructor
  · rintro ⟨offset, h⟩
    obtain ⟨hlegal, hs, -⟩ := typeAt_eq_ok_iff.1 h
    rw [List.append_nil] at hs
    exact ⟨by rw [← hs, String.ofList_toList], hlegal⟩
  · rintro ⟨rfl, hlegal⟩
    refine ⟨0 + byteLength type.print, typeAt_eq_ok_iff.2 ⟨hlegal, ?_, rfl⟩⟩
    rw [String.toList_ofList, List.append_nil]

/-! ## Void

`V` is spelled where a result stands and nowhere else. At every other place where a type is due,
also inside an array, it is refused for what it is, an unknown code. -/

namespace Descriptor

/-- Void is no type, and no element of an array of any depth. -/
theorem typeAt_void (start depth : Nat) (rest : List Char) :
    typeAt start (List.replicate depth '[' ++ 'V' :: rest) = .error (.unknownTypeCode 'V') := by
  induction depth generalizing start with
  | zero => rfl
  | succ depth ih =>
    have hne : '[' ≠ 'L' := by decide
    rw [List.replicate_succ, List.cons_append, typeAt, if_neg hne, if_pos rfl, ih]

/-- What is wrong behind some parameters is wrong with the list of parameters. -/
theorem parametersAt_error {types : List FieldType} (hlegal : ∀ type ∈ types, type.Legal)
    {cs : List Char} {e : DescriptorError} (h : ∀ start, parametersAt start cs = .error e)
    (start : Nat) : parametersAt start (printAll types ++ cs) = .error e := by
  induction types generalizing start with
  | nil => exact h start
  | cons type types ih =>
    rw [printAll_cons, List.append_assoc, parametersAt_print (hlegal type List.mem_cons_self),
      ih fun t ht => hlegal t (List.mem_cons_of_mem _ ht)]

theorem parametersAt_void (start depth : Nat) (rest : List Char) :
    parametersAt start (List.replicate depth '[' ++ 'V' :: rest)
      = .error (.unknownTypeCode 'V') := by
  obtain ⟨c, tail, hcs, hclose⟩ : ∃ c tail,
      List.replicate depth '[' ++ 'V' :: rest = c :: tail ∧ c ≠ ')' := by
    rcases depth with _ | depth
    · exact ⟨'V', rest, rfl, by decide⟩
    · exact ⟨'[', List.replicate depth '[' ++ 'V' :: rest, rfl, by decide⟩
  have hread := typeAt_void start depth rest
  rw [hcs] at hread ⊢
  exact parametersAt_of_typeAt hclose hread

/-- A method descriptor whose parameters cannot be read fails as they do. -/
theorem parse_error_of_parametersAt {cs : List Char} {e : DescriptorError}
    (h : parametersAt 1 cs = .error e) :
    MethodDescriptor.parse (String.ofList ('(' :: cs)) = .error e := by
  rw [MethodDescriptor.parse, String.toList_ofList, methodAt, if_pos rfl, h, complete]

/-- A method descriptor whose result cannot be read fails as it does. -/
theorem parse_error_of_returnTypeAt {types : List FieldType}
    (hlegal : ∀ type ∈ types, type.Legal) {cs : List Char} {e : DescriptorError}
    (h : ∀ start, returnTypeAt start cs = .error e) :
    MethodDescriptor.parse (String.ofList ('(' :: (printAll types ++ ')' :: cs))) = .error e := by
  have hparameters : parametersAt 1 (printAll types ++ ')' :: cs)
      = .ok (types, 1 + byteLength (printAll types) + 1, cs) :=
    parametersAt_eq_ok_iff.2 ⟨hlegal, rfl, rfl⟩
  rw [MethodDescriptor.parse, String.toList_ofList, methodAt, if_pos rfl, hparameters]
  simp only [h]
  rfl

theorem returnTypeAt_array_of_void (start depth : Nat) (rest : List Char) :
    returnTypeAt start (List.replicate (depth + 1) '[' ++ 'V' :: rest)
      = .error (.unknownTypeCode 'V') := by
  have hread := typeAt_void start (depth + 1) rest
  rw [List.replicate_succ, List.cons_append] at hread ⊢
  rw [returnTypeAt, hread]
  intro left heq
  exact absurd (List.cons.inj heq).1 (by decide)

/-! ## The grammar -/

/-- **Descriptors are read exactly as they are printed.** A text is read as a descriptor just when
it is the spelling of that descriptor and the names of all classes in it can be spelled; so two
texts that are read alike are one text. Void is spelled as a result only: as a type of its own,
as a parameter and as an element of an array, however deep, it is an unknown code. -/
theorem parse_iff_print :
    (∀ (s : String) (d : MethodDescriptor),
      MethodDescriptor.parse s = .ok d ↔ s = String.ofList d.print ∧ d.Legal)
    ∧ (∀ (s : String) (type : FieldType),
      FieldType.parse s = .ok type ↔ s = String.ofList type.print ∧ type.Legal)
    ∧ (∀ (s t : String) (d : MethodDescriptor),
      MethodDescriptor.parse s = .ok d → MethodDescriptor.parse t = .ok d → s = t)
    ∧ (∀ (s t : String) (type : FieldType),
      FieldType.parse s = .ok type → FieldType.parse t = .ok type → s = t)
    ∧ (∀ (depth : Nat) (rest : List Char),
      FieldType.parse (String.ofList (List.replicate depth '[' ++ 'V' :: rest))
        = .error (.unknownTypeCode 'V'))
    ∧ (∀ (types : List FieldType), (∀ type ∈ types, type.Legal) →
      ∀ (depth : Nat) (rest : List Char),
        MethodDescriptor.parse
            (String.ofList ('(' :: (printAll types ++ (List.replicate depth '[' ++ 'V' :: rest))))
          = .error (.unknownTypeCode 'V')
        ∧ MethodDescriptor.parse
            (String.ofList
              ('(' :: (printAll types ++ ')' :: (List.replicate (depth + 1) '[' ++ 'V' :: rest))))
          = .error (.unknownTypeCode 'V')) := by
  refine ⟨fun s d => MethodDescriptor.parse_eq_ok_iff, fun s type => FieldType.parse_eq_ok_iff,
    ?_, ?_, ?_, ?_⟩
  · intro s t d hs ht
    rw [(MethodDescriptor.parse_eq_ok_iff.1 hs).1, (MethodDescriptor.parse_eq_ok_iff.1 ht).1]
  · intro s t type hs ht
    rw [(FieldType.parse_eq_ok_iff.1 hs).1, (FieldType.parse_eq_ok_iff.1 ht).1]
  · intro depth rest
    rw [FieldType.parse, String.toList_ofList, typeAt_void, complete]
  · intro types hlegal depth rest
    constructor
    · apply parse_error_of_parametersAt
      exact parametersAt_error hlegal (fun start => parametersAt_void start depth rest) 1
    · apply parse_error_of_returnTypeAt hlegal
      intro start
      exact returnTypeAt_array_of_void start depth rest

theorem parse_iff_print_of_texts :
    MethodDescriptor.parse "([[Lp/Q;J)V"
        = .ok ⟨[.array (.array (.object "p/Q")), .primitive .long], .void⟩
    ∧ (∀ type ∈ [FieldType.array (.object "p/Q")], type.Legal)
    ∧ MethodDescriptor.parse "([Lp/Q;[V)I" = .error (.unknownTypeCode 'V')
    ∧ MethodDescriptor.parse "([Lp/Q;)[V" = .error (.unknownTypeCode 'V') :=
  ⟨(parse_iff_print.1 _ _).2 ⟨by decide, by decide⟩, by decide,
    (parse_iff_print.2.2.2.2.2 [.array (.object "p/Q")] (by decide) 1 [')', 'I']).1,
    (parse_iff_print.2.2.2.2.2 [.array (.object "p/Q")] (by decide) 0 []).2⟩

end Descriptor

end NativeHeaders
