import NativeHeaders.Proofs.Descriptor.Cursor

/-!
# Where a cursor slices the text

A cursor moves on only over characters that it has accepted, so what is behind it can always be
completed to a spelling. This is the invariant of the recursion, `Grammar.Marks`. It is stated for
one grammar at a time, because what completes an element, a parameter or a result does so inside
an array, a list of parameters or a method too (`Grammar.Marks.behind`).

With it every function of the cursor is shown to come to what the reader of the same part finds
(`Reading.Follows`): no slice is without a result.
-/

set_option autoImplicit false

namespace NativeHeaders

namespace Descriptor

variable {α β : Type}

/-! ## Grammars -/

/-- What can be spelled, and how. -/
structure Grammar (α : Type) where
  Legal : α → Prop
  print : α → List Char

namespace Grammar

/-- The text can be completed to a spelling of the grammar. -/
def Begins (g : Grammar α) (front : List Char) : Prop := ∃ a, g.Legal a ∧ front <+: g.print a

/-- An offset lies in `cs`, which stands at `start`, between two characters or at an end; what is
in front of it can be completed to a spelling. -/
def Marks (g : Grammar α) (start : Nat) (cs : List Char) (k : Nat) : Prop :=
  ∃ front back, cs = front ++ back ∧ k = start + byteLength front ∧ g.Begins front

variable {g : Grammar α} {g' : Grammar β} {start k : Nat} {cs : List Char}

/-- What stands behind characters that the other grammar accepts in front is marked there too. -/
theorem Marks.behind (front : List Char) (h : g.Marks (start + byteLength front) cs k)
    (hlift : ∀ ds, g.Begins ds → g'.Begins (front ++ ds)) : g'.Marks start (front ++ cs) k := by
  obtain ⟨ds, back, rfl, rfl, hbegins⟩ := h
  refine ⟨front ++ ds, back, (List.append_assoc _ _ _).symm, ?_, hlift ds hbegins⟩
  rw [byteLength_append, Nat.add_assoc]

/-- The offset behind accepted characters is marked. -/
theorem marks_append {front : List Char} (h : g.Begins front) (back : List Char) :
    g.Marks start (front ++ back) (start + byteLength front) :=
  ⟨front, back, rfl, rfl, h⟩

theorem marks_start (h : g.Begins []) (cs : List Char) : g.Marks start cs start :=
  marks_append h cs

end Grammar

/-- The spellings of types. -/
def Grammar.type : Grammar FieldType := ⟨FieldType.Legal, FieldType.print⟩

/-- The spellings of types in a row, with the bracket that closes them. -/
def Grammar.parameters : Grammar (List FieldType) where
  Legal types := ∀ type ∈ types, type.Legal
  print types := printAll types ++ [')']

/-- The spellings of what a method returns. -/
def Grammar.result : Grammar ReturnType := ⟨ReturnType.Legal, ReturnType.print⟩

/-- The spellings of method descriptors. -/
def Grammar.method : Grammar MethodDescriptor := ⟨MethodDescriptor.Legal, MethodDescriptor.print⟩

/-! ### What begins a spelling -/

theorem Grammar.type_begins_nil : Grammar.type.Begins [] :=
  ⟨.primitive .int, trivial, List.nil_prefix⟩

theorem Grammar.type_begins_object : Grammar.type.Begins ['L'] := by
  have hlegal : (FieldType.object "Q").Legal := by decide
  exact ⟨.object "Q", hlegal, List.prefix_append ['L'] _⟩

theorem Grammar.type_begins_array {front : List Char} (h : Grammar.type.Begins front) :
    Grammar.type.Begins ('[' :: front) := by
  obtain ⟨element, hlegal, hprefix⟩ := h
  exact ⟨.array element, hlegal, List.cons_prefix_cons.2 ⟨rfl, hprefix⟩⟩

theorem Grammar.parameters_begins_nil : Grammar.parameters.Begins [] :=
  ⟨[], by simp [Grammar.parameters], List.nil_prefix⟩

theorem Grammar.parameters_begins_type {front : List Char} (h : Grammar.type.Begins front) :
    Grammar.parameters.Begins front := by
  obtain ⟨type, hlegal, hprefix⟩ := h
  refine ⟨[type], ?_, ?_⟩
  · intro t ht
    rw [List.mem_singleton.1 ht]
    exact hlegal
  · exact hprefix.trans ⟨[')'], by simp [Grammar.type, Grammar.parameters, printAll]⟩

theorem Grammar.parameters_begins_cons {type : FieldType} (hlegal : type.Legal) {front : List Char}
    (h : Grammar.parameters.Begins front) : Grammar.parameters.Begins (type.print ++ front) := by
  obtain ⟨types, hlegals, hprefix⟩ := h
  refine ⟨type :: types, ?_, ?_⟩
  · intro t ht
    rcases List.mem_cons.1 ht with rfl | ht
    · exact hlegal
    · exact hlegals t ht
  · simp only [Grammar.parameters, printAll_cons, List.append_assoc]
    exact (List.prefix_append_right_inj _).2 hprefix

theorem Grammar.result_begins_type {front : List Char} (h : Grammar.type.Begins front) :
    Grammar.result.Begins front := by
  obtain ⟨type, hlegal, hprefix⟩ := h
  exact ⟨.value type, hlegal, hprefix⟩

theorem Grammar.method_begins_nil : Grammar.method.Begins [] :=
  ⟨⟨[], .void⟩, ⟨by simp, trivial⟩, List.nil_prefix⟩

/-- Parameters that can be completed make a method descriptor that can be completed. -/
theorem Grammar.method_begins_parameters {front : List Char} (h : Grammar.parameters.Begins front) :
    Grammar.method.Begins ('(' :: front) := by
  obtain ⟨types, hlegals, hprefix⟩ := h
  refine ⟨⟨types, .void⟩, ⟨hlegals, trivial⟩, ?_⟩
  have hsplit : Grammar.method.print ⟨types, .void⟩
      = '(' :: (Grammar.parameters.print types ++ ['V']) := by
    simp [Grammar.method, Grammar.parameters, print_method, ReturnType.print]
  rw [hsplit, List.cons_prefix_cons]
  exact ⟨rfl, hprefix.trans (List.prefix_append _ _)⟩

/-- So does a result that can be completed, behind parameters. -/
theorem Grammar.method_begins_result {parameters : List FieldType}
    (hlegals : ∀ type ∈ parameters, type.Legal) {front : List Char}
    (h : Grammar.result.Begins front) :
    Grammar.method.Begins ('(' :: (printAll parameters ++ ')' :: front)) := by
  obtain ⟨result, hlegal, hprefix⟩ := h
  refine ⟨⟨parameters, result⟩, ⟨hlegals, hlegal⟩, ?_⟩
  rw [show Grammar.method.print ⟨parameters, result⟩ = _ from print_method _, List.cons_prefix_cons,
    List.prefix_append_right_inj, List.cons_prefix_cons]
  exact ⟨rfl, rfl, hprefix⟩

/-- Offsets that types mark are marked by parameters, the first of which begins there. -/
theorem Grammar.parameters_marks_of_type {start k : Nat} {cs : List Char}
    (h : Grammar.type.Marks start cs k) : Grammar.parameters.Marks start cs k :=
  h.behind [] fun _ => Grammar.parameters_begins_type

end Descriptor

/-! ## Following a reader -/

/-- An error that arises while something is read; its offset, if it carries one, has a property.
Trailing characters are noticed only afterwards. -/
def DescriptorError.ArisesAt (P : Nat → Prop) : DescriptorError → Prop
  | unknownTypeCode _ | unexpectedEnd => True
  | expected _ offset | emptyClassName offset | illegalClassName offset => P offset
  | trailingCharacters _ => False

theorem DescriptorError.ArisesAt.imp {P Q : Nat → Prop} {e : DescriptorError} (h : e.ArisesAt P)
    (hPQ : ∀ k, P k → Q k) : e.ArisesAt Q := by
  cases e with
  | unknownTypeCode _ => trivial
  | unexpectedEnd => trivial
  | expected _ offset => exact hPQ offset h
  | emptyClassName offset => exact hPQ offset h
  | illegalClassName offset => exact hPQ offset h
  | trailingCharacters _ => exact h

namespace Descriptor

variable {α β : Type}

/-- The offset of a cursor lies where `cs` begins. -/
def Stands (text : List Char) (offset : Nat) (cs : List Char) : Prop :=
  ∃ front, text = front ++ cs ∧ byteLength front = offset

/-- A cursor that has moved over some characters stands behind them. -/
theorem Stands.advance {text front cs : List Char} {offset : Nat}
    (h : Stands text offset (front ++ cs)) : Stands text (offset + byteLength front) cs := by
  obtain ⟨before, rfl, rfl⟩ := h
  exact ⟨before ++ front, (List.append_assoc _ _ _).symm, byteLength_append before front⟩

theorem Stands.cons {text cs : List Char} {c : Char} {offset : Nat}
    (h : Stands text offset (c :: cs)) : Stands text (offset + c.utf8Size) cs :=
  Stands.advance (show Stands text offset ([c] ++ cs) from h)

/-- What a reader found and the offset it reached: a cursor keeps no characters. -/
def Found.reached (found : Found α) : Except DescriptorError (α × Nat) :=
  found.map fun a => (a.1, a.2.1)

/-- A reading that ends as a reader does. It slices the text only at offsets that have a property,
and every offset in an error has it too. -/
structure Reading.Follows (P : Nat → Prop) (r : Reading α) (found : Found α) : Prop where
  outcome_eq : r.outcome = some found.reached
  slices : ∀ k ∈ r.slices, P k
  arises : ∀ e, found = .error e → e.ArisesAt P

namespace Reading.Follows

variable {P Q : Nat → Prop} {r : Reading α} {found : Found α}

theorem mono (h : r.Follows P found) (hPQ : ∀ k, P k → Q k) : r.Follows Q found where
  outcome_eq := h.outcome_eq
  slices k hk := hPQ k (h.slices k hk)
  arises e he := (h.arises e he).imp hPQ

theorem of_found (a : α) (next : Nat) (rest : List Char) :
    (Reading.found a next).Follows P (.ok (a, next, rest)) where
  outcome_eq := rfl
  slices k hk := absurd hk (by simp [Reading.found])
  arises e he := by contradiction

theorem of_fail {e : DescriptorError} (h : e.ArisesAt P) :
    (Reading.fail e : Reading α).Follows P (.error e) where
  outcome_eq := rfl
  slices k hk := absurd hk (by simp [Reading.fail])
  arises e' he := by
    obtain ⟨⟩ := he
    exact h

/-- Where the first part ends in an error, so do both. -/
theorem bind_error {f : (a : α) → (next : Nat) → r.Ends a next → Reading β} {e : DescriptorError}
    (h : r.Follows P (.error e)) : (r.bind f).Follows P (.error e) := by
  rw [bind_of_error h.outcome_eq]
  refine ⟨rfl, h.slices, ?_⟩
  rintro e' ⟨⟩
  exact h.arises e rfl

/-- Where the first part ends, both follow what the second part follows. -/
theorem bind_ok {f : (a : α) → (next : Nat) → r.Ends a next → Reading β} {a : α} {next : Nat}
    {rest : List Char} {found : Found β} (h : r.Follows P (.ok (a, next, rest)))
    (hf : ∀ hends, (f a next hends).Follows P found) : (r.bind f).Follows P found := by
  have hends : r.Ends a next := h.outcome_eq
  rw [bind_of_ends hends]
  refine ⟨(hf hends).outcome_eq, ?_, (hf hends).arises⟩
  intro k hk
  rcases List.mem_append.1 hk with hk | hk
  · exact h.slices k hk
  · exact (hf hends).slices k hk

/-- What a reader finds may be passed on. -/
theorem map (g : α → β) (h : r.Follows P found) :
    (r.map g).Follows P (Except.map (fun a => (g a.1, a.2)) found) := by
  rcases found with e | ⟨a, next, rest⟩
  · exact bind_error h
  · exact bind_ok h fun _ => of_found (g a) next rest

end Reading.Follows

namespace Cursor

open Reading

variable {P : Nat → Prop} {text cs : List Char} {start offset : Nat} {c : Char}

/-! ## The cursor follows the readers -/

theorem slice_follows (hstands : Stands text offset cs) (hP : P offset) :
    (slice text offset).Follows P (.ok (cs, offset, cs)) := by
  obtain ⟨front, rfl, rfl⟩ := hstands
  refine ⟨?_, ?_, ?_⟩
  · rw [slice, splitBytes?_append]
    rfl
  · intro k hk
    rw [List.mem_singleton.1 hk]
    exact hP
  · intro e he
    contradiction

theorem peek_follows (hstands : Stands text offset cs) (hP : P offset) :
    (peek text offset).Follows P (.ok (cs.head?, offset, cs)) :=
  (slice_follows hstands hP).map List.head?

theorem bump_follows_nil (hstands : Stands text offset []) (hP : P offset) :
    (bump text offset).Follows P (.error .unexpectedEnd) :=
  (peek_follows hstands hP).bind_ok fun _ => .of_fail trivial

theorem bump_follows_cons (hstands : Stands text offset (c :: cs)) (hP : P offset) :
    (bump text offset).Follows P (.ok (c, offset + c.utf8Size, cs)) :=
  (peek_follows hstands hP).bind_ok fun _ => .of_found c _ cs

/-- Class names: the second slice, at the `;`, is at a character too. -/
theorem className_follows (hstands : Stands text (start + 1) cs) (hstart : P start)
    (hP : P (start + 1)) :
    (className text start (start + 1)).Follows P (classNameAt start cs) := by
  refine (slice_follows hstands hP).bind_ok fun _ => ?_
  rw [findSemicolon?_eq, classNameAt]
  cases hrest : cs.dropWhile (· != ';') with
  | nil => exact .of_fail (e := .unexpectedEnd) trivial
  | cons d rest =>
    obtain ⟨-, hcs⟩ := eq_of_dropWhile_semicolon hrest
    have hsides := splitBytes?_append (cs.takeWhile (· != ';')) (';' :: rest)
    rw [← hcs] at hsides
    simp only [hsides]
    by_cases hname : cs.takeWhile (· != ';') = []
    · rw [if_pos hname, if_pos hname]
      exact .of_fail hstart
    · rw [if_neg hname, if_neg hname]
      by_cases hillegal : (cs.takeWhile (· != ';')).any isIllegalInName = true
      · rw [if_pos hillegal, if_pos hillegal]
        exact .of_fail hstart
      · rw [if_neg hillegal, if_neg hillegal]
        have hoffset : start + 1 + byteLength (cs.takeWhile (· != ';')) + 1
            = start + byteLength (cs.takeWhile (· != ';')) + 2 := by omega
        rw [hoffset]
        exact .of_found _ _ rest

/-- **Types.** Reading one through a cursor follows the reader of types. -/
theorem fieldType_follows (hstands : Stands text start cs) :
    (fieldType text start).Follows (Grammar.type.Marks start cs) (typeAt start cs) := by
  -- readers count one byte for these two, a cursor the bytes of the character
  have hone : ∀ {c : Char}, c = 'L' ∨ c = '[' → c.utf8Size = 1 := by
    rintro c (rfl | rfl) <;> rfl
  induction cs generalizing start with
  | nil =>
    rw [fieldType, typeAt]
    exact (bump_follows_nil hstands (Grammar.marks_start Grammar.type_begins_nil _)).bind_error
  | cons c cs ih =>
    have hstart : Grammar.type.Marks start (c :: cs) start :=
      Grammar.marks_start Grammar.type_begins_nil _
    rw [fieldType, typeAt]
    refine (bump_follows_cons hstands hstart).bind_ok fun _ => ?_
    by_cases hl : c = 'L'
    · rw [if_pos hl, if_pos hl]
      have hnext := hstands.cons
      rw [hone (.inl hl)] at hnext ⊢
      have hbehind : Grammar.type.Marks start (c :: cs) (start + 1) := by
        rw [hl]
        exact Grammar.marks_append Grammar.type_begins_object cs
      exact className_follows hnext hstart hbehind
    · rw [if_neg hl, if_neg hl]
      by_cases hbracket : c = '['
      · rw [if_pos hbracket, if_pos hbracket]
        have hnext := hstands.cons
        rw [hone (.inr hbracket)] at hnext ⊢
        have hbehind : ∀ k, Grammar.type.Marks (start + 1) cs k →
            Grammar.type.Marks start (c :: cs) k := by
          intro k hk
          rw [hbracket]
          exact Grammar.Marks.behind ['['] hk fun _ => Grammar.type_begins_array
        have helement := ((ih hnext).map FieldType.array).mono hbehind
        cases hfound : typeAt (start + 1) cs <;> rw [hfound] at helement <;> exact helement
      · rw [if_neg hbracket, if_neg hbracket]
        cases hcode : Primitive.ofCode? c with
        | none => exact .of_fail (e := .unknownTypeCode c) trivial
        | some p =>
          -- only here is it known that the character is an ASCII letter
          have hsize : c.utf8Size = 1 := by
            rw [code_of_ofCode? hcode]
            cases p <;> rfl
          rw [hsize]
          exact .of_found _ _ cs

/-- A reader of types leaves the cursor behind the type. -/
theorem stands_of_typeAt {next : Nat} {rest : List Char} {type : FieldType}
    (hstands : Stands text start cs) (h : typeAt start cs = .ok (type, next, rest)) :
    Stands text next rest := by
  obtain ⟨-, rfl, rfl⟩ := typeAt_eq_ok_iff.1 h
  exact hstands.advance

/-- A parameter, and those that follow it. -/
theorem parameters_follows_cons {tail rest : List Char} {type : FieldType} {next : Nat}
    {found : Found (List FieldType)} (hstands : Stands text start (c :: tail)) (hc : c ≠ ')')
    (hfound : typeAt start (c :: tail) = .ok (type, next, rest))
    (hothers : (parameters text next).Follows (Grammar.parameters.Marks next rest) found) :
    (parameters text start).Follows (Grammar.parameters.Marks start (c :: tail))
      (Except.map (fun a => (type :: a.1, a.2)) found) := by
  obtain ⟨hlegal, hcs, rfl⟩ := typeAt_eq_ok_iff.1 hfound
  have hfirst := (fieldType_follows hstands).mono fun _ => Grammar.parameters_marks_of_type
  rw [hfound] at hfirst
  have hbehind : ∀ k, Grammar.parameters.Marks (start + byteLength type.print) rest k →
      Grammar.parameters.Marks start (c :: tail) k := by
    intro k hk
    rw [hcs]
    exact hk.behind type.print fun _ => Grammar.parameters_begins_cons hlegal
  rw [parameters]
  refine (peek_follows hstands (Grammar.marks_start Grammar.parameters_begins_nil _)).bind_ok
    fun _ => ?_
  simp only [List.head?_cons, if_neg hc]
  exact hfirst.bind_ok fun _ => (hothers.mono hbehind).map _

/-- **Parameters.** Reading them through a cursor follows the reader of parameters. -/
theorem parameters_follows (hstands : Stands text start cs) :
    (parameters text start).Follows (Grammar.parameters.Marks start cs)
      (parametersAt start cs) := by
  have hstart : ∀ {start cs}, Grammar.parameters.Marks start cs start :=
    Grammar.marks_start Grammar.parameters_begins_nil _
  fun_induction parametersAt start cs with
  | case1 start =>
    rw [parameters]
    exact (peek_follows hstands hstart).bind_ok fun _ => .of_fail (e := .unexpectedEnd) trivial
  | case2 start tail =>
    rw [parameters]
    refine (peek_follows hstands hstart).bind_ok fun _ => ?_
    exact (bump_follows_cons hstands hstart).map fun _ => []
  | case3 start c tail hc e herror =>
    have hfirst := (fieldType_follows hstands).mono fun _ => Grammar.parameters_marks_of_type
    rw [herror] at hfirst
    rw [parameters]
    refine (peek_follows hstands hstart).bind_ok fun _ => ?_
    simp only [List.head?_cons, if_neg hc]
    exact hfirst.bind_error
  | case4 start c tail hc type next rest hfound e herror ih =>
    have hothers := ih (stands_of_typeAt hstands hfound)
    rw [herror] at hothers
    exact parameters_follows_cons hstands hc hfound hothers
  | case5 start c tail hc type next rest hfound types found hfounds ih =>
    have hothers := ih (stands_of_typeAt hstands hfound)
    rw [hfounds] at hothers
    exact parameters_follows_cons hstands hc hfound hothers

/-- **Results.** Reading what a method returns through a cursor follows the reader of it. -/
theorem result_follows (hstands : Stands text start cs) :
    (result text start).Follows (Grammar.result.Marks start cs) (returnTypeAt start cs) := by
  have htypes : ∀ k, Grammar.type.Marks start cs k → Grammar.result.Marks start cs k :=
    fun _ hk => hk.behind [] fun _ => Grammar.result_begins_type
  have hstart : Grammar.result.Marks start cs start :=
    htypes start (Grammar.marks_start Grammar.type_begins_nil cs)
  refine (peek_follows hstands hstart).bind_ok fun _ => ?_
  by_cases hvoid : cs.head? = some 'V'
  · obtain ⟨rest, rfl⟩ := List.head?_eq_some_iff.1 hvoid
    exact (bump_follows_cons hstands hstart).map fun _ => ReturnType.void
  · have htype := ((fieldType_follows hstands).map ReturnType.value).mono htypes
    rw [if_neg hvoid, returnTypeAt]
    · cases hfound : typeAt start cs <;> rw [hfound] at htype <;> exact htype
    · rintro rest rfl
      exact hvoid rfl

/-- What a method returns, behind the brackets with its parameters. -/
theorem result_follows_parameters {types : List FieldType} {next : Nat} {rest : List Char}
    (hstands : Stands text 0 ('(' :: cs)) (hfound : parametersAt 1 cs = .ok (types, next, rest)) :
    (result text next).Follows (Grammar.method.Marks 0 ('(' :: cs)) (returnTypeAt next rest) := by
  obtain ⟨hlegals, rfl, rfl⟩ := parametersAt_eq_ok_iff.1 hfound
  -- what the cursor has moved over are the brackets and all between them
  have hsplit : ∀ ds, '(' :: (printAll types ++ ')' :: ds)
      = ('(' :: (printAll types ++ [')'])) ++ ds := by
    intro ds
    rw [List.cons_append, List.append_assoc, List.singleton_append]
  have hlength : 0 + byteLength ('(' :: (printAll types ++ [')']))
      = 1 + byteLength (printAll types) + 1 := by
    have hopen : '('.utf8Size = 1 := rfl
    have hclose : byteLength [')'] = 1 := rfl
    rw [byteLength, byteLength_append, hopen, hclose]
    omega
  rw [hsplit] at hstands ⊢
  rw [← hlength]
  refine (result_follows hstands.advance).mono fun k hk => hk.behind _ fun ds hds => ?_
  rw [← hsplit]
  exact Grammar.method_begins_result hlegals hds

/-- **Methods.** Reading one part after the other follows the reader of method descriptors. -/
theorem parts_follows (text : List Char) :
    (parts text).Follows (Grammar.method.Marks 0 text) (methodAt text) := by
  have hstands : Stands text 0 text := ⟨[], rfl, rfl⟩
  have hstart : Grammar.method.Marks 0 text 0 := Grammar.marks_start Grammar.method_begins_nil text
  rcases text with _ | ⟨c, cs⟩
  · have hopen : (expect '(' [] 0).Follows (Grammar.method.Marks 0 []) (.error .unexpectedEnd) :=
      (bump_follows_nil hstands hstart).bind_error
    exact hopen.bind_error
  · by_cases hc : c = '('
    · subst hc
      have hopen : (expect '(' ('(' :: cs) 0).Follows (Grammar.method.Marks 0 ('(' :: cs))
          (.ok ((), 1, cs)) :=
        (bump_follows_cons hstands hstart).bind_ok fun _ => .of_found () 1 cs
      have hparameters : (parameters ('(' :: cs) 1).Follows (Grammar.method.Marks 0 ('(' :: cs))
          (parametersAt 1 cs) :=
        (parameters_follows hstands.cons).mono fun _ hk =>
          hk.behind ['('] fun _ => Grammar.method_begins_parameters
      rw [methodAt, if_pos rfl]
      refine hopen.bind_ok fun _ => ?_
      cases hfound : parametersAt 1 cs with
      | error e =>
        rw [hfound] at hparameters
        exact hparameters.bind_error
      | ok found =>
        obtain ⟨types, next, rest⟩ := found
        rw [hfound] at hparameters
        have hresult := (result_follows_parameters hstands hfound).map (MethodDescriptor.mk types)
        refine hparameters.bind_ok fun _ => ?_
        simp only
        cases hreturned : returnTypeAt next rest <;> rw [hreturned] at hresult <;> exact hresult
    · have hopen : (expect '(' (c :: cs) 0).Follows (Grammar.method.Marks 0 (c :: cs))
          (.error (.expected '(' 0)) := by
        refine (bump_follows_cons hstands hstart).bind_ok fun _ => ?_
        rw [if_neg hc]
        exact .of_fail hstart
      rw [methodAt, if_neg hc]
      exact hopen.bind_error

/-- **The end.** Whether a reading ended where the text does is seen without another slice. -/
theorem whole_follows {text : List Char} {r : Reading α} {found : Found α} (h : r.Follows P found)
    (hstands : ∀ a next rest, found = .ok (a, next, rest) → Stands text next rest) :
    (whole text r).verdict = some (complete found) ∧ ∀ k ∈ (whole text r).slices, P k := by
  rcases found with e | ⟨a, next, rest⟩
  · have hwhole : whole text r = ⟨r.slices, some (.error e)⟩ := bind_of_error h.outcome_eq
    rw [hwhole]
    exact ⟨rfl, h.slices⟩
  · have hends : r.Ends a next := h.outcome_eq
    obtain ⟨front, rfl, rfl⟩ := hstands a next rest rfl
    rw [whole, Reading.bind_of_ends hends]
    rcases rest with _ | ⟨c, rest⟩
    · rw [if_pos (by rw [List.append_nil])]
      exact ⟨rfl, by simpa [Reading.found] using h.slices⟩
    · -- what remains takes at least one byte
      have hlonger : byteLength front ≠ byteLength (front ++ c :: rest) := by
        have hpos : 0 < c.utf8Size := c.utf8Size_pos
        rw [byteLength_append, byteLength]
        omega
      rw [if_neg hlonger]
      exact ⟨rfl, by simpa [Reading.fail] using h.slices⟩

/-- A method descriptor is read through a cursor as it is read character by character. -/
theorem method_follows (text : List Char) :
    (method text).verdict = some (complete (methodAt text))
      ∧ ∀ k ∈ (method text).slices, Grammar.method.Marks 0 text k :=
  whole_follows (parts_follows text) fun _ _ _ h => by
    obtain ⟨-, htext, rfl⟩ := methodAt_eq_ok_iff.1 h
    exact ⟨_, htext, rfl⟩

/-- So is a field descriptor. -/
theorem field_follows (text : List Char) :
    (field text).verdict = some (complete (typeAt 0 text))
      ∧ ∀ k ∈ (field text).slices, Grammar.type.Marks 0 text k :=
  have hstands : Stands text 0 text := ⟨[], rfl, rfl⟩
  whole_follows (fieldType_follows hstands) fun _ _ _ h => stands_of_typeAt hstands h

end Cursor

end Descriptor

end NativeHeaders
