import NativeHeaders.Proofs.Descriptor.Marks

/-!
# The offsets in errors

An error of a reader is a verdict on the characters that it has seen. So it stands when more
characters follow, unless it is the error that says that they are missing
(`Grammar.ReadBy.error_append`). From this and the grammar it follows what the errors say: a text
that breaks off ends unexpectedly, a text that goes on is refused just behind its descriptor, and
every other offset is one up to which a descriptor could still be written.
-/

set_option autoImplicit false

namespace NativeHeaders

/-- The offset that an error carries. -/
def DescriptorError.offset? : DescriptorError → Option Nat
  | unknownTypeCode _ | unexpectedEnd => none
  | expected _ offset | emptyClassName offset | illegalClassName offset
  | trailingCharacters offset => some offset

theorem DescriptorError.ArisesAt.of_offset? {P : Nat → Prop} {e : DescriptorError} {k : Nat}
    (h : e.ArisesAt P) (hk : e.offset? = some k) : P k := by
  cases e with
  | unknownTypeCode _ => contradiction
  | unexpectedEnd => contradiction
  | expected _ offset =>
    obtain ⟨⟩ := hk
    exact h
  | emptyClassName offset =>
    obtain ⟨⟩ := hk
    exact h
  | illegalClassName offset =>
    obtain ⟨⟩ := hk
    exact h
  | trailingCharacters _ => exact h.elim

namespace Descriptor

variable {α : Type}

/-! ## Errors stand when more characters follow -/

theorem classNameAt_error_append {start : Nat} {cs : List Char} {e : DescriptorError}
    (h : classNameAt start cs = .error e) (he : e ≠ .unexpectedEnd) (more : List Char) :
    classNameAt start (cs ++ more) = .error e := by
  rw [classNameAt] at h ⊢
  cases hdrop : cs.dropWhile (· != ';') with
  | nil =>
    rw [hdrop] at h
    exact absurd (Except.error.inj h).symm he
  | cons c rest =>
    obtain ⟨-, hcs⟩ := eq_of_dropWhile_semicolon hdrop
    -- the search ends at the same `;`, whatever follows it
    obtain ⟨htake', hdrop'⟩ :=
      takeWhile_semicolon (fun _ => ne_semicolon_of_mem_takeWhile) (rest ++ more)
    have hmore : cs ++ more = cs.takeWhile (· != ';') ++ ';' :: (rest ++ more) := by
      rw [← List.cons_append, ← List.append_assoc, ← hcs]
    rw [← hmore] at htake' hdrop'
    rw [hdrop] at h
    rw [hdrop', htake']
    simp only at h ⊢
    by_cases hname : cs.takeWhile (· != ';') = []
    · rw [if_pos hname] at h ⊢
      exact h
    · rw [if_neg hname] at h ⊢
      by_cases hillegal : (cs.takeWhile (· != ';')).any isIllegalInName = true
      · rw [if_pos hillegal] at h ⊢
        exact h
      · rw [if_neg hillegal] at h
        contradiction

theorem typeAt_error_append {start : Nat} {cs : List Char} {e : DescriptorError}
    (h : typeAt start cs = .error e) (he : e ≠ .unexpectedEnd) (more : List Char) :
    typeAt start (cs ++ more) = .error e := by
  induction cs generalizing start e with
  | nil => exact absurd (Except.error.inj h).symm he
  | cons c cs ih =>
    rw [typeAt] at h
    rw [List.cons_append, typeAt]
    by_cases hl : c = 'L'
    · rw [if_pos hl] at h ⊢
      exact classNameAt_error_append h he more
    · rw [if_neg hl] at h ⊢
      by_cases hbracket : c = '['
      · rw [if_pos hbracket] at h ⊢
        cases helement : typeAt (start + 1) cs with
        | ok found =>
          rw [helement] at h
          contradiction
        | error e' =>
          rw [helement] at h
          obtain ⟨⟩ := h
          rw [ih helement he]
      · rw [if_neg hbracket] at h ⊢
        split at h
        · contradiction
        · exact h

theorem parametersAt_error_append {start : Nat} {cs : List Char} {e : DescriptorError}
    (h : parametersAt start cs = .error e) (he : e ≠ .unexpectedEnd) (more : List Char) :
    parametersAt start (cs ++ more) = .error e := by
  fun_induction parametersAt start cs generalizing e with
  | case1 => exact absurd (Except.error.inj h).symm he
  | case2 => contradiction
  | case3 start c tail hc e' herror =>
    obtain ⟨⟩ := h
    exact parametersAt_of_typeAt hc (typeAt_error_append herror he more)
  | case4 start c tail hc type next rest hfound e' herror ih =>
    obtain ⟨⟩ := h
    -- the types in front are read as before, and the error is one of those behind them
    obtain ⟨hlegal, hcs, rfl⟩ := typeAt_eq_ok_iff.1 hfound
    rw [hcs, List.append_assoc, parametersAt_print hlegal, ih herror he]
  | case5 => contradiction

theorem returnTypeAt_error_append {start : Nat} {cs : List Char} {e : DescriptorError}
    (h : returnTypeAt start cs = .error e) (he : e ≠ .unexpectedEnd) (more : List Char) :
    returnTypeAt start (cs ++ more) = .error e := by
  by_cases hvoid : ∃ rest, cs = 'V' :: rest
  · obtain ⟨rest, rfl⟩ := hvoid
    contradiction
  · have herror : typeAt start cs = .error e := by
      rw [returnTypeAt] at h
      · cases hfound : typeAt start cs with
        | error e' =>
          rw [hfound] at h
          obtain ⟨⟩ := h
          rfl
        | ok found =>
          rw [hfound] at h
          contradiction
      · rintro rest rfl
        exact hvoid ⟨rest, rfl⟩
    rw [returnTypeAt, typeAt_error_append herror he more]
    -- the first character is there already, because without any the error is another one
    rintro rest hrest
    rcases cs with _ | ⟨c, cs⟩
    · exact he (Except.error.inj herror).symm
    · obtain ⟨rfl, -⟩ := List.cons.inj hrest
      exact hvoid ⟨cs, rfl⟩

theorem methodAt_error_append {cs : List Char} {e : DescriptorError}
    (h : methodAt cs = .error e) (he : e ≠ .unexpectedEnd) (more : List Char) :
    methodAt (cs ++ more) = .error e := by
  rcases cs with _ | ⟨c, cs⟩
  · exact absurd (Except.error.inj h).symm he
  · rw [methodAt] at h
    rw [List.cons_append, methodAt]
    by_cases hc : c = '('
    · rw [if_pos hc] at h ⊢
      cases hparameters : parametersAt 1 cs with
      | error e' =>
        rw [hparameters] at h
        obtain ⟨⟩ := h
        rw [parametersAt_error_append hparameters he]
      | ok found =>
        obtain ⟨types, next, rest⟩ := found
        have hmore : parametersAt 1 (cs ++ more) = .ok (types, next, rest ++ more) := by
          obtain ⟨hlegals, rfl, rfl⟩ := parametersAt_eq_ok_iff.1 hparameters
          exact parametersAt_eq_ok_iff.2 ⟨hlegals, by simp, rfl⟩
        rw [hparameters] at h
        rw [hmore]
        cases hresult : returnTypeAt next rest with
        | error e' =>
          simp only [hresult] at h
          obtain ⟨⟩ := h
          simp only [returnTypeAt_error_append hresult he]
        | ok found =>
          simp only [hresult] at h
          contradiction
    · rw [if_neg hc] at h ⊢
      exact h

/-! ## Readers of a grammar -/

/-- A reader of a grammar: it finds what is spelled in front, its errors stand when more
characters follow, and their offsets are marked. -/
structure Grammar.ReadBy (g : Grammar α) (read : List Char → Found α) : Prop where
  ok_iff : ∀ {a next cs rest}, read cs = .ok (a, next, rest) ↔
    g.Legal a ∧ cs = g.print a ++ rest ∧ next = byteLength (g.print a)
  error_append : ∀ {cs e}, read cs = .error e → e ≠ .unexpectedEnd → ∀ more,
    read (cs ++ more) = .error e
  arises : ∀ {cs e}, read cs = .error e → e.ArisesAt (g.Marks 0 cs)

theorem Grammar.type_readBy : Grammar.type.ReadBy (typeAt 0) where
  ok_iff := by
    intro type next cs rest
    rw [typeAt_eq_ok_iff, Nat.zero_add]
    exact Iff.rfl
  error_append := typeAt_error_append
  arises := (Cursor.fieldType_follows ⟨[], rfl, rfl⟩).arises _

theorem Grammar.method_readBy : Grammar.method.ReadBy methodAt where
  ok_iff := methodAt_eq_ok_iff
  error_append := methodAt_error_append
  arises := (Cursor.parts_follows _).arises _

namespace Grammar.ReadBy

variable {g : Grammar α} {read : List Char → Found α} {a : α} {next : Nat}
  {cs front back rest : List Char}

/-- What is found in front is found there when more characters follow. -/
theorem ok_append (h : g.ReadBy read) (hfound : read cs = .ok (a, next, rest))
    (more : List Char) : read (cs ++ more) = .ok (a, next, rest ++ more) := by
  obtain ⟨hlegal, rfl, rfl⟩ := h.ok_iff.1 hfound
  exact h.ok_iff.2 ⟨hlegal, List.append_assoc _ _ _, rfl⟩

/-- A text that is accepted is not accepted without its last characters: they are missing. -/
theorem breaks_off (h : g.ReadBy read) (hfound : read (front ++ back) = .ok (a, next, []))
    (hback : back ≠ []) : read front = .error .unexpectedEnd := by
  cases hfront : read front with
  | error e =>
    by_cases he : e = .unexpectedEnd
    · rw [he]
    · -- any other error would stand behind the whole text too
      have hmore := h.error_append hfront he back
      rw [hfound] at hmore
      contradiction
  | ok found =>
    -- and what is found in front already would leave the last characters over
    obtain ⟨b, last, rest⟩ := found
    have hmore := h.ok_append hfront back
    rw [hfound] at hmore
    obtain ⟨-, -, hnil⟩ : a = b ∧ next = last ∧ [] = rest ++ back := by simpa using hmore
    exact absurd (List.append_eq_nil_iff.1 hnil.symm).2 hback

/-- An accepted text is refused behind its end when more characters follow. -/
theorem trailing (h : g.ReadBy read) (hfound : read cs = .ok (a, next, [])) (hback : back ≠ []) :
    complete (read (cs ++ back)) = .error (.trailingCharacters next) := by
  rw [h.ok_append hfound back, List.nil_append]
  cases back with
  | nil => exact absurd rfl hback
  | cons c back => rfl

/-- What a spelling begins with can be completed. -/
theorem completes (h : g.ReadBy read) (hbegins : g.Begins front) :
    ∃ rest a next, read (front ++ rest) = .ok (a, next, []) := by
  obtain ⟨a, hlegal, rest, hprint⟩ := hbegins
  exact ⟨rest, a, _, h.ok_iff.2 ⟨hlegal, by rw [hprint, List.append_nil], rfl⟩⟩

end Grammar.ReadBy

/-! ## Whole descriptors -/

theorem byteLength_toList (s : String) : byteLength s.toList = s.utf8ByteSize := by
  have hlist : ∀ cs, (String.ofList cs).utf8ByteSize = byteLength cs := by
    intro cs
    induction cs with
    | nil => rfl
    | cons c cs ih =>
      rw [String.ofList_cons, String.utf8ByteSize_append, String.utf8ByteSize_singleton, ih,
        byteLength]
  rw [← hlist, String.ofList_toList]

/-- A byte offset in a text is a character boundary, and what is in front of it can be completed
to a text that is accepted. -/
def Viable (parse : String → Except DescriptorError α) (s : String) (k : Nat) : Prop :=
  k ≤ s.utf8ByteSize ∧ ∃ front back : String, s = front ++ back ∧ front.utf8ByteSize = k
    ∧ ∃ rest a, parse (front ++ rest) = .ok a

/-- The errors of a parser say what is wrong and where. A cursor that reads the same comes to the
same on every text and slices each text at boundaries of that kind only. -/
structure Pinpoints (parse : String → Except DescriptorError α)
    (cursor : List Char → Reading α) : Prop where
  /-- An accepted text that breaks off ends unexpectedly. -/
  breaks_off : ∀ (front back : String) (a : α), parse (front ++ back) = .ok a → back ≠ "" →
    parse front = .error .unexpectedEnd
  /-- An accepted text that goes on is refused just behind it. -/
  trailing : ∀ (s more : String) (a : α), parse s = .ok a → more ≠ "" →
    parse (s ++ more) = .error (.trailingCharacters s.utf8ByteSize)
  /-- No accepted text goes on to another one. -/
  prefix_free : ∀ (s more : String) (a b : α), parse s = .ok a → parse (s ++ more) = .ok b →
    more = ""
  /-- Up to the offset in an error an accepted text could have been written. -/
  viable : ∀ (s : String) (e : DescriptorError) (k : Nat), parse s = .error e →
    e.offset? = some k → Viable parse s k
  /-- Up to trailing characters one was written. -/
  accepted : ∀ (s : String) (k : Nat), parse s = .error (.trailingCharacters k) →
    k < s.utf8ByteSize ∧ ∃ (front back : String) (a : α), s = front ++ back
      ∧ front.utf8ByteSize = k ∧ parse front = .ok a
  /-- The cursor comes to the same, whatever the text. -/
  verdict_eq : ∀ s : String, (cursor s.toList).verdict = some (parse s)
  slices : ∀ (s : String), ∀ k ∈ (cursor s.toList).slices, Viable parse s k

theorem complete_eq_error_iff {found : Found α} {e : DescriptorError} :
    complete found = .error e ↔ found = .error e ∨ ∃ a next c rest,
      found = .ok (a, next, c :: rest) ∧ e = .trailingCharacters next := by
  rcases found with e' | ⟨a, next, _ | ⟨c, rest⟩⟩
  · simp [complete]
  · simp [complete]
  · constructor
    · intro h
      exact Or.inr ⟨a, next, c, rest, rfl, (Except.error.inj h).symm⟩
    · rintro (h | ⟨_, _, _, _, ⟨⟩, rfl⟩)
      · contradiction
      · rfl

/-- An accepted text is what was found, without a rest. -/
theorem complete_read_eq_ok_iff {g : Grammar α} {read : List Char → Found α} (h : g.ReadBy read)
    {s : String} {a : α} :
    complete (read s.toList) = .ok a ↔ read s.toList = .ok (a, s.utf8ByteSize, []) := by
  rw [complete_eq_ok_iff, ← byteLength_toList]
  constructor
  · rintro ⟨next, hfound⟩
    obtain ⟨-, hs, rfl⟩ := h.ok_iff.1 hfound
    rw [hfound, hs, List.append_nil]
  · intro hfound
    exact ⟨_, hfound⟩

/-- The front of a text is accepted if it is found in front of the rest. -/
theorem complete_read_ofList {read : List Char → Found α} {cs : List Char} {a : α} {next : Nat}
    (h : read cs = .ok (a, next, [])) : complete (read (String.ofList cs).toList) = .ok a := by
  rw [String.toList_ofList, h, complete]

/-- Where the characters of a text are split, the text and its bytes are. -/
theorem split_of_toList {s : String} {front back : List Char} (hs : s.toList = front ++ back) :
    s = String.ofList front ++ String.ofList back
      ∧ (String.ofList front).utf8ByteSize = byteLength front
      ∧ s.utf8ByteSize = byteLength front + byteLength back := by
  refine ⟨?_, ?_, ?_⟩
  · rw [← String.ofList_append, ← hs, String.ofList_toList]
  · rw [← byteLength_toList, String.toList_ofList]
  · rw [← byteLength_toList, hs, byteLength_append]

/-- Marked offsets are boundaries up to which an accepted text can be written. -/
theorem Grammar.Marks.viable {g : Grammar α} {read : List Char → Found α} (h : g.ReadBy read)
    {s : String} {k : Nat} (hk : g.Marks 0 s.toList k) :
    Viable (fun s => complete (read s.toList)) s k := by
  obtain ⟨front, back, hs, rfl, hbegins⟩ := hk
  obtain ⟨rest, a, next, hfound⟩ := h.completes hbegins
  obtain ⟨hsplit, hfront, hlength⟩ := split_of_toList hs
  rw [Nat.zero_add]
  refine ⟨by omega, String.ofList front, String.ofList back, hsplit, hfront,
    String.ofList rest, a, ?_⟩
  rw [← String.ofList_append]
  exact complete_read_ofList hfound

theorem Grammar.ReadBy.pinpoints {g : Grammar α} {read : List Char → Found α} (h : g.ReadBy read)
    {cursor : List Char → Reading α}
    (hcursor : ∀ cs, (cursor cs).verdict = some (complete (read cs))
      ∧ ∀ k ∈ (cursor cs).slices, g.Marks 0 cs k) :
    Pinpoints (fun s => complete (read s.toList)) cursor where
  breaks_off := by
    intro front back a haccepted hback
    have hfound := (complete_read_eq_ok_iff h).1 haccepted
    rw [String.toList_append] at hfound
    have hback' : back.toList ≠ [] := by simpa using hback
    simp only [h.breaks_off hfound hback', complete]
  trailing := by
    intro s more a haccepted hmore
    have hmore' : more.toList ≠ [] := by simpa using hmore
    simp only [String.toList_append]
    exact h.trailing ((complete_read_eq_ok_iff h).1 haccepted) hmore'
  prefix_free := by
    intro s more a b haccepted hlonger
    by_cases hmore : more = ""
    · exact hmore
    · have hmore' : more.toList ≠ [] := by simpa using hmore
      have htrailing := h.trailing ((complete_read_eq_ok_iff h).1 haccepted) hmore'
      simp only [String.toList_append, htrailing] at hlonger
      contradiction
  viable := by
    intro s e k herror hk
    rcases complete_eq_error_iff.1 herror with hread | ⟨a, next, c, rest, hfound, rfl⟩
    · exact ((h.arises hread).of_offset? hk).viable h
    · obtain ⟨hlegal, hs, rfl⟩ := h.ok_iff.1 hfound
      obtain ⟨⟩ := hk
      have hmarks : g.Marks 0 (g.print a ++ c :: rest) (0 + byteLength (g.print a)) :=
        marks_append ⟨a, hlegal, List.prefix_rfl⟩ _
      rw [← hs, Nat.zero_add] at hmarks
      exact hmarks.viable h
  accepted := by
    intro s k herror
    rcases complete_eq_error_iff.1 herror with hread | ⟨a, next, c, rest, hfound, heq⟩
    · exact absurd (h.arises hread) id
    · obtain ⟨⟩ := heq
      obtain ⟨hlegal, hs, rfl⟩ := h.ok_iff.1 hfound
      obtain ⟨hsplit, hfront, hlength⟩ := split_of_toList hs
      have hpos : 0 < c.utf8Size := c.utf8Size_pos
      rw [byteLength] at hlength
      have haccepted : read (g.print a) = .ok (a, byteLength (g.print a), []) :=
        h.ok_iff.2 ⟨hlegal, (List.append_nil _).symm, rfl⟩
      exact ⟨by omega, _, _, a, hsplit, hfront, complete_read_ofList haccepted⟩
  verdict_eq s := (hcursor s.toList).1
  slices s k hk := ((hcursor s.toList).2 k hk).viable h

/-- **Errors of descriptors point at the truth.** A descriptor that breaks off ends unexpectedly,
and one that goes on is refused exactly where it ends. Every offset in an error is a boundary of
characters up to which a descriptor can be written, or was written where trailing characters are
refused. A cursor that slices the text at its byte offset comes to the same on every text: no slice
falls inside a character or behind the end, and each is at a boundary of the same kind. -/
theorem errors_pinpoint :
    Pinpoints MethodDescriptor.parse Cursor.method ∧ Pinpoints FieldType.parse Cursor.field :=
  ⟨Grammar.method_readBy.pinpoints Cursor.method_follows,
    Grammar.type_readBy.pinpoints Cursor.field_follows⟩

theorem errors_pinpoint_of_texts :
    MethodDescriptor.parse "(Lé;)VV" = .error (.trailingCharacters 7)
    ∧ MethodDescriptor.parse "(Lé;" = .error .unexpectedEnd
    ∧ FieldType.parse "[[Lé.q;" = .error (.illegalClassName 2)
    ∧ Viable FieldType.parse "[[Lé.q;" 2 :=
  have haccepted : MethodDescriptor.parse "(Lé;)V" = .ok ⟨[.object "é"], .void⟩ :=
    MethodDescriptor.parse_eq_ok_iff.2 ⟨by decide, by decide⟩
  have hillegal : FieldType.parse "[[Lé.q;" = .error (.illegalClassName 2) := rfl
  ⟨errors_pinpoint.1.trailing "(Lé;)V" "V" _ haccepted (by decide),
    errors_pinpoint.1.breaks_off "(Lé;" ")V" _ haccepted (by decide),
    hillegal,
    errors_pinpoint.2.viable _ _ 2 hillegal rfl⟩

end Descriptor

end NativeHeaders
