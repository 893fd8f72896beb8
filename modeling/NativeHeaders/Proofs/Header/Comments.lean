import NativeHeaders.Proofs.ClassModel.Literals
import NativeHeaders.Proofs.Header.Validity
import NativeHeaders.Proofs.Symbol.Letters
import NativeHeaders.Proofs.Text.Source

/-!
# The comments of a header

A header shows the name and the descriptor of each native method in a comment, just as they are
declared. Nothing else that a class file can choose gets into a header unescaped, so that the only
comments that may end too early are those above the prototypes, and each of them does exactly when
the name or the descriptor that it shows holds a terminator (`closesAtEnd_commentBody_iff`). Where
none does, a compiler that has dropped the comments is left with the declarations
(`comments_close_where_no_terminator_is_shown`).
-/

set_option autoImplicit false

namespace NativeHeaders

open CSource

/-! ## Segments -/

/-- The body of the comment above a prototype. -/
def Prototype.commentBody (escapedName : String) (p : Prototype) : String :=
  "\n * Class:     " ++ escapedName ++ "\n * Method:    " ++ p.method ++ "\n * Signature: "
    ++ p.descriptor ++ "\n "

namespace Segment

/-- A segment as it is to be read. -/
def uncommented : Segment → String
  | comment _ => " "
  | code text => text

/-- Whether a segment can be told from those around it: a comment holds no terminator, and code is
read as it stands. -/
def Readable : Segment → Prop
  | comment body => ¬ terminator <:+: splice body.toList
  | code text => Plain text.toList

theorem splice_comment (body : String) :
    splice (comment body).text.toList = '/' :: '*' :: (splice body.toList ++ terminator) := by
  have hopen : "/*".toList = ['/', '*'] := rfl
  have hclose : "*/".toList = terminator := rfl
  rw [text, String.toList_append, String.toList_append, hopen, hclose,
    splice_append (by simp [terminator]), splice_append (by simp)]
  rfl

theorem readable_comment {body : String} (h : Separating body.toList) :
    (comment body).Readable := by
  rw [Readable, splice_eq_self h.not_mem]
  exact not_infix_of_slash_not_mem h.slash_not_mem

/-- A segment leaves no line open. -/
theorem Readable.getLast?_ne {segment : Segment} (h : segment.Readable) :
    segment.text.toList.getLast? ≠ some '\\' := by
  cases segment with
  | comment body =>
    have hclose : "*/".toList = terminator := rfl
    rw [text, String.toList_append, hclose, List.getLast?_append]
    simp [terminator]
  | code text => exact fun hlast => h.not_mem (List.mem_of_getLast? hlast)

/-- **Segments are read one by one.** The induction is on the segments; in front of each of them
the place is that of code. -/
theorem read_textOf {segments : List Segment} (h : ∀ segment ∈ segments, segment.Readable) :
    read .code (splice (Header.textOf segments).toList)
      = (String.join (segments.map uncommented)).toList := by
  induction segments with
  | nil => rfl
  | cons segment segments ih =>
    rw [List.forall_mem_cons] at h
    have htext : (Header.textOf (segment :: segments)).toList
        = segment.text.toList ++ (Header.textOf segments).toList := by
      simp only [Header.textOf, String.toList_join, List.map_cons, List.flatMap_cons]
    have hjoin : (String.join ((segment :: segments).map uncommented)).toList
        = segment.uncommented.toList ++ (String.join (segments.map uncommented)).toList := by
      simp only [String.toList_join, List.map_cons, List.flatMap_cons]
    rw [htext, splice_append fun hlast => absurd hlast h.1.getLast?_ne, hjoin, ← ih h.2]
    cases segment with
    | comment body =>
      have hspace : " ".toList = [' '] := by decide
      rw [splice_comment, List.cons_append, List.cons_append, List.append_assoc,
        read_comment h.1, Segment.uncommented, hspace]
      rfl
    | code text =>
      have hplain : Plain text.toList := h.1
      rw [Segment.text, splice_eq_self hplain.not_mem, hplain.read_append]
      rfl

end Segment

/-! ## What is shown of a method -/

/-- Whether the comment above a prototype shows a terminator. -/
def Prototype.ShowsTerminator (p : Prototype) : Prop :=
  HoldsTerminator p.method ∨ HoldsTerminator p.descriptor

/-- An escaped name is no part of a terminator. -/
theorem separating_of_isIdentifierChar {cs : List Char} (h : ∀ c ∈ cs, IsIdentifierChar c) :
    Separating cs where
  not_mem := fun hmem => absurd (h _ hmem) (by decide)
  slash_not_mem := fun hmem => absurd (h _ hmem) (by decide)
  getLast?_ne := fun hlast => absurd (h _ (List.mem_of_getLast? hlast)) (by decide)

/-- **A comment above a prototype ends too early exactly where it shows a terminator.** -/
theorem Prototype.closesAtEnd_commentBody_iff {escapedName : String}
    (hname : ∀ c ∈ escapedName.toList, IsIdentifierChar c) (p : Prototype) :
    ClosesAtEnd (splice (p.commentBody escapedName).toList) ↔ ¬ p.ShowsTerminator := by
  have hclass : Separating "\n * Class:     ".toList := ⟨by decide, by decide, by decide⟩
  have hmethod : Separating "\n * Method:    ".toList := ⟨by decide, by decide, by decide⟩
  have hfront := (hclass.append (separating_of_isIdentifierChar hname)).append hmethod
  have hsignature : Separating "\n * Signature: ".toList := ⟨by decide, by decide, by decide⟩
  have hend : Separating "\n ".toList := ⟨by decide, by decide, by decide⟩
  have hbody : (p.commentBody escapedName).toList
      = ("\n * Class:     ".toList ++ escapedName.toList ++ "\n * Method:    ".toList)
        ++ (p.method.toList ++ ("\n * Signature: ".toList ++ (p.descriptor.toList
          ++ ("\n ".toList ++ [])))) := by
    delta commentBody
    simp only [String.toList_append, List.append_assoc, List.append_nil]
  have hnil : ¬ terminator <:+: splice [] := by decide
  rw [closesAtEnd_iff, hbody, hfront.terminator_infix_iff,
    hsignature.terminator_infix_line_iff (by decide), hend.terminator_infix_line_iff (by decide),
    or_iff_left hnil]
  rfl

/-! ## Code -/

theorem plain_of_isIdentifierChar {cs : List Char} (h : ∀ c ∈ cs, IsIdentifierChar c) : Plain cs :=
  .of_forall h (by decide) (by decide) (by decide) (by decide)

theorem CType.plain_name (type : CType) : Plain type.name.toList := by
  apply Plain.of_all
  rcases type with _ | type | _ | _ | _ | _ | type | _
  all_goals first
    | decide
    | (cases type <;> decide)

theorem Signature.plain_parameterList (s : Signature) : Plain s.parameterList.toList := by
  rw [parameterList, String.toList_append, String.toList_append, String.toList_join,
    List.flatMap_map]
  have henvironment : Plain "JNIEnv *, ".toList := .of_all (by decide)
  have hcomma : Plain ", ".toList := .of_all (by decide)
  refine (henvironment.append s.receiver.plain_name).append (.flatMap fun type _ => ?_)
  rw [String.toList_append]
  exact hcomma.append type.plain_name

/-- A slash between two numbers opens no comment. -/
theorem ConstantValue.plain_quotient (suffix : String) {text : String}
    (hsuffix : Plain suffix.toList) (h : text ∈ quotients suffix) : Plain text.toList := by
  have hslash : Plain "/0.0".toList := by
    have hchars : "/0.0".toList = ['/', '0', '.', '0'] := by decide
    rw [hchars]
    exact ⟨by decide, fun _ => rfl⟩
  have hclose : Plain ")".toList := .of_all (by decide)
  have hplain : ∀ front : String, Plain front.toList →
      Plain (front ++ suffix ++ "/0.0" ++ suffix ++ ")").toList := by
    intro front hfront
    simp only [String.toList_append]
    exact (((hfront.append hsuffix).append hslash).append hsuffix).append hclose
  simp only [quotients, List.mem_cons, List.not_mem_nil, or_false] at h
  rcases h with rfl | rfl | rfl
  · exact hplain "(0.0" (.of_all (by decide))
  · exact hplain "(1.0" (.of_all (by decide))
  · exact hplain "(-1.0" (.of_all (by decide))

theorem ConstantValue.plain_literal (value : ConstantValue) : Plain value.literal.toList := by
  rcases value.literal_cases with hnumeral | hquotient
  · exact .of_forall hnumeral (by decide) (by decide) (by decide) (by decide)
  · rw [List.mem_append] at hquotient
    rcases hquotient with hsingle | hdouble
    · exact plain_quotient "f" (.of_all (by decide)) hsingle
    · exact plain_quotient "" (.of_all (by decide)) hdouble

theorem Definition.plain_text {d : Definition} (hname : Plain d.name.toList)
    (hliteral : Plain d.literal.toList) :
    Plain ("#undef " ++ d.name ++ "\n#define " ++ d.name ++ " " ++ d.literal ++ "\n").toList := by
  have hundef : Plain "#undef ".toList := .of_all (by decide)
  have hdefine : Plain "\n#define ".toList := .of_all (by decide)
  have hspace : Plain " ".toList := .of_all (by decide)
  have hnewline : Plain "\n".toList := .of_all (by decide)
  simp only [String.toList_append]
  exact (((((hundef.append hname).append hdefine).append hname).append hspace).append
    hliteral).append hnewline

theorem Prototype.plain_text {p : Prototype} (hsymbol : Plain p.symbol.fullName.toList) :
    Plain ("\nJNIEXPORT " ++ p.signature.result.name ++ " JNICALL " ++ p.symbol.fullName
      ++ "\n  (" ++ p.signature.parameterList ++ ");\n\n").toList := by
  have hexport : Plain "\nJNIEXPORT ".toList := .of_all (by decide)
  have hcall : Plain " JNICALL ".toList := .of_all (by decide)
  have hopen : Plain "\n  (".toList := .of_all (by decide)
  have hclose : Plain ");\n\n".toList := .of_all (by decide)
  simp only [String.toList_append]
  exact (((((hexport.append p.signature.result.plain_name).append hcall).append
    hsymbol).append hopen).append p.signature.plain_parameterList).append hclose

/-- The lines around the declarations. -/
theorem plain_guard {escapedName : String} (hname : Plain escapedName.toList) :
    Plain ("\n\n#ifndef " ++ ("_Included_" ++ escapedName) ++ "\n#define "
      ++ ("_Included_" ++ escapedName)
      ++ "\n#ifdef __cplusplus\nextern \"C\" \x7b\n#endif\n").toList := by
  have hquoted : "\n#ifdef __cplusplus\nextern \"C\" \x7b\n#endif\n".toList
      = "\n#ifdef __cplusplus\nextern ".toList ++ "\"C\"".toList ++ " \x7b\n#endif\n".toList := by
    decide
  have hstring : Plain "\"C\"".toList := by
    have hchars : "\"C\"".toList = ['"', 'C', '"'] := by decide
    rw [hchars]
    exact ⟨by decide, fun _ => rfl⟩
  have hguard : Plain "_Included_".toList := .of_all (by decide)
  have hifndef : Plain "\n\n#ifndef ".toList := .of_all (by decide)
  have hdefine : Plain "\n#define ".toList := .of_all (by decide)
  have hlinkage : Plain "\n#ifdef __cplusplus\nextern ".toList := .of_all (by decide)
  have hbrace : Plain " \x7b\n#endif\n".toList := .of_all (by decide)
  simp only [String.toList_append]
  rw [hquoted]
  exact (((hifndef.append (hguard.append hname)).append hdefine).append
    (hguard.append hname)).append ((hlinkage.append hstring).append hbrace)

/-! ## Headers -/

namespace Header

/-- A header as it is to be read: each comment is a space. -/
def uncommentedText (h : Header) : String :=
  " " ++ "\n#include <jni.h>\n" ++ " " ++ ("\n\n#ifndef " ++ h.guard ++ "\n#define " ++ h.guard
      ++ "\n#ifdef __cplusplus\nextern \"C\" \x7b\n#endif\n")
    ++ String.join (h.constants.map fun d =>
      "#undef " ++ d.name ++ "\n#define " ++ d.name ++ " " ++ d.literal ++ "\n")
    ++ String.join (h.prototypes.map fun p =>
      " " ++ ("\nJNIEXPORT " ++ p.signature.result.name ++ " JNICALL " ++ p.symbol.fullName
        ++ "\n  (" ++ p.signature.parameterList ++ ");\n\n"))
    ++ "#ifdef __cplusplus\n\x7d\n#endif\n#endif\n"

theorem join_uncommented (h : Header) :
    String.join ((preamble ++ h.segments).map Segment.uncommented) = h.uncommentedText := by
  rw [← String.toList_inj]
  simp only [uncommentedText, preamble, segments, Prototype.segments, Definition.segments,
    String.toList_append, String.toList_join, List.flatMap_map, List.flatMap_assoc,
    List.flatMap_append, List.flatMap_cons, List.flatMap_nil, Segment.uncommented,
    List.append_assoc, List.append_nil]

variable {settings : Settings} {c : ClassModel} {header : Header}

theorem plain_definitionOf_name (constant : Constant) {escapedName : String}
    (hname : Plain escapedName.toList) : Plain (definitionOf escapedName constant).name.toList := by
  have hunderscore : Plain "_".toList := .of_all (by decide)
  rw [definitionOf, String.toList_append, String.toList_append]
  exact (hname.append hunderscore).append
    (plain_of_isIdentifierChar fun _ => Symbol.isIdentifierChar_of_mem_escapeFieldName)

theorem plain_fullName {prototypes : List Prototype} (h : prototypesOf c = .ok prototypes)
    {p : Prototype} (hp : p ∈ prototypes) : Plain p.symbol.fullName.toList := by
  have hmem : p.symbol.fullName ∈ prototypes.map fun p => p.symbol.fullName :=
    List.mem_map.2 ⟨p, hp, rfl⟩
  rw [map_fullName_prototypes h] at hmem
  obtain ⟨d, -, hsymbol⟩ := List.mem_map.1 hmem
  rw [← hsymbol]
  exact plain_of_isIdentifierChar fun _ => Symbol.isIdentifierChar_of_mem_fullName_link

/-- **Only the comments above prototypes are in question.** All other segments of the header of a
class are read one by one. -/
theorem readable_or_commentBody (h : ofClass settings c = .ok (some header)) :
    ∀ segment ∈ preamble ++ header.segments, segment.Readable
      ∨ ∃ p ∈ header.prototypes, segment = .comment (p.commentBody header.escapedName) := by
  obtain ⟨prototypes, hprototypes, rfl⟩ := exists_of_ofClass h
  have hname : Plain (Symbol.escapeName c.name).toList :=
    plain_of_isIdentifierChar fun _ => Symbol.isIdentifierChar_of_mem_escapeName
  have hclassComment :
      Separating (" Header for class " ++ Symbol.escapeName c.name ++ " ").toList := by
    have hfront : Separating " Header for class ".toList := ⟨by decide, by decide, by decide⟩
    have hspace : Separating " ".toList := ⟨by decide, by decide, by decide⟩
    rw [String.toList_append, String.toList_append]
    exact (hfront.append (separating_of_isIdentifierChar fun _ =>
      Symbol.isIdentifierChar_of_mem_escapeName)).append hspace
  intro segment hmem
  simp only [preamble, segments, empty, List.mem_append, List.mem_cons, List.not_mem_nil,
    or_false, List.mem_flatMap] at hmem
  rcases hmem with (rfl | rfl)
    | ((((rfl | rfl) | ⟨d, hd, hdefinition⟩) | ⟨p, hp, hprototype⟩) | rfl)
  · exact Or.inl (Segment.readable_comment ⟨by decide, by decide, by decide⟩)
  · exact Or.inl (Plain.of_all (by decide))
  · exact Or.inl (Segment.readable_comment hclassComment)
  · exact Or.inl (plain_guard hname)
  · -- a name or a literal that came out of a definition
    left
    rw [Definition.segments, List.mem_singleton] at hdefinition
    rw [hdefinition]
    split at hd
    · obtain ⟨constant, -, rfl⟩ := List.mem_map.1 hd
      exact Definition.plain_text (plain_definitionOf_name constant hname)
        constant.value.plain_literal
    · contradiction
  · rw [Prototype.segments, List.mem_pair] at hprototype
    rcases hprototype with hcomment | hcode
    · exact Or.inr ⟨p, hp, hcomment⟩
    · left
      rw [hcode]
      exact Prototype.plain_text (plain_fullName hprototypes hp)
  · exact Or.inl (Plain.of_all (by decide))

theorem commentBody_mem_segments {h : Header} {p : Prototype} (hp : p ∈ h.prototypes) :
    .comment (p.commentBody h.escapedName) ∈ h.segments := by
  have hmem : Segment.comment (p.commentBody h.escapedName)
      ∈ h.prototypes.flatMap (Prototype.segments h.escapedName) :=
    List.mem_flatMap.2 ⟨p, hp, List.mem_cons_self⟩
  simp only [segments, List.mem_append, hmem, or_true, true_or]

/-- **The comments of a header.** All but those above the prototypes end where they are meant to
end, and each of those does exactly when the name and the descriptor that it shows hold no
terminator. Where all of them do, what is left of the header without its comments is its directives,
a definition for each constant and a prototype for each native method, in the order of
declaration. -/
theorem comments_close_where_no_terminator_is_shown (settings : Settings) (file : ClassFile)
    (header : Header) (h : ofClassFile settings file = .ok (some header)) :
    (∀ body, .comment body ∈ preamble ++ header.segments →
      ClosesAtEnd (splice body.toList)
        ∨ ∃ p ∈ header.prototypes, body = p.commentBody header.escapedName ∧ p.ShowsTerminator)
    ∧ (∀ p ∈ header.prototypes,
      .comment (p.commentBody header.escapedName) ∈ header.segments
        ∧ (ClosesAtEnd (splice (p.commentBody header.escapedName).toList) ↔ ¬ p.ShowsTerminator))
    ∧ ((∀ p ∈ header.prototypes, ¬ p.ShowsTerminator) →
      read .code (splice header.text.toList) = header.uncommentedText.toList)
    ∧ ∃ c, file.model = .ok c
      ∧ header.constants = (if settings.emitConstants then
          c.constants.map (definitionOf header.escapedName) else [])
      ∧ header.prototypes.map (fun p => (p.method, p.descriptor, p.symbol))
        = c.nativeDecls.map fun d =>
          (d.name, d.descriptor, NativeDecl.symbol c.name c.nativeDecls d) := by
  rw [ofClassFile] at h
  rcases hmodel : file.model with e | c
  · rw [hmodel] at h
    contradiction
  · rw [hmodel] at h
    have hclass : ofClass settings c = .ok (some header) := h
    have hname : ∀ c' ∈ header.escapedName.toList, IsIdentifierChar c' := by
      obtain ⟨prototypes, -, rfl⟩ := exists_of_ofClass hclass
      exact fun _ => Symbol.isIdentifierChar_of_mem_escapeName
    have hreadable := readable_or_commentBody hclass
    refine ⟨?_, ?_, ?_, c, rfl, ?_, ?_⟩
    · intro body hmem
      rcases hreadable _ hmem with hbody | ⟨p, hp, hbody⟩
      · exact Or.inl (closesAtEnd_iff.2 hbody)
      · rw [Segment.comment.inj hbody]
        by_cases hshows : p.ShowsTerminator
        · exact Or.inr ⟨p, hp, rfl, hshows⟩
        · exact Or.inl ((p.closesAtEnd_commentBody_iff hname).2 hshows)
    · intro p hp
      exact ⟨commentBody_mem_segments hp, p.closesAtEnd_commentBody_iff hname⟩
    · intro hshows
      rw [text, Segment.read_textOf, join_uncommented]
      intro segment hmem
      rcases hreadable _ hmem with hsegment | ⟨p, hp, rfl⟩
      · exact hsegment
      · exact closesAtEnd_iff.1 ((p.closesAtEnd_commentBody_iff hname).2 (hshows p hp))
    · obtain ⟨prototypes, -, rfl⟩ := exists_of_ofClass hclass
      rfl
    · exact map_prototypes (prototypesOf_of_ofClass hclass)

/-- The header of a class that declares a native method. -/
def ofNativeMethod (descriptor : String) (parsed : MethodDescriptor) : Header :=
  { empty "p/Q" (Symbol.escapeName "p/Q") with
    prototypes := [⟨"f", descriptor, Symbol.link "p/Q" "f" descriptor false,
      Signature.ofMethod parsed false⟩] }

theorem ofClassFile_declaring {descriptor : String} {parsed : MethodDescriptor}
    (h : MethodDescriptor.parse descriptor = .ok parsed) :
    ofClassFile {} (.declaring ⟨0x0101, by decide⟩ "f" descriptor)
      = .ok (some (ofNativeMethod descriptor parsed)) := by
  have hmodel := ClassFile.model_declaring ⟨0x0101, by decide⟩ "f" descriptor
  rw [h] at hmodel
  have hprototypes : prototypesOf ⟨"p/Q", [], [⟨"f", descriptor, true, false, true, false⟩], []⟩
      = .ok [⟨"f", descriptor, Symbol.link "p/Q" "f" descriptor false,
        Signature.ofMethod parsed false⟩] := by
    rw [prototypesOf_eq_ok_iff, inOnePass, mapM_eq_ok_iff]
    refine .cons (prototype_eq_ok_iff.2 ⟨rfl, rfl, rfl, ?_⟩) .nil
    rw [Signature.ofDescriptor]
    simp only [MethodModel.decl, h]
  have hclass : ofClass {} ⟨"p/Q", [], [⟨"f", descriptor, true, false, true, false⟩], []⟩
      = .ok (some (ofNativeMethod descriptor parsed)) := by
    rw [ofClass, hprototypes]
    rfl
  rw [ofClassFile, hmodel]
  exact hclass

/-- A parameter of the type `a*/b` ends the comment above its prototype, and the rest of that
comment is left to be compiled. -/
theorem comment_ends_in_descriptor :
    ∃ header, ofClassFile {} (.declaring ⟨0x0101, by decide⟩ "f" "(La*/b;)V") = .ok (some header)
      ∧ (∃ body, .comment body ∈ header.segments ∧ ¬ ClosesAtEnd (splice body.toList))
      ∧ read .code (splice header.text.toList) ≠ header.uncommentedText.toList := by
  have hparse : MethodDescriptor.parse "(La*/b;)V" = .ok ⟨[.object "a*/b"], .void⟩ :=
    MethodDescriptor.parse_eq_ok_iff.2 ⟨by decide, by decide⟩
  have hshows : Prototype.ShowsTerminator ⟨"f", "(La*/b;)V",
      Symbol.link "p/Q" "f" "(La*/b;)V" false,
      Signature.ofMethod ⟨[.object "a*/b"], .void⟩ false⟩ :=
    Or.inr ⟨['(', 'L', 'a'], ['b', ';', ')', 'V'], by decide⟩
  refine ⟨_, ofClassFile_declaring hparse, ⟨_, commentBody_mem_segments List.mem_cons_self, ?_⟩, ?_⟩
  · intro hcloses
    exact (Prototype.closesAtEnd_commentBody_iff
      (fun _ => Symbol.isIdentifierChar_of_mem_escapeName) _).1 hcloses hshows
  · -- texts are taken apart first, so that only short ones are left to be computed
    simp only [← join_uncommented, text, textOf, preamble, segments, ofNativeMethod, empty,
      Prototype.segments, List.flatMap_cons, List.flatMap_nil, List.map_cons, List.map_nil,
      List.map_append, Segment.text, Segment.uncommented, String.toList_join, String.toList_append,
      List.flatMap_append, Symbol.fullName, Symbol.link, Symbol.escapeName, String.toList_ofList]
    decide +kernel

/-- A parameter of the type `a/b` is shown as it stands, and what is left without the comments is
the prototype between the lines of the guard. -/
theorem comments_close_in_declaring :
    ∃ header, ofClassFile {} (.declaring ⟨0x0101, by decide⟩ "f" "(La/b;)V") = .ok (some header)
      ∧ (∀ p ∈ header.prototypes, ¬ p.ShowsTerminator)
      ∧ read .code (splice header.text.toList) = header.uncommentedText.toList := by
  have hparse : MethodDescriptor.parse "(La/b;)V" = .ok ⟨[.object "a/b"], .void⟩ :=
    MethodDescriptor.parse_eq_ok_iff.2 ⟨by decide, by decide⟩
  have hheader := ofClassFile_declaring hparse
  have hshows : ∀ p ∈ (ofNativeMethod "(La/b;)V" ⟨[.object "a/b"], .void⟩).prototypes,
      ¬ p.ShowsTerminator := by
    intro p hp
    have hmethod : ¬ HoldsTerminator "f" := by decide
    have hdescriptor : ¬ HoldsTerminator "(La/b;)V" := by decide
    rw [List.mem_singleton.1 hp, Prototype.ShowsTerminator, not_or]
    exact ⟨hmethod, hdescriptor⟩
  exact ⟨_, hheader, hshows,
    (comments_close_where_no_terminator_is_shown {} _ _ hheader).2.2.1 hshows⟩

end Header

end NativeHeaders
