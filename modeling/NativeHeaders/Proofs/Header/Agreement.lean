import NativeHeaders.Header.Analysis
import NativeHeaders.Proofs.ClassFile.Building
import NativeHeaders.Proofs.ClassModel.Reading
import NativeHeaders.Proofs.Results
import NativeHeaders.Proofs.Symbol.Injectivity

/-!
# Headers from class files and headers from models

A class can be described in two ways: to a builder, whose bytes are decoded and read as a model, or
to a model directly. If the calls to the builder are only for methods and primitive constants, both
ways lead to the same model (`ClassFile.model_of_shows`, `BuildStep.foldl_describe`), and so to the
same header, to none, or to the same error, whatever the settings (`Header.ofClassFile_build`).

What is declared stands between the two ways. The class file shows the declarations of the calls,
and the model is made of them.
-/

set_option autoImplicit false

namespace NativeHeaders

/-! ## Describing a class directly -/

namespace ClassModel

def withMethod (c : ClassModel) (m : MethodModel) : ClassModel :=
  { c with methods := c.methods ++ [m] }

def withConstant (c : ClassModel) (k : Constant) : ClassModel :=
  { c with constants := c.constants ++ [k] }

end ClassModel

/-- A method with some access flags. -/
def MethodModel.ofFlags (flags : UInt16) (name descriptor : String) : MethodModel where
  name := name
  descriptor := descriptor
  isNative := flags &&& FlagSet.nativeFlag == FlagSet.nativeFlag
  isStatic := flags &&& FlagSet.staticFlag == FlagSet.staticFlag
  isPublic := flags &&& FlagSet.publicFlag == FlagSet.publicFlag
  isProtected := flags &&& FlagSet.protectedFlag == FlagSet.protectedFlag

theorem MethodModel.ofFlags_native (name descriptor : String) :
    ofFlags (FlagSet.publicFlag ||| FlagSet.nativeFlag) name descriptor
      = ⟨name, descriptor, true, false, true, false⟩ := by
  rw [ofFlags]
  congr

theorem MethodModel.ofFlags_staticNative (name descriptor : String) :
    ofFlags (FlagSet.publicFlag ||| FlagSet.staticFlag ||| FlagSet.nativeFlag) name descriptor
      = ⟨name, descriptor, true, true, true, false⟩ := by
  rw [ofFlags]
  congr

namespace FieldConstant

/-- The value of a primitive constant. -/
def value? : FieldConstant → Option ConstantValue
  | int value => some (.int value)
  | long value => some (.long value)
  | float bits => some (.float bits)
  | double bits => some (.double bits)
  | string _ => none

/-- Whether a field of a primitive type can have a constant. Truth values and narrow numbers are
stored as `int`. -/
def Suits : FieldConstant → Primitive → Prop
  | int _, type => type ∈ [.boolean, .byte, .char, .short, .int]
  | long _, type => type = .long
  | float _, type => type = .float
  | double _, type => type = .double
  | string _, _ => False

theorem Suits.exists_value : ∀ {value : FieldConstant} {type : Primitive}, value.Suits type →
    ∃ found, value.value? = some found
  | int value, _, _ => ⟨.int value, rfl⟩
  | long value, _, _ => ⟨.long value, rfl⟩
  | float bits, _, _ => ⟨.float bits, rfl⟩
  | double bits, _, _ => ⟨.double bits, rfl⟩

end FieldConstant

namespace BuildStep

/-- Whether a call can be made to a model too: it is for a method with a good descriptor or for a
primitive constant that suits its field. -/
def Describable : BuildStep → Prop
  | method _ _ descriptor => ∃ d, MethodDescriptor.parse descriptor = .ok d
  | nativeMethod _ descriptor => ∃ d, MethodDescriptor.parse descriptor = .ok d
  | staticNativeMethod _ descriptor => ∃ d, MethodDescriptor.parse descriptor = .ok d
  | constantField _ descriptor value =>
    ∃ type, FieldType.parse descriptor = .ok (.primitive type) ∧ value.Suits type
  | _ => False

/-- The call to a model that goes with a call to a builder. -/
def describe (c : ClassModel) : BuildStep → ClassModel
  | method flags name descriptor => c.withMethod (.ofFlags flags name descriptor)
  | nativeMethod name descriptor => c.withMethod {
      name, descriptor
      isNative := true
      isStatic := false
      isPublic := true
      isProtected := false }
  | staticNativeMethod name descriptor => c.withMethod {
      name, descriptor
      isNative := true
      isStatic := true
      isPublic := true
      isProtected := false }
  | constantField name _ value =>
    match value.value? with
    | some value => c.withConstant ⟨name, value⟩
    | none => c
  | _ => c

end BuildStep

/-! ## Models of declarations -/

/-- The method that is declared. -/
def MethodModel.ofDecl (decl : MemberDecl) : MethodModel :=
  ofFlags decl.flags decl.name decl.descriptor

/-- The constant that is declared, if its value is primitive. -/
def Constant.ofDecl? (decl : MemberDecl) : Option Constant :=
  (decl.value?.bind FieldConstant.value?).map fun value => ⟨decl.name, value⟩

namespace ClassPart

variable {M A I : Type} {m : M} {parts : List (ClassPart M A I)}

theorem method_mem (h : m ∈ parts.filterMap method?) : method m ∈ parts := by
  obtain ⟨part, hpart, heq⟩ := List.mem_filterMap.1 h
  cases part with
  | method m' =>
    rw [← Option.some.inj heq]
    exact hpart
  | _ => contradiction

theorem field_mem (h : m ∈ parts.filterMap field?) : field m ∈ parts := by
  obtain ⟨part, hpart, heq⟩ := List.mem_filterMap.1 h
  cases part with
  | field m' =>
    rw [← Option.some.inj heq]
    exact hpart
  | _ => contradiction

end ClassPart

/-- Whether a declaration is for a method with a good descriptor or for a primitive constant that
suits its field. -/
def Declaration.Describable : Declaration → Prop
  | .method decl => ∃ d, MethodDescriptor.parse decl.descriptor = .ok d
  | .field decl => decl.flags = FlagSet.publicFlag ||| FlagSet.staticFlag ||| FlagSet.finalFlag
      ∧ ∃ value type, decl.value? = some value
        ∧ FieldType.parse decl.descriptor = .ok (.primitive type) ∧ value.Suits type
  | _ => False

namespace BuildStep

theorem describable_of_mem {steps : List BuildStep} (h : ∀ step ∈ steps, step.Describable) :
    ∀ decl ∈ steps.flatMap declares, Declaration.Describable decl := by
  intro decl hdecl
  obtain ⟨step, hstep, hmem⟩ := List.mem_flatMap.1 hdecl
  have hgood := h step hstep
  cases step with
  | method flags name descriptor =>
    rw [List.mem_singleton.1 hmem]
    exact hgood
  | nativeMethod name descriptor =>
    rw [List.mem_singleton.1 hmem]
    exact hgood
  | staticNativeMethod name descriptor =>
    rw [List.mem_singleton.1 hmem]
    exact hgood
  | constantField name descriptor value =>
    obtain ⟨type, hparse, hsuits⟩ := hgood
    rw [List.mem_singleton.1 hmem]
    exact ⟨rfl, value, type, rfl, hparse, hsuits⟩
  | _ => exact hgood.elim

theorem withMethod_ofDecl (decl : MemberDecl) (c : ClassModel) :
    c.withMethod (MethodModel.ofDecl decl) = { c with
      methods := c.methods
        ++ (List.filterMap ClassPart.method? [(.method decl : Declaration)]).map MethodModel.ofDecl
      constants := c.constants
        ++ (List.filterMap ClassPart.field? [(.method decl : Declaration)]).filterMap
          Constant.ofDecl? } := by
  simp [ClassModel.withMethod, ClassPart.method?, ClassPart.field?]

/-- A call to a model adds what is declared. -/
theorem describe_eq : ∀ {step : BuildStep}, step.Describable → ∀ c : ClassModel,
    step.describe c = { c with
      methods := c.methods ++ (step.declares.filterMap ClassPart.method?).map MethodModel.ofDecl
      constants := c.constants
        ++ (step.declares.filterMap ClassPart.field?).filterMap Constant.ofDecl? }
  | method flags name descriptor, _, c => withMethod_ofDecl ⟨flags, name, descriptor, none⟩ c
  | nativeMethod name descriptor, _, c => by
    rw [describe, ← MethodModel.ofFlags_native]
    exact withMethod_ofDecl ⟨FlagSet.publicFlag ||| FlagSet.nativeFlag, name, descriptor, none⟩ c
  | staticNativeMethod name descriptor, _, c => by
    rw [describe, ← MethodModel.ofFlags_staticNative]
    exact withMethod_ofDecl ⟨FlagSet.publicFlag ||| FlagSet.staticFlag ||| FlagSet.nativeFlag,
      name, descriptor, none⟩ c
  | constantField _ _ _, ⟨type, _, hsuits⟩, c => by
    obtain ⟨found, hfound⟩ := hsuits.exists_value
    simp [describe, declares, ClassModel.withConstant, ClassPart.method?, ClassPart.field?,
      Constant.ofDecl?, hfound]

/-- Calls to a model add in a row what is declared. -/
theorem foldl_describe {steps : List BuildStep} (h : ∀ step ∈ steps, step.Describable)
    (c : ClassModel) :
    steps.foldl describe c =
      { c with
        methods := c.methods
          ++ ((steps.flatMap declares).filterMap ClassPart.method?).map MethodModel.ofDecl
        constants := c.constants
          ++ ((steps.flatMap declares).filterMap ClassPart.field?).filterMap
            Constant.ofDecl? } := by
  induction steps generalizing c with
  | nil => simp
  | cons step steps ih =>
    have hothers := ih fun other hother => h other (List.mem_cons_of_mem step hother)
    rw [List.foldl_cons, hothers, describe_eq (h step List.mem_cons_self)]
    simp only [List.flatMap_cons, List.filterMap_append, List.map_append, List.append_assoc]

end BuildStep

/-! ## The model of a class file -/

namespace ClassFile

variable {pool : ConstantPool}

theorem readMethod_of_shows {className : String} {m : Method} {decl : MemberDecl}
    (h : m.Shows pool decl) (hgood : ∃ d, MethodDescriptor.parse decl.descriptor = .ok d) :
    readMethod pool className m = .ok (MethodModel.ofDecl decl) := by
  obtain ⟨d, hparse⟩ := hgood
  rw [readMethod, h.name, h.descriptor]
  simp only [Generated.lookup, bind, Except.bind, hparse]
  rw [Member.isNative, Member.isStatic, FlagSet.has, FlagSet.has, FlagSet.has, FlagSet.has, h.flags]
  rfl

/-- The entry for a constant that suits a type holds the value that a field of the type gets. -/
theorem constantValue?_of_suits {index : UInt16} :
    ∀ {value : FieldConstant} {type : Primitive}, pool.HasConstant index value →
      value.Suits type → ∃ entry, pool.entryAt index = .ok entry
        ∧ constantValue? type entry = value.value?
  | .int value, type, h, hsuits => by
    refine ⟨.integer value, h, ?_⟩
    simp only [FieldConstant.Suits, List.mem_cons, List.not_mem_nil, or_false] at hsuits
    rcases hsuits with rfl | rfl | rfl | rfl | rfl <;> rfl
  | .long value, _, h, rfl => ⟨.long value, h, rfl⟩
  | .float bits, _, h, rfl => ⟨.float bits, h, rfl⟩
  | .double bits, _, h, rfl => ⟨.double bits, h, rfl⟩

/-- A field that is declared with a constant is static and final, and its constant is read. -/
theorem readConstant_of_shows {field : Field} {decl : MemberDecl} (h : field.Shows pool decl)
    (hgood : Declaration.Describable (.field decl)) :
    field.isStaticFinal = true ∧ ∃ k, Constant.ofDecl? decl = some k
      ∧ readConstant pool field = .ok (some k) := by
  obtain ⟨hflags, value, type, hvalue, hparse, hsuits⟩ := hgood
  obtain ⟨found, hfound⟩ := hsuits.exists_value
  have hindex := h.value
  rw [hvalue] at hindex
  obtain ⟨index, hindex, hconstant⟩ := hindex
  obtain ⟨entry, hentry, hfits⟩ := constantValue?_of_suits hconstant hsuits
  -- the flags are those of every constant that a builder is told of
  refine ⟨?_, ⟨decl.name, found⟩, ?_, ?_⟩
  · rw [Member.isStaticFinal, FlagSet.has, h.flags, hflags]
    decide
  · rw [Constant.ofDecl?, hvalue, Option.bind_some, hfound, Option.map_some]
  · rw [readConstant, hindex]
    simp only [h.name, h.descriptor, constantLookup, bind, Except.bind, hparse, hentry, hfits,
      hfound]
    rfl

theorem readConstants_of_shows {fields : List Field} {decls : List MemberDecl}
    (h : List.Forall₂ (Member.Shows pool) fields decls)
    (hgood : ∀ decl ∈ decls, Declaration.Describable (.field decl)) :
    readConstants pool fields = .ok (decls.filterMap Constant.ofDecl?) := by
  induction h with
  | nil => rfl
  | @cons field decl fields decls hshows _ ih =>
    have hothers := ih fun other hother => hgood other (List.mem_cons_of_mem decl hother)
    obtain ⟨hstatic, k, hk, hread⟩ :=
      readConstant_of_shows hshows (hgood decl List.mem_cons_self)
    rw [readConstants, if_pos hstatic, hread, hothers, List.filterMap_cons, hk]
    rfl

/-- A class file without inner classes is in no other class. -/
theorem enclosing_of_shows {file : ClassFile} {decls : List Declaration} (name : String)
    (h : file.attributes.Shows file.pool decls)
    (hgood : ∀ decl ∈ decls, Declaration.Describable decl) : file.enclosing name = .ok [] := by
  have hinner : decls.filterMap ClassPart.innerClass? = [] := by
    refine List.filterMap_eq_nil_iff.2 fun decl hdecl => ?_
    cases decl with
    | innerClass entry => exact (hgood _ hdecl).elim
    | _ => rfl
  have hattrs : decls.filterMap ClassPart.attr? = [] := by
    refine List.filterMap_eq_nil_iff.2 fun decl hdecl => ?_
    cases decl with
    | attr a => exact (hgood _ hdecl).elim
    | _ => rfl
  have hentries := h.innerClasses
  have hnone := h.enclosing
  rw [hinner, List.forall₂_nil_right_iff] at hentries
  rw [hattrs] at hnone
  rw [enclosing, hentries]
  simp only [nestingLinks, Generated.lookup, bind, Except.bind, directlyEnclosing,
    show file.attributes.enclosingMethod? = none from hnone]
  rfl

/-- The model of a class file is made of what is declared. -/
theorem model_of_shows {file : ClassFile} {name : String} {decls : List Declaration}
    (h : file.Shows name decls) (hgood : ∀ decl ∈ decls, Declaration.Describable decl) :
    file.model = .ok {
      name
      enclosing := []
      methods := (decls.filterMap ClassPart.method?).map MethodModel.ofDecl
      constants := (decls.filterMap ClassPart.field?).filterMap Constant.ofDecl? } := by
  have hmethods : file.methods.mapM (readMethod file.pool name)
      = .ok ((decls.filterMap ClassPart.method?).map MethodModel.ofDecl) := by
    have hdecls : ∀ decl ∈ decls.filterMap ClassPart.method?,
        ∃ d, MethodDescriptor.parse decl.descriptor = .ok d :=
      fun decl hdecl => hgood _ (ClassPart.method_mem hdecl)
    -- what is good is known of the declarations, so the relation is turned around for a moment
    rw [mapM_eq_ok_iff, List.forall₂_map_right_iff]
    exact ((List.forall₂_and_left _ _).2 ⟨hdecls, h.methods.flip⟩).flip.imp
      fun m decl hboth => readMethod_of_shows hboth.2 hboth.1
  have hconstants : readConstants file.pool file.fields
      = .ok ((decls.filterMap ClassPart.field?).filterMap Constant.ofDecl?) :=
    readConstants_of_shows h.fields fun decl hdecl => hgood _ (ClassPart.field_mem hdecl)
  exact model_eq_ok_iff.2
    ⟨h.name_eq, enclosing_of_shows name h.attributes hgood, hmethods, hconstants⟩

end ClassFile

/-- **The byte path and the model path agree.** Of a class that is described by methods and
primitive constants only, the class file that a builder makes and the model that is made by the
same calls have the same header, or both have none, or both have the same error. -/
theorem Header.ofClassFile_build {name : String} {steps : List BuildStep}
    (hname : '.' ∉ name.toList) (hsteps : ∀ step ∈ steps, step.Describable)
    (h : ClassBuilder.WithinFormat name steps) :
    ∃ file, ClassFile.ofBytes (ClassBuilder.after name steps).build = .ok file
      ∧ ∀ settings, ofClassFile settings file
        = ofClass settings (steps.foldl BuildStep.describe (ClassModel.named name)) := by
  obtain ⟨file, hwf, hdraft, hshows, -⟩ := h.exists_file
  have hmodel : file.model = .ok (steps.foldl BuildStep.describe (ClassModel.named name)) := by
    rw [ClassFile.model_of_shows hshows (BuildStep.describable_of_mem hsteps),
      BuildStep.foldl_describe hsteps, ClassModel.named, Symbol.internalName_of_not_mem hname]
    rfl
  refine ⟨file, ClassFile.ofBytes_layout_draft hwf hdraft, fun settings => ?_⟩
  rw [ofClassFile, hmodel]
  rfl

/-- Overloaded native methods, methods that are not native, and constants of every primitive
value. -/
def BuildStep.describedSamples : List BuildStep :=
  [.nativeMethod "run" "(I)V", .nativeMethod "run" "(J)V", .method 0x0004 "run" "()V",
    .staticNativeMethod "é" "([La/B;)I", .method 0x010c "stop" "()V",
    .constantField "ON" "Z" (.int 1), .constantField "LIMIT" "J" (.long (-1)),
    .constantField "RATE" "F" (.float 0x7fc00001), .constantField "SIZE" "D" (.double 0)]

theorem BuildStep.describable_samples : ∀ step ∈ describedSamples, step.Describable := by
  have hmethod (d : MethodDescriptor) (h : d.Legal) :
      ∃ found, MethodDescriptor.parse (String.ofList d.print) = .ok found :=
    ⟨d, MethodDescriptor.parse_eq_ok_iff.2 ⟨rfl, h⟩⟩
  have hflag : (FieldConstant.int 1).Suits .boolean := List.mem_cons_self
  simp only [describedSamples, List.forall_mem_cons, List.not_mem_nil, IsEmpty.forall_iff,
    implies_true, and_true]
  exact ⟨hmethod ⟨[.primitive .int], .void⟩ (by decide),
    hmethod ⟨[.primitive .long], .void⟩ (by decide), hmethod ⟨[], .void⟩ (by decide),
    hmethod ⟨[.array (.object "a/B")], .value (.primitive .int)⟩ (by decide),
    hmethod ⟨[], .void⟩ (by decide), ⟨.boolean, rfl, hflag⟩, ⟨.long, rfl, rfl⟩,
    ⟨.float, rfl, rfl⟩, ⟨.double, rfl, rfl⟩⟩

theorem BuildStep.withinFormat_describedSamples :
    ClassBuilder.WithinFormat "a/Outer" describedSamples where
  name_short := by decide +kernel
  steps_fit := by decide +kernel
  slots_le := by decide +kernel
  fields_lt := by decide +kernel
  methods_lt := by decide +kernel
  attributes_lt := by decide +kernel
  innerClasses_lt := by decide +kernel

theorem Header.ofClassFile_build_of_samples :
    '.' ∉ "a/Outer".toList ∧ (∀ step ∈ BuildStep.describedSamples, step.Describable)
      ∧ ClassBuilder.WithinFormat "a/Outer" BuildStep.describedSamples
      ∧ ∃ file,
        ClassFile.ofBytes (ClassBuilder.after "a/Outer" BuildStep.describedSamples).build = .ok file
          ∧ ∀ settings, ofClassFile settings file = ofClass settings
            (BuildStep.describedSamples.foldl BuildStep.describe (ClassModel.named "a/Outer")) :=
  ⟨by decide, BuildStep.describable_samples, BuildStep.withinFormat_describedSamples,
    ofClassFile_build (by decide) BuildStep.describable_samples
      BuildStep.withinFormat_describedSamples⟩

end NativeHeaders
