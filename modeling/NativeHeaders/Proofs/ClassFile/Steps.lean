import NativeHeaders.Proofs.ClassFile.Interning

/-!
# What a builder is told

Every call to a builder is a step, and a step declares parts of the class: its flags, a member, an
attribute, an inner class, or nothing at all where only a constant is asked for. For each declared
part something is added to the draft. It spells the declaration when it is the draft of a decoded
part that shows what was declared.

Indices in what is added are right only if the pool is, so a step is described by what holds in
every pool that the slots of the builder can grow into (`ClassBuilder.Emits`). One lemma for each
kind of step gives what it emits (`BuildStep.emits`), and the run of many steps emits what they
emit one after the other (`emits_runAll`).
-/

set_option autoImplicit false

namespace NativeHeaders

variable {α β : Type}

/-! ## Declarations -/

/-- A field or method as it is declared, with the constant that a field has. -/
structure MemberDecl where
  flags : UInt16
  name : String
  descriptor : String
  value? : Option FieldConstant
deriving DecidableEq

/-- An inner class as it is declared. -/
structure InnerClassDecl where
  inner : String
  outer? : Option String
  simpleName? : Option String
  flags : UInt16
deriving DecidableEq

/-- An attribute of the class as it is declared. -/
inductive AttributeDecl where
  | block (name : String) (content : Bytes)
  | enclosing (className : String)
deriving DecidableEq

/-- A part of a class, given by its flags or by a member, an attribute or an inner class of some
form. -/
inductive ClassPart (M A I : Type) where
  | flags (bits : UInt16)
  | method (m : M)
  | field (m : M)
  | attr (a : A)
  | innerClass (entry : I)

namespace ClassPart

variable {M A I : Type}

def flags? : ClassPart M A I → Option UInt16
  | flags bits => some bits
  | _ => none

def method? : ClassPart M A I → Option M
  | method m => some m
  | _ => none

def field? : ClassPart M A I → Option M
  | field m => some m
  | _ => none

def attr? : ClassPart M A I → Option A
  | attr a => some a
  | _ => none

def innerClass? : ClassPart M A I → Option I
  | innerClass entry => some entry
  | _ => none

end ClassPart

/-- A part of a class as it is declared. -/
abbrev Declaration := ClassPart MemberDecl AttributeDecl InnerClassDecl

/-- A part of a class as it is added to a draft. -/
abbrev Addition := ClassPart MemberDraft AttributeDraft InnerClassDraft

/-! ## Steps -/

/-- A call to a builder. -/
inductive BuildStep where
  | utf8 (text : String)
  | classRef (name : String)
  | constant (value : FieldConstant)
  | stringOfUnits (units : Text.Units)
  | setFlags (flags : UInt16)
  | method (flags : UInt16) (name descriptor : String)
  | nativeMethod (name descriptor : String)
  | staticNativeMethod (name descriptor : String)
  | field (flags : UInt16) (name descriptor : String)
  | constantField (name descriptor : String) (value : FieldConstant)
  | innerClass (inner : String) (outer simpleName : Option String) (flags : UInt16)
  | enclosingClass (name : String)
  | attr (name : String) (content : Bytes)
deriving DecidableEq

namespace BuildStep

open ClassBuilder in
/-- Makes a call. The answer is the index of what was asked for, if the call gives one. -/
def run : BuildStep → Build (Option UInt16)
  | utf8 text => return some (← ClassBuilder.utf8 text)
  | classRef name => return some (← ClassBuilder.classRef name)
  | constant value => return some (← ClassBuilder.constant value)
  | stringOfUnits units => do addStringOfUnits units; return none
  | setFlags flags => do ClassBuilder.setFlags flags; return none
  | method flags name descriptor => do addMethod flags name descriptor; return none
  | nativeMethod name descriptor => do addNativeMethod name descriptor; return none
  | staticNativeMethod name descriptor => do addStaticNativeMethod name descriptor; return none
  | field flags name descriptor => do addField flags name descriptor; return none
  | constantField name descriptor value => do addConstantField name descriptor value; return none
  | innerClass inner outer simpleName flags => do
    addInnerClass inner outer simpleName flags
    return none
  | enclosingClass name => do addEnclosingClass name; return none
  | attr name content => do addAttribute name content; return none

/-- Makes calls in a row. -/
def runAll : List BuildStep → Build (List (Option UInt16))
  | [] => return []
  | step :: steps => do
    let answer ← step.run
    let answers ← runAll steps
    return answer :: answers

/-- The parts of the class that a call declares. -/
def declares : BuildStep → List Declaration
  | utf8 _ => []
  | classRef _ => []
  | constant _ => []
  | stringOfUnits _ => []
  | setFlags flags => [.flags flags]
  | method flags name descriptor => [.method ⟨flags, name, descriptor, none⟩]
  | nativeMethod name descriptor =>
    [.method ⟨FlagSet.publicFlag ||| FlagSet.nativeFlag, name, descriptor, none⟩]
  | staticNativeMethod name descriptor =>
    [.method ⟨FlagSet.publicFlag ||| FlagSet.staticFlag ||| FlagSet.nativeFlag, name, descriptor,
      none⟩]
  | field flags name descriptor => [.field ⟨flags, name, descriptor, none⟩]
  | constantField name descriptor value =>
    [.field ⟨FlagSet.publicFlag ||| FlagSet.staticFlag ||| FlagSet.finalFlag, name, descriptor,
      some value⟩]
  | innerClass inner outer simpleName flags => [.innerClass ⟨inner, outer, simpleName, flags⟩]
  | enclosingClass name => [.attr (.enclosing name)]
  | attr name content => [.attr (.block name content)]

/-- Whether an answer is right in a pool. Of a string of any units no index is given, but it is
there. -/
def Answers (pool : ConstantPool) (answer : Option UInt16) : BuildStep → Prop
  | utf8 text => ∃ index, answer = some index ∧ pool.HasText index text
  | classRef name => ∃ index, answer = some index ∧ pool.HasClass index name
  | constant value => ∃ index, answer = some index ∧ pool.HasConstant index value
  | stringOfUnits units => answer = none ∧ ∃ index textIndex,
      pool.entryAt index = .ok (.string textIndex) ∧ pool.entryAt textIndex = .ok (.utf8 units)
  | _ => answer = none

/-- Whether a call keeps to the class file format: texts are not too long, flags are declared, and
no attribute of the caller's own takes a name that is decoded. -/
def Fits : BuildStep → Prop
  | utf8 text => Text.Short (Text.unitsOf text)
  | classRef name => Text.Short (Text.unitsOf name)
  | constant value => value.Short
  | stringOfUnits units => Text.Short units
  | setFlags flags => flags &&& FlagKind.ofClass.mask = flags
  | method flags name descriptor => flags &&& FlagKind.ofMethod.mask = flags
      ∧ Text.Short (Text.unitsOf name) ∧ Text.Short (Text.unitsOf descriptor)
  | nativeMethod name descriptor =>
    Text.Short (Text.unitsOf name) ∧ Text.Short (Text.unitsOf descriptor)
  | staticNativeMethod name descriptor =>
    Text.Short (Text.unitsOf name) ∧ Text.Short (Text.unitsOf descriptor)
  | field flags name descriptor => flags &&& FlagKind.ofField.mask = flags
      ∧ Text.Short (Text.unitsOf name) ∧ Text.Short (Text.unitsOf descriptor)
  | constantField name descriptor value =>
    value.Short ∧ Text.Short (Text.unitsOf name) ∧ Text.Short (Text.unitsOf descriptor)
  | innerClass inner outer simpleName flags => flags &&& FlagKind.ofInnerClass.mask = flags
      ∧ Text.Short (Text.unitsOf inner) ∧ (∀ name ∈ outer, Text.Short (Text.unitsOf name))
      ∧ ∀ name ∈ simpleName, Text.Short (Text.unitsOf name)
  | enclosingClass name => Text.Short (Text.unitsOf name)
  | attr name content => Text.Short (Text.unitsOf name)
      ∧ AttributeKind.ofName? name = none ∧ content.length < 4294967296

instance : DecidablePred Fits
  | utf8 _ | classRef _ | stringOfUnits _ | enclosingClass _ =>
    inferInstanceAs (Decidable (Text.Short _))
  | constant _ => inferInstanceAs (Decidable (FieldConstant.Short _))
  | setFlags _ => inferInstanceAs (Decidable (_ = _))
  | nativeMethod _ _ | staticNativeMethod _ _ =>
    inferInstanceAs (Decidable (Text.Short _ ∧ Text.Short _))
  | method _ _ _ | field _ _ _ => inferInstanceAs (Decidable (_ = _ ∧ Text.Short _ ∧ Text.Short _))
  | constantField _ _ _ =>
    inferInstanceAs (Decidable (FieldConstant.Short _ ∧ Text.Short _ ∧ Text.Short _))
  | innerClass _ outer simpleName _ =>
    inferInstanceAs (Decidable (_ = _ ∧ Text.Short _ ∧ (∀ name ∈ outer, Text.Short _)
      ∧ ∀ name ∈ simpleName, Text.Short _))
  | attr _ _ => inferInstanceAs (Decidable (Text.Short _ ∧ _ = _ ∧ _ < _))

end BuildStep

/-! ## What is read back -/

/-- Whether a member shows what was declared. A field has a `ConstantValue` if it was declared with
a constant, and no other member has any attributes. -/
structure Member.Shows {kind : FlagKind} (pool : ConstantPool) (m : Member kind)
    (decl : MemberDecl) : Prop where
  flags : m.flags.bits = decl.flags
  name : pool.textAt m.nameIndex = .ok decl.name
  descriptor : pool.textAt m.descriptorIndex = .ok decl.descriptor
  value : match decl.value? with
    | none => m.attributes = []
    | some value =>
      ∃ index, m.attributes.constantValue? = some index ∧ pool.HasConstant index value

/-- Whether an entry for an inner class shows what was declared. -/
structure InnerClass.Shows (pool : ConstantPool) (entry : InnerClass) (decl : InnerClassDecl) :
    Prop where
  inner : pool.classNameAt entry.innerIndex = .ok decl.inner
  outer : IndexOrZero (fun index name => pool.classNameAt index = .ok name) entry.outerIndex
    decl.outer?
  simpleName : IndexOrZero (fun index name => pool.textAt index = .ok name) entry.nameIndex
    decl.simpleName?
  flags : entry.flags.bits = decl.flags

/-- An entry for an inner class of which all has been checked, as a draft. -/
def InnerClass.draft (entry : InnerClass) : InnerClassDraft :=
  ⟨entry.innerIndex, entry.outerIndex, entry.nameIndex, entry.flags.bits⟩

/-- Whether an attribute of the class shows what was declared. -/
def Attribute.Shows (pool : ConstantPool) (a : Attribute) : AttributeDecl → Prop
  | .block name content => a.name = name ∧ a.body = .raw content
  | .enclosing className => a.name = AttributeKind.enclosingMethod.name
      ∧ ∃ index, a.body = .enclosingMethod index 0 ∧ pool.classNameAt index = .ok className

/-- Whether an addition spells a declaration: it is the draft of a part that shows what was
declared. -/
inductive Addition.Spells (pool : ConstantPool) : Addition → Declaration → Prop
  | flags (flags : FlagSet .ofClass) : Spells pool (.flags flags.bits) (.flags flags.bits)
  | method {m : Method} {decl : MemberDecl} :
    m.attributes.WellFormed pool → m.Shows pool decl → Spells pool (.method m.draft) (.method decl)
  | field {m : Field} {decl : MemberDecl} :
    m.attributes.WellFormed pool → m.Shows pool decl → Spells pool (.field m.draft) (.field decl)
  | attr {a : Attribute} {decl : AttributeDecl} :
    a.WellFormed pool → a.Shows pool decl → Spells pool (.attr a.draft) (.attr decl)
  | innerClass {entry : InnerClass} {decl : InnerClassDecl} :
    entry.Shows pool decl → Spells pool (.innerClass entry.draft) (.innerClass decl)

/-- A member without attributes shows what its two indices stand for. -/
theorem Member.shows_of_hasText {kind : FlagKind} {pool : ConstantPool} (flags : FlagSet kind)
    {nameIndex descriptorIndex : UInt16} {name descriptor : String}
    (hname : pool.HasText nameIndex name) (hdescriptor : pool.HasText descriptorIndex descriptor) :
    Member.Shows pool (⟨flags, nameIndex, descriptorIndex, []⟩ : Member kind)
      ⟨flags.bits, name, descriptor, none⟩ :=
  ⟨rfl, ConstantPool.textAt_eq hname, ConstantPool.textAt_eq hdescriptor, rfl⟩

theorem AttributeKind.ofName?_name (kind : AttributeKind) : ofName? kind.name = some kind := by
  cases kind <;> decide

theorem Attribute.wellFormed_of_kind {pool : ConstantPool} {nameIndex : UInt16}
    {kind : AttributeKind} {body : AttributeBody} (hname : pool.HasText nameIndex kind.name)
    (hkind : body.kind? = some kind) (hfits : body.Fits) :
    WellFormed pool ⟨nameIndex, kind.name, body⟩ :=
  ⟨ConstantPool.textAt_eq hname, by rw [AttributeKind.ofName?_name]; exact hkind, hfits⟩

namespace AttributeTable

theorem wellFormed_nil (pool : ConstantPool) : WellFormed pool [] :=
  ⟨Nat.zero_lt_succ _, fun _ h => absurd h List.not_mem_nil⟩

theorem wellFormed_singleton {pool : ConstantPool} {a : Attribute} (h : a.WellFormed pool) :
    WellFormed pool [a] := by
  refine ⟨by rw [List.length_singleton]; omega, ?_⟩
  intro other hother
  rw [List.mem_singleton.1 hother]
  exact h

end AttributeTable

/-! ## Additions to a builder -/

namespace ClassBuilder

open ConstantPool (Lasting)

/-- Adds a part to what a builder has. -/
def add (b : ClassBuilder) : Addition → ClassBuilder
  | .flags bits => { b with draft := { b.draft with flags := bits } }
  | .method m => { b with draft := { b.draft with methods := b.draft.methods ++ [m] } }
  | .field m => { b with draft := { b.draft with fields := b.draft.fields ++ [m] } }
  | .attr a => { b with draft := { b.draft with attributes := b.draft.attributes ++ [a] } }
  | .innerClass entry => { b with innerClasses := b.innerClasses ++ [entry] }

/-- The parts of a class are kept apart, each in the order in which it was added. -/
theorem foldl_add (additions : List Addition) (b : ClassBuilder) :
    additions.foldl add b =
      { b with
        draft := { b.draft with
          flags := (additions.filterMap ClassPart.flags?).getLastD b.draft.flags
          fields := b.draft.fields ++ additions.filterMap ClassPart.field?
          methods := b.draft.methods ++ additions.filterMap ClassPart.method?
          attributes := b.draft.attributes ++ additions.filterMap ClassPart.attr? }
        innerClasses := b.innerClasses ++ additions.filterMap ClassPart.innerClass? } := by
  induction additions generalizing b with
  | nil => simp
  | cons addition additions ih =>
    rw [List.foldl_cons, ih]
    cases addition <;>
      simp [add, ClassPart.flags?, ClassPart.field?, ClassPart.method?, ClassPart.attr?,
        ClassPart.innerClass?, List.filterMap_cons, List.getLast?_cons]

theorem Sound.add {b : ClassBuilder} (h : b.Sound) (addition : Addition) :
    (b.add addition).Sound := by
  cases addition <;> exact ⟨h.complete, h.fits, h.texts, h.classes⟩

theorem Grows.add {b b' : ClassBuilder} (h : Grows b b') (addition : Addition) :
    Grows (b.add addition) (b'.add addition) := by
  obtain ⟨hslots, hdraft, hinner⟩ := h
  cases addition <;> exact ⟨hslots, by simp only [ClassBuilder.add]; rw [hdraft],
    by simp only [ClassBuilder.add, hinner]⟩

theorem Grows.foldl_add {b b' : ClassBuilder} (h : Grows b b') (additions : List Addition) :
    Grows (additions.foldl ClassBuilder.add b) (additions.foldl ClassBuilder.add b') := by
  induction additions generalizing b b' with
  | nil => exact h
  | cons addition additions ih => exact ih (h.add addition)

theorem Grows.slots_of_foldl_add {b b' : ClassBuilder} {additions : List Addition}
    (h : Grows (additions.foldl ClassBuilder.add b) b') :
    b.draft.pool.slots <+: b'.draft.pool.slots := by
  have hslots := h.slots
  rwa [ClassBuilder.foldl_add] at hslots

/-- Whether a computation keeps a builder sound and makes additions to it of which, together with
what it gives, `P` holds in every pool that the slots can grow into. -/
def Emits (m : Build α) (P : α → List Addition → ConstantPool → Prop) : Prop :=
  ∀ b : ClassBuilder, b.Sound → ∃ additions : List Addition,
    (m b).2.Sound ∧ Grows (additions.foldl add b) (m b).2
      ∧ Lasting (m b).2.draft.pool.slots (P (m b).1 additions)

theorem Adds.emits {m : Build α} {P : α → ConstantPool → Prop} (h : Adds m P) :
    Emits m fun a additions pool => additions = [] ∧ P a pool := by
  intro b hb
  obtain ⟨hsound, hgrows, hresult⟩ := h b hb
  exact ⟨[], hsound, hgrows, hresult.imp fun _ hP => ⟨rfl, hP⟩⟩

theorem emits_add (addition : Addition) :
    Emits (modify (·.add addition)) fun _ additions _ => additions = [addition] :=
  fun _ hb => ⟨[addition], hb.add addition, .refl _, fun _ _ _ => rfl⟩

namespace Emits

variable {m : Build α} {f : α → Build β}

theorem imp {P P' : α → List Addition → ConstantPool → Prop} (hm : Emits m P)
    (h : ∀ a additions pool, P a additions pool → P' a additions pool) : Emits m P' := by
  intro b hb
  obtain ⟨additions, hsound, hgrows, hresult⟩ := hm b hb
  exact ⟨additions, hsound, hgrows, hresult.imp (h (m b).1 additions)⟩

/-- What two computations add stands in a row. -/
theorem bind {P : α → List Addition → ConstantPool → Prop}
    {Q : α → β → List Addition → ConstantPool → Prop} (hm : Emits m P)
    (hf : ∀ a, Emits (f a) (Q a)) :
    Emits (m >>= f) fun r additions pool => ∃ a front back,
      additions = front ++ back ∧ P a front pool ∧ Q a r back pool := by
  intro b hb
  obtain ⟨front, hsound, hgrows, hresult⟩ := hm b hb
  obtain ⟨back, hsound', hgrows', hresult'⟩ := hf (m b).1 (m b).2 hsound
  refine ⟨front ++ back, hsound', ?_, ?_⟩
  · rw [List.foldl_append]
    exact (hgrows.foldl_add back).trans hgrows'
  · have hboth := (hresult.mono hgrows'.slots_of_foldl_add).and hresult'
    exact hboth.imp fun pool h => ⟨(m b).1, front, back, rfl, h⟩

end Emits

/-- What is looked up in the tables first makes no additions. -/
theorem Adds.bind_emits {m : Build α} {f : α → Build β} {P : α → ConstantPool → Prop}
    {Q : α → β → List Addition → ConstantPool → Prop} (hm : Adds m P)
    (hf : ∀ a, Emits (f a) (Q a)) :
    Emits (m >>= f) fun r additions pool => ∃ a, P a pool ∧ Q a r additions pool := by
  refine (hm.emits.bind hf).imp ?_
  rintro r _ pool ⟨a, _, back, rfl, ⟨rfl, hP⟩, hQ⟩
  exact ⟨a, hP, hQ⟩

/-! ## What each call adds -/

theorem Emits.returning {m : Build Unit} {P : List Addition → ConstantPool → Prop}
    (h : Emits m fun _ => P) (r : β) :
    Emits (do m; return r) fun a additions pool => a = r ∧ P additions pool := by
  intro b hb
  obtain ⟨additions, hsound, hgrows, hresult⟩ := h b hb
  exact ⟨additions, hsound, hgrows, hresult.imp fun _ hP => ⟨rfl, hP⟩⟩

/-- Whether all that a computation adds spells some declarations. -/
def Declares (m : Build Unit) (decls : List Declaration) : Prop :=
  Emits m fun _ additions pool => List.Forall₂ (Addition.Spells pool) additions decls

theorem declares_addMethod {flags : UInt16} {name descriptor : String}
    (hflags : flags &&& FlagKind.ofMethod.mask = flags)
    (hname : Text.Short (Text.unitsOf name)) (hdescriptor : Text.Short (Text.unitsOf descriptor)) :
    Declares (addMethod flags name descriptor) [.method ⟨flags, name, descriptor, none⟩] := by
  refine ((adds_utf8 hname).bind_emits fun nameIndex => (adds_utf8 hdescriptor).bind_emits
    fun descriptorIndex => emits_add (.method ⟨flags, nameIndex, descriptorIndex, []⟩)).imp ?_
  rintro _ _ pool ⟨nameIndex, hname, descriptorIndex, hdescriptor, rfl⟩
  have hm := Member.shows_of_hasText (⟨flags, hflags⟩ : FlagSet .ofMethod) hname hdescriptor
  exact .cons (.method (AttributeTable.wellFormed_nil pool) hm) .nil

theorem declares_addField {flags : UInt16} {name descriptor : String}
    (hflags : flags &&& FlagKind.ofField.mask = flags)
    (hname : Text.Short (Text.unitsOf name)) (hdescriptor : Text.Short (Text.unitsOf descriptor)) :
    Declares (addField flags name descriptor) [.field ⟨flags, name, descriptor, none⟩] := by
  refine ((adds_utf8 hname).bind_emits fun nameIndex => (adds_utf8 hdescriptor).bind_emits
    fun descriptorIndex => emits_add (.field ⟨flags, nameIndex, descriptorIndex, []⟩)).imp ?_
  rintro _ _ pool ⟨nameIndex, hname, descriptorIndex, hdescriptor, rfl⟩
  have hm := Member.shows_of_hasText (⟨flags, hflags⟩ : FlagSet .ofField) hname hdescriptor
  exact .cons (.field (AttributeTable.wellFormed_nil pool) hm) .nil

theorem declares_addConstantField {name descriptor : String} {value : FieldConstant}
    (hvalue : value.Short) (hname : Text.Short (Text.unitsOf name))
    (hdescriptor : Text.Short (Text.unitsOf descriptor)) :
    Declares (addConstantField name descriptor value)
      (BuildStep.constantField name descriptor value).declares := by
  refine ((adds_constant hvalue).bind_emits fun valueIndex => (adds_utf8 hname).bind_emits
    fun nameIndex => (adds_utf8 hdescriptor).bind_emits fun descriptorIndex =>
      (adds_utf8 AttributeKind.constantValue.short_name).bind_emits fun attributeName =>
        emits_add (.field ⟨FlagSet.publicFlag ||| FlagSet.staticFlag ||| FlagSet.finalFlag,
          nameIndex, descriptorIndex, [⟨attributeName, Layout.u2 valueIndex⟩]⟩)).imp ?_
  rintro _ _ pool ⟨valueIndex, hvalue, nameIndex, hname, descriptorIndex, hdescriptor,
    attributeName, hattribute, rfl⟩
  have hfits : (AttributeBody.constantValue valueIndex).Fits := by
    refine ⟨nofun, ?_⟩
    rw [AttributeBody.block, Layout.length_u2]
    omega
  have ha := Attribute.wellFormed_of_kind hattribute rfl hfits
  let m : Field := {
    flags := ⟨FlagSet.publicFlag ||| FlagSet.staticFlag ||| FlagSet.finalFlag, by decide⟩
    nameIndex, descriptorIndex
    attributes := [⟨attributeName, AttributeKind.constantValue.name, .constantValue valueIndex⟩] }
  have hm : m.Shows pool ⟨FlagSet.publicFlag ||| FlagSet.staticFlag ||| FlagSet.finalFlag, name,
      descriptor, some value⟩ :=
    ⟨rfl, ConstantPool.textAt_eq hname, ConstantPool.textAt_eq hdescriptor, valueIndex, rfl, hvalue⟩
  exact .cons (.field (AttributeTable.wellFormed_singleton ha) hm) .nil

theorem emits_addAttribute {name : String} (content : Bytes)
    (hname : Text.Short (Text.unitsOf name)) :
    Emits (addAttribute name content) fun _ additions pool => ∃ nameIndex,
      additions = [.attr ⟨nameIndex, content⟩] ∧ pool.HasText nameIndex name := by
  refine ((adds_utf8 hname).bind_emits fun nameIndex =>
    emits_add (.attr ⟨nameIndex, content⟩)).imp ?_
  rintro _ _ pool ⟨nameIndex, hname, rfl⟩
  exact ⟨nameIndex, rfl, hname⟩

theorem declares_addBlock {name : String} {content : Bytes}
    (hname : Text.Short (Text.unitsOf name)) (hkind : AttributeKind.ofName? name = none)
    (hcontent : content.length < 4294967296) :
    Declares (addAttribute name content) [.attr (.block name content)] := by
  refine (emits_addAttribute content hname).imp ?_
  rintro _ _ pool ⟨nameIndex, rfl, hname⟩
  let a : Attribute := ⟨nameIndex, name, .raw content⟩
  have ha : a.WellFormed pool := ⟨ConstantPool.textAt_eq hname, hkind.symm, nofun, hcontent⟩
  exact .cons (.attr (a := a) ha ⟨rfl, rfl⟩) .nil

theorem declares_addEnclosingClass {name : String} (hname : Text.Short (Text.unitsOf name)) :
    Declares (addEnclosingClass name) [.attr (.enclosing name)] := by
  refine ((adds_classRef hname).bind_emits fun index =>
    emits_addAttribute (Layout.u2 index ++ Layout.u2 0)
      AttributeKind.enclosingMethod.short_name).imp ?_
  rintro _ _ pool ⟨index, hclass, nameIndex, rfl, hname⟩
  have hfits : (AttributeBody.enclosingMethod index 0).Fits := by
    refine ⟨nofun, ?_⟩
    rw [AttributeBody.block, List.length_append, Layout.length_u2, Layout.length_u2]
    omega
  have ha := Attribute.wellFormed_of_kind hname rfl hfits
  exact .cons (.attr ha ⟨rfl, index, rfl, hclass.classNameAt_eq⟩) .nil

theorem declares_addInnerClass {inner : String} {outer simpleName : Option String} {flags : UInt16}
    (hflags : flags &&& FlagKind.ofInnerClass.mask = flags)
    (hinner : Text.Short (Text.unitsOf inner))
    (houter : ∀ name ∈ outer, Text.Short (Text.unitsOf name))
    (hsimple : ∀ name ∈ simpleName, Text.Short (Text.unitsOf name)) :
    Declares (addInnerClass inner outer simpleName flags)
      [.innerClass ⟨inner, outer, simpleName, flags⟩] := by
  refine ((adds_classRef hinner).bind_emits fun innerIndex =>
    (adds_orZero fun name h => adds_classRef (houter name h)).bind_emits fun outerIndex =>
      (adds_orZero fun name h => adds_utf8 (hsimple name h)).bind_emits fun nameIndex =>
        emits_add (.innerClass ⟨innerIndex, outerIndex, nameIndex, flags⟩)).imp ?_
  rintro _ _ pool ⟨innerIndex, hinner, outerIndex, houter, nameIndex, hname, rfl⟩
  let entry : InnerClass := ⟨innerIndex, outerIndex, nameIndex, ⟨flags, hflags⟩⟩
  have hentry : entry.Shows pool ⟨inner, outer, simpleName, flags⟩ :=
    ⟨hinner.classNameAt_eq, houter.imp fun _ _ h => h.classNameAt_eq,
      hname.imp fun _ _ h => ConstantPool.textAt_eq h, rfl⟩
  exact .cons (.innerClass hentry) .nil

theorem adds_addStringOfUnits {units : Text.Units} (h : Text.Short units) :
    Adds (addStringOfUnits units) fun _ pool =>
      ∃ index textIndex, pool.entryAt index = .ok (.string textIndex)
        ∧ pool.entryAt textIndex = .ok (.utf8 units) := by
  refine ((adds_push (.utf8 units) nofun (decide_eq_true h)).bind fun textIndex =>
    (adds_push (.string textIndex) nofun rfl).bind
      fun _ => .pure (P := fun _ _ => True) fun _ => trivial).imp ?_
  rintro _ pool ⟨textIndex, htext, index, hentry, -⟩
  exact ⟨index, textIndex, hentry, htext⟩

end ClassBuilder

/-! ## Steps in a row -/

namespace BuildStep

open ClassBuilder

/-- A call for an index answers with what was looked up, and declares nothing. -/
theorem emits_index {m : Build UInt16} {P : UInt16 → ConstantPool → Prop} (h : Adds m P) :
    Emits (do return some (← m)) fun answer additions pool =>
      (∃ index, answer = some index ∧ P index pool)
        ∧ List.Forall₂ (Addition.Spells pool) additions [] := by
  refine (h.bind fun index => .pure (P := fun answer _ => answer = some index)
    fun _ => rfl).emits.imp ?_
  rintro answer _ pool ⟨rfl, index, hindex, hanswer⟩
  exact ⟨⟨index, hanswer, hindex⟩, .nil⟩

/-- A call that keeps to the format adds what it declares, and its answer is right. -/
theorem emits : ∀ {step : BuildStep}, step.Fits → Emits step.run fun answer additions pool =>
    step.Answers pool answer ∧ List.Forall₂ (Addition.Spells pool) additions step.declares
  | utf8 _, h => emits_index (adds_utf8 h)
  | classRef _, h => emits_index (adds_classRef h)
  | constant _, h => emits_index (adds_constant h)
  | stringOfUnits units, h => by
    refine ((adds_addStringOfUnits h).emits.returning none).imp ?_
    rintro _ _ pool ⟨rfl, rfl, hentries⟩
    exact ⟨⟨rfl, hentries⟩, .nil⟩
  | setFlags flags, h => by
    refine ((emits_add (.flags flags)).returning none).imp ?_
    rintro _ _ pool ⟨rfl, rfl⟩
    exact ⟨rfl, .cons (.flags ⟨flags, h⟩) .nil⟩
  | method _ _ _, ⟨hflags, hname, hdescriptor⟩ =>
    Emits.returning (declares_addMethod hflags hname hdescriptor) none
  | nativeMethod _ _, ⟨hname, hdescriptor⟩ =>
    Emits.returning (declares_addMethod (by decide) hname hdescriptor) none
  | staticNativeMethod _ _, ⟨hname, hdescriptor⟩ =>
    Emits.returning (declares_addMethod (by decide) hname hdescriptor) none
  | field _ _ _, ⟨hflags, hname, hdescriptor⟩ =>
    Emits.returning (declares_addField hflags hname hdescriptor) none
  | constantField _ _ _, ⟨hvalue, hname, hdescriptor⟩ =>
    Emits.returning (declares_addConstantField hvalue hname hdescriptor) none
  | innerClass _ _ _ _, ⟨hflags, hinner, houter, hsimple⟩ =>
    Emits.returning (declares_addInnerClass hflags hinner houter hsimple) none
  | enclosingClass _, h => Emits.returning (declares_addEnclosingClass h) none
  | attr _ _, ⟨hname, hkind, hcontent⟩ =>
    Emits.returning (declares_addBlock hname hkind hcontent) none

/-- Calls in a row add in a row what they declare, and all their answers stay right. The induction
is on the calls; what the first of them gives has to last while the others are made. -/
theorem emits_runAll {steps : List BuildStep} (h : ∀ step ∈ steps, step.Fits) :
    Emits (runAll steps) fun answers additions pool =>
      List.Forall₂ (Answers pool) answers steps
        ∧ List.Forall₂ (Addition.Spells pool) additions (steps.flatMap declares) := by
  induction steps with
  | nil =>
    refine (Adds.pure (P := fun answers _ => answers = []) fun _ => rfl).emits.imp ?_
    rintro _ _ pool ⟨rfl, rfl⟩
    exact ⟨.nil, .nil⟩
  | cons step steps ih =>
    have hfirst := emits (h step List.mem_cons_self)
    have hothers := ih fun other hother => h other (List.mem_cons_of_mem step hother)
    refine (hfirst.bind fun answer => hothers.bind fun answers =>
      (Adds.pure (P := fun all _ => all = answer :: answers) fun _ => rfl).emits).imp ?_
    rintro _ _ pool ⟨answer, front, _, rfl, ⟨hanswer, hfront⟩, answers, back, _, rfl,
      ⟨hanswers, hback⟩, rfl, rfl⟩
    rw [List.append_nil]
    exact ⟨.cons hanswer hanswers, List.rel_append hfront hback⟩

end BuildStep

end NativeHeaders
