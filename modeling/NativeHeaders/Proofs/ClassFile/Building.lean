import Mathlib.Data.List.Forall2
import NativeHeaders.Proofs.ClassFile.Steps

/-!
# Decoding undoes building

A class file that a builder makes is decoded, and what was told to the builder is read back: the
names, the flags, the members in the order of the calls, the entries for inner classes, the blocks
of other attributes, and an entry for every index that was handed out (`ofBytes_build`).

All that the calls add spells what they declare, so what they add is the draft of decoded parts.
Put together, these parts are a well-formed class file whose draft is that of the closed builder,
and such a class file is read as it is laid out.
-/

set_option autoImplicit false

namespace NativeHeaders

/-! ## Parts of one sort -/

/-- The parts of one sort among the additions are decoded one by one. -/
theorem Addition.exists_parts {P D C : Type} {part? : Addition → Option D}
    {decl? : Declaration → Option C} {draft : P → D} {Good : P → Prop} {Shows : P → C → Prop}
    {pool : ConstantPool} {additions : List Addition} {decls : List Declaration}
    (hpart : ∀ {addition decl}, Spells pool addition decl →
      Option.Rel (fun d c => ∃ p, draft p = d ∧ Good p ∧ Shows p c) (part? addition) (decl? decl))
    (h : List.Forall₂ (Spells pool) additions decls) :
    ∃ parts : List P, parts.map draft = additions.filterMap part? ∧ (∀ p ∈ parts, Good p)
      ∧ List.Forall₂ Shows parts (decls.filterMap decl?) := by
  have hparts : List.Forall₂ (fun d c => ∃ p, draft p = d ∧ Good p ∧ Shows p c)
      (additions.filterMap part?) (decls.filterMap decl?) :=
    List.rel_filterMap (fun _ _ h => hpart h) h
  generalize additions.filterMap part? = drafts at hparts ⊢
  generalize decls.filterMap decl? = declared at hparts ⊢
  induction hparts with
  | nil => exact ⟨[], rfl, nofun, .nil⟩
  | cons hp _ ih =>
    obtain ⟨p, rfl, hgood, hshows⟩ := hp
    obtain ⟨parts, rfl, hgoods, hothers⟩ := ih
    refine ⟨p :: parts, rfl, ?_, .cons hshows hothers⟩
    intro other hother
    rcases List.mem_cons.1 hother with rfl | hother
    · exact hgood
    · exact hgoods other hother

namespace Addition

variable {pool : ConstantPool} {additions : List Addition} {decls : List Declaration}

theorem exists_methods (h : List.Forall₂ (Spells pool) additions decls) :
    ∃ ms : List Method, ms.map Member.draft = additions.filterMap ClassPart.method?
      ∧ (∀ m ∈ ms, m.attributes.WellFormed pool)
      ∧ List.Forall₂ (Member.Shows pool) ms (decls.filterMap ClassPart.method?) := by
  refine exists_parts ?_ h
  rintro _ _ (_ | ⟨hwf, hshows⟩ | _ | _ | _)
  case method => exact .some ⟨_, rfl, hwf, hshows⟩
  all_goals exact .none

theorem exists_fields (h : List.Forall₂ (Spells pool) additions decls) :
    ∃ ms : List Field, ms.map Member.draft = additions.filterMap ClassPart.field?
      ∧ (∀ m ∈ ms, m.attributes.WellFormed pool)
      ∧ List.Forall₂ (Member.Shows pool) ms (decls.filterMap ClassPart.field?) := by
  refine exists_parts ?_ h
  rintro _ _ (_ | _ | ⟨hwf, hshows⟩ | _ | _)
  case field => exact .some ⟨_, rfl, hwf, hshows⟩
  all_goals exact .none

theorem exists_attributes (h : List.Forall₂ (Spells pool) additions decls) :
    ∃ table : AttributeTable, table.map Attribute.draft = additions.filterMap ClassPart.attr?
      ∧ (∀ a ∈ table, a.WellFormed pool)
      ∧ List.Forall₂ (Attribute.Shows pool) table (decls.filterMap ClassPart.attr?) := by
  refine exists_parts ?_ h
  rintro _ _ (_ | _ | _ | ⟨hwf, hshows⟩ | _)
  case attr => exact .some ⟨_, rfl, hwf, hshows⟩
  all_goals exact .none

theorem exists_innerClasses (h : List.Forall₂ (Spells pool) additions decls) :
    ∃ entries : List InnerClass,
      entries.map InnerClass.draft = additions.filterMap ClassPart.innerClass?
      ∧ List.Forall₂ (InnerClass.Shows pool) entries (decls.filterMap ClassPart.innerClass?) := by
  have hentries : ∃ entries : List InnerClass,
      entries.map InnerClass.draft = additions.filterMap ClassPart.innerClass?
      ∧ (∀ entry ∈ entries, True)
      ∧ List.Forall₂ (InnerClass.Shows pool) entries (decls.filterMap ClassPart.innerClass?) := by
    refine exists_parts ?_ h
    rintro _ _ (_ | _ | _ | _ | hshows)
    case innerClass => exact .some ⟨_, rfl, trivial, hshows⟩
    all_goals exact .none
  obtain ⟨entries, hdraft, -, hshows⟩ := hentries
  exact ⟨entries, hdraft, hshows⟩

/-- The last flags count, and all flags that a call can set are declared. -/
theorem exists_flags (h : List.Forall₂ (Spells pool) additions decls)
    (initial : FlagSet .ofClass) :
    ∃ flags : FlagSet .ofClass,
      flags.bits = (additions.filterMap ClassPart.flags?).getLastD initial.bits
        ∧ flags.bits = (decls.filterMap ClassPart.flags?).getLastD initial.bits := by
  have hflags : ∃ all : List (FlagSet .ofClass),
      all.map FlagSet.bits = additions.filterMap ClassPart.flags? ∧ (∀ flags ∈ all, True)
      ∧ List.Forall₂ (fun flags bits => flags.bits = bits) all
        (decls.filterMap ClassPart.flags?) := by
    refine exists_parts ?_ h
    rintro _ _ (_ | _ | _ | _ | _)
    case flags => exact .some ⟨_, rfl, trivial, rfl⟩
    all_goals exact .none
  obtain ⟨all, hall, -, hbits⟩ := hflags
  rw [← List.forall₂_map_left_iff, List.forall₂_eq_eq_eq] at hbits
  have hlast : (all.getLastD initial).bits = (all.map FlagSet.bits).getLastD initial.bits := by
    rcases List.eq_nil_or_concat all with rfl | ⟨front, flags, rfl⟩
    · rfl
    · simp
  exact ⟨all.getLastD initial, by rw [hlast, hall], by rw [hlast, hbits]⟩

end Addition

/-! ## Tables of attributes -/

namespace AttributeDecl

/-- The class that an attribute names as the one around a local class. -/
def enclosing? : AttributeDecl → Option String
  | block _ _ => none
  | enclosing className => some className

/-- The content of an attribute of the caller's own, if it has some name. -/
def block? (blockName : String) : AttributeDecl → Option Bytes
  | block name content => if name = blockName then some content else none
  | enclosing _ => none

/-- The kind of attribute that the name of a declared one stands for. -/
def kind? : AttributeDecl → Option AttributeKind
  | block _ _ => none
  | enclosing _ => some .enclosingMethod

end AttributeDecl

/-- The indices of a class around the class, which is in no method. -/
def ShowsEnclosing (pool : ConstantPool) (found : Option (UInt16 × UInt16)) :
    Option String → Prop
  | none => found = none
  | some className => ∃ index, found = some (index, 0) ∧ pool.classNameAt index = .ok className

theorem Attribute.Shows.ofName?_name {pool : ConstantPool} {a : Attribute} {decl : AttributeDecl}
    (h : a.Shows pool decl) (hwf : a.WellFormed pool) :
    AttributeKind.ofName? a.name = decl.kind? := by
  rw [← hwf.kind_eq]
  cases decl with
  | block name content =>
    obtain ⟨-, hbody⟩ := h
    rw [hbody]
    rfl
  | enclosing className =>
    obtain ⟨-, index, hbody, -⟩ := h
    rw [hbody]
    rfl

theorem Attribute.Shows.name_ne {pool : ConstantPool} {a : Attribute} {decl : AttributeDecl}
    (h : a.Shows pool decl) (hwf : a.WellFormed pool) {kind : AttributeKind}
    (hkind : decl.kind? ≠ some kind) : a.name ≠ kind.name := by
  intro heq
  have hname := h.ofName?_name hwf
  rw [heq, AttributeKind.ofName?_name] at hname
  exact hkind hname.symm

namespace AttributeTable

variable {pool : ConstantPool} {table : AttributeTable} {decls : List AttributeDecl}

theorem named_cons (a : Attribute) (table : AttributeTable) (name : String) :
    named (a :: table) name = if a.name = name then a.body :: table.named name
      else table.named name := by
  by_cases h : a.name = name
  · simp [named, h]
  · simp [named, h]

theorem named_append (front back : AttributeTable) (name : String) :
    named (front ++ back) name = front.named name ++ back.named name := by
  rw [named, List.filter_append, List.map_append, ← named, ← named]

/-- The blocks of a name are kept, byte for byte and in order. -/
theorem named_of_shows {blockName : String} (hname : AttributeKind.ofName? blockName = none)
    (h : List.Forall₂ (Attribute.Shows pool) table decls) :
    table.named blockName
      = (decls.filterMap (AttributeDecl.block? blockName)).map AttributeBody.raw := by
  induction h with
  | nil => rfl
  | @cons a decl _ _ hshows _ ih =>
    rw [named_cons, List.filterMap_cons, ih]
    cases decl with
    | block name content =>
      obtain ⟨rfl, hbody⟩ := hshows
      by_cases heq : a.name = blockName
      · simp [AttributeDecl.block?, heq, hbody]
      · simp [AttributeDecl.block?, heq]
    | enclosing className =>
      have hne : a.name ≠ blockName := by
        intro heq
        rw [← heq, hshows.1, AttributeKind.ofName?_name] at hname
        contradiction
      simp [AttributeDecl.block?, hne]

/-- The first class that is declared to be around the class is found. -/
theorem enclosingMethod?_of_shows (hwf : ∀ a ∈ table, a.WellFormed pool)
    (h : List.Forall₂ (Attribute.Shows pool) table decls) :
    ShowsEnclosing pool table.enclosingMethod? (decls.findSome? AttributeDecl.enclosing?) := by
  induction h with
  | nil => rfl
  | @cons a decl table _ hshows _ ih =>
    have hothers := ih fun b hb => hwf b (List.mem_cons_of_mem a hb)
    rw [enclosingMethod?, named_cons, List.findSome?_cons]
    cases decl with
    | block name content =>
      rw [if_neg (hshows.name_ne (hwf a List.mem_cons_self) nofun)]
      exact hothers
    | enclosing className =>
      obtain ⟨hname, index, hbody, hclass⟩ := hshows
      rw [if_pos hname, hbody]
      exact ⟨index, rfl, hclass⟩

/-- No call but the last makes an attribute for inner classes. -/
theorem named_innerClasses_of_shows (hwf : ∀ a ∈ table, a.WellFormed pool)
    (h : List.Forall₂ (Attribute.Shows pool) table decls) :
    table.named AttributeKind.innerClasses.name = [] := by
  induction h with
  | nil => rfl
  | @cons a decl table _ hshows _ ih =>
    have hothers := ih fun b hb => hwf b (List.mem_cons_of_mem a hb)
    have hkind : decl.kind? ≠ some .innerClasses := by
      cases decl <;> simp [AttributeDecl.kind?]
    rw [named_cons, if_neg (hshows.name_ne (hwf a List.mem_cons_self) hkind)]
    exact hothers

theorem named_eq_nil {name : String} (h : ∀ a ∈ table, a.name ≠ name) : table.named name = [] := by
  rw [named, List.map_eq_nil_iff, List.filter_eq_nil_iff]
  intro a ha
  simpa using h a ha

end AttributeTable

/-! ## The first and the last of a class file -/

namespace ClassBuilder

open ConstantPool (Lasting)

/-- A builder after calls in a row. -/
def after (name : String) (steps : List BuildStep) : ClassBuilder :=
  (BuildStep.runAll steps (ofName name)).2

/-- What calls in a row answer. -/
def answers (name : String) (steps : List BuildStep) : List (Option UInt16) :=
  (BuildStep.runAll steps (ofName name)).1

/-- A builder after calls in a row and the last attribute. -/
def closed (name : String) (steps : List BuildStep) : ClassBuilder := (close (after name steps)).2

/-- The indices of a class and its superclass. -/
def lineage (name : String) : Build (UInt16 × UInt16) := do
  let thisClass ← classRef name
  let superClass ← classRef "java/lang/Object"
  return (thisClass, superClass)

theorem adds_lineage {name : String} (h : Text.Short (Text.unitsOf name)) :
    Adds (lineage name) fun found pool =>
      pool.HasClass found.1 name ∧ pool.HasClass found.2 "java/lang/Object" := by
  have hroot : Text.Short (Text.unitsOf "java/lang/Object") := by decide
  refine ((adds_classRef h).bind fun thisClass => (adds_classRef hroot).bind fun superClass =>
    .pure (P := fun found _ => found = (thisClass, superClass)) fun _ => rfl).imp ?_
  rintro _ pool ⟨thisClass, hthis, superClass, hsuper, rfl⟩
  exact ⟨hthis, hsuper⟩

/-- The class and its superclass are named before anything else. -/
theorem ofName_spec {name : String} (h : Text.Short (Text.unitsOf name)) :
    (ofName name).Sound ∧ ∃ thisClass superClass : UInt16,
      Grows ⟨{ emptyDraft with thisClass, superClass }, [], [], []⟩ (ofName name)
        ∧ Lasting (ofName name).draft.pool.slots fun pool =>
          pool.HasClass thisClass name ∧ pool.HasClass superClass "java/lang/Object" := by
  have hempty : Sound ⟨emptyDraft, [], [], []⟩ :=
    ⟨ConstantPool.complete_nil, nofun, nofun, nofun⟩
  obtain ⟨hsound, hgrows, hlasting⟩ := adds_lineage h _ hempty
  generalize hb : lineage name ⟨emptyDraft, [], [], []⟩ = found at hsound hgrows hlasting
  obtain ⟨⟨thisClass, superClass⟩, b⟩ := found
  have hofName : ofName name = { b with draft := { b.draft with thisClass, superClass } } := by
    show { (lineage name ⟨emptyDraft, [], [], []⟩).2 with
      draft := { (lineage name ⟨emptyDraft, [], [], []⟩).2.draft with
        thisClass := (lineage name ⟨emptyDraft, [], [], []⟩).1.1
        superClass := (lineage name ⟨emptyDraft, [], [], []⟩).1.2 } } = _
    rw [hb]
  rw [hofName]
  refine ⟨⟨hsound.complete, hsound.fits, hsound.texts, hsound.classes⟩, thisClass, superClass,
    ⟨List.nil_prefix, ?_, hgrows.innerClasses⟩, hlasting⟩
  -- nothing but the pool and the two indices differs from the empty draft
  rw [hgrows.draft]

/-- Whether the last attribute is right: there is one exactly if there are entries for inner
classes, and it holds all of them. -/
inductive Closing (pool : ConstantPool) : List InnerClassDraft → List AttributeDraft → Prop
  | none : Closing pool [] []
  | table {entries : List InnerClassDraft} {nameIndex : UInt16} : entries ≠ [] →
    pool.HasText nameIndex AttributeKind.innerClasses.name →
    Closing pool entries [⟨nameIndex, Layout.counted InnerClassDraft.layout entries⟩]

theorem close_spec {b : ClassBuilder} (hb : b.Sound)
    (hlength : (close b).2.draft.pool.slots.length ≤ 65534) :
    ∃ closing : List AttributeDraft,
      (close b).2.Sound ∧ Grows ((closing.map ClassPart.attr).foldl add b) (close b).2
        ∧ Closing (close b).2.draft.pool b.innerClasses closing := by
  let content := Layout.counted InnerClassDraft.layout b.innerClasses
  have hclose : close b = (if b.innerClasses.isEmpty then pure () else
      addAttribute AttributeKind.innerClasses.name content : Build Unit) b := rfl
  by_cases hentries : b.innerClasses = []
  · rw [hentries, List.isEmpty_nil, if_pos rfl] at hclose
    rw [hclose, hentries]
    exact ⟨[], hb, .refl b, .none⟩
  · rw [if_neg (by simpa using hentries)] at hclose
    rw [hclose] at hlength ⊢
    obtain ⟨additions, hsound, hgrows, hlasting⟩ :=
      emits_addAttribute content AttributeKind.innerClasses.short_name b hb
    obtain ⟨nameIndex, rfl, hname⟩ := hlasting _ List.prefix_rfl hlength
    exact ⟨[⟨nameIndex, content⟩], hsound, hgrows, .table hentries hname⟩

/-- Whether calls in a row stay within the class file format: each of them does, and what they make
together can be counted. -/
structure WithinFormat (name : String) (steps : List BuildStep) : Prop where
  name_short : Text.Short (Text.unitsOf name)
  steps_fit : ∀ step ∈ steps, step.Fits
  slots_le : (closed name steps).draft.pool.slots.length ≤ 65534
  fields_lt : (closed name steps).draft.fields.length < 65536
  methods_lt : (closed name steps).draft.methods.length < 65536
  attributes_lt : (closed name steps).draft.attributes.length < 65536
  innerClasses_lt : (closed name steps).innerClasses.length < 65536

/-- What is known of a closed builder in its own pool. -/
structure Assembled (name : String) (steps : List BuildStep) (thisClass superClass : UInt16)
    (additions : List Addition) (closing : List AttributeDraft) : Prop where
  sound : (closed name steps).Sound
  this_named : (closed name steps).draft.pool.HasClass thisClass name
  super_named : (closed name steps).draft.pool.HasClass superClass "java/lang/Object"
  answered : List.Forall₂ (BuildStep.Answers (closed name steps).draft.pool)
    (ClassBuilder.answers name steps) steps
  spelled : List.Forall₂ (Addition.Spells (closed name steps).draft.pool) additions
    (steps.flatMap BuildStep.declares)
  closes : Closing (closed name steps).draft.pool (additions.filterMap ClassPart.innerClass?)
    closing
  innerClasses_eq : (closed name steps).innerClasses = additions.filterMap ClassPart.innerClass?
  draft_eq : (closed name steps).draft = { emptyDraft with
    pool := (closed name steps).draft.pool
    flags := (additions.filterMap ClassPart.flags?).getLastD initialFlags
    thisClass, superClass
    fields := additions.filterMap ClassPart.field?
    methods := additions.filterMap ClassPart.method?
    attributes := additions.filterMap ClassPart.attr? ++ closing }

theorem WithinFormat.assembled {name : String} {steps : List BuildStep}
    (h : WithinFormat name steps) :
    ∃ thisClass superClass additions closing,
      Assembled name steps thisClass superClass additions closing := by
  obtain ⟨hsound, thisClass, superClass, hgrows, hnames⟩ := ofName_spec h.name_short
  obtain ⟨additions, hsound', hgrows', hrun⟩ := BuildStep.emits_runAll h.steps_fit _ hsound
  obtain ⟨closing, hsound'', hgrows'', hclosing⟩ := close_spec hsound' h.slots_le
  -- the additions of all calls and the last attribute make one list
  have hafter := (hgrows.foldl_add additions).trans hgrows'
  have htotal := (hafter.foldl_add (closing.map ClassPart.attr)).trans hgrows''
  rw [← List.foldl_append, foldl_add] at htotal
  have hslots := hgrows''.slots_of_foldl_add
  obtain ⟨hthis, hsuper⟩ :=
    hnames (closed name steps).draft.pool (hgrows'.slots_of_foldl_add.trans hslots) h.slots_le
  obtain ⟨hanswers, hspelled⟩ := hrun (closed name steps).draft.pool hslots h.slots_le
  rw [hafter.innerClasses, foldl_add] at hclosing
  have hinner : (additions ++ closing.map ClassPart.attr).filterMap ClassPart.innerClass?
      = additions.filterMap ClassPart.innerClass? := by
    simp [List.filterMap_map, Function.comp_def, ClassPart.innerClass?]
  have hdraft := htotal.draft
  simp only [List.filterMap_append, List.filterMap_map, Function.comp_def, ClassPart.flags?,
    ClassPart.field?, ClassPart.method?, ClassPart.attr?, List.filterMap_some,
    List.filterMap_eq_nil_iff.2 fun _ _ => rfl, List.append_nil] at hdraft
  exact ⟨thisClass, superClass, additions, closing, hsound'', hthis, hsuper, hanswers, hspelled,
    hclosing, htotal.innerClasses.trans hinner, hdraft⟩

/-- The entries of a table of inner classes are decoded as one attribute, if there are any. -/
theorem Closing.exists_table {pool : ConstantPool} {entries : List InnerClass}
    {closing : List AttributeDraft} (h : Closing pool (entries.map InnerClass.draft) closing)
    (hlength : entries.length < 65536) :
    ∃ table : AttributeTable, table.map Attribute.draft = closing
      ∧ (∀ a ∈ table, a.WellFormed pool) ∧ (∀ a ∈ table, a.name = AttributeKind.innerClasses.name)
      ∧ table.innerClasses = entries := by
  generalize hdrafts : entries.map InnerClass.draft = drafts at h
  cases h with
  | none =>
    rw [List.map_eq_nil_iff.1 hdrafts]
    exact ⟨[], rfl, nofun, nofun, rfl⟩
  | @table _ nameIndex _ hname =>
    let a : Attribute := ⟨nameIndex, AttributeKind.innerClasses.name, .innerClasses entries⟩
    have hblock : a.body.block = Layout.counted InnerClassDraft.layout drafts := by
      rw [← hdrafts, Layout.counted_map]
      rfl
    have hfits : a.body.Fits := by
      refine ⟨fun _ heq => by cases heq; exact hlength, ?_⟩
      show (Layout.counted InnerClass.layout entries).length < 4294967296
      rw [InnerClass.length_counted_layout]
      omega
    have hwf : a.WellFormed pool := Attribute.wellFormed_of_kind hname rfl hfits
    refine ⟨[a], ?_, ?_, ?_, rfl⟩
    · rw [← hblock]
      rfl
    · intro b hb
      rw [List.mem_singleton.1 hb]
      exact hwf
    · intro b hb
      rw [List.mem_singleton.1 hb]

end ClassBuilder

/-! ## What is read back -/

/-- Whether the attributes of a class show what was declared. Of several classes that are declared
to be around the class the first is found. -/
structure AttributeTable.Shows (pool : ConstantPool) (table : AttributeTable)
    (decls : List Declaration) : Prop where
  innerClasses : List.Forall₂ (InnerClass.Shows pool) table.innerClasses
    (decls.filterMap ClassPart.innerClass?)
  enclosing : ShowsEnclosing pool table.enclosingMethod?
    ((decls.filterMap ClassPart.attr?).findSome? AttributeDecl.enclosing?)
  blocks : ∀ blockName, AttributeKind.ofName? blockName = none → table.named blockName
    = ((decls.filterMap ClassPart.attr?).filterMap (AttributeDecl.block? blockName)).map
      AttributeBody.raw

/-- Whether a class file shows what was declared. Of several flags that are declared the last
count. -/
structure ClassFile.Shows (file : ClassFile) (name : String) (decls : List Declaration) :
    Prop where
  name_eq : file.name = .ok name
  superName_eq : file.pool.classNameAt file.superClass = .ok "java/lang/Object"
  version_eq : file.majorVersion = 52 ∧ file.minorVersion = 0
  interfaces_eq : file.interfaces = []
  flags_eq : file.flags.bits
    = (decls.filterMap ClassPart.flags?).getLastD ClassBuilder.initialFlags
  methods : List.Forall₂ (Member.Shows file.pool) file.methods
    (decls.filterMap ClassPart.method?)
  fields : List.Forall₂ (Member.Shows file.pool) file.fields (decls.filterMap ClassPart.field?)
  attributes : file.attributes.Shows file.pool decls

namespace ClassBuilder

variable {name : String} {steps : List BuildStep}

/-- The attributes of all calls and the last one make up a table that shows what the calls
declare. -/
theorem Assembled.exists_table {thisClass superClass : UInt16} {additions : List Addition}
    {closing : List AttributeDraft}
    (h : Assembled name steps thisClass superClass additions closing)
    (hlength : (closed name steps).innerClasses.length < 65536) :
    ∃ table : AttributeTable,
      table.map Attribute.draft = additions.filterMap ClassPart.attr? ++ closing
      ∧ (∀ a ∈ table, a.WellFormed (closed name steps).draft.pool)
      ∧ table.Shows (closed name steps).draft.pool (steps.flatMap BuildStep.declares) := by
  obtain ⟨front, hfront, hfront_wf, hfront_show⟩ := Addition.exists_attributes h.spelled
  obtain ⟨entries, hentries, hentries_show⟩ := Addition.exists_innerClasses h.spelled
  rw [h.innerClasses_eq, ← hentries, List.length_map] at hlength
  have hcloses := h.closes
  rw [← hentries] at hcloses
  obtain ⟨last, hlast, hlast_wf, hlast_name, hlast_entries⟩ := hcloses.exists_table hlength
  have hnamed : ∀ other, other ≠ AttributeKind.innerClasses.name →
      AttributeTable.named (front ++ last) other = AttributeTable.named front other := by
    intro other hother
    have hnone : AttributeTable.named last other = [] := by
      refine AttributeTable.named_eq_nil fun a ha heq => hother ?_
      rw [← heq, hlast_name a ha]
    rw [AttributeTable.named_append, hnone, List.append_nil]
  refine ⟨front ++ last, ?_, ?_, ?_, ?_, ?_⟩
  · rw [List.map_append, hfront, hlast]
  · intro a ha
    rcases List.mem_append.1 ha with ha | ha
    · exact hfront_wf a ha
    · exact hlast_wf a ha
  · have hnone := AttributeTable.named_innerClasses_of_shows hfront_wf hfront_show
    rw [AttributeTable.innerClasses, AttributeTable.named_append, hnone, List.nil_append,
      ← AttributeTable.innerClasses, hlast_entries]
    exact hentries_show
  · rw [AttributeTable.enclosingMethod?, hnamed _ (by decide), ← AttributeTable.enclosingMethod?]
    exact AttributeTable.enclosingMethod?_of_shows hfront_wf hfront_show
  · intro blockName hblock
    have hne : blockName ≠ AttributeKind.innerClasses.name := by
      intro heq
      rw [heq, AttributeKind.ofName?_name] at hblock
      contradiction
    rw [hnamed blockName hne]
    exact AttributeTable.named_of_shows hblock hfront_show

/-- What calls make together is a well-formed class file. -/
theorem WithinFormat.exists_file (h : WithinFormat name steps) :
    ∃ file : ClassFile, file.WellFormed ∧ file.draft = (closed name steps).draft
      ∧ file.Shows name (steps.flatMap BuildStep.declares)
      ∧ List.Forall₂ (BuildStep.Answers file.pool) (answers name steps) steps := by
  obtain ⟨thisClass, superClass, additions, closing, ha⟩ := h.assembled
  obtain ⟨methods, hmethods, hmethods_wf, hmethods_show⟩ := Addition.exists_methods ha.spelled
  obtain ⟨fields, hfields, hfields_wf, hfields_show⟩ := Addition.exists_fields ha.spelled
  obtain ⟨flags, hflags, hflags_show⟩ :=
    Addition.exists_flags ha.spelled ⟨initialFlags, by decide⟩
  obtain ⟨attributes, hattributes, hattributes_wf, hattributes_show⟩ :=
    ha.exists_table h.innerClasses_lt
  let file : ClassFile := {
    majorVersion := 52
    minorVersion := 0
    pool := (closed name steps).draft.pool
    flags, thisClass, superClass
    interfaces := []
    fields, methods, attributes }
  have hdraft : file.draft = (closed name steps).draft := by
    rw [ha.draft_eq, ← hflags, ← hfields, ← hmethods, ← hattributes]
    rfl
  have hfields_lt := h.fields_lt
  have hmethods_lt := h.methods_lt
  have hattributes_lt := h.attributes_lt
  rw [← hdraft, ClassFile.draft, List.length_map] at hfields_lt hmethods_lt hattributes_lt
  have hwf : file.WellFormed := {
    pool := ⟨h.slots_le, ha.sound.complete.paired, ha.sound.fits⟩
    interfaces_lt := Nat.zero_lt_succ _
    fields_lt := hfields_lt
    fields := hfields_wf
    methods_lt := hmethods_lt
    methods := hmethods_wf
    attributes := ⟨hattributes_lt, hattributes_wf⟩ }
  exact ⟨file, hwf, hdraft, ⟨ha.this_named.classNameAt_eq, ha.super_named.classNameAt_eq,
    ⟨rfl, rfl⟩, rfl, hflags_show, hmethods_show, hfields_show, hattributes_show⟩, ha.answered⟩

end ClassBuilder

/-- A well-formed class file is decoded from the bytes of its draft. -/
theorem ClassFile.ofBytes_layout_draft {file : ClassFile} {d : ClassDraft} (hwf : file.WellFormed)
    (hdraft : file.draft = d) : ofBytes d.layout = .ok file := by
  have h := reads hwf []
  rw [List.append_nil, layout, hdraft] at h
  rw [ofBytes, h]

/-- **Decoding undoes building.** Whatever is told to a builder within the format, its bytes are a
class file that shows it, and every index that was handed out on the way stands for what it was
asked for. -/
theorem ClassFile.ofBytes_build {name : String} {steps : List BuildStep}
    (h : ClassBuilder.WithinFormat name steps) :
    ∃ file, ofBytes (ClassBuilder.after name steps).build = .ok file
      ∧ file.Shows name (steps.flatMap BuildStep.declares)
      ∧ List.Forall₂ (BuildStep.Answers file.pool) (ClassBuilder.answers name steps) steps := by
  obtain ⟨file, hwf, hdraft, hshows, hanswers⟩ := h.exists_file
  exact ⟨file, ofBytes_layout_draft hwf hdraft, hshows, hanswers⟩

/-- Calls of every sort, some of them for what is there already. -/
def BuildStep.samples : List BuildStep :=
  [.utf8 "run", .classRef "a/Outer", .constant (.double 0x7ff8000000000001),
    .stringOfUnits [0xd800], .setFlags 0x0001, .setFlags 0x0031, .method 0x0004 "run" "()V",
    .nativeMethod "run" "(J)V", .staticNativeMethod "é" "()I", .field 0x0002 "x" "La/Outer;",
    .constantField "LIMIT" "J" (.long (-1)),
    .constantField "NAME" "Ljava/lang/String;" (.string "run"),
    .innerClass "a/Outer$Inner" (some "a/Outer") (some "Inner") 0x0008,
    .innerClass "a/Outer$1" none none 0, .enclosingClass "a/Outer", .enclosingClass "a/Other",
    .attr "SourceFile" [0x00, 0x01], .utf8 "run"]

theorem BuildStep.samples_withinFormat :
    ClassBuilder.WithinFormat "a/Outer$Inner" BuildStep.samples where
  name_short := by decide +kernel
  steps_fit := by decide +kernel
  slots_le := by decide +kernel
  fields_lt := by decide +kernel
  methods_lt := by decide +kernel
  attributes_lt := by decide +kernel
  innerClasses_lt := by decide +kernel

theorem ClassFile.ofBytes_build_of_samples :
    ClassBuilder.WithinFormat "a/Outer$Inner" BuildStep.samples
      ∧ ∃ file, ofBytes (ClassBuilder.after "a/Outer$Inner" BuildStep.samples).build = .ok file
        ∧ file.Shows "a/Outer$Inner" (BuildStep.samples.flatMap BuildStep.declares)
        ∧ List.Forall₂ (BuildStep.Answers file.pool)
          (ClassBuilder.answers "a/Outer$Inner" BuildStep.samples) BuildStep.samples :=
  ⟨BuildStep.samples_withinFormat, ofBytes_build BuildStep.samples_withinFormat⟩

end NativeHeaders
