import NativeHeaders.Proofs.Header.Validity

/-!
# Which fields are constants

A field becomes a constant of the class when it is static and final, has a value and is of a
primitive type. Reading the fields asks this question piece by piece and may fail between two
pieces, so that what is wrong with a field only counts if no earlier answer settled the matter.

Here every field is one of three things, and each says what reading does with it
(`field_cases`): it declares a constant (`Declares`), it is passed over (`Ignored`), or the
reading fails at it (`Flawed`). None of the three asks for an order of questions. The constants of
a class are then what the first kind declares, in field order, and the reading of a class whose
other parts are sound fails just when there is a field of the last kind (`constants_of_fields`).
-/

set_option autoImplicit false

namespace NativeHeaders

namespace ClassFile

variable {pool : ConstantPool} {field : Field} {fields : List Field}

/-! ## Values of a type -/

/-- Whether a pool entry holds a value of a primitive type, bit for bit. The types narrower than 32
bits have their values stored as integers. -/
inductive Holds : Primitive → PoolEntry → ConstantValue → Prop
  | int {type : Primitive} {value : Int32}
      (h : type ∈ [Primitive.boolean, .byte, .char, .short, .int]) :
      Holds type (.integer value) (.int value)
  | long {value : Int64} : Holds .long (.long value) (.long value)
  | float {bits : UInt32} : Holds .float (.float bits) (.float bits)
  | double {bits : UInt64} : Holds .double (.double bits) (.double bits)

theorem constantValue?_eq_some_iff {type : Primitive} {entry : PoolEntry} {value : ConstantValue} :
    constantValue? type entry = some value ↔ Holds type entry value := by
  constructor
  · intro h
    unfold constantValue? at h
    split at h <;> cases h <;> constructor <;> decide
  · intro h
    cases h with
    | @int type value hmem =>
      simp only [List.mem_cons, List.not_mem_nil, or_false] at hmem
      rcases hmem with rfl | rfl | rfl | rfl | rfl <;> rfl
    | long => rfl
    | float => rfl
    | double => rfl

/-! ## Kinds of fields -/

/-- Whether a field is static and final and has its value at an index of the pool. -/
structure HasValue (field : Field) (index : UInt16) : Prop where
  isStatic : field.flags.has FlagSet.staticFlag = true
  isFinal : field.flags.has FlagSet.finalFlag = true
  value_eq : field.attributes.constantValue? = some index

/-- Whether a field declares a constant. -/
def Declares (pool : ConstantPool) (field : Field) (k : Constant) : Prop :=
  ∃ index descriptor type entry, HasValue field index
    ∧ pool.textAt field.nameIndex = .ok k.name
    ∧ pool.textAt field.descriptorIndex = .ok descriptor
    ∧ FieldType.parse descriptor = .ok (.primitive type)
    ∧ pool.entryAt index = .ok entry ∧ Holds type entry k.value

/-- Whether a field is passed over. Of a text or an array the index of the value does not matter. -/
inductive Ignored (pool : ConstantPool) (field : Field) : Prop
  | notStatic : field.flags.has FlagSet.staticFlag = false → Ignored pool field
  | notFinal : field.flags.has FlagSet.finalFlag = false → Ignored pool field
  | noValue : field.attributes.constantValue? = none → Ignored pool field
  | notPrimitive {name descriptor : String} {type : FieldType} :
      pool.textAt field.nameIndex = .ok name →
      pool.textAt field.descriptorIndex = .ok descriptor →
      FieldType.parse descriptor = .ok type → (∀ p, type ≠ .primitive p) → Ignored pool field

/-- Whether something is wrong with a field that should be a constant: its name or its descriptor
is not there, the descriptor is none, or the value is not there or of another type. -/
inductive Flawed (pool : ConstantPool) (field : Field) : Prop
  | name {index : UInt16} {e : ClassFileError} : HasValue field index →
      pool.textAt field.nameIndex = .error e → Flawed pool field
  | descriptor {index : UInt16} {e : ClassFileError} : HasValue field index →
      pool.textAt field.descriptorIndex = .error e → Flawed pool field
  | unreadable {index : UInt16} {descriptor : String} {e : DescriptorError} :
      HasValue field index → pool.textAt field.descriptorIndex = .ok descriptor →
      FieldType.parse descriptor = .error e → Flawed pool field
  | value {index : UInt16} {descriptor : String} {type : Primitive} : HasValue field index →
      pool.textAt field.descriptorIndex = .ok descriptor →
      FieldType.parse descriptor = .ok (.primitive type) →
      (∀ entry value, pool.entryAt index = .ok entry → ¬ Holds type entry value) →
      Flawed pool field

/-- The primitive type in the descriptor of a field, if it is there. -/
def primitiveOf? (pool : ConstantPool) (field : Field) : Option Primitive :=
  match pool.textAt field.descriptorIndex with
  | .error _ => none
  | .ok descriptor =>
    match FieldType.parse descriptor with
    | .ok (.primitive type) => some type
    | _ => none

/-- Whether a field is static and final, has a value and is of a primitive type. -/
def isPrimitiveConstant (pool : ConstantPool) (field : Field) : Bool :=
  field.flags.has FlagSet.staticFlag && field.flags.has FlagSet.finalFlag
    && field.attributes.constantValue?.isSome && (primitiveOf? pool field).isSome

/-! ## One field -/

/-- Two flags are set together just when both are. -/
theorem isStaticFinal_iff :
    field.isStaticFinal = true ↔ field.flags.has FlagSet.staticFlag = true
      ∧ field.flags.has FlagSet.finalFlag = true := by
  have hand : ∀ a b c : UInt16, a &&& (b ||| c) = (a &&& b) ||| (a &&& c) := fun a b c =>
    UInt16.toBitVec_inj.1 BitVec.and_or_distrib_left
  simp only [Member.isStaticFinal, FlagSet.has, beq_iff_eq]
  constructor
  · -- one flag is what is left of both when the other is masked out
    intro h
    constructor
    · calc field.flags.bits &&& FlagSet.staticFlag
          = field.flags.bits &&& (FlagSet.staticFlag ||| FlagSet.finalFlag)
              &&& FlagSet.staticFlag := by rw [UInt16.and_assoc]; rfl
        _ = FlagSet.staticFlag := by rw [h]; rfl
    · calc field.flags.bits &&& FlagSet.finalFlag
          = field.flags.bits &&& (FlagSet.staticFlag ||| FlagSet.finalFlag)
              &&& FlagSet.finalFlag := by rw [UInt16.and_assoc]; rfl
        _ = FlagSet.finalFlag := by rw [h]; rfl
  · rintro ⟨hstatic, hfinal⟩
    rw [hand, hstatic, hfinal]

/-- What reading the fields does at one of them. -/
def readField (pool : ConstantPool) (field : Field) : Except ConstantFlaw (Option Constant) :=
  if field.isStaticFinal then readConstant pool field else .ok none

theorem readConstants_cons :
    readConstants pool (field :: fields) =
      match readField pool field with
      | .error flaw => .error flaw
      | .ok found =>
        match readConstants pool fields with
        | .error flaw => .error flaw
        | .ok others => .ok (found.toList ++ others) := by
  rw [readConstants, readField]
  by_cases hfield : field.isStaticFinal = true
  · rw [if_pos hfield, if_pos hfield]
    cases readConstant pool field with
    | error flaw => rfl
    | ok found => cases readConstants pool fields <;> rfl
  · rw [if_neg hfield, if_neg hfield]
    cases readConstants pool fields <;> rfl

/-- The questions that are asked of a field with a value, in their order. -/
theorem readField_eq {index : UInt16} (h : HasValue field index) :
    readField pool field =
      match pool.textAt field.nameIndex with
      | .error e => .error (.unresolved e)
      | .ok name =>
        match pool.textAt field.descriptorIndex with
        | .error e => .error (.unresolved e)
        | .ok descriptor =>
          match FieldType.parse descriptor with
          | .error e => .error (.badDescriptor name descriptor e)
          | .ok (.primitive type) =>
            match pool.entryAt index with
            | .error e => .error (.unresolved e)
            | .ok entry =>
              match constantValue? type entry with
              | some value => .ok (some ⟨name, value⟩)
              | none => .error (.mismatched name descriptor)
          | .ok _ => .ok none := by
  rw [readField, if_pos (isStaticFinal_iff.2 ⟨h.isStatic, h.isFinal⟩), readConstant, h.value_eq]
  cases pool.textAt field.nameIndex with
  | error e => rfl
  | ok name =>
    cases pool.textAt field.descriptorIndex with
    | error e => rfl
    | ok descriptor =>
      simp only [constantLookup, bind, Except.bind]
      cases FieldType.parse descriptor with
      | error e => rfl
      | ok type =>
        cases type with
        | primitive type =>
          simp only
          cases pool.entryAt index with
          | error e => rfl
          | ok entry => cases constantValue? type entry <;> rfl
        | object className => rfl
        | array element => rfl

/-- What is not static and final with a value is passed over, and nothing is looked up for it. -/
theorem readField_of_not_hasValue (h : ∀ index, ¬ HasValue field index) :
    Ignored pool field ∧ readField pool field = .ok none := by
  rw [readField]
  by_cases hstaticFinal : field.isStaticFinal = true
  · obtain ⟨hstatic, hfinal⟩ := isStaticFinal_iff.1 hstaticFinal
    rw [if_pos hstaticFinal, readConstant]
    cases hvalue : field.attributes.constantValue? with
    | none => exact ⟨.noValue hvalue, rfl⟩
    | some index => exact absurd ⟨hstatic, hfinal, hvalue⟩ (h index)
  · refine ⟨?_, if_neg hstaticFinal⟩
    rw [isStaticFinal_iff, not_and_or, Bool.not_eq_true, Bool.not_eq_true] at hstaticFinal
    rcases hstaticFinal with hstatic | hfinal
    · exact .notStatic hstatic
    · exact .notFinal hfinal

/-- **A field is one of three things.** -/
theorem field_cases (pool : ConstantPool) (field : Field) :
    Ignored pool field ∨ (∃ k, Declares pool field k) ∨ Flawed pool field := by
  by_cases hvalue : ∃ index, HasValue field index
  · obtain ⟨index, hvalue⟩ := hvalue
    cases hname : pool.textAt field.nameIndex with
    | error e => exact Or.inr (Or.inr (.name hvalue hname))
    | ok name =>
      cases hdescriptor : pool.textAt field.descriptorIndex with
      | error e => exact Or.inr (Or.inr (.descriptor hvalue hdescriptor))
      | ok descriptor =>
        cases htype : FieldType.parse descriptor with
        | error e => exact Or.inr (Or.inr (.unreadable hvalue hdescriptor htype))
        | ok type =>
          cases type with
          | primitive type =>
            by_cases hholds : ∃ entry value, pool.entryAt index = .ok entry ∧ Holds type entry value
            · obtain ⟨entry, value, hentry, hholds⟩ := hholds
              exact Or.inr (Or.inl ⟨⟨name, value⟩, index, descriptor, type, entry, hvalue, hname,
                hdescriptor, htype, hentry, hholds⟩)
            · refine Or.inr (Or.inr (.value hvalue hdescriptor htype ?_))
              exact fun entry value hentry hh => hholds ⟨entry, value, hentry, hh⟩
          | object className =>
            exact Or.inl (.notPrimitive hname hdescriptor htype nofun)
          | array element => exact Or.inl (.notPrimitive hname hdescriptor htype nofun)
  · exact Or.inl (readField_of_not_hasValue (not_exists.1 hvalue)).1

theorem readField_of_ignored (h : Ignored pool field) : readField pool field = .ok none := by
  by_cases hvalue : ∃ index, HasValue field index
  · obtain ⟨index, hvalue⟩ := hvalue
    cases h with
    | notStatic hstatic => simp [hvalue.isStatic] at hstatic
    | notFinal hfinal => simp [hvalue.isFinal] at hfinal
    | noValue hnone => simp [hvalue.value_eq] at hnone
    | notPrimitive hname hdescriptor htype hne =>
      rw [readField_eq hvalue, hname, hdescriptor]
      simp only [htype]
  · have hnone : Ignored pool field ∧ readField pool field = .ok none :=
      readField_of_not_hasValue (not_exists.1 hvalue)
    exact hnone.2

theorem readField_of_declares {k : Constant} (h : Declares pool field k) :
    readField pool field = .ok (some k) := by
  obtain ⟨index, descriptor, type, entry, hvalue, hname, hdescriptor, htype, hentry, hholds⟩ := h
  rw [readField_eq hvalue, hname, hdescriptor]
  simp only [htype, hentry, constantValue?_eq_some_iff.2 hholds]

theorem readField_of_flawed (h : Flawed pool field) :
    ∃ flaw, readField pool field = .error flaw := by
  cases h with
  | name hvalue hname =>
    rw [readField_eq hvalue, hname]
    exact ⟨_, rfl⟩
  | descriptor hvalue hdescriptor =>
    -- the name is asked for first, but without it the reading fails too
    rw [readField_eq hvalue, hdescriptor]
    cases pool.textAt field.nameIndex with
    | error e => exact ⟨_, rfl⟩
    | ok name => exact ⟨_, rfl⟩
  | unreadable hvalue hdescriptor htype =>
    rw [readField_eq hvalue, hdescriptor]
    cases pool.textAt field.nameIndex with
    | error e => exact ⟨_, rfl⟩
    | ok name =>
      simp only [htype]
      exact ⟨_, rfl⟩
  | @value index descriptor type hvalue hdescriptor htype hnever =>
    rw [readField_eq hvalue, hdescriptor]
    cases pool.textAt field.nameIndex with
    | error e => exact ⟨_, rfl⟩
    | ok name =>
      simp only [htype]
      cases hentry : pool.entryAt index with
      | error e => exact ⟨_, rfl⟩
      | ok entry =>
        cases hfound : constantValue? type entry with
        | none =>
          simp only [hfound]
          exact ⟨_, rfl⟩
        | some found =>
          exact absurd (constantValue?_eq_some_iff.1 hfound) (hnever entry found hentry)

/-! ## All fields -/

theorem primitiveOf?_eq_some_iff {type : Primitive} :
    primitiveOf? pool field = some type ↔ ∃ descriptor,
      pool.textAt field.descriptorIndex = .ok descriptor
        ∧ FieldType.parse descriptor = .ok (.primitive type) := by
  rw [primitiveOf?]
  cases pool.textAt field.descriptorIndex with
  | error e => simp
  | ok descriptor =>
    simp only [Except.ok.injEq, exists_eq_left']
    cases FieldType.parse descriptor with
    | error e => simp
    | ok type' => cases type' <;> simp

theorem isPrimitiveConstant_of_declares {k : Constant} (h : Declares pool field k) :
    isPrimitiveConstant pool field = true := by
  obtain ⟨index, descriptor, type, entry, hvalue, -, hdescriptor, htype, -, -⟩ := h
  have hprimitive := primitiveOf?_eq_some_iff.2 ⟨descriptor, hdescriptor, htype⟩
  simp [isPrimitiveConstant, hvalue.isStatic, hvalue.isFinal, hvalue.value_eq, hprimitive]

theorem isPrimitiveConstant_of_ignored (h : Ignored pool field) :
    ¬ isPrimitiveConstant pool field = true := by
  intro hconstant
  simp only [isPrimitiveConstant, Bool.and_eq_true, Option.isSome_iff_exists] at hconstant
  obtain ⟨⟨⟨hstatic, hfinal⟩, index, hvalue⟩, type, hprimitive⟩ := hconstant
  cases h with
  | notStatic hnot => simp [hstatic] at hnot
  | notFinal hnot => simp [hfinal] at hnot
  | noValue hnone => simp [hvalue] at hnone
  | notPrimitive hname hdescriptor htype hne =>
    obtain ⟨descriptor, hdescriptor', htype'⟩ := primitiveOf?_eq_some_iff.1 hprimitive
    rw [hdescriptor, Except.ok.injEq] at hdescriptor'
    subst hdescriptor'
    rw [htype, Except.ok.injEq] at htype'
    exact hne type htype'

theorem readConstants_cons_of_ignored (h : Ignored pool field) :
    readConstants pool (field :: fields) = readConstants pool fields := by
  rw [readConstants_cons, readField_of_ignored h]
  cases readConstants pool fields <;> rfl

theorem readConstants_cons_of_declares {k : Constant} (h : Declares pool field k) :
    readConstants pool (field :: fields) =
      match readConstants pool fields with
      | .error flaw => .error flaw
      | .ok others => .ok (k :: others) := by
  rw [readConstants_cons, readField_of_declares h]
  cases readConstants pool fields <;> rfl

theorem readConstants_cons_of_flawed (h : Flawed pool field) :
    ∃ flaw, readConstants pool (field :: fields) = .error flaw := by
  obtain ⟨flaw, hflaw⟩ := readField_of_flawed h
  rw [readConstants_cons, hflaw]
  exact ⟨flaw, rfl⟩

/-- What is read is what the fields declare, in field order. -/
theorem forall₂_declares_of_readConstants {constants : List Constant}
    (h : readConstants pool fields = .ok constants) :
    List.Forall₂ (Declares pool) (fields.filter (isPrimitiveConstant pool)) constants := by
  induction fields generalizing constants with
  | nil =>
    obtain rfl := Except.ok.inj h
    exact .nil
  | cons field fields ih =>
    rcases field_cases pool field with hignored | ⟨k, hdeclares⟩ | hflawed
    · rw [readConstants_cons_of_ignored hignored] at h
      rw [List.filter_cons_of_neg (isPrimitiveConstant_of_ignored hignored)]
      exact ih h
    · rw [readConstants_cons_of_declares hdeclares] at h
      rw [List.filter_cons_of_pos (isPrimitiveConstant_of_declares hdeclares)]
      split at h
      · contradiction
      · rename_i others hothers
        obtain rfl := Except.ok.inj h
        exact .cons hdeclares (ih hothers)
    · obtain ⟨flaw, hflaw⟩ := readConstants_cons_of_flawed hflawed
      rw [hflaw] at h
      contradiction

/-- Reading the fields fails where something is wrong with one of them, and only there. -/
theorem exists_error_readConstants_iff :
    (∃ flaw, readConstants pool fields = .error flaw) ↔ ∃ field ∈ fields, Flawed pool field := by
  induction fields with
  | nil => simp [readConstants]
  | cons field fields ih =>
    simp only [List.exists_mem_cons_iff]
    rcases field_cases pool field with hignored | ⟨k, hdeclares⟩ | hflawed
    · have hsound : ¬ Flawed pool field := by
        intro hflawed
        obtain ⟨flaw, hflaw⟩ := readField_of_flawed hflawed
        rw [readField_of_ignored hignored] at hflaw
        contradiction
      rw [readConstants_cons_of_ignored hignored, ih]
      simp [hsound]
    · have hsound : ¬ Flawed pool field := by
        intro hflawed
        obtain ⟨flaw, hflaw⟩ := readField_of_flawed hflawed
        rw [readField_of_declares hdeclares] at hflaw
        contradiction
      rw [readConstants_cons_of_declares hdeclares, ← ih]
      simp only [hsound, false_or]
      cases readConstants pool fields <;> simp
    · exact iff_of_true (readConstants_cons_of_flawed hflawed) (Or.inl hflawed)

theorem readConstants_append_of_ignored (h : Ignored pool field) (front back : List Field) :
    readConstants pool (front ++ field :: back) = readConstants pool (front ++ back) := by
  induction front with
  | nil => exact readConstants_cons_of_ignored h
  | cons other front ih => rw [List.cons_append, readConstants_cons, ih, List.cons_append,
      readConstants_cons]

/-! ## The class -/

/-- **The constants of a class are what its fields declare.** Of a class that is read they are one
for each field that is static and final, has a value and is of a primitive type: in field order,
with the name of the field and the value bit for bit. If the other parts of the class can be read,
the class cannot just when there is a field with such flags and a value, and something is wrong with
its name, its descriptor or, if it is primitive, its value; then that is the error. The fields that
are passed over may as well not be there, whatever the index of a value of theirs. -/
theorem constants_of_fields (file : ClassFile) :
    (∀ c, file.model = .ok c →
      List.Forall₂ (Declares file.pool) (file.fields.filter (isPrimitiveConstant file.pool))
        c.constants)
    ∧ (∀ name enclosing methods, file.name = .ok name → file.enclosing name = .ok enclosing →
      file.methods.mapM (readMethod file.pool name) = .ok methods →
        ((∃ e, file.model = .error e) ↔ ∃ field ∈ file.fields, Flawed file.pool field)
          ∧ ∀ e, file.model = .error e → ∃ flaw, e = .malformedClass name (.badConstant flaw))
    ∧ ∀ front field back, file.fields = front ++ field :: back → Ignored file.pool field →
      file.model = { file with fields := front ++ back }.model := by
  refine ⟨?_, ?_, ?_⟩
  · intro c h
    obtain ⟨-, -, -, hconstants⟩ := model_eq_ok_iff.1 h
    exact forall₂_declares_of_readConstants hconstants
  · intro name enclosing methods hname henclosing hmethods
    have hlookup : Generated.lookup unknownName file.name = .ok name := by
      rw [hname, Generated.lookup]
    rw [model_eq, hlookup, ← exists_error_readConstants_iff]
    simp only [henclosing, hmethods]
    cases readConstants file.pool file.fields with
    | error flaw => simp
    | ok constants => simp
  · intro front field back hfields hignored
    rw [model_eq, model_eq, hfields, readConstants_append_of_ignored hignored]
    rfl

/-- The file of a class `p/Q` with some fields. Its pool has the texts `N`, `J`, `[I` and `I` at the
indices 4, 5, 8 and 9 and a `long` at 6, whose second slot is 7. -/
def withFields (fields : List Field) : ClassFile where
  majorVersion := 52
  minorVersion := 0
  pool := ⟨[.utf8 (Text.unitsOf "p/Q"), .classRef 1, .utf8 (Text.unitsOf "ConstantValue"),
    .utf8 (Text.unitsOf "N"), .utf8 (Text.unitsOf "J"), .long (-5), .unusable,
    .utf8 (Text.unitsOf "[I"), .utf8 (Text.unitsOf "I")]⟩
  flags := specimen.flags
  thisClass := 2
  superClass := 0
  interfaces := []
  fields
  methods := []
  attributes := []

/-- A static final field `N` with a descriptor and a value. -/
def finalField (descriptorIndex value : UInt16) : Field :=
  ⟨⟨0x0018, by decide⟩, 4, descriptorIndex, [⟨3, "ConstantValue", .constantValue value⟩]⟩

/-- An array may have its value anywhere, also in the second half of a `long`. An `int` may not have
it in a `long`. -/
theorem constants_of_fields_of_long :
    (∃ c, (withFields [finalField 5 6, finalField 8 7]).model = .ok c
      ∧ List.Forall₂ (Declares (withFields []).pool) [finalField 5 6] c.constants)
    ∧ (∃ e flaw, (withFields [finalField 5 6, finalField 9 6]).model = .error e
      ∧ e = .malformedClass "p/Q" (.badConstant flaw))
    ∧ (withFields [finalField 5 6, finalField 8 7]).model
      = (withFields [finalField 5 6]).model := by
  have hname : (withFields []).pool.textAt 4 = .ok "N" := ConstantPool.textAt_eq rfl
  have hint : (withFields []).pool.textAt 9 = .ok "I" := ConstantPool.textAt_eq rfl
  have harray : (withFields []).pool.textAt 8 = .ok "[I" := ConstantPool.textAt_eq rfl
  refine ⟨?_, ?_, ?_⟩
  · have hmodel : (withFields [finalField 5 6, finalField 8 7]).model
        = .ok ⟨"p/Q", [], [], [⟨"N", .long (-5)⟩]⟩ := by decide +kernel
    have hfilter : (withFields [finalField 5 6, finalField 8 7]).fields.filter
        (isPrimitiveConstant (withFields []).pool) = [finalField 5 6] := by decide +kernel
    refine ⟨_, hmodel, ?_⟩
    rw [← hfilter]
    exact (constants_of_fields _).1 _ hmodel
  · have hclass : (withFields [finalField 5 6, finalField 9 6]).name = .ok "p/Q" :=
      ConstantPool.HasClass.classNameAt_eq ⟨1, rfl, rfl⟩
    have hparse : FieldType.parse "I" = .ok (.primitive .int) :=
      FieldType.parse_eq_ok_iff.2 ⟨by decide, by decide⟩
    have hlong : (withFields []).pool.entryAt 6 = .ok (.long (-5)) := rfl
    have hflawed : Flawed (withFields []).pool (finalField 9 6) := by
      refine .value ⟨by decide, by decide, rfl⟩ hint hparse ?_
      intro entry value hentry hholds
      rw [hlong, Except.ok.injEq] at hentry
      subst hentry
      cases hholds
    obtain ⟨hiff, herror⟩ := (constants_of_fields _).2.1 _ _ _ hclass rfl rfl
    obtain ⟨e, he⟩ := hiff.2 ⟨finalField 9 6, by decide, hflawed⟩
    obtain ⟨flaw, hflaw⟩ := herror e he
    exact ⟨e, flaw, he, hflaw⟩
  · have hparse : FieldType.parse "[I" = .ok (.array (.primitive .int)) :=
      FieldType.parse_eq_ok_iff.2 ⟨by decide, by decide⟩
    exact (constants_of_fields _).2.2 [finalField 5 6] (finalField 8 7) [] rfl
      (.notPrimitive hname harray hparse nofun)

end ClassFile

end NativeHeaders
