import NativeHeaders.Proofs.Header.Validity

/-!
# Texts that name nothing

The pool of a class file holds the texts of its strings among those that are names. A header is
made of names only, so it is the same whatever the other texts are, and so is the error where there
is no header.

Two pools that differ in one text are told apart by lookups of that text alone
(`ConstantPool.AlikeBut`). The entry itself is reached in more ways: the index of a class or of a
constant may be wrong and lead to a text. But then the error is that it is a text, and not which
one. So all that has to be known of the index is that no class, method or field takes a name or a
descriptor from it, and each step of the reading comes out the same.
-/

set_option autoImplicit false

namespace NativeHeaders

namespace ConstantPool

/-! ## Pools that differ in a text -/

/-- Whether two pools are alike in all entries but one, which is a text in both. -/
structure AlikeBut (i : UInt16) (pool pool' : ConstantPool) : Prop where
  text : ∃ units, pool.entryAt i = .ok (.utf8 units)
  text' : ∃ units, pool'.entryAt i = .ok (.utf8 units)
  others : ∀ j, j ≠ i → pool.entryAt j = pool'.entryAt j

/-- A pool with another text at an index. -/
def withText (pool : ConstantPool) (i : UInt16) (units : Text.Units) : ConstantPool :=
  ⟨pool.slots.set (i.toNat - 1) (.utf8 units)⟩

section WithText

variable {pool : ConstantPool} {i : UInt16}

theorem entryAt_withText_self {text : Text.Units} (h : pool.entryAt i = .ok (.utf8 text))
    (units : Text.Units) : (pool.withText i units).entryAt i = .ok (.utf8 units) := by
  obtain ⟨hpos, hslot, -⟩ := entryAt_eq_ok_iff.1 h
  have hlt := (List.getElem?_eq_some_iff.1 hslot).1
  apply entryAt_eq_ok_iff.2
  refine ⟨hpos, ?_, nofun⟩
  rw [withText, List.getElem?_set_self hlt]

theorem entryAt_withText_of_ne {j : UInt16} (hi : 1 ≤ i.toNat) (hj : j ≠ i)
    (units : Text.Units) : (pool.withText i units).entryAt j = pool.entryAt j := by
  unfold entryAt withText
  by_cases hzero : j = 0
  · rw [if_pos hzero, if_pos hzero]
  · have hj' : j.toNat ≠ i.toNat := fun heq => hj (UInt16.toNat_inj.1 heq)
    have hpos : j.toNat ≠ 0 := fun heq => hzero (UInt16.toNat_inj.1 heq)
    have hslot : i.toNat - 1 ≠ j.toNat - 1 := by omega
    rw [if_neg hzero, if_neg hzero, List.getElem?_set_ne hslot]

theorem alikeBut_withText {text : Text.Units} (h : pool.entryAt i = .ok (.utf8 text))
    (units : Text.Units) : AlikeBut i pool (pool.withText i units) where
  text := ⟨text, h⟩
  text' := ⟨units, entryAt_withText_self h units⟩
  others _ hj := (entryAt_withText_of_ne (entryAt_eq_ok_iff.1 h).1 hj units).symm

end WithText

namespace AlikeBut

variable {i : UInt16} {pool pool' : ConstantPool}

theorem textAt_eq (h : AlikeBut i pool pool') {j : UInt16} (hj : j ≠ i) :
    pool.textAt j = pool'.textAt j := by
  rw [textAt, textAt, unitsAt, unitsAt, h.others j hj]

/-- Where a class is looked up a text is an error, and a class does not take its name from the
index. -/
theorem classNameAt_eq (h : AlikeBut i pool pool') (hclass : .classRef i ∉ pool.slots)
    (j : UInt16) : pool.classNameAt j = pool'.classNameAt j := by
  unfold classNameAt
  by_cases hj : j = i
  · -- both lookups stop here, and the error tells the index and not the text
    obtain ⟨units, hunits⟩ := h.text
    obtain ⟨units', hunits'⟩ := h.text'
    rw [hj, hunits, hunits']
    rfl
  · rw [← h.others j hj]
    rcases hentry : pool.entryAt j with e | entry
    · rfl
    · have hmem : entry ∈ pool.slots := List.mem_of_getElem? (entryAt_eq_ok_iff.1 hentry).2.1
      cases entry with
      | classRef nameIndex =>
        -- the class has its name from another index, or else it would be listed
        apply h.textAt_eq
        rintro rfl
        exact hclass hmem
      | _ => rfl

end AlikeBut

end ConstantPool

open ConstantPool (AlikeBut)

namespace ClassFile

/-! ## The steps of the reading -/

/-- Whether no class, method or field takes a name or a descriptor from an index. -/
structure NamesNothing (file : ClassFile) (i : UInt16) : Prop where
  classes : .classRef i ∉ file.pool.slots
  methods : ∀ m ∈ file.methods, m.nameIndex ≠ i ∧ m.descriptorIndex ≠ i
  fields : ∀ m ∈ file.fields, m.nameIndex ≠ i ∧ m.descriptorIndex ≠ i

section Reading

variable {i : UInt16} {pool pool' : ConstantPool}

theorem nestingLinks_of_alikeBut (h : AlikeBut i pool pool') (hclass : .classRef i ∉ pool.slots)
    (entries : List InnerClass) : nestingLinks pool entries = nestingLinks pool' entries := by
  induction entries with
  | nil => rfl
  | cons entry entries ih =>
    unfold nestingLinks
    by_cases houter : entry.outerIndex = 0
    · rw [if_pos houter, if_pos houter, ih]
    · rw [if_neg houter, if_neg houter, h.classNameAt_eq hclass, h.classNameAt_eq hclass, ih]

theorem enclosing_of_alikeBut {file : ClassFile} (h : AlikeBut i file.pool pool')
    (hclass : .classRef i ∉ file.pool.slots) (name : String) :
    file.enclosing name = { file with pool := pool' }.enclosing name := by
  have hdirectly : file.directlyEnclosing = { file with pool := pool' }.directlyEnclosing := by
    funext links name
    unfold directlyEnclosing
    simp only [h.classNameAt_eq hclass]
  unfold enclosing
  simp only [nestingLinks_of_alikeBut h hclass, hdirectly]

theorem readMethod_of_alikeBut (h : AlikeBut i pool pool') {method : Method}
    (hmethod : method.nameIndex ≠ i ∧ method.descriptorIndex ≠ i) (className : String) :
    readMethod pool className method = readMethod pool' className method := by
  unfold readMethod
  rw [h.textAt_eq hmethod.1, h.textAt_eq hmethod.2]

/-- A text is a constant of no type. -/
theorem constantValue?_utf8 (type : Primitive) (units : Text.Units) :
    constantValue? type (.utf8 units) = none := by
  cases type <;> rfl

theorem readConstant_of_alikeBut (h : AlikeBut i pool pool') {field : Field}
    (hfield : field.nameIndex ≠ i ∧ field.descriptorIndex ≠ i) :
    readConstant pool field = readConstant pool' field := by
  unfold readConstant
  rcases field.attributes.constantValue? with _ | index
  · rfl
  rw [h.textAt_eq hfield.1, h.textAt_eq hfield.2]
  by_cases hindex : index = i
  · -- the value of a primitive constant is no text, and other constants are not looked up
    obtain ⟨units, hunits⟩ := h.text
    obtain ⟨units', hunits'⟩ := h.text'
    simp only [hindex, hunits, hunits', constantLookup, bind, Except.bind, constantValue?_utf8]
  · simp only [h.others index hindex]

theorem readConstants_of_alikeBut (h : AlikeBut i pool pool') {fields : List Field}
    (hfields : ∀ m ∈ fields, m.nameIndex ≠ i ∧ m.descriptorIndex ≠ i) :
    readConstants pool fields = readConstants pool' fields := by
  induction fields with
  | nil => rfl
  | cons field fields ih =>
    obtain ⟨hfield, hothers⟩ := List.forall_mem_cons.1 hfields
    unfold readConstants
    rw [readConstant_of_alikeBut h hfield, ih hothers]

/-- Each lookup on the way to the class comes out the same. -/
theorem model_of_alikeBut {file : ClassFile} (h : AlikeBut i file.pool pool')
    (hi : file.NamesNothing i) : file.model = { file with pool := pool' }.model := by
  have hname : file.name = { file with pool := pool' }.name :=
    h.classNameAt_eq hi.classes file.thisClass
  have hmethods : ∀ name, file.methods.mapM (readMethod file.pool name)
      = file.methods.mapM (readMethod pool' name) := by
    intro name
    apply mapM_congr
    intro method hmethod
    exact readMethod_of_alikeBut h (hi.methods method hmethod) name
  have hconstants := readConstants_of_alikeBut h hi.fields
  rw [model_eq, model_eq, hname]
  simp only [enclosing_of_alikeBut h hi.classes, hmethods, hconstants]

end Reading

/-- A class file with another text at an index of its pool. Its attributes keep the names that they
were read under. -/
def withText (file : ClassFile) (i : UInt16) (units : Text.Units) : ClassFile :=
  { file with pool := file.pool.withText i units }

end ClassFile

namespace Header

/-- **Texts that are no names do not show.** Whatever text stands at an index that names nothing,
and whether or not it is a string, the header is the same, or none, or the error is the same. -/
theorem ofClassFile_withText {file : ClassFile} {i : UInt16} {text : Text.Units}
    (htext : file.pool.entryAt i = .ok (.utf8 text)) (hi : file.NamesNothing i)
    (units : Text.Units) (settings : Settings) :
    ofClassFile settings (file.withText i units) = ofClassFile settings file := by
  have halike := ConstantPool.alikeBut_withText htext units
  have hmodel := ClassFile.model_of_alikeBut halike hi
  unfold ofClassFile
  rw [hmodel]
  rfl

/-- The file of a class with a static native method and a string of some units. -/
def holding (units : Text.Units) : ClassFile :=
  let file := ClassFile.declaring ⟨0x0119, by decide⟩ "f" "()V"
  { file with pool := ⟨file.pool.slots ++ [.utf8 units, .string 7]⟩ }

/-- A string may end in the middle of a pair. -/
theorem ofClassFile_withText_of_holding :
    (holding [0x0061]).pool.entryAt 7 = .ok (.utf8 [0x0061])
      ∧ (holding [0x0061]).NamesNothing 7
      ∧ Text.string? [0x0061, 0xd800] = none
      ∧ ofClassFile {} ((holding [0x0061]).withText 7 [0x0061, 0xd800])
        = ofClassFile {} (holding [0x0061]) := by
  have htext : (holding [0x0061]).pool.entryAt 7 = .ok (.utf8 [0x0061]) := by decide
  have hi : (holding [0x0061]).NamesNothing 7 := ⟨by decide, by decide, by decide⟩
  exact ⟨htext, hi, by decide, ofClassFile_withText htext hi _ _⟩

end Header

end NativeHeaders
