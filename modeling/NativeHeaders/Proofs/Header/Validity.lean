import NativeHeaders.Proofs.ClassFile.Interning
import NativeHeaders.Proofs.ClassModel.Reading
import NativeHeaders.Proofs.Header.Ambiguity

/-!
# What reading a class file makes sure of

The descriptor of a method is read twice: when the class is read, and once more when a header is
made. The first time every method is looked at, so that the second time nothing can go wrong, and
after a class was read its header can only fail because of two methods that would be linked under
one symbol (`reading_validates`). Whether a method is native plays no part in the first reading, so
neither does it in the errors that come from there.
-/

set_option autoImplicit false

namespace NativeHeaders

namespace ClassFile

/-! ## Descriptors -/

/-- The descriptor of a method that was read. -/
theorem parse_of_readMethod {pool : ConstantPool} {className : String} {method : Method}
    {m : MethodModel} (h : readMethod pool className method = .ok m) :
    ∃ parsed, MethodDescriptor.parse m.descriptor = .ok parsed := by
  rw [readMethod_eq] at h
  split at h
  · contradiction
  · split at h
    · contradiction
    · split at h
      · contradiction
      · rename_i parsed hparsed
        rw [← Except.ok.inj h]
        exact ⟨parsed, hparsed⟩

/-- **Every method of a class that was read has a descriptor.** -/
theorem parse_of_model {file : ClassFile} {c : ClassModel} (h : file.model = .ok c) :
    ∀ m ∈ c.methods, ∃ parsed, MethodDescriptor.parse m.descriptor = .ok parsed := by
  obtain ⟨-, -, hmethods, -⟩ := model_eq_ok_iff.1 h
  intro m hm
  obtain ⟨method, -, hread⟩ := exists_of_mapM_eq_ok hmethods hm
  exact parse_of_readMethod hread

/-! ## Flags -/

/-- A class file with other flags on its methods. -/
def withMethodFlags (file : ClassFile) (flags : Method → FlagSet .ofMethod) : ClassFile :=
  { file with methods := file.methods.map fun method => { method with flags := flags method } }

/-- Why a method cannot be read: its flags are not asked for. -/
theorem failure?_readMethod (pool : ConstantPool) (className : String) (method : Method) :
    failure? (readMethod pool className method) =
      match Generated.lookup className (pool.textAt method.nameIndex) with
      | .error e => some e
      | .ok name =>
        match Generated.lookup className (pool.textAt method.descriptorIndex) with
        | .error e => some e
        | .ok descriptor =>
          (failure? (MethodDescriptor.parse descriptor)).map
            (GenerationError.ofDescriptor className name descriptor) := by
  rw [readMethod_eq]
  rcases Generated.lookup className (pool.textAt method.nameIndex) with e | name
  · rfl
  · rcases Generated.lookup className (pool.textAt method.descriptorIndex) with e | descriptor
    · rfl
    · simp only
      rcases MethodDescriptor.parse descriptor with e | parsed
      · rfl
      · rfl

/-- Why a class cannot be read: what its methods are like is not asked for. -/
theorem failure?_model (file : ClassFile) :
    failure? file.model =
      match Generated.lookup unknownName file.name with
      | .error e => some e
      | .ok name =>
        match file.enclosing name with
        | .error e => some e
        | .ok _ =>
          match file.methods.findSome? fun method =>
            failure? (readMethod file.pool name method) with
          | some e => some e
          | none => (failure? (readConstants file.pool file.fields)).map fun flaw =>
            .malformedClass name (.badConstant flaw) := by
  rw [model_eq]
  rcases Generated.lookup unknownName file.name with e | name
  · rfl
  · simp only
    rcases file.enclosing name with e | enclosing
    · rfl
    · simp only [← failure?_mapM]
      rcases file.methods.mapM (readMethod file.pool name) with e | methods
      · rfl
      · simp only [failure?_ok]
        rcases readConstants file.pool file.fields with flaw | constants
        · rfl
        · rfl

/-- **The flags of methods play no part in the errors of reading.** -/
theorem failure?_model_withMethodFlags (file : ClassFile) (flags : Method → FlagSet .ofMethod) :
    failure? (file.withMethodFlags flags).model = failure? file.model := by
  have hname : (file.withMethodFlags flags).name = file.name := rfl
  have henclosing : (file.withMethodFlags flags).enclosing = file.enclosing := rfl
  have hmethods : ∀ name, ((file.withMethodFlags flags).methods.findSome? fun method =>
        failure? (readMethod file.pool name method))
      = file.methods.findSome? fun method => failure? (readMethod file.pool name method) := by
    intro name
    rw [withMethodFlags, List.findSome?_map]
    apply congrArg fun flaw => file.methods.findSome? flaw
    funext method
    rw [Function.comp_apply, failure?_readMethod, failure?_readMethod]
  rw [failure?_model, failure?_model, hname, henclosing]
  simp only [withMethodFlags] at hmethods ⊢
  simp only [hmethods]

/-! ## A class with one method -/

/-- The file of a class `p/Q` that declares one method. -/
def declaring (flags : FlagSet .ofMethod) (name descriptor : String) : ClassFile where
  majorVersion := 52
  minorVersion := 0
  pool := ⟨[.utf8 (Text.unitsOf "p/Q"), .classRef 1, .utf8 (Text.unitsOf "java/lang/Object"),
    .classRef 3, .utf8 (Text.unitsOf name), .utf8 (Text.unitsOf descriptor)]⟩
  flags := specimen.flags
  thisClass := 2
  superClass := 4
  interfaces := []
  fields := []
  methods := [⟨flags, 5, 6, []⟩]
  attributes := []

theorem readMethod_declaring (flags : FlagSet .ofMethod) (name descriptor : String) :
    readMethod (declaring flags name descriptor).pool "p/Q" ⟨flags, 5, 6, []⟩ =
      match MethodDescriptor.parse descriptor with
      | .error e => .error (GenerationError.ofDescriptor "p/Q" name descriptor e)
      | .ok _ => .ok ⟨name, descriptor, flags.has FlagSet.nativeFlag, flags.has FlagSet.staticFlag,
          flags.has FlagSet.publicFlag, flags.has FlagSet.protectedFlag⟩ := by
  have hname : (declaring flags name descriptor).pool.textAt 5 = .ok name :=
    ConstantPool.textAt_eq rfl
  have hdescriptor : (declaring flags name descriptor).pool.textAt 6 = .ok descriptor :=
    ConstantPool.textAt_eq rfl
  rw [readMethod_eq, hname, hdescriptor]
  rfl

theorem model_declaring (flags : FlagSet .ofMethod) (name descriptor : String) :
    (declaring flags name descriptor).model =
      match MethodDescriptor.parse descriptor with
      | .error e => .error (GenerationError.ofDescriptor "p/Q" name descriptor e)
      | .ok _ => .ok ⟨"p/Q", [], [⟨name, descriptor, flags.has FlagSet.nativeFlag,
          flags.has FlagSet.staticFlag, flags.has FlagSet.publicFlag,
          flags.has FlagSet.protectedFlag⟩], []⟩ := by
  have hname : (declaring flags name descriptor).name = .ok "p/Q" :=
    ConstantPool.HasClass.classNameAt_eq ⟨1, rfl, rfl⟩
  have henclosing : (declaring flags name descriptor).enclosing "p/Q" = .ok [] := rfl
  have hmethods : (declaring flags name descriptor).methods = [⟨flags, 5, 6, []⟩] := rfl
  rw [model_eq, hname]
  simp only [Generated.lookup, henclosing, hmethods, mapM_cons_except, readMethod_declaring]
  rcases MethodDescriptor.parse descriptor with e | parsed
  · rfl
  · rfl

end ClassFile

namespace Header

/-- What is read can be turned into a header, unless two symbols clash. -/
theorem ofClass_of_model {file : ClassFile} {c : ClassModel} (h : file.model = .ok c)
    (settings : Settings) :
    (∃ header?, ofClass settings c = .ok header?)
      ∨ ∃ method symbol first second,
        ofClass settings c = .error (.ambiguousSymbol c.name method symbol first second) := by
  have hreadable : ∀ d ∈ c.nativeDecls, ∃ m, MethodDescriptor.parse d.descriptor = .ok m := by
    intro d hd
    obtain ⟨m, hm, rfl⟩ := List.mem_map.1 hd
    exact ClassFile.parse_of_model h m (List.mem_filter.1 hm).1
  obtain ⟨prototypes, hprototypes⟩ := exists_prototypesOf_of_readable hreadable
  rcases hclass : ofClass settings c with e | header?
  · right
    obtain ⟨front, p, middle, q, back, -, -, -, rfl⟩ :=
      clash?_eq_some ((ofClass_eq_error_iff hprototypes).1 hclass)
    exact ⟨_, _, _, _, rfl⟩
  · exact Or.inl ⟨header?, rfl⟩

/-- **Reading validates what analysis needs.** If a class can be read from a file, however the parts
of the file fit together, then the descriptor of each of its methods has a signature, and whatever
the settings are its header can only fail because two symbols clash. All other errors come from
reading, and they stay whatever the flags of the methods are. -/
theorem reading_validates (file : ClassFile) :
    (∀ c, file.model = .ok c →
      (∀ m ∈ c.methods,
        ∃ signature, Signature.ofDescriptor m.descriptor m.isStatic = .ok signature)
      ∧ ∀ settings, (∃ header?, ofClass settings c = .ok header?)
        ∨ ∃ method symbol first second,
          ofClass settings c = .error (.ambiguousSymbol c.name method symbol first second))
    ∧ (∀ settings e, ofClassFile settings file = .error e →
        file.model = .error e
          ∨ ∃ className method symbol first second,
            e = .ambiguousSymbol className method symbol first second)
    ∧ ∀ e, file.model = .error e → ∀ settings flags,
        ofClassFile settings (file.withMethodFlags flags) = .error e := by
  refine ⟨?_, ?_, ?_⟩
  · intro c hmodel
    refine ⟨?_, ofClass_of_model hmodel⟩
    intro m hm
    obtain ⟨parsed, hparsed⟩ := ClassFile.parse_of_model hmodel m hm
    rw [Signature.ofDescriptor, hparsed]
    exact ⟨_, rfl⟩
  · intro settings e he
    rcases hmodel : file.model with e' | c
    · rw [ofClassFile, hmodel] at he
      have hfailed : (.error e' : Generated (Option Header)) = .error e := he
      rw [Except.error.inj hfailed]
      exact Or.inl rfl
    · rw [ofClassFile, hmodel] at he
      have hclass : ofClass settings c = .error e := he
      right
      rcases ofClass_of_model hmodel settings with
        ⟨header?, hok⟩ | ⟨method, symbol, first, second, herror⟩
      · rw [hok] at hclass
        contradiction
      · rw [herror, Except.error.injEq] at hclass
        exact ⟨c.name, method, symbol, first, second, hclass.symm⟩
  · intro e hmodel settings flags
    have hfailure := ClassFile.failure?_model_withMethodFlags file flags
    rw [hmodel, failure?_error, failure?_eq_some_iff] at hfailure
    rw [ofClassFile, hfailure]
    rfl

/-- The descriptor of a readable method has a signature. A parameter without a value is an error of
the class, and stays one where the method is not native. -/
theorem reading_validates_of_declaring :
    (∃ c, (ClassFile.declaring ⟨0x0100, by decide⟩ "f" "()V").model = .ok c
      ∧ ∀ m ∈ c.methods,
        ∃ signature, Signature.ofDescriptor m.descriptor m.isStatic = .ok signature)
    ∧ ∀ settings, ofClassFile settings
        ((ClassFile.declaring ⟨0x0100, by decide⟩ "f" "(V)V").withMethodFlags
          fun _ => ⟨0, by decide⟩)
      = .error (.unsupportedDescriptor "p/Q" "f" 'V' "(V)V") := by
  have hgood : MethodDescriptor.parse "()V" = .ok ⟨[], .void⟩ :=
    MethodDescriptor.parse_eq_ok_iff.2 ⟨by decide, by decide⟩
  have hbad : MethodDescriptor.parse "(V)V" = .error (.unknownTypeCode 'V') :=
    Descriptor.parse_error_of_parametersAt (Descriptor.parametersAt_void 1 0 [')', 'V'])
  have hread := ClassFile.model_declaring ⟨0x0100, by decide⟩ "f" "()V"
  have hflaw := ClassFile.model_declaring ⟨0x0100, by decide⟩ "f" "(V)V"
  rw [hgood] at hread
  rw [hbad] at hflaw
  refine ⟨⟨_, hread, ((reading_validates _).1 _ hread).1⟩, ?_⟩
  intro settings
  exact (reading_validates _).2.2 _ hflaw settings _

end Header

end NativeHeaders
