import NativeHeaders.ClassModel.Reading

/-!
# Reading a class, step by step

Reading asks for the name of the class, for the classes around it, for its methods and for its
constants, and stops at the first that cannot be had. Here the steps are written out, so that what
is proved about one of them need not go through the others: a class is read just when each of its
four parts is (`model_eq_ok_iff`).
-/

set_option autoImplicit false

namespace NativeHeaders

namespace ClassFile

/-- The texts of a method are looked up before its descriptor is read. -/
theorem readMethod_eq (pool : ConstantPool) (className : String) (method : Method) :
    readMethod pool className method =
      match Generated.lookup className (pool.textAt method.nameIndex) with
      | .error e => .error e
      | .ok name =>
        match Generated.lookup className (pool.textAt method.descriptorIndex) with
        | .error e => .error e
        | .ok descriptor =>
          match MethodDescriptor.parse descriptor with
          | .error e => .error (GenerationError.ofDescriptor className name descriptor e)
          | .ok _ => .ok ⟨name, descriptor, method.isNative, method.isStatic,
              method.flags.has FlagSet.publicFlag, method.flags.has FlagSet.protectedFlag⟩ := by
  unfold readMethod
  rcases Generated.lookup className (pool.textAt method.nameIndex) with e | name
  · rfl
  · rcases Generated.lookup className (pool.textAt method.descriptorIndex) with e | descriptor
    · rfl
    · simp only [bind, Except.bind]
      rcases MethodDescriptor.parse descriptor with e | parsed
      · rfl
      · rfl

/-- The parts of a class are read in this order, and the first that cannot be read decides the
error. -/
theorem model_eq (file : ClassFile) :
    file.model =
      match Generated.lookup unknownName file.name with
      | .error e => .error e
      | .ok name =>
        match file.enclosing name with
        | .error e => .error e
        | .ok enclosing =>
          match file.methods.mapM (readMethod file.pool name) with
          | .error e => .error e
          | .ok methods =>
            match readConstants file.pool file.fields with
            | .error flaw => .error (.malformedClass name (.badConstant flaw))
            | .ok constants => .ok ⟨name, enclosing, methods, constants⟩ := by
  unfold model
  rcases Generated.lookup unknownName file.name with e | name
  · rfl
  · simp only [bind, Except.bind]
    rcases file.enclosing name with e | enclosing
    · rfl
    · simp only
      rcases file.methods.mapM (readMethod file.pool name) with e | methods
      · rfl
      · simp only
        rcases readConstants file.pool file.fields with flaw | constants
        · rfl
        · rfl

/-- A class is read just when all its parts are. -/
theorem model_eq_ok_iff {file : ClassFile} {c : ClassModel} :
    file.model = .ok c ↔
      file.name = .ok c.name ∧ file.enclosing c.name = .ok c.enclosing
        ∧ file.methods.mapM (readMethod file.pool c.name) = .ok c.methods
        ∧ readConstants file.pool file.fields = .ok c.constants := by
  constructor
  · intro h
    rw [model_eq] at h
    cases hname : file.name with
    | error e =>
      rw [hname] at h
      contradiction
    | ok name =>
      rw [hname] at h
      simp only [Generated.lookup] at h
      split at h
      · contradiction
      · rename_i enclosing henclosing
        split at h
        · contradiction
        · rename_i methods hmethods
          split at h
          · contradiction
          · rename_i constants hconstants
            obtain rfl := Except.ok.inj h
            exact ⟨rfl, henclosing, hmethods, hconstants⟩
  · rintro ⟨hname, henclosing, hmethods, hconstants⟩
    rw [model_eq, hname]
    simp only [Generated.lookup, henclosing, hmethods, hconstants]

end ClassFile

end NativeHeaders
