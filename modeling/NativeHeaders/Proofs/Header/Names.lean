import NativeHeaders.Proofs.Header.Prototypes
import NativeHeaders.Proofs.Header.Writing
import NativeHeaders.Proofs.Symbol.Injectivity
import NativeHeaders.Proofs.Symbol.Letters

/-!
# What headers are called

A header is called after its class, and its name leads down by one from the directory that it is
written to (`isName_escapeName`). Escaping tells class names apart up to the shape of their
separators, so it is only headers of one class that share a file (`fileName_eq_iff`), and when they
do, every one of them is found there just when they have one text (`holds_all_iff`).
-/

set_option autoImplicit false

namespace NativeHeaders

/-! ## Texts and bytes -/

theorem toList_loop (bytes : ByteArray) (i : Nat) (front : List UInt8) :
    ByteArray.toList.loop bytes i front = front.reverse ++ bytes.data.toList.drop i := by
  fun_induction ByteArray.toList.loop bytes i front with
  | case1 i front hlt ih =>
    have hi : i < bytes.data.toList.length := by simpa using hlt
    have hget : bytes.get! i = bytes.data.toList[i] := by
      rw [ByteArray.get!, Array.getElem_toList]
      exact getElem!_pos bytes.data i hlt
    rw [ih, List.reverse_cons, List.append_assoc, List.drop_eq_getElem_cons hi, hget,
      List.singleton_append]
  | case2 i front hle =>
    have hlength : bytes.data.toList.length ≤ i := by simpa using hle
    rw [List.drop_eq_nil_of_le hlength, List.append_nil]

theorem Target.bytesOf_eq (s : String) : Target.bytesOf s = s.toUTF8.data.toList := by
  rw [Target.bytesOf, ByteArray.toList, toList_loop]
  rfl

/-- A text is determined by its bytes. -/
theorem Target.bytesOf_inj {s t : String} : Target.bytesOf s = Target.bytesOf t ↔ s = t := by
  constructor
  · intro h
    rw [Target.bytesOf_eq, Target.bytesOf_eq, Array.toList_inj] at h
    exact String.toByteArray_inj.1 (ByteArray.ext h)
  · intro h
    rw [h]

/-- A file stores one text only. -/
theorem FileTree.Holds.text_eq {t : FileTree} {p : Path} {text other : String}
    (h : t.Holds (p, text)) (hother : t.Holds (p, other)) : text = other := by
  have hsame : some (Target.bytesOf text) = some (Target.bytesOf other) := h.symm.trans hother
  rwa [Option.some.injEq, Target.bytesOf_inj] at hsame

/-- The null device stores nothing. -/
theorem FileTree.Holds.not_isNull {t : FileTree} {file : Path × String} (h : t.Holds file) :
    ¬ t.IsNull file.1 := by
  intro hnull
  rw [FileTree.Holds, FileTree.stored?, hnull] at h
  contradiction

/-! ## File names -/

namespace Header

theorem isIdentifierChar_or_of_mem {name : String} {c : Char}
    (h : c ∈ (Symbol.escapeName name ++ ".h").toList) : IsIdentifierChar c ∨ c = '.' := by
  rw [String.toList_append, List.mem_append] at h
  rcases h with h | h
  · exact Or.inl (Symbol.isIdentifierChar_of_mem_escapeName h)
  · have hextension : c = '.' ∨ c = 'h' := by simpa using h
    rcases hextension with rfl | rfl
    · exact Or.inr rfl
    · exact Or.inl (by decide)

/-- What a header is called leads down by one. -/
theorem isName_escapeName (name : String) : Path.IsName (Symbol.escapeName name ++ ".h") := by
  have hletter : 'h' ∈ (Symbol.escapeName name ++ ".h").toList := by simp
  refine ⟨?_, ?_, ?_⟩
  · intro hslash
    exact absurd (isIdentifierChar_or_of_mem hslash) (by decide)
  · rw [Path.isIdle, Bool.or_eq_false_iff, beq_eq_false_iff_ne, beq_eq_false_iff_ne]
    refine ⟨?_, ?_⟩
    · intro hempty
      rw [hempty] at hletter
      contradiction
    · intro hdot
      rw [hdot] at hletter
      revert hletter
      decide
  · intro hup
    rw [hup] at hletter
    revert hletter
    decide

theorem fileName_of_ofClass {settings : Settings} {c : ClassModel} {header : Header}
    (h : ofClass settings c = .ok (some header)) :
    header.fileName = Symbol.escapeName header.className ++ ".h" := by
  obtain ⟨prototypes, -, rfl⟩ := exists_of_ofClass h
  rfl

theorem fileName_of_ofClassFile {settings : Settings} {file : ClassFile} {header : Header}
    (h : ofClassFile settings file = .ok (some header)) :
    header.fileName = Symbol.escapeName header.className ++ ".h" := by
  obtain ⟨c, -, hclass⟩ := exists_of_ofClassFile h
  exact fileName_of_ofClass hclass

/-- **Headers of different classes have different files.** -/
theorem fileName_eq_iff {header other : Header}
    (h : header.fileName = Symbol.escapeName header.className ++ ".h")
    (hother : other.fileName = Symbol.escapeName other.className ++ ".h") :
    header.fileName = other.fileName
      ↔ ClassModel.internalName header.className = ClassModel.internalName other.className := by
  rw [h, hother, ← String.toList_inj, String.toList_append, String.toList_append,
    List.append_cancel_right_eq, Symbol.escapeName, Symbol.escapeName, String.toList_ofList,
    String.toList_ofList, Symbol.escape_eq_iff, ← Symbol.unitsOf_internalName,
    ← Symbol.unitsOf_internalName, Text.unitsOf_inj]

end Header

/-! ## Headers that share a file -/

namespace Target

variable {t' : FileTree} {headers : List Header}

theorem mem_of_lastNamed {name : String} {last : Header} (h : lastNamed headers name = some last) :
    last ∈ headers ∧ last.fileName = name := by
  have hmem := List.mem_of_getLast? h
  rw [List.mem_filter, decide_eq_true_eq] at hmem
  exact hmem

theorem exists_lastNamed {header : Header} (h : header ∈ headers) :
    ∃ last, lastNamed headers header.fileName = some last := by
  rw [← Option.ne_none_iff_exists']
  intro hnone
  exact lastNamed_eq_none_iff.1 hnone header h rfl

/-- Nothing is lost exactly when headers of one file have one text and no file is the null
device. -/
theorem holds_all_iff {directory : Path}
    (hlast : ∀ header ∈ headers, ∀ last, lastNamed headers header.fileName = some last →
      t'.Settled (Path.join directory header.fileName, last.text)) :
    (∀ header ∈ headers, t'.Holds (Path.join directory header.fileName, header.text))
      ↔ (∀ header ∈ headers, ¬ t'.IsNull (Path.join directory header.fileName))
        ∧ ∀ header ∈ headers, ∀ other ∈ headers, header.fileName = other.fileName →
          header.text = other.text := by
  constructor
  · intro hkept
    refine ⟨fun header hheader => (hkept header hheader).not_isNull, ?_⟩
    intro header hheader other hother hname
    have hholds := hkept header hheader
    rw [hname] at hholds
    exact hholds.text_eq (hkept other hother)
  · rintro ⟨hdevice, hagree⟩ header hheader
    obtain ⟨last, hlastNamed⟩ := exists_lastNamed hheader
    obtain ⟨hmem, hname⟩ := mem_of_lastNamed hlastNamed
    have hsettled := hlast header hheader last hlastNamed
    rw [hagree last hmem header hheader hname] at hsettled
    exact hsettled.holds_or_isNull.resolve_right (hdevice header hheader)

end Target

end NativeHeaders
