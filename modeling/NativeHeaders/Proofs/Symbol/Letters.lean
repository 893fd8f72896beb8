import Mathlib.Data.Bool.AllAny
import NativeHeaders.Symbol.Link

/-!
# The letters of symbols

Whatever stands in the names of classes, methods and fields, what is made of them holds letters,
digits and `_` only, all of them ASCII.
-/

set_option autoImplicit false

namespace NativeHeaders

open Text (Units)

/-- The characters that C identifiers consist of. -/
def IsIdentifierChar (c : Char) : Prop := c.isAlphanum = true ∨ c = '_'

instance (c : Char) : Decidable (IsIdentifierChar c) := inferInstanceAs (Decidable (_ ∨ _))

theorem isAlphanum_hexDigit : ∀ n : Nat, n < 16 → (Text.hexDigit n).isAlphanum = true := by
  decide

theorem isAlphanum_of_mem_fixedHex {width n : Nat} {c : Char} (h : c ∈ Text.fixedHex width n) :
    c.isAlphanum = true := by
  induction width generalizing n with
  | zero => simp [Text.fixedHex] at h
  | succ width ih =>
    rw [Text.fixedHex, List.mem_append, List.mem_singleton] at h
    rcases h with hmem | rfl
    · exact ih hmem
    · exact isAlphanum_hexDigit _ (Nat.mod_lt _ (by decide))

namespace Symbol

theorem isIdentifierChar_of_mem_escapeNumber {u : UInt16} {c : Char} (h : c ∈ escapeNumber u) :
    IsIdentifierChar c := by
  simp only [escapeNumber, List.mem_cons] at h
  rcases h with rfl | rfl | hmem
  · decide
  · decide
  · exact Or.inl (isAlphanum_of_mem_fixedHex hmem)

theorem isIdentifierChar_of_mem_escapeUnit {opening : Bool} {u : UInt16} {c : Char}
    (h : c ∈ escapeUnit opening u) : IsIdentifierChar c := by
  have hpair : ∀ d, IsIdentifierChar d → c ∈ ['_', d] → IsIdentifierChar c := by
    intro d hd hmem
    simp only [List.mem_cons, List.not_mem_nil, or_false] at hmem
    rcases hmem with rfl | rfl
    · decide
    · exact hd
  unfold escapeUnit at h
  split at h
  · exact isIdentifierChar_of_mem_escapeNumber h
  · split at h
    · exact hpair '1' (by decide) h
    split at h
    · exact hpair '2' (by decide) h
    split at h
    · exact hpair '3' (by decide) h
    split at h
    · rename_i hplain
      rw [Bool.and_eq_true] at hplain
      rw [List.mem_singleton] at h
      rw [h]
      exact Or.inl hplain.1
    · exact isIdentifierChar_of_mem_escapeNumber h

theorem isIdentifierChar_of_mem_escape {opening : Bool} {us : Units} {c : Char}
    (h : c ∈ escape opening us) : IsIdentifierChar c := by
  induction us generalizing opening with
  | nil => simp [escape] at h
  | cons u us ih =>
    rw [escape] at h
    split at h
    · rw [List.mem_cons] at h
      rcases h with rfl | hmem
      · decide
      · exact ih hmem
    · rw [List.mem_append] at h
      rcases h with hunit | hmem
      · exact isIdentifierChar_of_mem_escapeUnit hunit
      · exact ih hmem

/-- The letters of an escaped name. -/
theorem isIdentifierChar_of_mem_escapeName {name : String} {c : Char}
    (h : c ∈ (escapeName name).toList) : IsIdentifierChar c := by
  rw [escapeName, String.toList_ofList] at h
  exact isIdentifierChar_of_mem_escape h

/-- The letters of the escaped name of a field. -/
theorem isIdentifierChar_of_mem_escapeFieldName {name : String} {c : Char}
    (h : c ∈ (escapeFieldName name).toList) : IsIdentifierChar c := by
  rw [escapeFieldName, String.toList_ofList, List.mem_flatMap] at h
  obtain ⟨u, -, hmem⟩ := h
  unfold escapeFieldUnit at hmem
  split at hmem
  · exact isIdentifierChar_of_mem_escapeNumber hmem
  · rename_i d hd
    by_cases hplain : (d == '_' || d.isAlphanum) = true
    · rw [if_pos hplain, List.mem_singleton] at hmem
      rw [Bool.or_eq_true, beq_iff_eq] at hplain
      rw [hmem]
      exact hplain.symm
    · rw [if_neg hplain] at hmem
      exact isIdentifierChar_of_mem_escapeNumber hmem

/-- The letters of the symbol of a native method. -/
theorem isIdentifierChar_of_mem_fullName_link {className method descriptor : String}
    {overloaded : Bool} {c : Char}
    (h : c ∈ (link className method descriptor overloaded).fullName.toList) :
    IsIdentifierChar c := by
  simp only [link, fullName, String.toList_append, List.mem_append] at h
  rcases h with (((hopening | hclass) | hunderscore) | hmethod) | hsuffix
  · exact List.all_iff_forall_prop.1 (by decide) c hopening
  · exact isIdentifierChar_of_mem_escapeName hclass
  · exact List.all_iff_forall_prop.1 (by decide) c hunderscore
  · exact isIdentifierChar_of_mem_escapeName hmethod
  · rcases overloaded with _ | _
    · simp at hsuffix
    · simp only [if_true, Option.getD_some, String.toList_append, List.mem_append] at hsuffix
      rcases hsuffix with hseparator | hparameters
      · exact List.all_iff_forall_prop.1 (by decide) c hseparator
      · exact isIdentifierChar_of_mem_escapeName hparameters

end Symbol

end NativeHeaders
