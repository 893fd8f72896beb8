import Mathlib.Data.Bool.AllAny
import NativeHeaders.ClassModel.Literal
import NativeHeaders.Proofs.Text.Digits

/-!
# What literals consist of

A literal is a numeral with its suffix, but for the floating-point values that are not finite. These
are quotients of two numerals in brackets, of which there are six.
-/

set_option autoImplicit false

namespace NativeHeaders

/-- The characters of numerals and their suffixes. -/
def IsNumeralChar (c : Char) : Prop := c.isDigit = true ∨ c ∈ ['-', '.', 'E', 'L', 'f']

instance (c : Char) : Decidable (IsNumeralChar c) := inferInstanceAs (Decidable (_ ∨ _))

theorem isNumeralChar_of_mem_toString {n : Int} {c : Char} (h : c ∈ (toString n).toList) :
    IsNumeralChar c := by
  rw [Text.toList_toString_int, Text.signed, List.mem_append] at h
  rcases h with hminus | hdigit
  · split at hminus
    · rw [List.mem_singleton.1 hminus]
      decide
    · contradiction
  · exact Or.inl (Text.allDigits_toDigits _ c hdigit)

namespace Decimal

namespace Numeral

theorem isNumeralChar_of_mem_text {n : Numeral} {c : Char} (h : c ∈ n.text) : IsNumeralChar c :=
  Or.inl (Text.allDigits_toDigits n.digits c h)

theorem isNumeralChar_of_mem_orZero {cs : List Char} (hcs : ∀ c ∈ cs, IsNumeralChar c) {c : Char}
    (h : c ∈ orZero cs) : IsNumeralChar c := by
  unfold orZero at h
  split at h
  · rw [List.mem_singleton] at h
    rw [h]
    decide
  · exact hcs c h

theorem isNumeralChar_of_mem_positional {n : Numeral} {c : Char} (h : c ∈ n.positional) :
    IsNumeralChar c := by
  have hpadded : ∀ (front back : Nat), ∀ c ∈ List.replicate front '0'
      ++ (n.text ++ List.replicate back '0'), IsNumeralChar c := by
    intro front back c hc
    simp only [List.mem_append, List.mem_replicate] at hc
    rcases hc with ⟨-, rfl⟩ | hdigit | ⟨-, rfl⟩
    · decide
    · exact isNumeralChar_of_mem_text hdigit
    · decide
  simp only [positional, List.mem_append, List.mem_cons] at h
  rcases h with htake | rfl | hzero
  · exact hpadded _ _ c (List.mem_of_mem_take htake)
  · decide
  · exact isNumeralChar_of_mem_orZero (fun c hc => hpadded _ _ c (List.mem_of_mem_drop hc)) hzero

theorem isNumeralChar_of_mem_scientific {n : Numeral} {c : Char} (h : c ∈ n.scientific) :
    IsNumeralChar c := by
  simp only [scientific, List.mem_append, List.mem_cons] at h
  rcases h with (htake | rfl | hzero) | rfl | hexponent
  · exact isNumeralChar_of_mem_text (List.mem_of_mem_take htake)
  · decide
  · exact isNumeralChar_of_mem_orZero
      (fun c hc => isNumeralChar_of_mem_text (List.mem_of_mem_drop hc)) hzero
  · decide
  · exact isNumeralChar_of_mem_toString hexponent

end Numeral

theorem Layout.isNumeralChar_of_mem_write {l : Layout} {f : BinaryFormat} {negative : Bool}
    {m : Magnitude} {c : Char} (h : c ∈ l.write f negative m) : IsNumeralChar c := by
  simp only [write, List.mem_append] at h
  rcases h with hsign | hnumeral
  · rcases negative with _ | _
    · simp at hsign
    · simp only [if_true, List.mem_singleton] at hsign
      rw [hsign]
      decide
  · split at hnumeral
    · exact Numeral.isNumeralChar_of_mem_positional hnumeral
    · exact Numeral.isNumeralChar_of_mem_scientific hnumeral

end Decimal

namespace ConstantValue

/-- The literals of what is not finite, for a suffix. -/
def quotients (suffix : String) : List String :=
  ["(0.0" ++ suffix ++ "/0.0" ++ suffix ++ ")", "(1.0" ++ suffix ++ "/0.0" ++ suffix ++ ")",
    "(-1.0" ++ suffix ++ "/0.0" ++ suffix ++ ")"]

theorem floatLiteral_cases (suffix : String) (hsuffix : ∀ c ∈ suffix.toList, IsNumeralChar c)
    (f : Decimal.BinaryFormat) (bits : Nat) :
    (∀ c ∈ (floatLiteral suffix f bits).toList, IsNumeralChar c)
      ∨ floatLiteral suffix f bits ∈ quotients suffix := by
  unfold floatLiteral
  split
  · exact Or.inr (by simp [quotients])
  · exact Or.inr (by simp [quotients])
  · exact Or.inr (by simp [quotients])
  · left
    intro c hc
    rw [String.toList_append, String.toList_ofList, List.mem_append] at hc
    rcases hc with hnumeral | hmem
    · exact Decimal.Layout.isNumeralChar_of_mem_write hnumeral
    · exact hsuffix c hmem

/-- **What a literal consists of.** -/
theorem literal_cases (value : ConstantValue) :
    (∀ c ∈ value.literal.toList, IsNumeralChar c)
      ∨ value.literal ∈ quotients "f" ++ quotients "" := by
  have hinteger : ∀ (n : Int) (suffix : String), (∀ c ∈ suffix.toList, IsNumeralChar c) →
      ∀ c ∈ (toString n ++ suffix).toList, IsNumeralChar c := by
    intro n suffix hsuffix c hc
    rw [String.toList_append, List.mem_append] at hc
    rcases hc with hdigit | hmem
    · exact isNumeralChar_of_mem_toString hdigit
    · exact hsuffix c hmem
  rw [List.mem_append]
  cases value with
  | int value => exact Or.inl (hinteger _ "L" (List.all_iff_forall_prop.1 (by decide)))
  | long value => exact Or.inl (hinteger _ "LL" (List.all_iff_forall_prop.1 (by decide)))
  | float bits =>
    have hsuffix : ∀ c ∈ "f".toList, IsNumeralChar c := List.all_iff_forall_prop.1 (by decide)
    rcases floatLiteral_cases "f" hsuffix .binary32 bits.toNat with h | h
    · exact Or.inl h
    · exact Or.inr (Or.inl h)
  | double bits =>
    have hsuffix : ∀ c ∈ "".toList, IsNumeralChar c := List.all_iff_forall_prop.1 (by decide)
    rcases floatLiteral_cases "" hsuffix .binary64 bits.toNat with h | h
    · exact Or.inl h
    · exact Or.inr (Or.inr h)

end ConstantValue

end NativeHeaders
