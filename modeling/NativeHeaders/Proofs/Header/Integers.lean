import Mathlib.Algebra.Ring.Int.Defs
import NativeHeaders.Proofs.ClassFile.Stored
import NativeHeaders.Proofs.ClassModel.Constants
import NativeHeaders.Proofs.Header.Prototypes
import NativeHeaders.Proofs.Text.Digits

/-!
# What integer macros mean in C

The literal of an integer constant is read back by the rules of C: the digits are a constant of
their own, octal behind a leading zero, and have to fit 64 bits with a sign; a minus is applied to
its value only then (`CInteger.value?`).

So a literal means what the class file stores, from the bytes of the pool to the header, but for one
number. The least integer of 64 bits is less by one than the negation of the greatest, and the
digits behind its minus do not fit (`integer_macros_mean_stored`).
-/

set_option autoImplicit false

namespace NativeHeaders

/-! ## Integer constants of C -/

namespace CInteger

/-- The base of a constant with some digits. -/
def base (digits : List Char) : Nat := if digits.head? = some '0' then 8 else 10

/-- The value of a constant: digits of its base, then a suffix of a type with a sign. It has none
unless it fits 64 bits with a sign. -/
def constant? (cs : List Char) : Option Nat :=
  let digits := cs.takeWhile Char.isDigit
  let value := Nat.ofDigitChars (base digits) digits 0
  if digits ≠ [] ∧ (digits.all fun c => decide (c.toNat - '0'.toNat < base digits)) = true
      ∧ cs.dropWhile Char.isDigit ∈ ["L".toList, "LL".toList] ∧ value < 2 ^ 63 then
    some value
  else none

/-- The value of a constant behind an optional minus. -/
def value? (cs : List Char) : Option Int :=
  let (negative, behind) := Text.splitSign cs
  (constant? behind).map (Text.applySign negative)

/-- A number is a constant when it fits. Zero is octal, and the same number. -/
theorem constant?_toDigits (n : Nat) {suffix : List Char}
    (hsuffix : suffix ∈ ["L".toList, "LL".toList]) :
    constant? (Nat.toDigits 10 n ++ suffix) = if n < 2 ^ 63 then some n else none := by
  have hnone : Text.NoDigitFirst suffix := by
    simp only [List.mem_cons, List.not_mem_nil, or_false] at hsuffix
    rcases hsuffix with rfl | rfl <;> decide
  obtain ⟨htake, hdrop⟩ := Text.span_digits (Text.allDigits_toDigits n) hnone
  have hread : Nat.ofDigitChars (base (Nat.toDigits 10 n)) (Nat.toDigits 10 n) 0 = n
      ∧ ((Nat.toDigits 10 n).all fun c =>
        decide (c.toNat - '0'.toNat < base (Nat.toDigits 10 n))) = true := by
    by_cases hn : n = 0
    · subst hn
      decide
    · rw [base, if_neg (mt Text.head?_toDigits_eq_zero_iff.1 hn), List.all_eq_true]
      refine ⟨Nat.ofDigitChars_ten_toDigits, fun c hc => decide_eq_true ?_⟩
      have hdigit := Char.isDigit_iff_toNat.1 (Text.allDigits_toDigits n c hc)
      have hnine : '9'.toNat = '0'.toNat + 9 := rfl
      omega
  obtain ⟨hvalue, hdigits⟩ := hread
  simp only [constant?, htake, hdrop, hvalue, ne_eq, Nat.toDigits_ne_nil, not_false_eq_true,
    true_and, hsuffix]
  by_cases hn : n < 2 ^ 63
  · rw [if_pos ⟨hdigits, hn⟩, if_pos hn]
  · rw [if_neg fun h => hn h.2, if_neg hn]

/-- A literal means the integer it is written for, unless the digits do not fit. -/
theorem value?_toString (n : Int) {suffix : List Char}
    (hsuffix : suffix ∈ ["L".toList, "LL".toList]) :
    value? ((toString n).toList ++ suffix) = if n.natAbs < 2 ^ 63 then some n else none := by
  rw [value?, Text.toList_toString_int,
    Text.splitSign_signed _ (Text.allDigits_toDigits n.natAbs) Nat.toDigits_ne_nil]
  dsimp only
  rw [constant?_toDigits n.natAbs hsuffix]
  by_cases hn : n.natAbs < 2 ^ 63
  · rw [if_pos hn, if_pos hn, Option.map_some, Text.applySign_natAbs]
  · rw [if_neg hn, if_neg hn, Option.map_none]

end CInteger

/-! ## Literals -/

namespace ConstantValue

theorem value?_literal_int (value : Int32) :
    CInteger.value? (int value).literal.toList = some value.toInt := by
  have hlow := value.le_toInt
  have hhigh := value.toInt_lt
  rw [literal, String.toList_append, CInteger.value?_toString _ (by decide), if_pos (by omega)]

/-- The least integer of 64 bits is the one whose digits do not fit. -/
theorem value?_literal_long (value : Int64) :
    CInteger.value? (long value).literal.toList
      = if value.toInt = -2 ^ 63 then none else some value.toInt := by
  have hlow := value.le_toInt
  have hhigh := value.toInt_lt
  rw [literal, String.toList_append, CInteger.value?_toString _ (by decide)]
  by_cases hleast : value.toInt = -2 ^ 63
  · rw [if_pos hleast, if_neg (by omega)]
  · rw [if_neg hleast, if_pos (by omega)]

end ConstantValue

/-! ## Macros -/

namespace Header

open ClassFile

/-- The tag and the length of the pool entries in which values of an integral type are stored. -/
def storage? : Primitive → Option (UInt8 × Nat)
  | .boolean | .byte | .char | .short | .int => some (3, 4)
  | .long => some (5, 8)
  | .float | .double => none

/-- Whether a literal is right for a field: if the field is of an integral type, the bytes of its
value stand at its index, and the literal is a constant of C with the value that they spell. The
least number of 64 bits is excepted, for which the literal is no constant. -/
def IsRightFor (bytes : Bytes) (pool : ConstantPool) (field : Field) (literal : String) : Prop :=
  ∀ type tag width, primitiveOf? pool field = some type → storage? type = some (tag, width) →
    ∃ index stored, HasValue field index ∧ stored.length = width
      ∧ StandsAt bytes index (tag :: stored)
      ∧ CInteger.value? literal.toList =
        if twosComplement stored = -2 ^ 63 then none else some (twosComplement stored)

theorem isRightFor_of_declares {bytes : Bytes} {file : ClassFile} {field : Field} {k : Constant}
    (hfile : ofBytes bytes = .ok file) (h : Declares file.pool field k) :
    IsRightFor bytes file.pool field k.value.literal := by
  intro type tag width htype hstorage
  obtain ⟨name, value⟩ := k
  obtain ⟨index, descriptor, type', entry, hvalue, -, hdescriptor, hparse, hentry, hholds⟩ := h
  have htype' := primitiveOf?_eq_some_iff.2 ⟨descriptor, hdescriptor, hparse⟩
  obtain rfl : type' = type := Option.some.inj (htype'.symm.trans htype)
  cases hholds with
  | @int type value hmem =>
    have hkind : some ((3 : UInt8), 4) = some (tag, width) := by
      simp only [List.mem_cons, List.not_mem_nil, or_false] at hmem
      rcases hmem with rfl | rfl | rfl | rfl | rfl <;> exact hstorage
    obtain ⟨rfl, rfl⟩ := Prod.mk.inj (Option.some.inj hkind)
    obtain ⟨stored, hlength, hstands, hstored⟩ := standsAt_integer hfile hentry
    refine ⟨index, stored, hvalue, hlength, hstands, ?_⟩
    -- 32 bits are too few for the number that is excepted
    have hlow := value.le_toInt
    rw [hstored, if_neg (by omega)]
    exact ConstantValue.value?_literal_int value
  | @long value =>
    obtain ⟨rfl, rfl⟩ := Prod.mk.inj (Option.some.inj hstorage)
    obtain ⟨stored, hlength, hstands, hstored⟩ := standsAt_long hfile hentry
    refine ⟨index, stored, hvalue, hlength, hstands, ?_⟩
    rw [hstored]
    exact ConstantValue.value?_literal_long value
  | float => contradiction
  | double => contradiction

/-- The line that defines a constant. -/
def defineLine (d : Definition) : String := "#define " ++ d.name ++ " " ++ d.literal ++ "\n"

theorem defineLine_infix {header : Header} {d : Definition} (h : d ∈ header.constants) :
    (defineLine d).toList <:+: header.text.toList := by
  have hsegment : Segment.code ("#undef " ++ d.name ++ "\n#define " ++ d.name ++ " " ++ d.literal
      ++ "\n") ∈ preamble ++ header.segments := by
    have hmem : Segment.code _ ∈ header.constants.flatMap Definition.segments :=
      List.mem_flatMap.2 ⟨d, h, List.mem_singleton_self _⟩
    simp only [segments, List.mem_append]
    exact Or.inr (Or.inl (Or.inl (Or.inr hmem)))
  have hline : (defineLine d).toList <:+ ("#undef " ++ d.name ++ "\n#define " ++ d.name ++ " "
      ++ d.literal ++ "\n").toList :=
    ⟨("#undef " ++ d.name ++ "\n").toList, by simp [defineLine]⟩
  rw [text, textOf, String.toList_join, List.flatMap_def]
  apply hline.isInfix.trans
  apply List.infix_of_mem_flatten
  exact List.mem_map_of_mem (List.mem_map_of_mem hsegment)

/-- **Integer macros mean what is stored, but for the least number of 64 bits.** In the header of a
class file each constant field has its macro, in field order. If the field is of an integral type,
the literal in the line that defines the macro is read by C as the integer that stands in the bytes
of the class file. Only the least `long` has a literal that is no constant of C, since C reads the
digits before the minus. -/
theorem integer_macros_mean_stored {bytes : Bytes} {file : ClassFile} {settings : Settings}
    {header : Header} (hfile : ofBytes bytes = .ok file)
    (hconstants : settings.emitConstants = true)
    (hheader : ofClassFile settings file = .ok (some header)) :
    List.Forall₂ (fun field definition => IsRightFor bytes file.pool field definition.literal)
        (file.fields.filter (isPrimitiveConstant file.pool)) header.constants
      ∧ ∀ definition ∈ header.constants,
        (defineLine definition).toList <:+: header.text.toList := by
  refine ⟨?_, fun definition hmem => defineLine_infix hmem⟩
  obtain ⟨c, hmodel, hclass⟩ := exists_of_ofClassFile hheader
  obtain ⟨-, -, -, hread⟩ := model_eq_ok_iff.1 hmodel
  obtain ⟨prototypes, -, rfl⟩ := exists_of_ofClass hclass
  have hdeclares := forall₂_declares_of_readConstants hread
  dsimp only
  rw [if_pos hconstants, List.forall₂_map_right_iff]
  exact hdeclares.imp fun field k hfield => isRightFor_of_declares hfile hfield

/-- A class with the least numbers of 64 and of 32 bits. -/
def leastNumbers : ClassFile where
  majorVersion := 52
  minorVersion := 0
  pool := ⟨[.utf8 (Text.unitsOf "p/Q"), .classRef 1, .utf8 (Text.unitsOf "ConstantValue"),
    .utf8 (Text.unitsOf "M"), .utf8 (Text.unitsOf "J"), .long Int64.minValue, .unusable,
    .utf8 (Text.unitsOf "N"), .utf8 (Text.unitsOf "I"), .integer Int32.minValue]⟩
  flags := specimen.flags
  thisClass := 2
  superClass := 0
  interfaces := []
  fields := [finalField 5 6, { finalField 9 10 with nameIndex := 8 }]
  methods := []
  attributes := []

theorem ofBytes_leastNumbers : ofBytes leastNumbers.layout = .ok leastNumbers := by
  decide +kernel

theorem ofClassFile_leastNumbers :
    ofClassFile { emitEmpty := true } leastNumbers = .ok (some { empty "p/Q" "p_Q" with
      constants := [⟨"p_Q_M", "-9223372036854775808LL"⟩, ⟨"p_Q_N", "-2147483648L"⟩] }) := by
  decide +kernel

theorem integer_macros_mean_stored_of_least :
    ofBytes leastNumbers.layout = .ok leastNumbers
      ∧ ∃ header, ofClassFile { emitEmpty := true } leastNumbers = .ok (some header)
        ∧ List.Forall₂ (fun field definition =>
            IsRightFor leastNumbers.layout leastNumbers.pool field definition.literal)
          leastNumbers.fields header.constants
        ∧ ∀ definition ∈ header.constants,
          (defineLine definition).toList <:+: header.text.toList := by
  have hfilter : leastNumbers.fields.filter (isPrimitiveConstant leastNumbers.pool)
      = leastNumbers.fields := by decide +kernel
  have hright := integer_macros_mean_stored ofBytes_leastNumbers rfl ofClassFile_leastNumbers
  rw [hfilter] at hright
  exact ⟨ofBytes_leastNumbers, _, ofClassFile_leastNumbers, hright⟩

/-- The least `long` stands in a class file that is read and has a header, and its literal is no
constant of C. -/
theorem least_long_is_no_constant :
    ofBytes leastNumbers.layout = .ok leastNumbers
      ∧ StandsAt leastNumbers.layout 6 [5, 0x80, 0, 0, 0, 0, 0, 0, 0]
      ∧ twosComplement [0x80, 0, 0, 0, 0, 0, 0, 0] = -2 ^ 63
      ∧ ∃ header, ofClassFile { emitEmpty := true } leastNumbers = .ok (some header)
        ∧ ∃ definition ∈ header.constants, definition.name = "p_Q_M"
          ∧ CInteger.value? definition.literal.toList = none := by
  refine ⟨ofBytes_leastNumbers, ?_, by decide, _, ofClassFile_leastNumbers, _, List.mem_cons_self,
    rfl, by decide⟩
  exact ⟨leastNumbers.pool.slots.take 5, leastNumbers.layout.drop 52, 43, by decide +kernel, rfl⟩

end Header

end NativeHeaders
