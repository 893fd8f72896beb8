import NativeHeaders.ClassModel.Literal
import NativeHeaders.Proofs.Decimal.Texts

/-!
# What floating-point literals mean

The literal of a finite floating-point constant is a decimal in one of two forms, and which of them
is a matter of its magnitude alone. Its value is that of the shortest decimal that rounds to the
constant, and this rounds to no other number of the type. So nothing of a constant is lost in its
literal, not even the sign of a zero (`finite_literals`).
-/

set_option autoImplicit false

namespace NativeHeaders

open Decimal

/-! ## What is said of a literal -/

/-- Whether a magnitude is the double that a decimal without sign rounds to. -/
def IsDouble (q : ℚ) (m : Magnitude) : Prop :=
  ∃ bits, RoundsTo .binary64 false q bits ∧ Binary.decode .binary64 bits = .finite false m

/-- The text of the shortest decimal of a number in scientific form, with the mark `e`, and with a
point only where a digit is behind it. -/
def shortText (f : BinaryFormat) (negative : Bool) (m : Magnitude) : List Char :=
  ((decimalOf f m).shortForm negative).text 'e'

/-- Whether a written decimal is right for the number with some bits of a format. -/
structure IsFaithful (f : BinaryFormat) (bits : Nat) (m : Magnitude) (w : Written) : Prop where
  /-- There are digits before the point. -/
  proper : w.Proper
  /-- There are digits behind the point. -/
  fraction_ne : w.fraction ≠ []
  /-- There is an exponent just when the magnitude is out of bounds. -/
  exponent_iff : w.exponent.isSome = true
    ↔ m.significand ≠ 0 ∧ (m.value < ConstantValue.literalLayout.least.value ∨ 10 ^ 7 ≤ m.value)
  /-- Before an exponent, a single digit is left of the point, which is not zero. -/
  first_ne : ∀ e, w.exponent = some e → ∃ c, w.whole = [c] ∧ c ≠ '0'
  /-- The value and the sign are those of the shortest decimal. -/
  short : ∃ e, Written.read? 'e' (shortText f w.negative m) = some e
    ∧ e.negative = w.negative ∧ e.value = w.value
  /-- There is no shorter decimal that rounds to the number. -/
  shortest : IsShortest f w.negative bits m (decimalOf f m)
  /-- The bits are what is rounded to, and the only ones. -/
  rounds : ∀ bits', RoundsTo f w.negative w.value bits' ↔ bits' = bits

namespace ConstantValue

/-- The format, the bits and the suffix of a floating-point constant. -/
def floating? : ConstantValue → Option (BinaryFormat × Nat × String)
  | float bits => some (.binary32, bits.toNat, "f")
  | double bits => some (.binary64, bits.toNat, "")
  | _ => none

/-! ## Literals -/

variable {value value' : ConstantValue} {f : BinaryFormat} {bits bits' : Nat} {suffix : String}
  {negative negative' : Bool} {m m' : Magnitude}

/-- Magnitudes below this one are written with an exponent. -/
theorem isDouble_least : IsDouble (1 / 1000) literalLayout.least := by
  have hdecode : Binary.decode .binary64 0x3f50624dd2f1a9fc
      = .finite false literalLayout.least := by decide +kernel
  have haround : Interval.around .binary64 0x10624dd2f1a9fc
      = ⟨18446744073709550, 18446744073709554, true⟩ := by decide +kernel
  obtain ⟨hrank, hsign, hmagnitude⟩ := BinaryFormat.decode_eq_finite_iff.1 hdecode
  refine ⟨0x3f50624dd2f1a9fc, ?_, hdecode⟩
  rw [← hsign, roundsTo_iff_attracts BinaryFormat.proper_binary64 (by decide) hrank]
  apply attracts_of_holds
  · rw [hmagnitude]
    decide
  · rw [hmagnitude, literalLayout, haround, Interval.holds_iff, Precedes, if_pos rfl, Precedes,
      if_pos rfl]
    norm_num

theorem literal_eq_of_finite (h : value.floating? = some (f, bits, suffix))
    (hfinite : Binary.decode f bits = .finite negative m) :
    f.Proper ∧ Numeral.LeastNormalIsBest f ∧ bits < 2 ^ f.width
      ∧ value.literal.toList = (literalLayout.form f negative m).text 'E' ++ suffix.toList := by
  have hliteral : (floatLiteral suffix f bits).toList
      = (literalLayout.form f negative m).text 'E' ++ suffix.toList := by
    rw [floatLiteral, hfinite, String.toList_append, String.toList_ofList, Layout.write_eq]
  cases value with
  | int value => contradiction
  | long value => contradiction
  | float stored =>
    cases h
    exact ⟨BinaryFormat.proper_binary32, Numeral.leastNormalIsBest_binary32, stored.toNat_lt,
      hliteral⟩
  | double stored =>
    cases h
    exact ⟨BinaryFormat.proper_binary64, Numeral.leastNormalIsBest_binary64, stored.toNat_lt,
      hliteral⟩

theorem isFaithful_form (hf : f.Proper) (hleast : Numeral.LeastNormalIsBest f)
    (hbits : bits < 2 ^ f.width) (hfinite : Binary.decode f bits = .finite negative m) :
    IsFaithful f bits m (literalLayout.form f negative m) where
  proper := Layout.proper_form
  fraction_ne := Layout.fraction_form_ne
  exponent_iff := by
    have hlimit : literalLayout.limit.value = 10 ^ 7 := by norm_num [literalLayout, Magnitude.value]
    rw [Layout.isSome_exponent_form, Bool.not_eq_true', ← Bool.not_eq_true, Layout.isPositional_iff,
      hlimit, not_or, not_and_or, not_le, not_lt]
  first_ne e he := Layout.whole_form he
  short := by
    refine ⟨(decimalOf f m).shortForm (literalLayout.form f negative m).negative, ?_, rfl, ?_⟩
    · exact Written.read?_text (Numeral.proper_shortForm _ _) (by decide)
    · rw [Numeral.value_shortForm, Layout.value_form]
  shortest := by
    rw [Layout.negative_form]
    exact isShortest_decimalOf hf hleast hbits hfinite
  rounds := by
    rw [Layout.negative_form, Layout.value_form]
    exact (isShortest_decimalOf hf hleast hbits hfinite).rounds

/-- The literal of a finite number can be read, up to its suffix. -/
theorem read?_form (f : BinaryFormat) (negative : Bool) (m : Magnitude) :
    Written.read? 'E' ((literalLayout.form f negative m).text 'E')
      = some (literalLayout.form f negative m) :=
  Written.read?_text Layout.proper_form (by decide)

/-- **Finite literals keep shape and value.** The literal of a finite `float` or `double` is a
decimal with digits on either side of the point, and the suffix of its type. It has an exponent just
when its magnitude is not zero and less than the double nearest to a thousandth, or ten million and
more. It is read as a decimal with the value of the shortest one, and this is rounded to the bits of
the constant and to no others, so that no two finite constants of one type have the same literal. -/
theorem finite_literals :
    IsDouble (1 / 1000) literalLayout.least
    ∧ (∀ (value : ConstantValue) (f : BinaryFormat) (bits : Nat) (suffix : String) (negative : Bool)
        (m : Magnitude), value.floating? = some (f, bits, suffix) →
      Binary.decode f bits = .finite negative m →
        ∃ (cs : List Char) (w : Written), value.literal.toList = cs ++ suffix.toList
          ∧ cs = w.text 'E' ∧ Written.read? 'E' cs = some w ∧ IsFaithful f bits m w)
    ∧ ∀ (value value' : ConstantValue) (f : BinaryFormat) (bits bits' : Nat) (suffix : String)
        (negative negative' : Bool) (m m' : Magnitude),
      value.floating? = some (f, bits, suffix) → value'.floating? = some (f, bits', suffix) →
      Binary.decode f bits = .finite negative m → Binary.decode f bits' = .finite negative' m' →
        value.literal = value'.literal → bits = bits' := by
  refine ⟨isDouble_least, ?_, ?_⟩
  · intro value f bits suffix negative m hvalue hfinite
    obtain ⟨hf, hleast, hbits, hliteral⟩ := literal_eq_of_finite hvalue hfinite
    exact ⟨_, _, hliteral, rfl, read?_form f negative m, isFaithful_form hf hleast hbits hfinite⟩
  · intro value value' f bits bits' suffix negative negative' m m' hvalue hvalue' hfinite hfinite'
      heq
    obtain ⟨hf, hleast, hbits, hliteral⟩ := literal_eq_of_finite hvalue hfinite
    obtain ⟨-, -, hbits', hliteral'⟩ := literal_eq_of_finite hvalue' hfinite'
    rw [heq, hliteral', List.append_left_inj] at hliteral
    -- texts that are the same are read as the same decimal
    have hread := read?_form f negative m
    rw [← hliteral, read?_form] at hread
    have hform := Option.some.inj hread
    have hrounds := ((isFaithful_form hf hleast hbits hfinite).rounds bits).2 rfl
    rw [← hform] at hrounds
    exact ((isFaithful_form hf hleast hbits' hfinite').rounds bits).1 hrounds

/-- A small number has an exponent, and the two zeros have two literals. -/
theorem finite_literals_of_small :
    (double 0x3e8421f5f40d8376).literal = "1.5E-7"
      ∧ (∃ cs w, "1.5E-7".toList = cs ++ "".toList ∧ cs = w.text 'E' ∧ Written.read? 'E' cs = some w
        ∧ IsFaithful .binary64 0x3e8421f5f40d8376 ⟨0x1421f5f40d8376, -75⟩ w)
      ∧ (float 0).literal ≠ (float 0x80000000).literal := by
  have hliteral : (double 0x3e8421f5f40d8376).literal = "1.5E-7" := by decide +kernel
  have hsmall : Binary.decode .binary64 0x3e8421f5f40d8376
      = .finite false ⟨0x1421f5f40d8376, -75⟩ := by decide +kernel
  have hzero : Binary.decode .binary32 0 = .finite false ⟨0, -149⟩ := by decide +kernel
  have hminus : Binary.decode .binary32 0x80000000 = .finite true ⟨0, -149⟩ := by decide +kernel
  obtain ⟨-, hforms, hinjective⟩ := finite_literals
  refine ⟨hliteral, ?_, fun heq => ?_⟩
  · rw [← hliteral]
    exact hforms _ _ _ _ _ _ rfl hsmall
  · have hbits := hinjective _ _ _ _ _ _ _ _ _ _ rfl rfl hzero hminus heq
    contradiction

end ConstantValue

end NativeHeaders
