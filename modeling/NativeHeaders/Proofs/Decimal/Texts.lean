import NativeHeaders.Decimal.Layout
import NativeHeaders.Proofs.Decimal.Shortest
import NativeHeaders.Proofs.Text.Digits

/-!
# Decimals as they are written

A written decimal has a sign, digits on either side of a point, and perhaps an exponent (`Written`).
Its text can be read back (`Written.read?_text`), so that the text has one value, and the positional
and the scientific text of a numeral both have the value of the numeral. Zeros are free on either
side: in front of the digits and behind the last one of a fraction they change nothing.
-/

set_option autoImplicit false

namespace NativeHeaders.Decimal

/-- A decimal as it is written. It has a point just when there are digits behind it. -/
structure Written where
  negative : Bool
  whole : List Char
  fraction : List Char
  exponent : Option Int
deriving DecidableEq

namespace Written

variable {w : Written} {mark : Char}

/-! ## Texts and values -/

/-- A point and the digits behind it. -/
def fractionText (w : Written) : List Char :=
  if w.fraction = [] then [] else '.' :: w.fraction

/-- A mark and the exponent behind it. -/
def exponentText (mark : Char) (w : Written) : List Char :=
  match w.exponent with
  | none => []
  | some e => mark :: (toString e).toList

/-- The text of a decimal, with a mark in front of the exponent. -/
def text (mark : Char) (w : Written) : List Char :=
  Text.signed w.negative (w.whole ++ (w.fractionText ++ w.exponentText mark))

/-- The value of a decimal without its sign. -/
def value (w : Written) : ℚ :=
  Nat.ofDigitChars 10 (w.whole ++ w.fraction) 0 * (10 : ℚ) ^ (w.exponent.getD 0 - w.fraction.length)

/-- Whether a decimal is made of digits, with at least one in front of the point. -/
structure Proper (w : Written) : Prop where
  whole : Text.AllDigits w.whole
  whole_ne : w.whole ≠ []
  fraction : Text.AllDigits w.fraction

/-! ## Reading -/

/-- The digits behind a point, if there is one, and what is behind them. -/
def readFraction : List Char → List Char × List Char
  | '.' :: cs => (cs.takeWhile Char.isDigit, cs.dropWhile Char.isDigit)
  | cs => ([], cs)

/-- The exponent that is left at the end of a text, if there is one. -/
def readExponent? (mark : Char) : List Char → Option (Option Int)
  | [] => some none
  | c :: cs =>
    let (negative, digits) := Text.splitSign cs
    if c = mark ∧ digits ≠ [] ∧ Text.AllDigits digits then
      some (some (Text.applySign negative (Nat.ofDigitChars 10 digits 0)))
    else none

/-- The decimal that a text spells. -/
def read? (mark : Char) (cs : List Char) : Option Written :=
  let (negative, behind) := Text.splitSign cs
  let whole := behind.takeWhile Char.isDigit
  let (fraction, rest) := readFraction (behind.dropWhile Char.isDigit)
  if whole = [] then none
  else (readExponent? mark rest).map fun exponent => ⟨negative, whole, fraction, exponent⟩

theorem readExponent?_exponentText (w : Written) (mark : Char) :
    readExponent? mark (w.exponentText mark) = some w.exponent := by
  unfold exponentText
  rcases w.exponent with _ | e
  · rfl
  · have hsplit := Text.splitSign_signed (decide (e < 0)) (Text.allDigits_toDigits e.natAbs)
      Nat.toDigits_ne_nil []
    rw [List.append_nil, List.append_nil] at hsplit
    dsimp only
    rw [readExponent?, Text.toList_toString_int, hsplit]
    dsimp only
    rw [if_pos ⟨rfl, Nat.toDigits_ne_nil, Text.allDigits_toDigits e.natAbs⟩,
      Nat.ofDigitChars_ten_toDigits, Text.applySign_natAbs]

/-- What begins with the mark does not go on with a digit or a point. -/
theorem exponentText_first (w : Written) (hmark : mark.isDigit = false ∧ mark ≠ '.') :
    Text.NoDigitFirst (w.exponentText mark) ∧ (w.exponentText mark).head? ≠ some '.' := by
  unfold exponentText
  rcases w.exponent with _ | e
  · exact ⟨rfl, nofun⟩
  · exact ⟨hmark.1, fun h => hmark.2 (Option.some.inj h)⟩

theorem readFraction_of_ne {cs : List Char} (h : cs.head? ≠ some '.') :
    readFraction cs = ([], cs) := by
  unfold readFraction
  split
  · exact absurd rfl h
  · rfl

theorem readFraction_text (h : w.Proper) (hmark : mark.isDigit = false ∧ mark ≠ '.') :
    readFraction (w.fractionText ++ w.exponentText mark) = (w.fraction, w.exponentText mark) := by
  obtain ⟨hdigit, hpoint⟩ := w.exponentText_first hmark
  unfold fractionText
  split
  · rename_i hnone
    rw [hnone, List.nil_append]
    exact readFraction_of_ne hpoint
  · obtain ⟨htake, hdrop⟩ := Text.span_digits h.fraction hdigit
    rw [List.cons_append, readFraction, htake, hdrop]

/-- **A decimal is read as it is written.** -/
theorem read?_text (h : w.Proper) (hmark : mark.isDigit = false ∧ mark ≠ '.') :
    read? mark (w.text mark) = some w := by
  have hbehind : Text.NoDigitFirst (w.fractionText ++ w.exponentText mark) := by
    unfold fractionText
    split
    · exact (w.exponentText_first hmark).1
    · rfl
  have hsplit := Text.splitSign_signed w.negative h.whole h.whole_ne
    (w.fractionText ++ w.exponentText mark)
  obtain ⟨htake, hdrop⟩ := Text.span_digits h.whole hbehind
  have htext : w.text mark
      = Text.signed w.negative w.whole ++ (w.fractionText ++ w.exponentText mark) := by
    rw [text, Text.signed, Text.signed, List.append_assoc]
  rw [read?, htext, hsplit]
  dsimp only
  rw [htake, hdrop, readFraction_text h hmark]
  dsimp only
  rw [if_neg h.whole_ne, readExponent?_exponentText, Option.map_some]

end Written

/-! ## The forms of a numeral -/

namespace Numeral

theorem orZero_ne_nil (cs : List Char) : orZero cs ≠ [] := by
  unfold orZero
  split
  · exact List.cons_ne_nil _ _
  · rename_i h
    rwa [List.isEmpty_iff] at h

theorem allDigits_orZero {cs : List Char} (h : Text.AllDigits cs) : Text.AllDigits (orZero cs) := by
  unfold orZero
  split
  · exact List.forall_mem_singleton.2 rfl
  · exact h

/-- A zero behind the point where there is no other digit changes nothing. -/
theorem value_orZero (negative : Bool) (whole fraction : List Char) (exponent : Option Int) :
    (⟨negative, whole, orZero fraction, exponent⟩ : Written).value
      = (⟨negative, whole, fraction, exponent⟩ : Written).value := by
  unfold orZero
  split
  · rename_i h
    rw [List.isEmpty_iff] at h
    subst h
    have hzero : Nat.ofDigitChars 10 (whole ++ ['0']) 0 = 10 * Nat.ofDigitChars 10 whole 0 := by
      rw [Nat.ofDigitChars_append]
      rfl
    simp only [Written.value, hzero, List.append_nil, List.length_nil, List.length_singleton]
    push_cast
    rw [zpow_sub₀ (by norm_num), sub_zero]
    ring
  · rfl

/-- The exponent of a numeral with its point behind the first digit. -/
def scientificExponent (n : Numeral) : Int := n.exponent + (n.text.length - 1 : Nat)

/-- A numeral with its point behind the first digit, if another digit is behind it. -/
def shortForm (negative : Bool) (n : Numeral) : Written :=
  ⟨negative, n.text.take 1, n.text.drop 1, some n.scientificExponent⟩

/-- A numeral with its point behind the first digit and at least one digit behind it. -/
def scientificForm (negative : Bool) (n : Numeral) : Written :=
  ⟨negative, n.text.take 1, orZero (n.text.drop 1), some n.scientificExponent⟩

theorem proper_shortForm (negative : Bool) (n : Numeral) : (n.shortForm negative).Proper where
  whole _ hc := Text.allDigits_toDigits n.digits _ (List.mem_of_mem_take hc)
  whole_ne h := Nat.toDigits_ne_nil ((List.take_eq_nil_iff.1 h).resolve_left Nat.one_ne_zero)
  fraction _ hc := Text.allDigits_toDigits n.digits _ (List.mem_of_mem_drop hc)

theorem proper_scientificForm (negative : Bool) (n : Numeral) :
    (n.scientificForm negative).Proper where
  whole := (n.proper_shortForm negative).whole
  whole_ne := (n.proper_shortForm negative).whole_ne
  fraction := allDigits_orZero (n.proper_shortForm negative).fraction

theorem value_shortForm (negative : Bool) (n : Numeral) :
    (n.shortForm negative).value = n.value := by
  have hdigits : Nat.ofDigitChars 10 (n.text.take 1 ++ n.text.drop 1) 0 = n.digits := by
    rw [List.take_append_drop]
    exact Nat.ofDigitChars_ten_toDigits
  have hexponent : n.scientificExponent - (n.text.drop 1).length = n.exponent := by
    rw [scientificExponent, List.length_drop]
    omega
  rw [shortForm, Written.value, value, hdigits, Option.getD_some, hexponent]

theorem value_scientificForm (negative : Bool) (n : Numeral) :
    (n.scientificForm negative).value = n.value :=
  (value_orZero _ _ _ _).trans (n.value_shortForm negative)

theorem text_scientificForm (negative : Bool) (n : Numeral) :
    (n.scientificForm negative).text 'E' = Text.signed negative n.scientific := by
  rw [Written.text, Written.fractionText, scientificForm, if_neg (orZero_ne_nil _)]
  simp [scientific, Written.exponentText, scientificExponent]

/-- Only the numeral of zero has a zero as its first digit. -/
theorem whole_scientificForm (negative : Bool) {n : Numeral} (hn : n.digits ≠ 0) :
    ∃ c, (n.scientificForm negative).whole = [c] ∧ c ≠ '0' := by
  have hne : n.text ≠ [] := Nat.toDigits_ne_nil
  obtain ⟨c, cs, htext⟩ := List.exists_cons_of_ne_nil hne
  refine ⟨c, by simp [scientificForm, htext], ?_⟩
  rintro rfl
  exact hn (Text.head?_toDigits_eq_zero_iff.1 (congrArg List.head? htext))

/-! ## Positional texts -/

/-- The number of digits behind the point. -/
def places (n : Numeral) : Nat := (-n.exponent).toNat

/-- The digits of a numeral with zeros up to the point, and so many in front that there is a digit
before the point. -/
def padded (n : Numeral) : List Char :=
  List.replicate (n.places + 1 - (n.text ++ List.replicate n.exponent.toNat '0').length) '0'
    ++ (n.text ++ List.replicate n.exponent.toNat '0')

/-- A numeral with its point in place. -/
def positionalForm (negative : Bool) (n : Numeral) : Written :=
  ⟨negative, n.padded.take (n.padded.length - n.places),
    orZero (n.padded.drop (n.padded.length - n.places)), none⟩

theorem places_lt_length_padded (n : Numeral) : n.places < n.padded.length := by
  rw [padded, List.length_append, List.length_replicate]
  omega

theorem allDigits_padded (n : Numeral) : Text.AllDigits n.padded :=
  (Text.allDigits_replicate_zero _).append
    ((Text.allDigits_toDigits n.digits).append (Text.allDigits_replicate_zero _))

theorem proper_positionalForm (negative : Bool) (n : Numeral) :
    (n.positionalForm negative).Proper where
  whole _ hc := n.allDigits_padded _ (List.mem_of_mem_take hc)
  whole_ne h := by
    have hlength := congrArg List.length h
    have hlt := n.places_lt_length_padded
    rw [positionalForm, List.length_take, List.length_nil] at hlength
    omega
  fraction := allDigits_orZero fun _ hc => n.allDigits_padded _ (List.mem_of_mem_drop hc)

/-- Zeros in front do not count, and those behind are powers of ten. -/
theorem value_positionalForm (negative : Bool) (n : Numeral) :
    (n.positionalForm negative).value = n.value := by
  have hdigits : Nat.ofDigitChars 10 n.padded 0 = 10 ^ n.exponent.toNat * n.digits := by
    rw [padded, Nat.ofDigitChars_append, Nat.ofDigitChars_replicate_zero, Nat.mul_zero,
      Nat.ofDigitChars_append, Nat.ofDigitChars_replicate_zero]
    exact congrArg _ Nat.ofDigitChars_ten_toDigits
  have hlength : (n.padded.drop (n.padded.length - n.places)).length = n.places := by
    have hlt := n.places_lt_length_padded
    rw [List.length_drop]
    omega
  have hpower : (10 : ℚ) ^ n.exponent.toNat * 10 ^ (-(n.places : Int)) = 10 ^ n.exponent := by
    rw [← zpow_natCast, ← zpow_add₀ (by norm_num), places]
    congr 1
    omega
  rw [positionalForm, value_orZero, Written.value, List.take_append_drop, hlength, hdigits, value,
    Option.getD_none, zero_sub, ← hpower]
  push_cast
  ring

theorem text_positionalForm (negative : Bool) (n : Numeral) :
    (n.positionalForm negative).text 'E' = Text.signed negative n.positional := by
  rw [Written.text, Written.fractionText, positionalForm, if_neg (orZero_ne_nil _)]
  simp [positional, Written.exponentText, padded, places]

end Numeral

/-! ## Layouts -/

/-- The form that a layout chooses. -/
def Layout.form (l : Layout) (f : BinaryFormat) (negative : Bool) (m : Magnitude) : Written :=
  if l.isPositional m then (decimalOf f m).positionalForm negative
  else (decimalOf f m).scientificForm negative

variable {l : Layout} {f : BinaryFormat} {negative : Bool} {m : Magnitude}

theorem Layout.write_eq (l : Layout) (f : BinaryFormat) (negative : Bool) (m : Magnitude) :
    l.write f negative m = (l.form f negative m).text 'E' := by
  rw [form, write]
  by_cases hpositional : l.isPositional m = true
  · rw [if_pos hpositional, if_pos hpositional]
    exact ((decimalOf f m).text_positionalForm negative).symm
  · rw [if_neg hpositional, if_neg hpositional]
    exact ((decimalOf f m).text_scientificForm negative).symm

theorem Layout.proper_form : (l.form f negative m).Proper := by
  unfold form
  split
  · exact Numeral.proper_positionalForm _ _
  · exact Numeral.proper_scientificForm _ _

theorem Layout.negative_form : (l.form f negative m).negative = negative := by
  unfold form
  split <;> rfl

theorem Layout.isSome_exponent_form :
    (l.form f negative m).exponent.isSome = !l.isPositional m := by
  unfold form
  split
  · rename_i hpositional
    rw [hpositional]
    rfl
  · rename_i hscientific
    rw [Bool.not_eq_true] at hscientific
    rw [hscientific]
    rfl

theorem Layout.value_form : (l.form f negative m).value = (decimalOf f m).value := by
  unfold form
  split
  · exact Numeral.value_positionalForm _ _
  · exact Numeral.value_scientificForm _ _

/-- There is always a digit behind the point. -/
theorem Layout.fraction_form_ne : (l.form f negative m).fraction ≠ [] := by
  unfold form
  split
  · exact Numeral.orZero_ne_nil _
  · exact Numeral.orZero_ne_nil _

/-- In front of an exponent one digit is left of the point, and it is not zero. -/
theorem Layout.whole_form {e : Int} (h : (l.form f negative m).exponent = some e) :
    ∃ c, (l.form f negative m).whole = [c] ∧ c ≠ '0' := by
  unfold form at h ⊢
  by_cases hpositional : l.isPositional m = true
  · rw [if_pos hpositional] at h
    contradiction
  · rw [if_neg hpositional]
    have hm : m.significand ≠ 0 := by
      intro hzero
      exact hpositional (by rw [isPositional, hzero]; rfl)
    exact Numeral.whole_scientificForm negative (decimalOf_digits_ne hm)

/-- Zero and the magnitudes between the bounds of a layout are written positionally. -/
theorem Layout.isPositional_iff (l : Layout) (m : Magnitude) :
    l.isPositional m = true
      ↔ m.significand = 0 ∨ l.least.value ≤ m.value ∧ m.value < l.limit.value := by
  rw [isPositional, Bool.or_eq_true, beq_iff_eq, Bool.and_eq_true, Bool.not_eq_true',
    ← Bool.not_eq_true, Magnitude.lt_iff, Magnitude.lt_iff, not_lt]

end NativeHeaders.Decimal
