/-!
# Digits in a text

A number is written as its digits, and an integer with a minus in front of them when it is negative.
Where a text begins with a number, the number ends where the digits end; so whoever reads it need
not be told its length. Of all numbers only zero begins with a zero.
-/

set_option autoImplicit false

namespace NativeHeaders.Text

/-- Whether all characters are decimal digits. -/
def AllDigits (cs : List Char) : Prop := ∀ c ∈ cs, c.isDigit = true

instance (cs : List Char) : Decidable (AllDigits cs) := List.decidableBAll _ cs

theorem allDigits_toDigits (n : Nat) : AllDigits (Nat.toDigits 10 n) :=
  fun _ hc => Nat.isDigit_of_mem_toDigits (by decide) (by decide) hc

theorem AllDigits.append {cs ds : List Char} (hcs : AllDigits cs) (hds : AllDigits ds) :
    AllDigits (cs ++ ds) :=
  List.forall_mem_append.2 ⟨hcs, hds⟩

theorem allDigits_replicate_zero (n : Nat) : AllDigits (List.replicate n '0') := by
  intro c hc
  rw [List.eq_of_mem_replicate hc]
  rfl

/-- Whether a text does not begin with a digit. -/
def NoDigitFirst (cs : List Char) : Prop := cs.head?.any Char.isDigit = false

instance (cs : List Char) : Decidable (NoDigitFirst cs) := inferInstanceAs (Decidable (_ = _))

/-- Digits end where the next character is none. -/
theorem span_digits {cs rest : List Char} (hcs : AllDigits cs) (hrest : NoDigitFirst rest) :
    (cs ++ rest).takeWhile Char.isDigit = cs ∧ (cs ++ rest).dropWhile Char.isDigit = rest := by
  rw [List.takeWhile_append_of_pos hcs, List.dropWhile_append_of_pos hcs]
  rcases rest with _ | ⟨c, rest⟩
  · simp
  · have hc : c.isDigit = false := hrest
    simp [hc]

/-- Only zero begins with a zero. The induction is on the digits in front of the last one. -/
theorem head?_toDigits_eq_zero_iff {n : Nat} : (Nat.toDigits 10 n).head? = some '0' ↔ n = 0 := by
  induction n using Nat.strongRecOn with
  | ind n ih =>
    by_cases hn : n < 10
    · rw [Nat.toDigits_of_lt_base hn, List.head?_cons, Option.some.injEq, Nat.digitChar_eq_zero]
    · have hfront : (Nat.toDigits 10 (n / 10)).head? ≠ none := by
        rw [ne_eq, List.head?_eq_none_iff]
        exact Nat.toDigits_ne_nil
      rw [Nat.toDigits_of_base_le (by decide) (by omega), List.head?_append,
        Option.or_of_isSome (Option.isSome_iff_ne_none.2 hfront), ih (n / 10) (by omega)]
      omega

/-! ## Signs -/

/-- Whether a text begins with a minus, and what is behind it. -/
def splitSign : List Char → Bool × List Char
  | '-' :: cs => (true, cs)
  | cs => (false, cs)

theorem splitSign_digits {cs : List Char} (hcs : AllDigits cs) (hne : cs ≠ []) (rest : List Char) :
    splitSign (cs ++ rest) = (false, cs ++ rest) := by
  unfold splitSign
  split
  · rename_i behind heq
    rcases cs with _ | ⟨c, cs⟩
    · contradiction
    · obtain ⟨rfl, -⟩ := List.cons.inj heq
      have hminus : '-'.isDigit = true := hcs '-' List.mem_cons_self
      exact absurd hminus (by decide)
  · rfl

/-- An optional minus and digits behind it. -/
def signed (negative : Bool) (cs : List Char) : List Char :=
  (if negative then ['-'] else []) ++ cs

theorem splitSign_signed (negative : Bool) {cs : List Char} (hcs : AllDigits cs) (hne : cs ≠ [])
    (rest : List Char) : splitSign (signed negative cs ++ rest) = (negative, cs ++ rest) := by
  rcases negative with _ | _
  · exact splitSign_digits hcs hne rest
  · rfl

theorem toList_toString_int (n : Int) :
    (toString n).toList = signed (decide (n < 0)) (Nat.toDigits 10 n.natAbs) := by
  rw [Int.toString_eq_repr, Int.repr_eq_if, signed]
  by_cases hn : 0 ≤ n
  · have hnot : ¬ n < 0 := by omega
    have habs : n.toNat = n.natAbs := by omega
    rw [if_pos hn, Nat.toList_repr, habs, decide_eq_false hnot]
    rfl
  · have hneg : n < 0 := by omega
    have habs : (-n).toNat = n.natAbs := by omega
    rw [if_neg hn, String.toList_append, Nat.toList_repr, habs, decide_eq_true hneg]
    rfl

/-- What a sign makes of a number. -/
def applySign (negative : Bool) (n : Nat) : Int := if negative then -n else n

theorem applySign_natAbs (n : Int) : applySign (decide (n < 0)) n.natAbs = n := by
  rw [applySign]
  by_cases hn : n < 0
  · rw [decide_eq_true hn, if_pos rfl]
    omega
  · rw [decide_eq_false hn, if_neg Bool.false_ne_true]
    omega

end NativeHeaders.Text
