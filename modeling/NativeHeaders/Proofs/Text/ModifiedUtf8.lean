import NativeHeaders.Text.ModifiedUtf8

/-!
# Modified UTF-8 is read as it is written

The decoder takes overlong groups too, so reading has no inverse, but every list of units is read
off the bytes it is written in (`decode?_encode`), unpaired surrogates included. A unit is written
in one, two or three bytes, and the range of the first byte tells the reader which of these it is.
-/

set_option autoImplicit false

namespace NativeHeaders.Text.ModifiedUtf8

/-! ## Bytes -/

theorem toNat_byte {n : Nat} (h : n < 256) : (UInt8.ofNat n).toNat = n :=
  UInt8.toNat_ofNat_of_lt' h

theorem isContinuation_ofNat (n : Nat) : isContinuation (UInt8.ofNat (0x80 + n % 0x40)) = true := by
  have hn : n % 0x40 < 0x40 := Nat.mod_lt _ (by omega)
  rw [isContinuation, decide_eq_true_iff, toNat_byte (by omega)]
  omega

theorem isSingle_ofNat {n : Nat} (h : n < 256) :
    isSingle (UInt8.ofNat n) = decide (0x01 ≤ n ∧ n < 0x80) := by
  rw [isSingle, toNat_byte h]

theorem isLeadOfTwo_ofNat {n : Nat} (h : n < 256) :
    isLeadOfTwo (UInt8.ofNat n) = decide (0xc0 ≤ n ∧ n < 0xe0) := by
  rw [isLeadOfTwo, toNat_byte h]

theorem isLeadOfThree_ofNat {n : Nat} (h : n < 256) :
    isLeadOfThree (UInt8.ofNat n) = decide (0xe0 ≤ n ∧ n < 0xf0) := by
  rw [isLeadOfThree, toNat_byte h]

/-! ## Groups -/

/-- A group of two bytes carries the unit that was split over them. -/
theorem unitOfTwo_ofNat {u : UInt16} (h : u.toNat < 0x800) :
    unitOfTwo (UInt8.ofNat (0xc0 + u.toNat / 0x40)) (UInt8.ofNat (0x80 + u.toNat % 0x40)) = u := by
  have hsplit : (0xc0 + u.toNat / 0x40 - 0xc0) * 0x40 + (0x80 + u.toNat % 0x40 - 0x80)
      = u.toNat := by omega
  rw [unitOfTwo, toNat_byte (by omega), toNat_byte (by omega), hsplit, UInt16.ofNat_toNat]

/-- A group of three bytes carries the unit that was split over them. -/
theorem unitOfThree_ofNat (u : UInt16) :
    unitOfThree (UInt8.ofNat (0xe0 + u.toNat / 0x1000))
      (UInt8.ofNat (0x80 + u.toNat / 0x40 % 0x40)) (UInt8.ofNat (0x80 + u.toNat % 0x40)) = u := by
  have hu : u.toNat < 0x10000 := u.toNat_lt
  have hsplit : (0xe0 + u.toNat / 0x1000 - 0xe0) * 0x1000
      + (0x80 + u.toNat / 0x40 % 0x40 - 0x80) * 0x40 + (0x80 + u.toNat % 0x40 - 0x80)
      = u.toNat := by omega
  rw [unitOfThree, toNat_byte (by omega), toNat_byte (by omega), toNat_byte (by omega), hsplit,
    UInt16.ofNat_toNat]

/-- The bytes of a unit are taken off as one group. -/
theorem decode?_encodeUnit_append (u : UInt16) (bytes : List UInt8) :
    decode? (encodeUnit u ++ bytes) = (decode? bytes).map (u :: ·) := by
  have hu : u.toNat < 0x10000 := u.toNat_lt
  -- zero is written in two bytes, so the first case has a lower bound as well
  by_cases hone : 0x01 ≤ u.toNat ∧ u.toNat < 0x80
  · have hsingle : isSingle (UInt8.ofNat u.toNat) = true := by
      rw [isSingle_ofNat (by omega), decide_eq_true_iff]
      exact hone
    rw [encodeUnit, if_pos hone, List.cons_append, List.nil_append, decode?.eq_def]
    show (if _ then _ else _) = _
    rw [if_pos hsingle, toNat_byte (by omega), UInt16.ofNat_toNat]
  · by_cases htwo : u.toNat < 0x800
    · have hlead : isLeadOfTwo (UInt8.ofNat (0xc0 + u.toNat / 0x40)) = true := by
        rw [isLeadOfTwo_ofNat (by omega), decide_eq_true_iff]
        omega
      have hsingle : ¬ isSingle (UInt8.ofNat (0xc0 + u.toNat / 0x40)) = true := by
        rw [isSingle_ofNat (by omega), decide_eq_true_iff]
        omega
      rw [encodeUnit, if_neg hone, if_pos htwo, List.cons_append, List.cons_append,
        List.nil_append, decode?, if_neg hsingle, if_pos hlead]
      show (if _ then _ else _) = _
      rw [if_pos (isContinuation_ofNat _), unitOfTwo_ofNat htwo]
    · have hlead : isLeadOfThree (UInt8.ofNat (0xe0 + u.toNat / 0x1000)) = true := by
        rw [isLeadOfThree_ofNat (by omega), decide_eq_true_iff]
        omega
      have hnotTwo : ¬ isLeadOfTwo (UInt8.ofNat (0xe0 + u.toNat / 0x1000)) = true := by
        rw [isLeadOfTwo_ofNat (by omega), decide_eq_true_iff]
        omega
      have hsingle : ¬ isSingle (UInt8.ofNat (0xe0 + u.toNat / 0x1000)) = true := by
        rw [isSingle_ofNat (by omega), decide_eq_true_iff]
        omega
      rw [encodeUnit, if_neg hone, if_neg htwo, List.cons_append, List.cons_append,
        List.cons_append, List.nil_append, decode?, if_neg hsingle, if_neg hnotTwo, if_pos hlead]
      show (if _ then _ else _) = _
      rw [isContinuation_ofNat, isContinuation_ofNat, Bool.and_self, if_pos rfl,
        unitOfThree_ofNat]

/-! ## Texts -/

/-- **Units are read off the bytes they are written in.** -/
theorem decode?_encode (us : Units) : decode? (encode us) = some us := by
  induction us with
  | nil => rfl
  | cons u us ih =>
    rw [encode, List.flatMap_cons, decode?_encodeUnit_append, ← encode, ih, Option.map_some]

end NativeHeaders.Text.ModifiedUtf8
