import Mathlib.Algebra.Order.Field.Power
import Mathlib.Data.Rat.Cast.Order
import Mathlib.Order.Monotone.Basic
import Mathlib.Tactic.IntervalCases
import Mathlib.Tactic.Linarith
import Mathlib.Tactic.MkIffOfInductiveProp
import Mathlib.Tactic.Ring
import NativeHeaders.Decimal.Shortest

/-!
# Rounding to nearest

The finite numbers of a format, without their signs, are counted by their bits: `magnitude k` is the
one with the exponent and fraction bits `k`, and its value grows with `k`, by a last place at each
step (`value_magnitude_succ`). So what lies between the middles to both neighbours of a number is
nearer to it than to any other, and at a middle one of the two has an even significand.

`RoundsTo` says what rounding is without counting: among all numbers of the format that have the
sign, none is nearer, and if another is as near then the significand is even. At most one number is
so (`RoundsTo.unique`), and it is so of what lies between the middles to its neighbours
(`roundsTo_iff_attracts`). An `Interval` around a number has these middles as its ends, but around
the least normal number, where it is narrower (`attracts_of_holds`, `holds_of_attracts`).
-/

set_option autoImplicit false

namespace NativeHeaders.Decimal

/-! ## Values -/

/-- The value of a magnitude. -/
def Magnitude.value (m : Magnitude) : ℚ := m.significand * (2 : ℚ) ^ m.exponent

/-- The value of a numeral. -/
def Numeral.value (n : Numeral) : ℚ := n.digits * (10 : ℚ) ^ n.exponent

theorem two_zpow_eq_mul {e shift : Int} (h : shift ≤ e) :
    (2 : ℚ) ^ e = 2 ^ (e - shift).toNat * 2 ^ shift := by
  have hnat : ((e - shift).toNat : Int) = e - shift := Int.toNat_of_nonneg (by omega)
  rw [← zpow_natCast, hnat, ← zpow_add₀ (by norm_num), sub_add_cancel]

/-- Both sides are scaled by the lesser power of two, so that they become integers. -/
theorem Magnitude.lt_iff (a b : Magnitude) : a.lt b = true ↔ a.value < b.value := by
  have hscaled : ∀ m : Magnitude, ∀ shift ≤ m.exponent,
      m.value = (m.significand * 2 ^ (m.exponent - shift).toNat : Nat) * (2 : ℚ) ^ shift := by
    intro m shift hshift
    rw [value, two_zpow_eq_mul hshift, ← mul_assoc]
    push_cast
    rfl
  have hpos : (0 : ℚ) < 2 ^ min a.exponent b.exponent := by positivity
  rw [hscaled a _ (min_le_left _ _), hscaled b _ (min_le_right _ _), mul_lt_mul_iff_left₀ hpos,
    Nat.cast_lt]
  simp only [lt, Nat.pow_eq, decide_eq_true_eq]

/-! ## The numbers of a format in order -/

namespace BinaryFormat

variable {f : BinaryFormat}

/-- The magnitude with some exponent and fraction bits. -/
def magnitude (f : BinaryFormat) (k : Nat) : Magnitude :=
  if k / f.leadingBit = 0 then ⟨k % f.leadingBit, f.leastExponent⟩
  else ⟨f.leadingBit + k % f.leadingBit, f.leastExponent + (k / f.leadingBit - 1 : Nat)⟩

theorem leadingBit_pos (f : BinaryFormat) : 0 < f.leadingBit := Nat.two_pow_pos _

theorem magnitude_subnormal {r : Nat} (hr : r < f.leadingBit) :
    f.magnitude r = ⟨r, f.leastExponent⟩ := by
  rw [magnitude, if_pos (Nat.div_eq_of_lt hr), Nat.mod_eq_of_lt hr]

theorem magnitude_normal (d : Nat) {r : Nat} (hr : r < f.leadingBit) :
    f.magnitude (f.leadingBit * (d + 1) + r) = ⟨f.leadingBit + r, f.leastExponent + d⟩ := by
  have hdiv : (f.leadingBit * (d + 1) + r) / f.leadingBit = d + 1 := by
    rw [Nat.mul_add_div f.leadingBit_pos, Nat.div_eq_of_lt hr, Nat.add_zero]
  have hmod : (f.leadingBit * (d + 1) + r) % f.leadingBit = r := by
    rw [Nat.mul_add_mod, Nat.mod_eq_of_lt hr]
  rw [magnitude, hdiv, hmod, if_neg (Nat.succ_ne_zero d), Nat.add_sub_cancel]

/-- The least normal number has the last place of the subnormal ones. -/
theorem magnitude_leadingBit (f : BinaryFormat) :
    f.magnitude f.leadingBit = ⟨f.leadingBit, f.leastExponent⟩ := by
  simpa using magnitude_normal (f := f) 0 f.leadingBit_pos

/-- Bits are those of a subnormal or of a normal number. -/
theorem subnormal_or_normal (f : BinaryFormat) (k : Nat) :
    k < f.leadingBit ∨ ∃ d, ∃ r < f.leadingBit, k = f.leadingBit * (d + 1) + r := by
  by_cases hk : k < f.leadingBit
  · exact Or.inl hk
  · have hdiv : 0 < k / f.leadingBit := Nat.div_pos (Nat.le_of_not_lt hk) f.leadingBit_pos
    refine Or.inr ⟨k / f.leadingBit - 1, k % f.leadingBit, Nat.mod_lt k f.leadingBit_pos, ?_⟩
    rw [Nat.sub_add_cancel hdiv, Nat.div_add_mod]

/-- The next number is one last place further, also where the exponent changes. -/
theorem value_magnitude_succ (f : BinaryFormat) (k : Nat) :
    (f.magnitude (k + 1)).value = (f.magnitude k).value + (2 : ℚ) ^ (f.magnitude k).exponent := by
  rcases f.subnormal_or_normal k with hk | ⟨d, r, hr, rfl⟩
  · rw [magnitude_subnormal hk]
    by_cases hnext : k + 1 < f.leadingBit
    · rw [magnitude_subnormal hnext]
      simp only [Magnitude.value]
      push_cast
      ring
    · have hlast : k + 1 = f.leadingBit := by omega
      rw [hlast, magnitude_leadingBit, ← hlast]
      simp only [Magnitude.value]
      push_cast
      ring
  · rw [magnitude_normal d hr]
    by_cases hnext : r + 1 < f.leadingBit
    · rw [Nat.add_assoc, magnitude_normal d hnext]
      simp only [Magnitude.value]
      push_cast
      ring
    · -- a power of two is half as many last places of twice the size
      have hlast : f.leadingBit * (d + 1) + r + 1 = f.leadingBit * (d + 1 + 1) + 0 := by
        rw [Nat.mul_succ f.leadingBit (d + 1)]
        omega
      rw [hlast, magnitude_normal (d + 1) f.leadingBit_pos]
      have hleading : (f.leadingBit : ℚ) = r + 1 := by
        rw [← Nat.cast_succ, Nat.cast_inj]
        omega
      have hexponent : f.leastExponent + ((d + 1 : Nat) : Int) = f.leastExponent + d + 1 := by
        push_cast
        ring
      simp only [Magnitude.value, hexponent]
      rw [zpow_add_one₀ (by norm_num)]
      push_cast
      rw [hleading]
      ring

theorem strictMono_value_magnitude (f : BinaryFormat) :
    StrictMono fun k => (f.magnitude k).value := by
  refine strictMono_nat_of_lt_succ fun k => ?_
  have hpos : (0 : ℚ) < 2 ^ (f.magnitude k).exponent := by positivity
  rw [value_magnitude_succ]
  linarith

/-- The last place stays as it is but for powers of two, where it doubles unless it is the least. -/
theorem exponent_magnitude_succ (f : BinaryFormat) (k : Nat) :
    ((f.magnitude (k + 1)).exponent = (f.magnitude k).exponent
        ∧ ((f.magnitude (k + 1)).significand = f.leadingBit → k + 1 = f.leadingBit))
      ∨ (f.magnitude (k + 1)).significand = f.leadingBit
        ∧ (f.magnitude (k + 1)).exponent = (f.magnitude k).exponent + 1 := by
  rcases f.subnormal_or_normal k with hk | ⟨d, r, hr, rfl⟩
  · left
    rw [magnitude_subnormal hk]
    by_cases hnext : k + 1 < f.leadingBit
    · rw [magnitude_subnormal hnext]
      exact ⟨rfl, id⟩
    · have hlast : k + 1 = f.leadingBit := by omega
      rw [hlast, magnitude_leadingBit]
      exact ⟨rfl, id⟩
  · rw [magnitude_normal d hr]
    by_cases hnext : r + 1 < f.leadingBit
    · left
      rw [Nat.add_assoc, magnitude_normal d hnext]
      refine ⟨rfl, fun h => ?_⟩
      dsimp only at h
      omega
    · right
      have hlast : f.leadingBit * (d + 1) + r + 1 = f.leadingBit * (d + 1 + 1) + 0 := by
        rw [Nat.mul_succ f.leadingBit (d + 1)]
        omega
      rw [hlast, magnitude_normal (d + 1) f.leadingBit_pos]
      refine ⟨Nat.add_zero _, ?_⟩
      push_cast
      ring

theorem exists_leadingBit_eq (hf : 0 < f.fractionBits) : ∃ n, f.leadingBit = 2 * n :=
  ⟨2 ^ (f.fractionBits - 1), (mul_pow_sub_one (by omega) 2).symm⟩

/-- Significands are even and odd in turns. -/
theorem significand_magnitude_mod_two (hf : 0 < f.fractionBits) (k : Nat) :
    (f.magnitude k).significand % 2 = k % 2 := by
  obtain ⟨n, hn⟩ := exists_leadingBit_eq hf
  rcases f.subnormal_or_normal k with hk | ⟨d, r, hr, rfl⟩
  · rw [magnitude_subnormal hk]
  · rw [magnitude_normal d hr, hn, Nat.mul_assoc]
    dsimp only
    omega

/-! ## Bits -/

/-- The exponent and fraction bits. -/
def rank (f : BinaryFormat) (bits : Nat) : Nat := bits % 2 ^ (f.fractionBits + f.exponentBits)

/-- The sign bit. -/
def isNegative (f : BinaryFormat) (bits : Nat) : Bool :=
  bits / 2 ^ (f.fractionBits + f.exponentBits) % 2 == 1

/-- The number of bits of a format. -/
def width (f : BinaryFormat) : Nat := f.fractionBits + f.exponentBits + 1

/-- The number of finite magnitudes. -/
def finiteCount (f : BinaryFormat) : Nat := f.leadingBit * f.topExponent

theorem finiteCount_lt (f : BinaryFormat) :
    f.finiteCount < 2 ^ (f.fractionBits + f.exponentBits) := by
  have hpos : 0 < 2 ^ f.exponentBits := Nat.two_pow_pos _
  rw [pow_add]
  exact Nat.mul_lt_mul_of_pos_left (Nat.sub_lt hpos Nat.one_pos) f.leadingBit_pos

theorem decode_eq_finite_iff {bits : Nat} {negative : Bool} {m : Magnitude} :
    Binary.decode f bits = .finite negative m
      ↔ f.rank bits < f.finiteCount ∧ f.isNegative bits = negative
        ∧ f.magnitude (f.rank bits) = m := by
  have hmod : f.rank bits % f.leadingBit = bits % f.leadingBit :=
    Nat.mod_mod_of_dvd bits (Dvd.intro _ (pow_add 2 f.fractionBits f.exponentBits).symm)
  have hdiv : f.rank bits / f.leadingBit = bits / f.leadingBit % 2 ^ f.exponentBits := by
    rw [rank, pow_add]
    exact Nat.mod_mul_right_div_self _ _ _
  have hdecode : Binary.decode f bits =
      if f.rank bits / f.leadingBit = f.topExponent then
        if f.rank bits % f.leadingBit = 0 then .infinite (f.isNegative bits) else .nan
      else .finite (f.isNegative bits) (f.magnitude (f.rank bits)) := by
    rw [magnitude, hmod, hdiv, apply_ite (Binary.finite _)]
    rfl
  have hfinite : f.rank bits < f.finiteCount ↔ f.rank bits / f.leadingBit ≠ f.topExponent := by
    -- the exponent field is at most the greatest one
    have hle : f.rank bits / f.leadingBit ≤ f.topExponent := by
      rw [hdiv]
      exact Nat.le_sub_one_of_lt (Nat.mod_lt _ (Nat.two_pow_pos _))
    rw [finiteCount, Nat.mul_comm, ← Nat.div_lt_iff_lt_mul f.leadingBit_pos]
    omega
  rw [hdecode, hfinite]
  by_cases htop : f.rank bits / f.leadingBit = f.topExponent
  · rw [if_pos htop]
    split <;> simp [htop]
  · rw [if_neg htop]
    simp [htop]

/-- The bits of a number with a sign. -/
def assemble (f : BinaryFormat) (negative : Bool) (k : Nat) : Nat :=
  if negative then 2 ^ (f.fractionBits + f.exponentBits) + k else k

theorem decode_assemble (negative : Bool) {k : Nat} (hk : k < f.finiteCount) :
    Binary.decode f (f.assemble negative k) = .finite negative (f.magnitude k) := by
  have hlt : k < 2 ^ (f.fractionBits + f.exponentBits) := hk.trans f.finiteCount_lt
  have hpos : 0 < 2 ^ (f.fractionBits + f.exponentBits) := Nat.two_pow_pos _
  have hrank : f.rank (f.assemble negative k) = k := by
    rcases negative with _ | _
    · exact Nat.mod_eq_of_lt hlt
    · exact (Nat.add_mod_left _ _).trans (Nat.mod_eq_of_lt hlt)
  have hsign : f.isNegative (f.assemble negative k) = negative := by
    rcases negative with _ | _
    · simp [isNegative, assemble, Nat.div_eq_of_lt hlt]
    · simp [isNegative, assemble, Nat.add_div_left k hpos, Nat.div_eq_of_lt hlt]
  exact decode_eq_finite_iff.2 ⟨by rwa [hrank], hsign, by rw [hrank]⟩

theorem assemble_rank {bits : Nat} (hbits : bits < 2 ^ f.width) :
    f.assemble (f.isNegative bits) (f.rank bits) = bits := by
  have hpow : 2 ^ f.width = 2 ^ (f.fractionBits + f.exponentBits) * 2 := pow_succ 2 _
  have hsplit := Nat.div_add_mod bits (2 ^ (f.fractionBits + f.exponentBits))
  have hsign : bits / 2 ^ (f.fractionBits + f.exponentBits) < 2 :=
    Nat.div_lt_of_lt_mul (by rwa [← hpow])
  unfold assemble isNegative rank
  generalize 2 ^ (f.fractionBits + f.exponentBits) = half at hsplit hsign ⊢
  generalize bits / half = sign at hsplit hsign ⊢
  interval_cases sign <;> simpa using hsplit

end BinaryFormat

/-! ## The nearest of a growing sequence -/

section Nearest

variable {x y q : ℚ}

/-- The greater of two numbers is nearer from the middle on. -/
theorem abs_sub_le_iff_middle_le (h : x < y) : |y - q| ≤ |x - q| ↔ (x + y) / 2 ≤ q := by
  have hproduct : (x - q) ^ 2 - (y - q) ^ 2 = 2 * (y - x) * (q - (x + y) / 2) := by ring
  have hpos : 0 < 2 * (y - x) := by linarith
  rw [← sq_le_sq, ← sub_nonneg, hproduct, mul_nonneg_iff_of_pos_left hpos, sub_nonneg]

/-- The lesser of two numbers is nearer up to the middle. -/
theorem abs_sub_le_iff_le_middle (h : x < y) : |x - q| ≤ |y - q| ↔ q ≤ (x + y) / 2 := by
  have hproduct : (y - q) ^ 2 - (x - q) ^ 2 = 2 * (y - x) * ((x + y) / 2 - q) := by ring
  have hpos : 0 < 2 * (y - x) := by linarith
  rw [← sq_le_sq, ← sub_nonneg, hproduct, mul_nonneg_iff_of_pos_left hpos, sub_nonneg]

/-- Two numbers are equally near at the middle between them only. -/
theorem abs_sub_eq_iff_middle (h : x < y) : |x - q| = |y - q| ↔ q = (x + y) / 2 := by
  rw [le_antisymm_iff, le_antisymm_iff, abs_sub_le_iff_le_middle h, abs_sub_le_iff_middle_le h]

variable {a : Nat → ℚ} {k j : Nat}

/-- Between the middles to its neighbours an element of a growing sequence is nearest. -/
theorem abs_sub_le_of_middles (ha : StrictMono a) (hlow : ∀ j, j + 1 = k → (a j + a k) / 2 ≤ q)
    (hhigh : q ≤ (a k + a (k + 1)) / 2) (j : Nat) : |a k - q| ≤ |a j - q| := by
  rcases Nat.lt_trichotomy j k with hj | rfl | hj
  · -- an element below a neighbour has its middle below that of the neighbour
    have hmiddle := hlow (k - 1) (by omega)
    have hle : a j ≤ a (k - 1) := ha.monotone (by omega)
    rw [abs_sub_le_iff_middle_le (ha hj)]
    linarith
  · exact le_refl _
  · have hle : a (k + 1) ≤ a j := ha.monotone hj
    rw [abs_sub_le_iff_le_middle (ha hj)]
    linarith

/-- If two elements of a growing sequence are nearest, they are neighbours. -/
theorem neighbours_of_abs_sub_eq (ha : StrictMono a) (hlt : j < k)
    (hnearest : ∀ i ≤ k, |a j - q| ≤ |a i - q|) (h : |a j - q| = |a k - q|) : k = j + 1 := by
  by_contra hne
  -- the element behind `j` would be nearer, for it stands before the one that is as near as `j`
  have hmiddle := (abs_sub_eq_iff_middle (ha hlt)).1 h
  have hnear := (abs_sub_le_iff_le_middle (ha (Nat.lt_succ_self j))).1 (hnearest (j + 1) hlt)
  have habove : a (j + 1) < a k := ha (by omega)
  linarith

end Nearest

/-! ## Rounding -/

/-- The least magnitude that is rounded to infinity: half a last place above the greatest finite
number. -/
def BinaryFormat.overflow (f : BinaryFormat) : ℚ :=
  (2 * f.leadingBit - 1 / 2) * 2 ^ (f.leastExponent + f.topExponent - 2)

/-- **Rounding to nearest, ties to even.** Whether some bits are what a decimal with a sign rounds
to: it is not rounded to infinity, and of all finite numbers of the format that have the sign none
is nearer; if one is as near, the significand is even. -/
def RoundsTo (f : BinaryFormat) (negative : Bool) (q : ℚ) (bits : Nat) : Prop :=
  bits < 2 ^ f.width ∧ q < f.overflow ∧
    ∃ m, Binary.decode f bits = .finite negative m ∧
      ∀ other m', Binary.decode f other = .finite negative m' →
        |m.value - q| ≤ |m'.value - q|
          ∧ (|m'.value - q| = |m.value - q| → m'.value ≠ m.value → m.significand % 2 = 0)

variable {f : BinaryFormat} {negative : Bool} {q : ℚ} {bits bits' : Nat}

/-- Rounding in terms of the order of the numbers. -/
theorem roundsTo_iff :
    RoundsTo f negative q bits ↔ bits < 2 ^ f.width ∧ q < f.overflow
      ∧ f.rank bits < f.finiteCount ∧ f.isNegative bits = negative
      ∧ ∀ j < f.finiteCount,
        |(f.magnitude (f.rank bits)).value - q| ≤ |(f.magnitude j).value - q|
          ∧ (|(f.magnitude j).value - q| = |(f.magnitude (f.rank bits)).value - q| →
            j ≠ f.rank bits → (f.magnitude (f.rank bits)).significand % 2 = 0) := by
  have hinjective := f.strictMono_value_magnitude.injective
  constructor
  · rintro ⟨hbits, hq, m, hdecode, hnearest⟩
    obtain ⟨hrank, hsign, rfl⟩ := BinaryFormat.decode_eq_finite_iff.1 hdecode
    refine ⟨hbits, hq, hrank, hsign, fun j hj => ?_⟩
    obtain ⟨hle, htie⟩ := hnearest _ _ (BinaryFormat.decode_assemble negative hj)
    exact ⟨hle, fun heq hne => htie heq (hinjective.ne hne)⟩
  · rintro ⟨hbits, hq, hrank, hsign, hnearest⟩
    refine ⟨hbits, hq, _, BinaryFormat.decode_eq_finite_iff.2 ⟨hrank, hsign, rfl⟩, ?_⟩
    intro other m' hother
    obtain ⟨hrank', -, rfl⟩ := BinaryFormat.decode_eq_finite_iff.1 hother
    obtain ⟨hle, htie⟩ := hnearest _ hrank'
    refine ⟨hle, fun heq hne => htie heq fun hsame => hne ?_⟩
    rw [hsame]

/-- **Rounding has one answer.** Two nearest numbers would be neighbours with even significands. -/
theorem RoundsTo.unique (hf : 0 < f.fractionBits) (h : RoundsTo f negative q bits)
    (h' : RoundsTo f negative q bits') : bits = bits' := by
  obtain ⟨hbits, -, hrank, hsign, hnearest⟩ := roundsTo_iff.1 h
  obtain ⟨hbits', -, hrank', hsign', hnearest'⟩ := roundsTo_iff.1 h'
  obtain ⟨hle, htie⟩ := hnearest _ hrank'
  obtain ⟨hle', htie'⟩ := hnearest' _ hrank
  have heq := le_antisymm hle hle'
  have hsame : f.rank bits = f.rank bits' := by
    by_contra hne
    have heven := htie heq.symm (Ne.symm hne)
    have heven' := htie' heq hne
    -- neighbours are not both even
    rw [BinaryFormat.significand_magnitude_mod_two hf] at heven heven'
    rcases Nat.lt_or_gt_of_ne hne with hlt | hlt
    · have hnext := neighbours_of_abs_sub_eq f.strictMono_value_magnitude hlt
        (fun i hi => (hnearest i (by omega)).1) heq
      omega
    · have hnext := neighbours_of_abs_sub_eq f.strictMono_value_magnitude hlt
        (fun i hi => (hnearest' i (by omega)).1) heq.symm
      omega
  rw [← BinaryFormat.assemble_rank hbits, ← BinaryFormat.assemble_rank hbits', hsame, hsign, hsign']

/-- The formats in which there are subnormal and normal numbers. -/
structure BinaryFormat.Proper (f : BinaryFormat) : Prop where
  fractionBits_pos : 0 < f.fractionBits
  exponentBits_gt : 1 < f.exponentBits

theorem BinaryFormat.proper_binary32 : Proper .binary32 := ⟨by decide, by decide⟩

theorem BinaryFormat.proper_binary64 : Proper .binary64 := ⟨by decide, by decide⟩

/-- Infinity begins at the middle between the greatest number and the one that would follow it. -/
theorem BinaryFormat.exists_greatest (hf : f.Proper) :
    ∃ k, f.finiteCount = k + 1 ∧ k % 2 = 1
      ∧ f.overflow = ((f.magnitude k).value + (f.magnitude (k + 1)).value) / 2 := by
  obtain ⟨n, hn⟩ := exists_leadingBit_eq hf.fractionBits_pos
  obtain ⟨d, hd⟩ : ∃ d, f.topExponent = d + 2 := by
    have hpow : 2 ^ 2 ≤ 2 ^ f.exponentBits := Nat.pow_le_pow_right (by decide) hf.exponentBits_gt
    have htop : f.topExponent = 2 ^ f.exponentBits - 1 := rfl
    exact ⟨f.topExponent - 2, by omega⟩
  have hpos := f.leadingBit_pos
  have hcount : f.finiteCount = f.leadingBit * (d + 1) + (f.leadingBit - 1) + 1 := by
    rw [finiteCount, hd, Nat.mul_succ f.leadingBit (d + 1)]
    omega
  refine ⟨_, hcount, ?_, ?_⟩
  · have heven : f.finiteCount = 2 * (n * f.topExponent) := by rw [finiteCount, hn, Nat.mul_assoc]
    omega
  · have hexponent : f.leastExponent + (f.topExponent : Int) - 2 = f.leastExponent + d := by
      rw [hd]
      push_cast
      ring
    rw [value_magnitude_succ, magnitude_normal d (Nat.sub_lt hpos Nat.one_pos), overflow, hexponent]
    simp only [Magnitude.value]
    rw [Nat.cast_add, Nat.cast_pred hpos]
    ring

/-! ## Attraction -/

/-- Whether a number comes before another, or also if they are equal. -/
def Precedes (closed : Bool) (x y : ℚ) : Prop := if closed then x ≤ y else x < y

theorem Precedes.of_lt {closed : Bool} {x y : ℚ} (h : x < y) : Precedes closed x y := by
  unfold Precedes
  split
  · exact h.le
  · exact h

theorem Precedes.le {closed : Bool} {x y : ℚ} (h : Precedes closed x y) : x ≤ y := by
  unfold Precedes at h
  split at h
  · exact h
  · exact h.le

theorem Precedes.of_le_left {closed : Bool} {x y z : ℚ} (hle : x ≤ y) (h : Precedes closed y z) :
    Precedes closed x z := by
  by_cases hclosed : closed = true
  · rw [Precedes, if_pos hclosed] at h ⊢
    exact hle.trans h
  · rw [Precedes, if_neg hclosed] at h ⊢
    exact hle.trans_lt h

theorem Precedes.of_le_right {closed : Bool} {x y z : ℚ} (h : Precedes closed x y) (hle : y ≤ z) :
    Precedes closed x z := by
  by_cases hclosed : closed = true
  · rw [Precedes, if_pos hclosed] at h ⊢
    exact h.trans hle
  · rw [Precedes, if_neg hclosed] at h ⊢
    exact h.trans_le hle

/-- The middle between two numbers of a format. -/
def BinaryFormat.middle (f : BinaryFormat) (j k : Nat) : ℚ :=
  ((f.magnitude j).value + (f.magnitude k).value) / 2

/-- Whether a number is between the middles to the neighbours of a number of a format. The middles
belong to the number if its significand is even. -/
structure BinaryFormat.Attracts (f : BinaryFormat) (k : Nat) (q : ℚ) : Prop where
  low : ∀ j, j + 1 = k → Precedes ((f.magnitude k).significand % 2 == 0) (f.middle j k) q
  high : Precedes ((f.magnitude k).significand % 2 == 0) q (f.middle k (k + 1))

/-- Only at a middle the significand has to be even. -/
theorem precedes_of_odd {x y : ℚ} {s : Nat} (hle : x ≤ y) (h : x = y → s % 2 = 0) :
    Precedes (s % 2 == 0) x y := by
  rcases hle.lt_or_eq with hlt | heq
  · exact .of_lt hlt
  · rw [h heq]
    exact hle

theorem BinaryFormat.Attracts.abs_sub_le {k : Nat} (h : f.Attracts k q) (j : Nat) :
    |(f.magnitude k).value - q| ≤ |(f.magnitude j).value - q| :=
  abs_sub_le_of_middles f.strictMono_value_magnitude (fun i hi => (h.low i hi).le) h.high.le j

/-- What lies between two numbers is attracted with them. -/
theorem BinaryFormat.Attracts.of_between {k : Nat} {x y : ℚ} (hx : f.Attracts k x)
    (hy : f.Attracts k y) (hlow : x ≤ q) (hhigh : q ≤ y) : f.Attracts k q :=
  ⟨fun j hj => (hx.low j hj).of_le_right hlow, hy.high.of_le_left hhigh⟩

/-- If another number is as near to what is attracted, then it is a neighbour, and the middle to it
belongs to the number. -/
theorem BinaryFormat.Attracts.even_of_tie {k j : Nat} (h : f.Attracts k q) (hne : j ≠ k)
    (htie : |(f.magnitude j).value - q| = |(f.magnitude k).value - q|) :
    (f.magnitude k).significand % 2 = 0 := by
  have hmono := f.strictMono_value_magnitude
  by_contra hparity
  have hodd : ((f.magnitude k).significand % 2 == 0) = false := beq_eq_false_iff_ne.2 hparity
  rcases Nat.lt_or_gt_of_ne hne with hlt | hlt
  · have hnext := neighbours_of_abs_sub_eq hmono hlt
      (fun i _ => htie.trans_le (h.abs_sub_le i)) htie
    have hlow := h.low j hnext.symm
    rw [hodd] at hlow
    exact absurd ((abs_sub_eq_iff_middle (hmono hlt)).1 htie).symm hlow.ne
  · have hnext := neighbours_of_abs_sub_eq hmono hlt (fun i _ => h.abs_sub_le i) htie.symm
    have hmiddle := (abs_sub_eq_iff_middle (hmono hlt)).1 htie.symm
    have hhigh := h.high
    rw [hodd] at hhigh
    rw [hnext] at hmiddle
    exact absurd hmiddle hhigh.ne

/-- What a finite number attracts is not rounded to infinity. -/
theorem BinaryFormat.Attracts.lt_overflow {k : Nat} (hf : f.Proper) (h : f.Attracts k q)
    (hk : k < f.finiteCount) : q < f.overflow := by
  have hmono := f.strictMono_value_magnitude
  obtain ⟨greatest, hcount, hparity, hoverflow⟩ := f.exists_greatest hf
  have hhigh := h.high
  rw [hoverflow]
  by_cases hlast : k = greatest
  · -- the greatest significand is odd
    rw [BinaryFormat.significand_magnitude_mod_two hf.fractionBits_pos, hlast, hparity] at hhigh
    exact hhigh
  · have hle : (f.magnitude (k + 1)).value ≤ (f.magnitude greatest).value :=
      hmono.monotone (by omega)
    have hlt : (f.magnitude k).value < (f.magnitude greatest).value := hmono (by omega)
    have hlast : (f.magnitude greatest).value < (f.magnitude (greatest + 1)).value :=
      hmono (Nat.lt_succ_self greatest)
    have hmiddle := hhigh.le
    rw [middle] at hmiddle
    linarith

/-- **What is rounded to a number is what lies between the middles to its neighbours.** -/
theorem roundsTo_iff_attracts (hf : f.Proper) (hbits : bits < 2 ^ f.width)
    (hrank : f.rank bits < f.finiteCount) :
    RoundsTo f (f.isNegative bits) q bits ↔ f.Attracts (f.rank bits) q := by
  have hmono := f.strictMono_value_magnitude
  rw [roundsTo_iff]
  constructor
  · rintro ⟨-, hoverflow, -, -, hnearest⟩
    refine ⟨?_, ?_⟩
    · intro j hj
      have hlt := hmono (show j < f.rank bits by omega)
      obtain ⟨hle, htie⟩ := hnearest j (by omega)
      refine precedes_of_odd ((abs_sub_le_iff_middle_le hlt).1 hle) fun heq => htie ?_ (by omega)
      exact (abs_sub_eq_iff_middle hlt).2 heq.symm
    · by_cases hlast : f.rank bits + 1 < f.finiteCount
      · have hlt := hmono (Nat.lt_succ_self (f.rank bits))
        obtain ⟨hle, htie⟩ := hnearest _ hlast
        refine precedes_of_odd ((abs_sub_le_iff_le_middle hlt).1 hle) fun heq => htie ?_ (by omega)
        exact ((abs_sub_eq_iff_middle hlt).2 heq).symm
      · obtain ⟨greatest, hcount, -, hmiddle⟩ := f.exists_greatest hf
        -- the middle to what would follow is where infinity begins
        obtain rfl : f.rank bits = greatest := by omega
        rw [hmiddle] at hoverflow
        exact .of_lt hoverflow
  · intro h
    exact ⟨hbits, h.lt_overflow hf hrank, hrank, rfl,
      fun j _ => ⟨h.abs_sub_le j, fun htie hne => h.even_of_tie hne htie⟩⟩

/-- A number attracts its own value. -/
theorem BinaryFormat.attracts_value (f : BinaryFormat) (k : Nat) :
    f.Attracts k (f.magnitude k).value := by
  have hmono := f.strictMono_value_magnitude
  refine ⟨fun j hj => .of_lt ?_, .of_lt ?_⟩
  · have hlt : (f.magnitude j).value < (f.magnitude k).value := hmono (by omega)
    rw [middle]
    linarith
  · have hlt : (f.magnitude k).value < (f.magnitude (k + 1)).value := hmono (Nat.lt_succ_self k)
    rw [middle]
    linarith

/-! ## Intervals -/

/-- Whether a number lies in the interval around a number whose last place is `2 ^ place`. -/
@[mk_iff]
structure Interval.Holds (i : Interval) (place : Int) (q : ℚ) : Prop where
  low : Precedes i.closed (i.low * (2 : ℚ) ^ (place - 2)) q
  high : Precedes i.closed q (i.high * (2 : ℚ) ^ (place - 2))

variable {k : Nat}

theorem two_zpow_eq_quarters (e : Int) : (2 : ℚ) ^ e = 4 * 2 ^ (e - 2) := by
  rw [zpow_sub₀ (by norm_num)]
  ring

theorem Magnitude.value_eq_quarters (m : Magnitude) :
    m.value = 4 * m.significand * (2 : ℚ) ^ (m.exponent - 2) := by
  rw [value, two_zpow_eq_quarters]
  ring

theorem middle_eq_sub (f : BinaryFormat) (k : Nat) :
    f.middle k (k + 1) = (f.magnitude (k + 1)).value - (2 : ℚ) ^ (f.magnitude k).exponent / 2 := by
  rw [BinaryFormat.middle, f.value_magnitude_succ]
  ring

/-- With the same last place the middle is two quarters of it below a number. -/
theorem middle_of_exponent_eq (h : (f.magnitude (k + 1)).exponent = (f.magnitude k).exponent) :
    f.middle k (k + 1) = (4 * (f.magnitude (k + 1)).significand - 2)
      * (2 : ℚ) ^ ((f.magnitude (k + 1)).exponent - 2) := by
  rw [middle_eq_sub, Magnitude.value_eq_quarters, ← h,
    two_zpow_eq_quarters (f.magnitude (k + 1)).exponent]
  ring

/-- Below a power of two the spacing is half as wide. -/
theorem middle_of_exponent_succ
    (h : (f.magnitude (k + 1)).exponent = (f.magnitude k).exponent + 1) :
    f.middle k (k + 1) = (4 * (f.magnitude (k + 1)).significand - 1)
      * (2 : ℚ) ^ ((f.magnitude (k + 1)).exponent - 2) := by
  have hbelow : (2 : ℚ) ^ (f.magnitude k).exponent
      = 2 * 2 ^ ((f.magnitude (k + 1)).exponent - 2) := by
    rw [h, add_sub_assoc, zpow_add₀ (by norm_num)]
    ring
  rw [middle_eq_sub, Magnitude.value_eq_quarters, hbelow]
  ring

/-- The lower end of an interval is the middle to the number before. Only around the least normal
number it is above. -/
theorem middle_le_low (hpos : (f.magnitude (k + 1)).significand ≠ 0) :
    f.middle k (k + 1) ≤ (Interval.around f (f.magnitude (k + 1)).significand).low
        * (2 : ℚ) ^ ((f.magnitude (k + 1)).exponent - 2)
      ∧ (k + 1 ≠ f.leadingBit →
        f.middle k (k + 1) = (Interval.around f (f.magnitude (k + 1)).significand).low
          * (2 : ℚ) ^ ((f.magnitude (k + 1)).exponent - 2)) := by
  have hquarter : (0 : ℚ) < 2 ^ ((f.magnitude (k + 1)).exponent - 2) := by positivity
  have hlow : ((Interval.around f (f.magnitude (k + 1)).significand).low : ℚ)
      = 4 * (f.magnitude (k + 1)).significand
        - if (f.magnitude (k + 1)).significand = f.leadingBit then 1 else 2 := by
    rw [Interval.around, Nat.cast_sub (by split <;> omega)]
    push_cast
    rfl
  rw [hlow]
  rcases f.exponent_magnitude_succ k with ⟨hsame, hleast⟩ | ⟨hleading, hsucc⟩
  · rw [middle_of_exponent_eq hsame, mul_le_mul_iff_left₀ hquarter]
    by_cases hs : (f.magnitude (k + 1)).significand = f.leadingBit
    · refine ⟨?_, fun hne => absurd (hleast hs) hne⟩
      rw [if_pos hs]
      linarith
    · rw [if_neg hs]
      exact ⟨le_refl _, fun _ => rfl⟩
  · rw [middle_of_exponent_succ hsucc, if_pos hleading]
    exact ⟨le_refl _, fun _ => rfl⟩

theorem high_eq_middle (f : BinaryFormat) (k : Nat) :
    (Interval.around f (f.magnitude k).significand).high * (2 : ℚ) ^ ((f.magnitude k).exponent - 2)
      = f.middle k (k + 1) := by
  rw [BinaryFormat.middle, f.value_magnitude_succ, Magnitude.value_eq_quarters, Interval.around,
    two_zpow_eq_quarters (f.magnitude k).exponent]
  push_cast
  ring

/-- **A number attracts what the interval around it holds.** -/
theorem attracts_of_holds (hpos : (f.magnitude k).significand ≠ 0)
    (h : (Interval.around f (f.magnitude k).significand).Holds (f.magnitude k).exponent q) :
    f.Attracts k q := by
  refine ⟨?_, ?_⟩
  · rintro j rfl
    exact h.low.of_le_left (middle_le_low hpos).1
  · rw [← high_eq_middle]
    exact h.high

/-- The interval around a number holds what the number attracts. Only that around the least normal
number is too narrow for this. -/
theorem holds_of_attracts (hpos : (f.magnitude k).significand ≠ 0) (hk : k ≠ f.leadingBit)
    (h : f.Attracts k q) :
    (Interval.around f (f.magnitude k).significand).Holds (f.magnitude k).exponent q := by
  -- zero has no neighbour below, and no interval around it
  obtain ⟨j, rfl⟩ : ∃ j, k = j + 1 := by
    refine Nat.exists_eq_succ_of_ne_zero ?_
    rintro rfl
    exact hpos (by rw [BinaryFormat.magnitude_subnormal f.leadingBit_pos])
  refine ⟨?_, ?_⟩
  · rw [← (middle_le_low hpos).2 hk]
    exact h.low j rfl
  · rw [high_eq_middle]
    exact h.high

/-- What rounds to the least normal number, in quarters of its last place. Below it the spacing is
the same as above. -/
def Interval.aroundLeastNormal (f : BinaryFormat) : Interval :=
  ⟨4 * f.leadingBit - 2, 4 * f.leadingBit + 2, f.leadingBit % 2 == 0⟩

theorem holds_of_attracts_leadingBit (h : f.Attracts f.leadingBit q) :
    (Interval.aroundLeastNormal f).Holds f.leastExponent q := by
  have hpos := f.leadingBit_pos
  have hnext : f.leadingBit - 1 + 1 = f.leadingBit := Nat.sub_add_cancel hpos
  have hsame : (f.magnitude (f.leadingBit - 1 + 1)).exponent
      = (f.magnitude (f.leadingBit - 1)).exponent := by
    rw [hnext, f.magnitude_leadingBit,
      BinaryFormat.magnitude_subnormal (Nat.sub_lt hpos Nat.one_pos)]
  have hmiddle := middle_of_exponent_eq hsame
  have hlow := h.low (f.leadingBit - 1) hnext
  have hhigh := h.high
  rw [hnext, f.magnitude_leadingBit] at hmiddle
  rw [hmiddle, f.magnitude_leadingBit] at hlow
  rw [← high_eq_middle, f.magnitude_leadingBit] at hhigh
  refine ⟨?_, hhigh⟩
  rw [Interval.aroundLeastNormal, Nat.cast_sub (by omega)]
  push_cast
  exact hlow

end NativeHeaders.Decimal
