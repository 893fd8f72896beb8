import NativeHeaders.Proofs.Decimal.Rounding

/-!
# The shortest decimal rounds to its number

A grid scales a power of ten and a quarter of a last place to integers of one measure
(`Grid.exists_scale`), so that its comparisons are those of the rationals (`Grid.holds_iff`,
`Grid.abs_sub_le_iff`). If any point of a grid lies in an interval around a number, then one of the
two neighbours of the number does, and the nearer of these is chosen (`Grid.exists_choose`,
`Grid.nearest_of_choose`).

The search tries one grid after the other, the coarsest first, and it ends at the first that has a
point in the interval (`Numeral.isBest_search`). There is one among those it tries, since a grid
that is finer than a quarter of the last place has a point there, and no coarser grid has one
(`Numeral.exponent_le_coarsest`). The interval holds all that is rounded to the number, but for the
least normal number, of which this is computed (`Numeral.LeastNormalIsBest`). So the decimal of a
number is the shortest of those that round to it, and the nearest of these
(`isShortest_decimalOf`).
-/

set_option autoImplicit false

namespace NativeHeaders.Decimal

/-! ## The interval around a number -/

namespace Interval

/-- Whether an interval of positive numbers is about a number, with half a last place above it. -/
structure Surrounds (i : Interval) (s : Nat) : Prop where
  low_pos : 0 < i.low
  low_lt : i.low < 4 * s
  high_eq : i.high = 4 * s + 2

theorem Surrounds.lt_high {i : Interval} {s : Nat} (h : i.Surrounds s) : 4 * s < i.high := by
  rw [h.high_eq]
  exact Nat.lt_add_of_pos_right (by decide)

theorem surrounds_around (f : BinaryFormat) {s : Nat} (hs : s ≠ 0) : (around f s).Surrounds s := by
  refine ⟨?_, ?_, rfl⟩
  · dsimp only [around]
    split <;> omega
  · dsimp only [around]
    split <;> omega

theorem surrounds_aroundLeastNormal (f : BinaryFormat) :
    (aroundLeastNormal f).Surrounds f.leadingBit := by
  have hpos := f.leadingBit_pos
  refine ⟨?_, ?_, rfl⟩
  · dsimp only [aroundLeastNormal]
    omega
  · dsimp only [aroundLeastNormal]
    omega

theorem Holds.pos {i : Interval} {place : Int} {q : ℚ} (h : i.Holds place q) (hlow : 0 < i.low) :
    0 < q := by
  have hend : (0 : ℚ) < i.low * 2 ^ (place - 2) := by positivity
  exact hend.trans_le h.low.le

end Interval

/-! ## Grids -/

theorem zpow_mul_pow_toNat {b : ℚ} (hb : b ≠ 0) (e : Int) :
    b ^ e * b ^ (-e).toNat = b ^ e.toNat := by
  have hsum : e + ((-e).toNat : Int) = e.toNat := by omega
  rw [← zpow_natCast, ← zpow_add₀ hb, hsum, zpow_natCast]

namespace Grid

variable {g : Grid} {i : Interval} {s : Nat}

/-- The unit of a grid and the quarter of a last place are scaled alike. -/
theorem exists_scale (place exponent : Int) :
    ∃ scale : ℚ, 0 < scale ∧ ((of place exponent).unit : ℚ) = 10 ^ exponent * scale
      ∧ ((of place exponent).quarter : ℚ) = 2 ^ (place - 2) * scale := by
  have hten := zpow_mul_pow_toNat (b := 10) (by norm_num) exponent
  have htwo := zpow_mul_pow_toNat (b := 2) (by norm_num) (place - 2)
  rw [neg_sub] at htwo
  refine ⟨10 ^ (-exponent).toNat * 2 ^ (2 - place).toNat, by positivity, ?_, ?_⟩
  · simp only [of, Nat.pow_eq]
    push_cast
    rw [← hten]
    ring
  · simp only [of, Nat.pow_eq]
    push_cast
    rw [← htwo]
    ring

theorem unit_pos (place exponent : Int) : 0 < (of place exponent).unit :=
  Nat.mul_pos (Nat.pow_pos (by decide)) (Nat.pow_pos (by decide))

theorem quarter_pos (place exponent : Int) : 0 < (of place exponent).quarter :=
  Nat.mul_pos (Nat.pow_pos (by decide)) (Nat.pow_pos (by decide))

/-- A point of a grid is held just when its value is. -/
theorem holds_iff {place exponent : Int} {point : Nat} :
    (of place exponent).holds i point = true ↔ i.Holds place (point * (10 : ℚ) ^ exponent) := by
  obtain ⟨scale, hscale, hunit, hquarter⟩ := exists_scale place exponent
  have hpoint : ((point * (of place exponent).unit : Nat) : ℚ)
      = point * (10 : ℚ) ^ exponent * scale := by
    rw [Nat.cast_mul, hunit, mul_assoc]
  have hend : ∀ n : Nat, ((n * (of place exponent).quarter : Nat) : ℚ)
      = n * (2 : ℚ) ^ (place - 2) * scale := by
    intro n
    rw [Nat.cast_mul, hquarter, mul_assoc]
  rw [Interval.holds_iff]
  unfold holds Precedes
  split
  · rw [decide_eq_true_eq, ← Nat.cast_le (α := ℚ), ← Nat.cast_le (α := ℚ), hpoint, hend, hend,
      mul_le_mul_iff_left₀ hscale, mul_le_mul_iff_left₀ hscale]
  · rw [decide_eq_true_eq, ← Nat.cast_lt (α := ℚ), ← Nat.cast_lt (α := ℚ), hpoint, hend, hend,
      mul_lt_mul_iff_left₀ hscale, mul_lt_mul_iff_left₀ hscale]

/-- A point of a grid is as near as another just when its value is. -/
theorem abs_sub_le_iff {m : Magnitude} {exponent : Int} {point other : Nat} :
    |point * (10 : ℚ) ^ exponent - m.value| ≤ |other * (10 : ℚ) ^ exponent - m.value|
      ↔ ((point * (of m.exponent exponent).unit : Nat)
          - (4 * m.significand * (of m.exponent exponent).quarter : Nat) : Int).natAbs
        ≤ ((other * (of m.exponent exponent).unit : Nat)
          - (4 * m.significand * (of m.exponent exponent).quarter : Nat) : Int).natAbs := by
  obtain ⟨scale, hscale, hunit, hquarter⟩ := exists_scale m.exponent exponent
  have hnumber : ((4 * m.significand * (of m.exponent exponent).quarter : Nat) : ℚ)
      = m.value * scale := by
    push_cast
    rw [hquarter, Magnitude.value, zpow_sub₀ (by norm_num)]
    ring
  have hdistance : ∀ n : Nat, (((n * (of m.exponent exponent).unit : Nat)
      - (4 * m.significand * (of m.exponent exponent).quarter : Nat) : Int).natAbs : ℚ)
        = |n * (10 : ℚ) ^ exponent - m.value| * scale := by
    intro n
    rw [Nat.cast_natAbs, Int.cast_abs, Int.cast_sub, Int.cast_natCast, Int.cast_natCast, hnumber,
      Nat.cast_mul, hunit, ← mul_assoc, ← sub_mul, abs_mul, abs_of_pos hscale]
  rw [← Nat.cast_le (α := ℚ), hdistance, hdistance, mul_le_mul_iff_left₀ hscale]

theorem holds_of_choose {point : Nat} (h : g.choose i s = some point) : g.holds i point = true := by
  unfold choose at h
  dsimp only at h
  split at h
  · rename_i hupper
    obtain rfl := Option.some.inj h
    exact (Bool.and_eq_true_iff.1 hupper).1
  · split at h
    · rename_i hlower
      obtain rfl := Option.some.inj h
      exact hlower
    · contradiction

/-- What is chosen is a neighbour of the number, if one of them is held. -/
theorem exists_choose_of_neighbour
    (h : g.holds i (g.below s) = true ∨ g.holds i (g.below s + 1) = true) :
    ∃ point, g.choose i s = some point := by
  unfold choose
  dsimp only
  split
  · exact ⟨_, rfl⟩
  · rename_i hupper
    split
    · exact ⟨_, rfl⟩
    · -- without the lower neighbour nothing is asked of the upper one but to be held
      rename_i hlower
      rw [Bool.not_eq_true] at hlower
      rw [hlower, Bool.not_false, Bool.true_or, Bool.and_true] at hupper
      rcases h with hheld | hheld
      · exact absurd hheld (by rw [hlower]; exact Bool.false_ne_true)
      · exact absurd hheld hupper

/-- The number lies between its neighbours on the grid. -/
theorem below_spec (hunit : 0 < g.unit) (s : Nat) :
    g.below s * g.unit ≤ 4 * s * g.quarter ∧ 4 * s * g.quarter < (g.below s + 1) * g.unit := by
  refine ⟨Nat.div_mul_le_self _ _, ?_⟩
  rw [Nat.mul_comm (g.below s + 1)]
  exact Nat.lt_mul_div_succ _ hunit

/-- A point is held if it lies inside one end and not farther than another held one from it. -/
theorem holds_of_holds {point other : Nat} (h : g.holds i other = true)
    (hpoint : other * g.unit ≤ point * g.unit ∧ point * g.unit < i.high * g.quarter
      ∨ i.low * g.quarter < point * g.unit ∧ point * g.unit ≤ other * g.unit) :
    g.holds i point = true := by
  by_cases hclosed : i.closed = true
  · rw [holds, if_pos hclosed, decide_eq_true_eq] at h ⊢
    omega
  · rw [holds, if_neg hclosed, decide_eq_true_eq] at h ⊢
    omega

section Around

variable (hi : i.Surrounds s) (hunit : 0 < g.unit) (hquarter : 0 < g.quarter)

include hi hunit hquarter

/-- If a point is held, then so is the neighbour of the number on its side. -/
theorem neighbour_of_holds {point : Nat} (h : g.holds i point = true) :
    (point * g.unit ≤ g.below s * g.unit ∧ g.holds i (g.below s) = true)
      ∨ ((g.below s + 1) * g.unit ≤ point * g.unit ∧ g.holds i (g.below s + 1) = true) := by
  have hleft : i.low * g.quarter < 4 * s * g.quarter :=
    Nat.mul_lt_mul_of_pos_right hi.low_lt hquarter
  have hright : 4 * s * g.quarter < i.high * g.quarter :=
    Nat.mul_lt_mul_of_pos_right hi.lt_high hquarter
  obtain ⟨hbelow, habove⟩ := below_spec hunit s
  by_cases hpoint : point ≤ g.below s
  · left
    have hle : point * g.unit ≤ g.below s * g.unit := Nat.mul_le_mul_right _ hpoint
    exact ⟨hle, holds_of_holds h (Or.inl ⟨hle, by omega⟩)⟩
  · right
    have hle : (g.below s + 1) * g.unit ≤ point * g.unit :=
      Nat.mul_le_mul_right _ (Nat.lt_of_not_le hpoint)
    exact ⟨hle, holds_of_holds h (Or.inr ⟨by omega, hle⟩)⟩

/-- If any point is held, then one is chosen. -/
theorem exists_choose {point : Nat} (h : g.holds i point = true) :
    ∃ chosen, g.choose i s = some chosen :=
  exists_choose_of_neighbour ((neighbour_of_holds hi hunit hquarter h).imp And.right And.right)

/-- Of the points that are held the one that is chosen is nearest to the number. -/
theorem nearest_of_choose {point other : Nat} (h : g.choose i s = some point)
    (hother : g.holds i other = true) :
    ((point * g.unit : Nat) - (4 * s * g.quarter : Nat) : Int).natAbs
      ≤ ((other * g.unit : Nat) - (4 * s * g.quarter : Nat) : Int).natAbs := by
  obtain ⟨hbelow, habove⟩ := below_spec hunit s
  have hside := neighbour_of_holds hi hunit hquarter hother
  unfold choose at h
  dsimp only at h
  split at h
  · rename_i hupper
    obtain rfl := Option.some.inj h
    simp only [Bool.and_eq_true, Bool.or_eq_true, Bool.not_eq_true', decide_eq_true_eq] at hupper
    rcases hside with ⟨hle, hheld⟩ | ⟨hle, -⟩
    · -- both neighbours are held, and the upper one is not farther
      have hnear := hupper.2.resolve_left (by rw [hheld]; decide)
      omega
    · omega
  · rename_i hupper
    split at h
    · obtain rfl := Option.some.inj h
      rcases hside with ⟨hle, -⟩ | ⟨hle, hheld⟩
      · omega
      · have hfar : ¬ (g.below s + 1) * g.unit - 4 * s * g.quarter
            ≤ 4 * s * g.quarter - g.below s * g.unit := by
          intro hnear
          rw [hheld, decide_eq_true hnear, Bool.or_true] at hupper
          exact hupper rfl
        omega
    · contradiction

end Around

/-- A grid that is finer than a quarter of the last place has a point in the interval. -/
theorem holds_below (hi : i.Surrounds s) (hunit : 0 < g.unit) (hfine : g.unit ≤ g.quarter) :
    g.holds i (g.below s) = true := by
  have hleft : (i.low + 1) * g.quarter ≤ 4 * s * g.quarter := Nat.mul_le_mul_right _ hi.low_lt
  have hright : 4 * s * g.quarter < i.high * g.quarter :=
    Nat.mul_lt_mul_of_pos_right hi.lt_high (hunit.trans_le hfine)
  obtain ⟨hbelow, habove⟩ := below_spec hunit s
  rw [Nat.add_mul, Nat.one_mul] at hleft habove
  unfold holds
  split
  · rw [decide_eq_true_eq]
    omega
  · rw [decide_eq_true_eq]
    omega

end Grid

/-! ## The search -/

namespace Numeral

/-- Whether a decimal is the best of those that an interval around a number holds: it is on the
coarsest of the grids up to one, and on this grid the nearest to the number. -/
structure IsBest (i : Interval) (m : Magnitude) (start : Int) (n : Numeral) : Prop where
  holds : i.Holds m.exponent n.value
  coarsest : ∀ (exponent : Int) (point : Nat), exponent ≤ start →
    i.Holds m.exponent (point * (10 : ℚ) ^ exponent) → exponent ≤ n.exponent
  nearest : ∀ point : Nat, i.Holds m.exponent (point * (10 : ℚ) ^ n.exponent) →
    |n.value - m.value| ≤ |point * (10 : ℚ) ^ n.exponent - m.value|

/-- If one of the grids that are tried has a point in the interval, the search finds the best. -/
theorem isBest_search {i : Interval} {m : Magnitude} (hi : i.Surrounds m.significand) {steps : Nat}
    {start : Int} (h : ∃ exponent, ∃ point : Nat, start - steps < exponent ∧ exponent ≤ start
      ∧ i.Holds m.exponent (point * (10 : ℚ) ^ exponent)) :
    IsBest i m start (search i m steps start) := by
  induction steps generalizing start with
  | zero =>
    obtain ⟨exponent, point, hlast, hstart, -⟩ := h
    omega
  | succ steps ih =>
    have hunit := Grid.unit_pos m.exponent start
    have hquarter := Grid.quarter_pos m.exponent start
    rw [search]
    split
    · rename_i point hchoose
      refine ⟨Grid.holds_iff.1 (Grid.holds_of_choose hchoose), fun _ _ hle _ => hle, ?_⟩
      intro other hother
      exact Grid.abs_sub_le_iff.2
        (Grid.nearest_of_choose hi hunit hquarter hchoose (Grid.holds_iff.2 hother))
    · rename_i hnone
      -- this grid has no point, so one of the others that are tried has
      have hlater : ∀ exponent, ∀ point : Nat, exponent ≤ start →
          i.Holds m.exponent (point * (10 : ℚ) ^ exponent) → exponent ≤ start - 1 := by
        intro exponent point hle hpoint
        by_contra hnot
        obtain rfl : exponent = start := by omega
        obtain ⟨chosen, hchosen⟩ :=
          Grid.exists_choose hi hunit hquarter (Grid.holds_iff.2 hpoint)
        rw [hnone] at hchosen
        contradiction
      obtain ⟨exponent, point, hlast, hstart, hpoint⟩ := h
      have hle := hlater exponent point hstart hpoint
      have hbest := ih ⟨exponent, point, by omega, hle, hpoint⟩
      exact ⟨hbest.holds, fun e p he hp => hbest.coarsest e p (hlater e p he hp) hp, hbest.nearest⟩

/-- The search of `shortest`, for any interval. -/
def coarsest (i : Interval) (m : Magnitude) : Numeral :=
  search i m (m.decimalBound + (2 - m.exponent).toNat + 1) m.decimalBound

variable {i : Interval} {m : Magnitude}

/-- The last grid that is tried for a number is finer than a quarter of its last place. -/
theorem exists_fine_grid (hi : i.Surrounds m.significand) :
    ∃ point : Nat, i.Holds m.exponent (point * (10 : ℚ) ^ (-(2 - m.exponent).toNat : Int)) := by
  have hfine : (Grid.of m.exponent (-(2 - m.exponent).toNat : Int)).unit
      ≤ (Grid.of m.exponent (-(2 - m.exponent).toNat : Int)).quarter := by
    have hzero : (-(2 - m.exponent).toNat : Int).toNat = 0 := by omega
    have hneg : (- -((2 - m.exponent).toNat : Int)).toNat = (2 - m.exponent).toNat := by omega
    simp only [Grid.of, Nat.pow_eq, hzero, hneg, pow_zero, Nat.one_mul]
    calc 2 ^ (2 - m.exponent).toNat
        ≤ 10 ^ (2 - m.exponent).toNat := Nat.pow_le_pow_left (by decide) _
      _ ≤ 10 ^ (2 - m.exponent).toNat * 2 ^ (m.exponent - 2).toNat :=
          Nat.le_mul_of_pos_right _ (Nat.two_pow_pos _)
  exact ⟨_, Grid.holds_iff.1 (Grid.holds_below hi (Grid.unit_pos _ _) hfine)⟩

theorem isBest_coarsest (hi : i.Surrounds m.significand) :
    IsBest i m m.decimalBound (coarsest i m) := by
  obtain ⟨point, hpoint⟩ := exists_fine_grid hi
  refine isBest_search hi ⟨_, point, ?_, ?_, hpoint⟩
  · push_cast
    omega
  · omega

/-- A decimal that an interval around a number holds is below the power of ten at which the search
starts. -/
theorem lt_of_holds (hi : i.Surrounds m.significand) {q : ℚ} (h : i.Holds m.exponent q) :
    q < (10 : ℚ) ^ (m.decimalBound + 1) := by
  have hbound : m.significand * 2 ^ m.exponent.toNat < 10 ^ m.decimalBound :=
    (Nat.length_toDigits_le_iff (by decide) Nat.length_toDigits_pos).1 (le_refl m.decimalBound)
  have hcast : (m.significand : ℚ) * 2 ^ m.exponent.toNat < 10 ^ m.decimalBound := by
    exact_mod_cast hbound
  have hone : (1 : ℚ) ≤ m.significand := by
    have hlow := hi.low_lt
    exact_mod_cast show 1 ≤ m.significand by omega
  have hplace : (2 : ℚ) ^ m.exponent ≤ 2 ^ m.exponent.toNat := by
    rw [← zpow_natCast]
    exact zpow_le_zpow_right₀ (by norm_num) (by omega)
  have hvalue : (m.significand : ℚ) * 2 ^ m.exponent ≤ m.significand * 2 ^ m.exponent.toNat :=
    mul_le_mul_of_nonneg_left hplace (by linarith)
  have hhigh : (i.high : ℚ) * 2 ^ (m.exponent - 2)
      = m.significand * 2 ^ m.exponent + 2 ^ m.exponent / 2 := by
    rw [hi.high_eq, zpow_sub₀ (by norm_num)]
    push_cast
    ring
  have hlast : (2 : ℚ) ^ m.exponent ≤ m.significand * 2 ^ m.exponent :=
    le_mul_of_one_le_left (by positivity) hone
  have hle : q ≤ m.significand * 2 ^ m.exponent + 2 ^ m.exponent / 2 := by
    rw [← hhigh]
    exact h.high.le
  -- half a last place more than the number is less than twice the number
  have hpos : (0 : ℚ) < 10 ^ m.decimalBound := by positivity
  rw [pow_succ]
  linarith

/-- A grid that has a point in an interval around a number is not coarser than the one at which the
search ends. -/
theorem exponent_le_coarsest (hi : i.Surrounds m.significand) {exponent : Int} {point : Nat}
    (h : i.Holds m.exponent (point * (10 : ℚ) ^ exponent)) :
    exponent ≤ (coarsest i m).exponent := by
  -- the points of a grid beyond the first one that is tried are zero or too great
  have hstart : exponent ≤ m.decimalBound := by
    by_contra hnot
    have hpos := h.pos hi.low_pos
    have hpoint : (1 : ℚ) ≤ point := by
      have hne : point ≠ 0 := by
        rintro rfl
        simp at hpos
      exact_mod_cast Nat.one_le_iff_ne_zero.2 hne
    have hpower : (10 : ℚ) ^ (m.decimalBound + 1) ≤ 10 ^ exponent := by
      rw [← zpow_natCast]
      exact zpow_le_zpow_right₀ (by norm_num) (by push_cast; omega)
    have hle : (10 : ℚ) ^ exponent ≤ point * 10 ^ exponent :=
      le_mul_of_one_le_left (by positivity) hpoint
    have hlt := lt_of_holds hi h
    linarith
  exact (isBest_coarsest hi).coarsest exponent point hstart h

variable {f : BinaryFormat}

/-- **The shortest decimal of a number lies in the interval around it.** -/
theorem shortest_holds (hm : m.significand ≠ 0) :
    (Interval.around f m.significand).Holds m.exponent (shortest f m).value :=
  (isBest_coarsest (Interval.surrounds_around f hm)).holds

theorem shortest_digits_ne (hm : m.significand ≠ 0) : (shortest f m).digits ≠ 0 := by
  have hpos := (shortest_holds (f := f) hm).pos (Interval.surrounds_around f hm).low_pos
  intro hzero
  rw [value, hzero, Nat.cast_zero, zero_mul] at hpos
  exact lt_irrefl 0 hpos

/-- Whether the shortest decimal of the least normal number is also the best of those that round to
it. The interval around this number is too narrow for some of them. -/
def LeastNormalIsBest (f : BinaryFormat) : Prop :=
  coarsest (Interval.aroundLeastNormal f) ⟨f.leadingBit, f.leastExponent⟩
    = shortest f ⟨f.leadingBit, f.leastExponent⟩

theorem leastNormalIsBest_binary32 : LeastNormalIsBest .binary32 := by
  unfold LeastNormalIsBest
  decide +kernel

theorem leastNormalIsBest_binary64 : LeastNormalIsBest .binary64 := by
  unfold LeastNormalIsBest
  decide +kernel

/-- The shortest decimal of a number is the best in an interval that holds all that is rounded to
the number. -/
theorem exists_interval (hleast : LeastNormalIsBest f) {k : Nat}
    (hm : (f.magnitude k).significand ≠ 0) :
    ∃ i : Interval, i.Surrounds (f.magnitude k).significand
      ∧ coarsest i (f.magnitude k) = shortest f (f.magnitude k)
      ∧ ∀ q, f.Attracts k q → i.Holds (f.magnitude k).exponent q := by
  by_cases hk : k = f.leadingBit
  · rw [hk, f.magnitude_leadingBit]
    exact ⟨_, Interval.surrounds_aroundLeastNormal f, hleast,
      fun _ => holds_of_attracts_leadingBit⟩
  · exact ⟨_, Interval.surrounds_around f hm, rfl, fun _ => holds_of_attracts hm hk⟩

end Numeral

/-! ## The decimal of a number -/

/-- The decimal of a magnitude. -/
def decimalOf (f : BinaryFormat) (m : Magnitude) : Numeral :=
  if m.significand = 0 then ⟨0, 0⟩ else Numeral.shortest f m

/-- **The shortest decimal.** Whether a decimal is the shortest that rounds to the number with some
bits, and the nearest to its magnitude of those with the same exponent. -/
structure IsShortest (f : BinaryFormat) (negative : Bool) (bits : Nat) (m : Magnitude)
    (n : Numeral) : Prop where
  /-- It rounds to the number, and to no other. -/
  rounds : ∀ bits', RoundsTo f negative n.value bits' ↔ bits' = bits
  /-- No decimal with fewer digits rounds to the number. -/
  fewest : ∀ (point : Nat) (exponent : Int), RoundsTo f negative (point * 10 ^ exponent) bits →
    (Nat.toDigits 10 n.digits).length ≤ (Nat.toDigits 10 point).length
  nearest : ∀ point : Nat, RoundsTo f negative (point * 10 ^ n.exponent) bits →
    |n.value - m.value| ≤ |point * 10 ^ n.exponent - m.value|

variable {f : BinaryFormat} {m : Magnitude} {negative : Bool} {bits k : Nat}

theorem decimalOf_digits_ne (hm : m.significand ≠ 0) : (decimalOf f m).digits ≠ 0 := by
  rw [decimalOf, if_neg hm]
  exact Numeral.shortest_digits_ne hm

theorem attracts_decimalOf (f : BinaryFormat) (k : Nat) :
    f.Attracts k (decimalOf f (f.magnitude k)).value := by
  by_cases hm : (f.magnitude k).significand = 0
  · have hvalue : (decimalOf f (f.magnitude k)).value = (f.magnitude k).value := by
      rw [decimalOf, if_pos hm, Numeral.value, Magnitude.value, hm, Nat.cast_zero, zero_mul,
        zero_mul]
    rw [hvalue]
    exact f.attracts_value k
  · rw [decimalOf, if_neg hm]
    exact attracts_of_holds hm (Numeral.shortest_holds hm)

/-- A grid of which a point is rounded to a number is not coarser than that of its decimal. -/
theorem exponent_le_decimalOf (hleast : Numeral.LeastNormalIsBest f)
    (hm : (f.magnitude k).significand ≠ 0) {point : Nat} {exponent : Int}
    (h : f.Attracts k (point * (10 : ℚ) ^ exponent)) :
    exponent ≤ (decimalOf f (f.magnitude k)).exponent := by
  obtain ⟨i, hi, hshortest, hholds⟩ := Numeral.exists_interval hleast hm
  rw [decimalOf, if_neg hm, ← hshortest]
  exact Numeral.exponent_le_coarsest hi (hholds _ h)

/-- If a decimal had fewer digits, then a power of ten between it and the shortest one would be on
a coarser grid. -/
theorem length_digits_decimalOf_le (hleast : Numeral.LeastNormalIsBest f)
    (hm : (f.magnitude k).significand ≠ 0) {point : Nat} {exponent : Int}
    (h : f.Attracts k (point * (10 : ℚ) ^ exponent)) :
    (Nat.toDigits 10 (decimalOf f (f.magnitude k)).digits).length
      ≤ (Nat.toDigits 10 point).length := by
  have hexponent := exponent_le_decimalOf hleast hm h
  have hdecimal := attracts_decimalOf f k
  have hcoarser : ∀ count : Nat, f.Attracts k ((1 : Nat)
      * (10 : ℚ) ^ ((decimalOf f (f.magnitude k)).exponent + count)) → count = 0 := by
    intro count hcount
    have hle := exponent_le_decimalOf hleast hm hcount
    omega
  generalize decimalOf f (f.magnitude k) = n at hexponent hdecimal hcoarser ⊢
  have hpos : 0 < (Nat.toDigits 10 point).length := Nat.length_toDigits_pos
  have hpoint := (Nat.length_toDigits_le_iff (by decide) hpos).1 (le_refl _)
  rw [Nat.length_toDigits_le_iff (by decide) hpos]
  generalize (Nat.toDigits 10 point).length = count at hpos hpoint hcoarser ⊢
  by_contra hdigits
  rw [Nat.not_lt] at hdigits
  -- the least number with one more digit than `point`, on the grid of the shortest decimal
  have hpower : ((1 : Nat) : ℚ) * (10 : ℚ) ^ (n.exponent + count)
      = 10 ^ count * 10 ^ n.exponent := by
    rw [zpow_add₀ (by norm_num), zpow_natCast]
    push_cast
    ring
  have hzero := hcoarser count (h.of_between hdecimal ?_ ?_)
  · omega
  · rw [hpower]
    have hcast : (point : ℚ) ≤ 10 ^ count := by exact_mod_cast hpoint.le
    exact mul_le_mul hcast (zpow_le_zpow_right₀ (by norm_num) hexponent) (by positivity)
      (by positivity)
  · rw [hpower, Numeral.value]
    have hcast : (10 : ℚ) ^ count ≤ n.digits := by exact_mod_cast hdigits
    exact mul_le_mul_of_nonneg_right hcast (by positivity)

theorem abs_decimalOf_sub_le (hleast : Numeral.LeastNormalIsBest f)
    (hm : (f.magnitude k).significand ≠ 0) {point : Nat}
    (h : f.Attracts k (point * (10 : ℚ) ^ (decimalOf f (f.magnitude k)).exponent)) :
    |(decimalOf f (f.magnitude k)).value - (f.magnitude k).value|
      ≤ |point * 10 ^ (decimalOf f (f.magnitude k)).exponent - (f.magnitude k).value| := by
  obtain ⟨i, hi, hshortest, hholds⟩ := Numeral.exists_interval hleast hm
  have hheld := hholds _ h
  rw [decimalOf, if_neg hm, ← hshortest] at hheld ⊢
  exact (Numeral.isBest_coarsest hi).nearest point hheld

/-- **The decimal of a finite number is the shortest.** -/
theorem isShortest_decimalOf (hf : f.Proper) (hleast : Numeral.LeastNormalIsBest f)
    (hbits : bits < 2 ^ f.width) (h : Binary.decode f bits = .finite negative m) :
    IsShortest f negative bits m (decimalOf f m) := by
  obtain ⟨hrank, rfl, rfl⟩ := BinaryFormat.decode_eq_finite_iff.1 h
  have hrounds : RoundsTo f (f.isNegative bits) (decimalOf f (f.magnitude (f.rank bits))).value
      bits := (roundsTo_iff_attracts hf hbits hrank).2 (attracts_decimalOf f _)
  refine ⟨fun bits' => ⟨fun h' => h'.unique hf.fractionBits_pos hrounds, ?_⟩, ?_, ?_⟩
  · rintro rfl
    exact hrounds
  · intro point exponent hpoint
    rw [roundsTo_iff_attracts hf hbits hrank] at hpoint
    by_cases hm : (f.magnitude (f.rank bits)).significand = 0
    · rw [decimalOf, if_pos hm]
      exact Nat.length_toDigits_pos
    · exact length_digits_decimalOf_le hleast hm hpoint
  · intro point hpoint
    rw [roundsTo_iff_attracts hf hbits hrank] at hpoint
    by_cases hm : (f.magnitude (f.rank bits)).significand = 0
    · rw [decimalOf, if_pos hm, Numeral.value, Magnitude.value, hm, Nat.cast_zero, zero_mul,
        zero_mul, sub_zero, abs_zero]
      exact abs_nonneg _
    · exact abs_decimalOf_sub_le hleast hm hpoint

end NativeHeaders.Decimal
