import Mathlib.Algebra.Group.Nat.Defs
import NativeHeaders.Proofs.Text.ModifiedUtf8
import NativeHeaders.Proofs.Text.Units

/-!
# The groups of modified UTF-8

A byte string is read in groups of one, two or three bytes, each told by its first byte. What a
group carries is made of the low bits of its bytes (`Group.unit`), and the decoder accepts a byte
string when it splits into groups, giving what they carry in order (`decode?_eq_some_iff`).

More than one group may carry the same unit, and writing takes the shortest, except that zero is
written in two bytes. So what was read is written back as it stood when none of its groups was
longer than that (`encode_units_eq_iff`). No group is shorter than what is written for its unit, so
if one were longer the whole would be longer too.
-/

set_option autoImplicit false

namespace NativeHeaders.Text.ModifiedUtf8

/-! ## Ranges of bytes -/

theorem isSingle_iff {b : UInt8} : isSingle b = true ↔ 0x01 ≤ b.toNat ∧ b.toNat ≤ 0x7f := by
  rw [isSingle, decide_eq_true_eq]
  omega

theorem isLeadOfTwo_iff {b : UInt8} :
    isLeadOfTwo b = true ↔ 0xc0 ≤ b.toNat ∧ b.toNat ≤ 0xdf := by
  rw [isLeadOfTwo, decide_eq_true_eq]
  omega

theorem isLeadOfThree_iff {b : UInt8} :
    isLeadOfThree b = true ↔ 0xe0 ≤ b.toNat ∧ b.toNat ≤ 0xef := by
  rw [isLeadOfThree, decide_eq_true_eq]
  omega

theorem isContinuation_iff {b : UInt8} :
    isContinuation b = true ↔ 0x80 ≤ b.toNat ∧ b.toNat ≤ 0xbf := by
  rw [isContinuation, decide_eq_true_eq]
  omega

/-! ## Groups -/

/-- A group of bytes that carries one unit. -/
inductive Group where
  | one (a : UInt8) (lead : 0x01 ≤ a.toNat ∧ a.toNat ≤ 0x7f)
  | two (a b : UInt8) (lead : 0xc0 ≤ a.toNat ∧ a.toNat ≤ 0xdf)
    (next : 0x80 ≤ b.toNat ∧ b.toNat ≤ 0xbf)
  | three (a b c : UInt8) (lead : 0xe0 ≤ a.toNat ∧ a.toNat ≤ 0xef)
    (next : 0x80 ≤ b.toNat ∧ b.toNat ≤ 0xbf) (last : 0x80 ≤ c.toNat ∧ c.toNat ≤ 0xbf)

namespace Group

/-- The bytes of a group. -/
def bytes : Group → List UInt8
  | one a _ => [a]
  | two a b _ _ => [a, b]
  | three a b c _ _ _ => [a, b, c]

/-- The unit that a group carries: the first byte of two holds five of its bits and the first byte
of three holds four, and each byte after it six. -/
def unit : Group → UInt16
  | one a _ => a.toUInt16
  | two a b _ _ => (a.toUInt16 &&& 0x1f) <<< 6 ||| (b.toUInt16 &&& 0x3f)
  | three a b c _ _ _ =>
    (a.toUInt16 &&& 0x0f) <<< 12 ||| (b.toUInt16 &&& 0x3f) <<< 6 ||| (c.toUInt16 &&& 0x3f)

/-- Whether a group is longer than its unit needs. The two bytes of zero are not. -/
def Overlong (g : Group) : Prop :=
  match g with
  | one _ _ => False
  | two _ _ _ _ => 0x01 ≤ g.unit.toNat ∧ g.unit.toNat < 0x80
  | three _ _ _ _ _ _ => g.unit.toNat < 0x800

instance : DecidablePred Overlong
  | one _ _ => inferInstanceAs (Decidable False)
  | two _ _ _ _ => inferInstanceAs (Decidable (_ ∧ _))
  | three _ _ _ _ _ _ => inferInstanceAs (Decidable (_ < _))

/-! ### The unit as a number -/

/-- Bits side by side. -/
theorem or_shiftLeft {high low : Nat} (width : Nat) (h : low < 2 ^ width) :
    high <<< width ||| low = high * 2 ^ width + low := by
  rw [← Nat.shiftLeft_add_eq_or_of_lt h, Nat.shiftLeft_eq]

/-- The low bits of a byte. -/
theorem toNat_and (width : Nat) (b : UInt8) {mask : UInt16} (h : mask.toNat = 2 ^ width - 1) :
    (b.toUInt16 &&& mask).toNat = b.toNat % 2 ^ width := by
  rw [UInt16.toNat_and, UInt8.toNat_toUInt16, h, Nat.and_two_pow_sub_one_eq_mod]

theorem toNat_unit_one (a : UInt8) (lead : 0x01 ≤ a.toNat ∧ a.toNat ≤ 0x7f) :
    (one a lead).unit.toNat = a.toNat := UInt8.toNat_toUInt16 a

theorem toNat_unit_two (a b : UInt8) (lead : 0xc0 ≤ a.toNat ∧ a.toNat ≤ 0xdf)
    (next : 0x80 ≤ b.toNat ∧ b.toNat ≤ 0xbf) :
    (two a b lead next).unit.toNat = (a.toNat - 0xc0) * 0x40 + (b.toNat - 0x80) := by
  have ha : (a.toUInt16 &&& 0x1f).toNat = a.toNat % 2 ^ 5 := toNat_and 5 a rfl
  have hb : (b.toUInt16 &&& 0x3f).toNat = b.toNat % 2 ^ 6 := toNat_and 6 b rfl
  -- no bit is shifted out
  have hshift : (a.toNat % 2 ^ 5) <<< 6 % 2 ^ 16 = (a.toNat % 2 ^ 5) <<< 6 := by
    rw [Nat.shiftLeft_eq]
    omega
  rw [unit, UInt16.toNat_or, UInt16.toNat_shiftLeft, ha, hb]
  simp only [UInt16.reduceToNat, Nat.reduceMod, hshift]
  rw [or_shiftLeft 6 (Nat.mod_lt _ (by omega))]
  omega

theorem toNat_unit_three (a b c : UInt8) (lead : 0xe0 ≤ a.toNat ∧ a.toNat ≤ 0xef)
    (next : 0x80 ≤ b.toNat ∧ b.toNat ≤ 0xbf) (last : 0x80 ≤ c.toNat ∧ c.toNat ≤ 0xbf) :
    (three a b c lead next last).unit.toNat
      = (a.toNat - 0xe0) * 0x1000 + (b.toNat - 0x80) * 0x40 + (c.toNat - 0x80) := by
  have ha : (a.toUInt16 &&& 0x0f).toNat = a.toNat % 2 ^ 4 := toNat_and 4 a rfl
  have hb : (b.toUInt16 &&& 0x3f).toNat = b.toNat % 2 ^ 6 := toNat_and 6 b rfl
  have hc : (c.toUInt16 &&& 0x3f).toNat = c.toNat % 2 ^ 6 := toNat_and 6 c rfl
  have hshift : (a.toNat % 2 ^ 4) <<< 12 % 2 ^ 16 = (a.toNat % 2 ^ 4) <<< 12 := by
    rw [Nat.shiftLeft_eq]
    omega
  have hshift' : (b.toNat % 2 ^ 6) <<< 6 % 2 ^ 16 = b.toNat % 2 ^ 6 * 2 ^ 6 := by
    rw [Nat.shiftLeft_eq]
    omega
  -- the two bytes in front make up one number of ten bits
  have hfront : a.toNat % 2 ^ 4 * 2 ^ 12 + b.toNat % 2 ^ 6 * 2 ^ 6
      = (a.toNat % 2 ^ 4 * 2 ^ 6 + b.toNat % 2 ^ 6) <<< 6 := by
    rw [Nat.shiftLeft_eq]
    omega
  rw [unit, UInt16.toNat_or, UInt16.toNat_or, UInt16.toNat_shiftLeft, UInt16.toNat_shiftLeft, ha,
    hb, hc]
  simp only [UInt16.reduceToNat, Nat.reduceMod, hshift, hshift']
  rw [or_shiftLeft 12 (by omega), hfront, or_shiftLeft 6 (Nat.mod_lt _ (by omega))]
  omega

/-! ## Reading -/

/-- A group is taken off as a whole. -/
theorem decode?_bytes_append (g : Group) (rest : List UInt8) :
    decode? (g.bytes ++ rest) = (decode? rest).map (g.unit :: ·) := by
  cases g with
  | one a lead =>
    have hunit : UInt16.ofNat a.toNat = (one a lead).unit := by
      rw [← toNat_unit_one a lead, UInt16.ofNat_toNat]
    rw [bytes, List.singleton_append, decode?.eq_def]
    simp only [if_pos (isSingle_iff.2 lead), hunit]
  | two a b lead next =>
    have hunit : unitOfTwo a b = (two a b lead next).unit := by
      rw [unitOfTwo, ← toNat_unit_two a b lead next, UInt16.ofNat_toNat]
    have hsingle : ¬ isSingle a = true := by
      rw [isSingle_iff]
      omega
    rw [bytes, List.cons_append, List.singleton_append, decode?, if_neg hsingle,
      if_pos (isLeadOfTwo_iff.2 lead)]
    simp only [if_pos (isContinuation_iff.2 next), hunit]
  | three a b c lead next last =>
    have hunit : unitOfThree a b c = (three a b c lead next last).unit := by
      rw [unitOfThree, ← toNat_unit_three a b c lead next last, UInt16.ofNat_toNat]
    have hsingle : ¬ isSingle a = true := by
      rw [isSingle_iff]
      omega
    have hnotTwo : ¬ isLeadOfTwo a = true := by
      rw [isLeadOfTwo_iff]
      omega
    rw [bytes, List.cons_append, List.cons_append, List.singleton_append, decode?, if_neg hsingle,
      if_neg hnotTwo, if_pos (isLeadOfThree_iff.2 lead)]
    simp only [isContinuation_iff.2 next, isContinuation_iff.2 last, Bool.and_self, if_true, hunit]

end Group

theorem decode?_flatMap_bytes (groups : List Group) :
    decode? (groups.flatMap Group.bytes) = some (groups.map Group.unit) := by
  induction groups with
  | nil => rfl
  | cons g groups ih =>
    rw [List.flatMap_cons, Group.decode?_bytes_append, ih, Option.map_some, List.map_cons]

/-- What is read splits into groups. The induction is on the groups that the decoder takes off. -/
theorem exists_groups_of_decode? {bytes : List UInt8} {us : Units} (h : decode? bytes = some us) :
    ∃ groups : List Group, groups.flatMap Group.bytes = bytes := by
  fun_induction decode? bytes generalizing us with
  | case1 => exact ⟨[], rfl⟩
  | case2 a rest hsingle ih =>
    obtain ⟨vs, hvs, -⟩ := Option.map_eq_some_iff.1 h
    obtain ⟨groups, rfl⟩ := ih hvs
    exact ⟨.one a (isSingle_iff.1 hsingle) :: groups, rfl⟩
  | case3 a _ hlead b rest hnext ih =>
    obtain ⟨vs, hvs, -⟩ := Option.map_eq_some_iff.1 h
    obtain ⟨groups, rfl⟩ := ih hvs
    exact ⟨.two a b (isLeadOfTwo_iff.1 hlead) (isContinuation_iff.1 hnext) :: groups, rfl⟩
  | case4 => contradiction
  | case5 => contradiction
  | case6 a _ _ hlead b c rest hothers ih =>
    obtain ⟨vs, hvs, -⟩ := Option.map_eq_some_iff.1 h
    obtain ⟨groups, rfl⟩ := ih hvs
    obtain ⟨hnext, hlast⟩ := Bool.and_eq_true_iff.1 hothers
    exact ⟨.three a b c (isLeadOfThree_iff.1 hlead) (isContinuation_iff.1 hnext)
      (isContinuation_iff.1 hlast) :: groups, rfl⟩
  | case7 => contradiction
  | case8 => contradiction
  | case9 => contradiction

/-- A byte string is read when it splits into groups, and what is read are their units. -/
theorem decode?_eq_some_iff {bytes : List UInt8} {us : Units} :
    decode? bytes = some us
      ↔ ∃ groups : List Group, groups.flatMap Group.bytes = bytes ∧ groups.map Group.unit = us := by
  constructor
  · intro h
    obtain ⟨groups, rfl⟩ := exists_groups_of_decode? h
    rw [decode?_flatMap_bytes] at h
    exact ⟨groups, rfl, Option.some.inj h⟩
  · rintro ⟨groups, rfl, rfl⟩
    exact decode?_flatMap_bytes groups

theorem Group.range_of_mem_bytes {g : Group} {b : UInt8} (h : b ∈ g.bytes) :
    0 < b.toNat ∧ b.toNat ≤ 0xef := by
  cases g with
  | one a lead =>
    obtain rfl := List.mem_singleton.1 h
    omega
  | two a a' lead next =>
    rcases List.mem_cons.1 h with rfl | h
    · omega
    · obtain rfl := List.mem_singleton.1 h
      omega
  | three a a' a'' lead next last =>
    rcases List.mem_cons.1 h with rfl | h
    · omega
    · rcases List.mem_cons.1 h with rfl | h
      · omega
      · obtain rfl := List.mem_singleton.1 h
        omega

/-- What is written has neither a zero byte nor one above the leads of three, because it can be
read. -/
theorem range_of_mem_encode {us : Units} {b : UInt8} (h : b ∈ encode us) :
    0 < b.toNat ∧ b.toNat ≤ 0xef := by
  obtain ⟨groups, hgroups⟩ := exists_groups_of_decode? (decode?_encode us)
  rw [← hgroups] at h
  obtain ⟨g, -, hb⟩ := List.mem_flatMap.1 h
  exact Group.range_of_mem_bytes hb

/-! ## Writing -/

namespace Group

/-- A group that is no longer than its unit needs is what is written for it. -/
theorem encodeUnit_unit {g : Group} (h : ¬ g.Overlong) : encodeUnit g.unit = g.bytes := by
  unfold encodeUnit
  cases g with
  | one a lead =>
    have hunit := toNat_unit_one a lead
    dsimp only
    rw [hunit, if_pos (by omega), UInt8.ofNat_toNat, bytes]
  | two a b lead next =>
    have hunit := toNat_unit_two a b lead next
    rw [Overlong] at h
    generalize (two a b lead next).unit.toNat = n at h hunit ⊢
    have ha : 0xc0 + n / 0x40 = a.toNat := by omega
    have hb : 0x80 + n % 0x40 = b.toNat := by omega
    dsimp only
    rw [if_neg h, if_pos (by omega), ha, hb, UInt8.ofNat_toNat, UInt8.ofNat_toNat, bytes]
  | three a b c lead next last =>
    have hunit := toNat_unit_three a b c lead next last
    rw [Overlong] at h
    generalize (three a b c lead next last).unit.toNat = n at h hunit ⊢
    have ha : 0xe0 + n / 0x1000 = a.toNat := by omega
    have hb : 0x80 + n / 0x40 % 0x40 = b.toNat := by omega
    have hc : 0x80 + n % 0x40 = c.toNat := by omega
    dsimp only
    rw [if_neg (by omega), if_neg h, ha, hb, hc, UInt8.ofNat_toNat, UInt8.ofNat_toNat,
      UInt8.ofNat_toNat, bytes]

theorem length_encodeUnit_unit_lt {g : Group} (h : g.Overlong) :
    (encodeUnit g.unit).length < g.bytes.length := by
  unfold encodeUnit
  cases g with
  | one a lead => exact h.elim
  | two a b lead next =>
    rw [Overlong] at h
    dsimp only
    rw [if_pos h]
    exact Nat.lt_succ_self 1
  | three a b c lead next last =>
    rw [Overlong] at h
    dsimp only
    by_cases hone : 0x01 ≤ (three a b c lead next last).unit.toNat
        ∧ (three a b c lead next last).unit.toNat < 0x80
    · rw [if_pos hone]
      exact Nat.lt_succ_of_lt (Nat.lt_succ_self 1)
    · rw [if_neg hone, if_pos h]
      exact Nat.lt_succ_self 2

theorem length_encodeUnit_unit_le (g : Group) :
    (encodeUnit g.unit).length ≤ g.bytes.length := by
  by_cases h : g.Overlong
  · exact Nat.le_of_lt (length_encodeUnit_unit_lt h)
  · exact Nat.le_of_eq (congrArg List.length (encodeUnit_unit h))

end Group

theorem length_encode_units_le (groups : List Group) :
    (encode (groups.map Group.unit)).length ≤ (groups.flatMap Group.bytes).length := by
  induction groups with
  | nil => exact Nat.le_refl 0
  | cons g groups ih =>
    have hfirst := g.length_encodeUnit_unit_le
    rw [List.map_cons, encode, List.flatMap_cons, List.flatMap_cons, ← encode, List.length_append,
      List.length_append]
    omega

/-- What was read is written back as it stood when no group in it is longer than its unit needs. -/
theorem encode_units_eq_iff (groups : List Group) :
    encode (groups.map Group.unit) = groups.flatMap Group.bytes ↔ ∀ g ∈ groups, ¬ g.Overlong := by
  induction groups with
  | nil => exact ⟨fun _ g hg => absurd hg List.not_mem_nil, fun _ => rfl⟩
  | cons g groups ih =>
    rw [List.map_cons, encode, List.flatMap_cons, List.flatMap_cons, ← encode, List.forall_mem_cons,
      ← ih]
    constructor
    · intro h
      -- neither part is longer when it is written, so neither is shorter
      have hfirst := g.length_encodeUnit_unit_le
      have hothers := length_encode_units_le groups
      have hlength := congrArg List.length h
      rw [List.length_append, List.length_append] at hlength
      obtain ⟨-, hrest⟩ := List.append_inj h (by omega)
      refine ⟨?_, hrest⟩
      intro hlong
      have hlt := Group.length_encodeUnit_unit_lt hlong
      omega
    · rintro ⟨hg, hrest⟩
      rw [Group.encodeUnit_unit hg, hrest]

/-! ## The codec -/

/-- **Modified UTF-8.** Units are read off the bytes that they are written in, among which there is
neither a zero nor one above `0xef`. A byte string is read when it splits into groups, as the units
of these in order, and what was read is written back as it stood when none of them is overlong.
Units are text when every surrogate has its partner, and then they are the units of that text, so
that a text is read off the bytes that it is written in. -/
theorem read_in_groups :
    (∀ us : Units, decode? (encode us) = some us
      ∧ ∀ b ∈ encode us, 0 < b.toNat ∧ b.toNat ≤ 0xef)
    ∧ (∀ (bytes : List UInt8) (us : Units), decode? bytes = some us
      ↔ ∃ groups : List Group, groups.flatMap Group.bytes = bytes ∧ groups.map Group.unit = us)
    ∧ (∀ groups : List Group, encode (groups.map Group.unit) = groups.flatMap Group.bytes
      ↔ ∀ g ∈ groups, ¬ g.Overlong)
    ∧ (∀ us : Units, (∃ s, string? us = some s) ↔ SurrogatesPaired us)
    ∧ (∀ (us : Units) (s : String), string? us = some s ↔ unitsOf s = us)
    ∧ ∀ s : String, (decode? (encodeString s)).bind string? = some s := by
  refine ⟨?_, fun _ _ => decode?_eq_some_iff, encode_units_eq_iff, ?_,
    fun _ _ => string?_eq_some_iff, ?_⟩
  · intro us
    exact ⟨decode?_encode us, fun _ hb => range_of_mem_encode hb⟩
  · intro us
    rw [← isSome_chars?_iff, ← Option.isSome_iff_exists, string?, Option.isSome_map]
  · intro s
    rw [encodeString, decode?_encode, Option.bind_some, string?_unitsOf]

/-- The letter `A` in one byte and in two, and then the two bytes of zero. -/
def twoSpellings : List Group :=
  [.one 0x41 (by decide), .two 0xc1 0x81 (by decide) (by decide),
    .two 0xc0 0x80 (by decide) (by decide)]

/-- Both spellings are read as the same unit, and it is written in one byte. -/
theorem read_in_groups_of_twoSpellings :
    decode? [0x41, 0xc1, 0x81, 0xc0, 0x80] = some [0x41, 0x41, 0x00]
      ∧ encode [0x41, 0x41, 0x00] ≠ [0x41, 0xc1, 0x81, 0xc0, 0x80]
      ∧ ∀ b ∈ encode [0xd800, 0x0000], 0 < b.toNat ∧ b.toNat ≤ 0xef := by
  refine ⟨(read_in_groups.2.1 _ _).2 ⟨twoSpellings, rfl, rfl⟩, ?_, (read_in_groups.1 _).2⟩
  intro hsame
  have hshort := (read_in_groups.2.2.1 twoSpellings).1 hsame
  exact hshort (.two 0xc1 0x81 (by decide) (by decide)) (by simp [twoSpellings]) (by decide)

end NativeHeaders.Text.ModifiedUtf8
