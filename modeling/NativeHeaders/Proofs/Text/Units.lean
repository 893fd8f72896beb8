import NativeHeaders.Text.Units

/-!
# Text and its units

`Text.string?` reads back what `Text.unitsOf` writes: a character below `0x10000` is never a
surrogate, so its one unit is read as itself, and a character above is the pair that its two units
make up. Hence a text is determined by its units.

The other way round, units are read as text when every surrogate has its partner
(`isSome_chars?_iff`), and then they are the units of what was read (`string?_eq_some_iff`). Pairs
do not overlap, so partners are found from the left on: once all surrogates in front have theirs,
what is behind stands for itself (`SurrogatesPaired.append_iff`).
-/

set_option autoImplicit false

namespace NativeHeaders.Text

/-! ## One character -/

/-- A character is no surrogate. -/
theorem toNat_char_range (c : Char) :
    c.toNat < 0xd800 ∨ (0xdfff < c.toNat ∧ c.toNat < 0x110000) := by
  have h := c.valid
  simp only [UInt32.isValidChar, Nat.isValidChar] at h
  exact h

/-- The units of one character are read as that character, whatever follows. -/
theorem chars?_unitsOfChar_append (c : Char) (us : Units) :
    chars? (unitsOfChar c ++ us) = (chars? us).map (c :: ·) := by
  have hrange := toNat_char_range c
  have hsize : UInt16.size = 0x10000 := rfl
  unfold unitsOfChar
  by_cases hsmall : c.toNat < 0x10000
  · have hu : (UInt16.ofNat c.toNat).toNat = c.toNat := UInt16.toNat_ofNat_of_lt' hsmall
    have hhigh : isHighSurrogate (UInt16.ofNat c.toNat) = false := by
      simp only [isHighSurrogate, hu, decide_eq_false_iff_not]
      omega
    have hlow : isLowSurrogate (UInt16.ofNat c.toNat) = false := by
      simp only [isLowSurrogate, hu, decide_eq_false_iff_not]
      omega
    rw [if_pos hsmall, List.singleton_append, chars?.eq_def]
    simp only [hhigh, hlow, hu, Char.ofNat_toNat, Bool.false_eq_true, if_false]
  · have hh : (UInt16.ofNat (0xd800 + (c.toNat - 0x10000) / 0x400)).toNat
        = 0xd800 + (c.toNat - 0x10000) / 0x400 := UInt16.toNat_ofNat_of_lt' (by omega)
    have hl : (UInt16.ofNat (0xdc00 + (c.toNat - 0x10000) % 0x400)).toNat
        = 0xdc00 + (c.toNat - 0x10000) % 0x400 := UInt16.toNat_ofNat_of_lt' (by omega)
    have hhigh : isHighSurrogate (UInt16.ofNat (0xd800 + (c.toNat - 0x10000) / 0x400)) = true := by
      simp only [isHighSurrogate, hh, decide_eq_true_eq]
      omega
    have hlow : isLowSurrogate (UInt16.ofNat (0xdc00 + (c.toNat - 0x10000) % 0x400)) = true := by
      simp only [isLowSurrogate, hl, decide_eq_true_eq]
      omega
    have hpair : pairedChar (UInt16.ofNat (0xd800 + (c.toNat - 0x10000) / 0x400))
        (UInt16.ofNat (0xdc00 + (c.toNat - 0x10000) % 0x400)) = c := by
      have hn : 0x10000 + (0xd800 + (c.toNat - 0x10000) / 0x400 - 0xd800) * 0x400
          + (0xdc00 + (c.toNat - 0x10000) % 0x400 - 0xdc00) = c.toNat := by omega
      rw [pairedChar, hh, hl, hn, Char.ofNat_toNat]
    rw [if_neg hsmall, List.cons_append, List.singleton_append, chars?.eq_def]
    simp only [hhigh, hlow, hpair, if_true]

/-! ## Whole texts -/

theorem chars?_unitsOfChars (cs : List Char) : chars? (unitsOfChars cs) = some cs := by
  induction cs with
  | nil => rw [unitsOfChars_nil, chars?]
  | cons c cs ih =>
    rw [unitsOfChars_cons, chars?_unitsOfChar_append, ih]
    rfl

theorem unitsOfChars_inj {cs ds : List Char} : unitsOfChars cs = unitsOfChars ds ↔ cs = ds := by
  constructor
  · intro h
    have hread : some cs = some ds := by rw [← chars?_unitsOfChars cs, h, chars?_unitsOfChars]
    exact Option.some.inj hread
  · intro h
    rw [h]

@[simp] theorem string?_unitsOf (s : String) : string? (unitsOf s) = some s := by
  rw [string?, unitsOf, chars?_unitsOfChars]
  simp

/-- A text is determined by its units. -/
theorem unitsOf_inj {s t : String} : unitsOf s = unitsOf t ↔ s = t := by
  rw [unitsOf, unitsOf, unitsOfChars_inj, String.toList_inj]

@[simp] theorem unitsOf_append (s t : String) : unitsOf (s ++ t) = unitsOf s ++ unitsOf t := by
  simp [unitsOf]

/-! ## Surrogates -/

/-- Whether every surrogate has its partner: a low one right behind each high one, and a high one
right before each low one. -/
structure SurrogatesPaired (us : Units) : Prop where
  high : ∀ i u, us[i]? = some u → isHighSurrogate u = true →
    ∃ v, us[i + 1]? = some v ∧ isLowSurrogate v = true
  low : ∀ j v, us[j]? = some v → isLowSurrogate v = true →
    ∃ i u, j = i + 1 ∧ us[i]? = some u ∧ isHighSurrogate u = true

theorem isLowSurrogate_of_isHighSurrogate {u : UInt16} (h : isHighSurrogate u = true) :
    isLowSurrogate u = false := by
  rw [isHighSurrogate, decide_eq_true_eq] at h
  rw [isLowSurrogate, decide_eq_false_iff_not]
  omega

theorem surrogatesPaired_nil : SurrogatesPaired [] := ⟨by simp, by simp⟩

theorem surrogatesPaired_singleton {u : UInt16} (hhigh : isHighSurrogate u = false)
    (hlow : isLowSurrogate u = false) : SurrogatesPaired [u] where
  high := by
    intro i v hv hh
    rw [List.mem_singleton.1 (List.mem_of_getElem? hv), hhigh] at hh
    contradiction
  low := by
    intro j v hv hl
    rw [List.mem_singleton.1 (List.mem_of_getElem? hv), hlow] at hl
    contradiction

theorem surrogatesPaired_pair {u v : UInt16} (hhigh : isHighSurrogate u = true)
    (hlow : isLowSurrogate v = true) : SurrogatesPaired [u, v] where
  high := by
    intro i w hw hh
    rcases i with _ | i
    · exact ⟨v, rfl, hlow⟩
    · -- the second unit is no high surrogate
      have hmem : w ∈ [v] := List.mem_of_getElem? hw
      rw [List.mem_singleton.1 hmem] at hh
      rw [isLowSurrogate_of_isHighSurrogate hh] at hlow
      contradiction
  low := by
    intro j w hw hl
    rcases j with _ | j
    · rw [← Option.some.inj hw, isLowSurrogate_of_isHighSurrogate hhigh] at hl
      contradiction
    · have hj : j + 1 < 2 := (List.getElem?_eq_some_iff.1 hw).1
      exact ⟨0, u, by omega, rfl, hhigh⟩

/-- Behind units of which every surrogate has its partner nothing is asked of them any more. -/
theorem SurrogatesPaired.append_iff {front : Units} (h : SurrogatesPaired front) (us : Units) :
    SurrogatesPaired (front ++ us) ↔ SurrogatesPaired us := by
  have hbehind : ∀ i, (front ++ us)[front.length + i]? = us[i]? := by
    intro i
    rw [List.getElem?_append_right (by omega), Nat.add_sub_cancel_left]
  constructor
  · intro hall
    refine ⟨?_, ?_⟩
    · intro i u hu hhigh
      obtain ⟨v, hv, hlow⟩ := hall.high (front.length + i) u (by rw [hbehind, hu]) hhigh
      rw [Nat.add_assoc, hbehind] at hv
      exact ⟨v, hv, hlow⟩
    · intro j v hv hlow
      obtain ⟨i, u, hi, hu, hhigh⟩ := hall.low (front.length + j) v (by rw [hbehind, hv]) hlow
      rcases j with _ | j
      · -- the partner would be the last unit in front, which has its own behind it
        rw [List.getElem?_append_left (by omega)] at hu
        obtain ⟨w, hw, -⟩ := h.high i u hu hhigh
        have hlt := (List.getElem?_eq_some_iff.1 hw).1
        omega
      · obtain rfl : i = front.length + j := by omega
        rw [hbehind] at hu
        exact ⟨j, u, rfl, hu, hhigh⟩
  · intro hus
    refine ⟨?_, ?_⟩
    · intro i u hu hhigh
      by_cases hi : i < front.length
      · rw [List.getElem?_append_left hi] at hu
        obtain ⟨v, hv, hlow⟩ := h.high i u hu hhigh
        have hlt := (List.getElem?_eq_some_iff.1 hv).1
        exact ⟨v, by rw [List.getElem?_append_left hlt, hv], hlow⟩
      · obtain ⟨k, rfl⟩ := Nat.exists_eq_add_of_le (Nat.le_of_not_lt hi)
        rw [hbehind] at hu
        obtain ⟨v, hv, hlow⟩ := hus.high k u hu hhigh
        exact ⟨v, by rw [Nat.add_assoc, hbehind, hv], hlow⟩
    · intro j v hv hlow
      by_cases hj : j < front.length
      · rw [List.getElem?_append_left hj] at hv
        obtain ⟨i, u, rfl, hu, hhigh⟩ := h.low j v hv hlow
        exact ⟨i, u, rfl, by rw [List.getElem?_append_left (by omega), hu], hhigh⟩
      · obtain ⟨k, rfl⟩ := Nat.exists_eq_add_of_le (Nat.le_of_not_lt hj)
        rw [hbehind] at hv
        obtain ⟨i, u, rfl, hu, hhigh⟩ := hus.low k v hv hlow
        exact ⟨front.length + i, u, by omega, by rw [hbehind, hu], hhigh⟩

/-- **Units are text when every surrogate among them has its partner.** -/
theorem isSome_chars?_iff (us : Units) : (chars? us).isSome = true ↔ SurrogatesPaired us := by
  fun_induction chars? us with
  | case1 => simp [surrogatesPaired_nil]
  | case2 u hhigh v us hlow ih =>
    have hpair := (surrogatesPaired_pair hhigh hlow).append_iff us
    simp only [List.cons_append, List.nil_append] at hpair
    rw [hpair, Option.isSome_map, ih]
  | case3 u hhigh v us hlow =>
    simp only [Option.isSome_none, Bool.false_eq_true, false_iff]
    intro h
    obtain ⟨w, hw, hpartner⟩ := h.high 0 u rfl hhigh
    obtain rfl : v = w := Option.some.inj hw
    exact hlow hpartner
  | case4 u hhigh =>
    simp only [Option.isSome_none, Bool.false_eq_true, false_iff]
    intro h
    obtain ⟨w, hw, -⟩ := h.high 0 u rfl hhigh
    simp at hw
  | case5 u us hhigh hlow =>
    simp only [Option.isSome_none, Bool.false_eq_true, false_iff]
    intro h
    obtain ⟨i, -, hi, -⟩ := h.low 0 u rfl hlow
    omega
  | case6 u us hhigh hlow ih =>
    have hsingle := (surrogatesPaired_singleton (Bool.eq_false_iff.2 hhigh)
      (Bool.eq_false_iff.2 hlow)).append_iff us
    simp only [List.cons_append, List.nil_append] at hsingle
    rw [hsingle, Option.isSome_map, ih]

/-! ## The units of what was read -/

theorem toNat_ofNat_char {n : Nat} (h : n < 0xd800 ∨ (0xdfff < n ∧ n < 0x110000)) :
    (Char.ofNat n).toNat = n := by
  have hvalid : n.isValidChar := h
  rw [Char.ofNat, dif_pos hvalid]
  rfl

/-- A unit that is no surrogate is the unit of its character. -/
theorem unitsOfChar_ofNat {u : UInt16} (hhigh : ¬ isHighSurrogate u = true)
    (hlow : ¬ isLowSurrogate u = true) : unitsOfChar (Char.ofNat u.toNat) = [u] := by
  have hu : u.toNat < 0x10000 := u.toNat_lt
  rw [isHighSurrogate, decide_eq_true_eq] at hhigh
  rw [isLowSurrogate, decide_eq_true_eq] at hlow
  rw [unitsOfChar, toNat_ofNat_char (by omega), if_pos hu, UInt16.ofNat_toNat]

/-- A pair is the units of its character. -/
theorem unitsOfChar_pairedChar {u v : UInt16} (hhigh : isHighSurrogate u = true)
    (hlow : isLowSurrogate v = true) : unitsOfChar (pairedChar u v) = [u, v] := by
  rw [isHighSurrogate, decide_eq_true_eq] at hhigh
  rw [isLowSurrogate, decide_eq_true_eq] at hlow
  rw [unitsOfChar, pairedChar, toNat_ofNat_char (by omega), if_neg (by omega)]
  have hu : 0xd800 + (0x10000 + (u.toNat - 0xd800) * 0x400 + (v.toNat - 0xdc00) - 0x10000) / 0x400
      = u.toNat := by omega
  have hv : 0xdc00 + (0x10000 + (u.toNat - 0xd800) * 0x400 + (v.toNat - 0xdc00) - 0x10000) % 0x400
      = v.toNat := by omega
  rw [hu, hv, UInt16.ofNat_toNat, UInt16.ofNat_toNat]

theorem unitsOfChars_of_chars? {us : Units} {cs : List Char} (h : chars? us = some cs) :
    unitsOfChars cs = us := by
  fun_induction chars? us generalizing cs with
  | case1 =>
    rw [← Option.some.inj h]
    rfl
  | case2 u hhigh v us hlow ih =>
    obtain ⟨ds, hds, rfl⟩ := Option.map_eq_some_iff.1 h
    rw [unitsOfChars_cons, unitsOfChar_pairedChar hhigh hlow, ih hds]
    rfl
  | case3 => contradiction
  | case4 => contradiction
  | case5 => contradiction
  | case6 u us hhigh hlow ih =>
    obtain ⟨ds, hds, rfl⟩ := Option.map_eq_some_iff.1 h
    rw [unitsOfChars_cons, unitsOfChar_ofNat hhigh hlow, ih hds]
    rfl

/-- A text is read off its own units, and off no others. -/
theorem string?_eq_some_iff {us : Units} {s : String} : string? us = some s ↔ unitsOf s = us := by
  constructor
  · intro h
    obtain ⟨cs, hcs, rfl⟩ := Option.map_eq_some_iff.1 h
    rw [unitsOf, String.toList_ofList, unitsOfChars_of_chars? hcs]
  · rintro rfl
    exact string?_unitsOf s

end NativeHeaders.Text
