import NativeHeaders.Proofs.Header.Prototypes
import NativeHeaders.Proofs.Symbol.Injectivity
import NativeHeaders.Proofs.Symbol.Letters

/-!
# When two fields have one spelling

The name of a field keeps its `_`, so what is escaped in one name may stand literally in another:
both `é` and `_000e9` are spelled `_000e9`. That is all there is to it. An escape is itself a name
that is spelled as it stands, so a name and its spelling are read alike, when every escape in them
is read as the unit that it stands for (`reading_fieldUnits`), and names with one reading have one
spelling (`fieldUnits_reading`). The macros of a header are distinct as far as the names of its
fields are read differently (`macros_nodup_iff`).
-/

set_option autoImplicit false

namespace NativeHeaders

namespace Symbol

open Text (Units)

/-! ## Spellings in units -/

/-- A unit that stands for itself in the name of a field. -/
def isFieldLetter (u : UInt16) : Bool :=
  match Text.ascii? u with
  | none => false
  | some c => c == '_' || c.isAlphanum

/-- The escape of a unit, in units. -/
def numbered (u : UInt16) : Units := Text.unitsOfChars (escapeNumber u)

/-- The spelling of a field's name, in units. -/
def fieldUnits (us : Units) : Units :=
  us.flatMap fun u => if isFieldLetter u then [u] else numbered u

/-- The unit whose escape stands at the front of a name, if one does. -/
def escapeAt? (us : Units) : Option UInt16 :=
  let digits := ((us.drop 2).take escapeWidth).map fun u => Char.ofNat u.toNat
  let u := UInt16.ofNat (Text.hexNumber digits)
  if isFieldLetter u = false ∧ numbered u <+: us then some u else none

/-- A name with each escape in it read as the unit that it stands for, from the left on. -/
def reading (us : Units) : Units :=
  match us with
  | [] => []
  | u :: rest =>
    match escapeAt? (u :: rest) with
    | some v => v :: reading (rest.drop (escapeWidth + 1))
    | none => u :: reading rest
termination_by us.length

/-! ## Letters -/

theorem toNat_lt_of_isIdentifierChar {c : Char} (h : IsIdentifierChar c) : c.toNat < 0x80 := by
  rcases h with h | rfl
  · have hranges : c.isAlphanum = ((decide (65 ≤ c.val ∧ c.val ≤ 90)
        || decide (97 ≤ c.val) && decide (c.val ≤ 122))
        || decide (48 ≤ c.val) && decide (c.val ≤ 57)) := rfl
    simp only [hranges, Bool.or_eq_true, Bool.and_eq_true, decide_eq_true_eq,
      UInt32.le_iff_toNat_le, UInt32.reduceToNat] at h
    have hc : c.toNat = c.val.toNat := rfl
    omega
  · decide

theorem unitsOfChar_of_isIdentifierChar {c : Char} (h : IsIdentifierChar c) :
    ∃ u, Text.unitsOfChar c = [u] ∧ Char.ofNat u.toNat = c ∧ isFieldLetter u = true := by
  have hsmall := toNat_lt_of_isIdentifierChar h
  have hsize : UInt16.size = 0x10000 := rfl
  have hu : (UInt16.ofNat c.toNat).toNat = c.toNat := UInt16.toNat_ofNat_of_lt' (by omega)
  have hc : Char.ofNat (UInt16.ofNat c.toNat).toNat = c := by rw [hu, Char.ofNat_toNat]
  refine ⟨UInt16.ofNat c.toNat, ?_, hc, ?_⟩
  · rw [Text.unitsOfChar, if_pos (by omega)]
  · rw [isFieldLetter, Text.ascii?, if_pos (by omega), hc]
    simp only [Bool.or_eq_true, beq_iff_eq]
    exact h.symm

theorem unitsOfChars_of_isIdentifierChar {cs : List Char} (h : ∀ c ∈ cs, IsIdentifierChar c) :
    (Text.unitsOfChars cs).map (fun u => Char.ofNat u.toNat) = cs
      ∧ ∀ u ∈ Text.unitsOfChars cs, isFieldLetter u = true := by
  induction cs with
  | nil => exact ⟨rfl, by simp⟩
  | cons c cs ih =>
    obtain ⟨u, hunits, hc, hletter⟩ := unitsOfChar_of_isIdentifierChar (h c List.mem_cons_self)
    obtain ⟨hchars, hletters⟩ := ih fun d hd => h d (List.mem_cons_of_mem c hd)
    rw [Text.unitsOfChars_cons, hunits]
    refine ⟨?_, ?_⟩
    · rw [List.singleton_append, List.map_cons, hchars, hc]
    · intro v hv
      rcases List.mem_cons.1 hv with rfl | hv
      · exact hletter
      · exact hletters v hv

theorem isFieldLetter_of_mem_numbered {u v : UInt16} (h : v ∈ numbered u) :
    isFieldLetter v = true :=
  (unitsOfChars_of_isIdentifierChar fun _ => isIdentifierChar_of_mem_escapeNumber).2 v h

/-- The digits of an escape, in units. -/
theorem exists_numbered_eq (u : UInt16) :
    ∃ digits, numbered u = 0x5f :: 0x30 :: digits ∧ digits.length = escapeWidth
      ∧ digits.map (fun v => Char.ofNat v.toNat) = Text.fixedHex escapeWidth u.toNat
      ∧ 0x5f ∉ digits := by
  have hhex : ∀ c ∈ Text.fixedHex escapeWidth u.toNat, IsIdentifierChar c :=
    fun c hc => Or.inl (isAlphanum_of_mem_fixedHex hc)
  have hchars := (unitsOfChars_of_isIdentifierChar hhex).1
  refine ⟨Text.unitsOfChars (Text.fixedHex escapeWidth u.toNat), rfl, ?_, hchars, ?_⟩
  · rw [← List.length_map (f := fun v : UInt16 => Char.ofNat v.toNat), hchars,
      Text.length_fixedHex]
  · intro hmem
    have hunderscore := List.mem_map_of_mem (f := fun v : UInt16 => Char.ofNat v.toNat) hmem
    rw [hchars] at hunderscore
    have halphanum := isAlphanum_of_mem_fixedHex hunderscore
    revert halphanum
    decide

/-! ## The spelling of a name -/

theorem unitsOfChars_escapeFieldUnit (u : UInt16) :
    Text.unitsOfChars (escapeFieldUnit u) = if isFieldLetter u then [u] else numbered u := by
  unfold escapeFieldUnit isFieldLetter
  rcases hascii : Text.ascii? u with _ | c
  · rfl
  · by_cases hplain : (c == '_' || c.isAlphanum) = true
    · have hc : IsIdentifierChar c := by
        rw [Bool.or_eq_true, beq_iff_eq] at hplain
        exact hplain.symm
      have hsmall := toNat_lt_of_isIdentifierChar hc
      simp only [hplain, if_true]
      rw [Text.unitsOfChars_cons, Text.unitsOfChar, if_pos (by omega), ofNat_of_ascii? hascii]
      rfl
    · simp only [hplain, if_false, Bool.false_eq_true]
      rfl

theorem unitsOf_escapeFieldName (name : String) :
    Text.unitsOf (escapeFieldName name) = fieldUnits (Text.unitsOf name) := by
  rw [escapeFieldName, Text.unitsOf, String.toList_ofList, Text.unitsOfChars, List.flatMap_assoc,
    fieldUnits]
  congr 1
  funext u
  exact unitsOfChars_escapeFieldUnit u

theorem fieldUnits_cons_of_letter {u : UInt16} (h : isFieldLetter u = true) (us : Units) :
    fieldUnits (u :: us) = u :: fieldUnits us := by
  rw [fieldUnits, List.flatMap_cons, if_pos h]
  rfl

theorem fieldUnits_cons_of_not_letter {u : UInt16} (h : isFieldLetter u = false) (us : Units) :
    fieldUnits (u :: us) = numbered u ++ fieldUnits us := by
  rw [fieldUnits, List.flatMap_cons, if_neg (by rw [h]; decide)]
  rfl

/-- Letters are spelled as they stand. -/
theorem fieldUnits_append_of_letters {us : Units} (h : ∀ u ∈ us, isFieldLetter u = true)
    (vs : Units) : fieldUnits (us ++ vs) = us ++ fieldUnits vs := by
  induction us with
  | nil => rfl
  | cons u us ih =>
    rw [List.cons_append, fieldUnits_cons_of_letter (h u List.mem_cons_self),
      ih fun v hv => h v (List.mem_cons_of_mem u hv), List.cons_append]

/-- Letters other than `_` that open a spelling open the name. -/
theorem prefix_of_prefix_fieldUnits {ws us : Units} (h : 0x5f ∉ ws)
    (hws : ws <+: fieldUnits us) : ws <+: us := by
  induction ws generalizing us with
  | nil => exact List.nil_prefix
  | cons w ws ih =>
    rcases us with _ | ⟨u, us⟩
    · exact hws
    · rcases hu : isFieldLetter u with _ | _
      · -- an escape opens with `_`
        obtain ⟨digits, hdigits, -⟩ := exists_numbered_eq u
        rw [fieldUnits_cons_of_not_letter hu, hdigits, List.cons_append,
          List.cons_prefix_cons] at hws
        exact absurd hws.1 fun heq => h (heq ▸ List.mem_cons_self)
      · rw [fieldUnits_cons_of_letter hu, List.cons_prefix_cons] at hws
        rw [List.cons_prefix_cons]
        exact ⟨hws.1, ih (fun hmem => h (List.mem_cons_of_mem w hmem)) hws.2⟩

/-! ## Reading names -/

theorem escapeAt?_eq_some_iff {us : Units} {v : UInt16} :
    escapeAt? us = some v ↔ isFieldLetter v = false ∧ numbered v <+: us := by
  constructor
  · intro h
    unfold escapeAt? at h
    simp only at h
    split at h
    · rename_i hcond
      rw [← Option.some.inj h]
      exact hcond
    · contradiction
  · rintro ⟨hletter, rest, rfl⟩
    obtain ⟨digits, hnumbered, hlength, hchars, -⟩ := exists_numbered_eq v
    have hdigits : ((numbered v ++ rest).drop 2).take escapeWidth = digits := by
      rw [hnumbered, List.cons_append, List.cons_append, List.drop_succ_cons, List.drop_succ_cons,
        List.drop_zero, List.take_left' hlength]
    have hnumber : UInt16.ofNat (Text.hexNumber (digits.map fun u => Char.ofNat u.toNat)) = v := by
      have hsmall : v.toNat % Nat.pow 16 escapeWidth = v.toNat := Nat.mod_eq_of_lt v.toNat_lt
      rw [hchars, Text.hexNumber_fixedHex, hsmall, UInt16.ofNat_toNat]
    unfold escapeAt?
    simp only [hdigits, hnumber]
    rw [if_pos ⟨hletter, List.prefix_append _ _⟩]

theorem reading_cons_of_none {u : UInt16} {us : Units} (h : escapeAt? (u :: us) = none) :
    reading (u :: us) = u :: reading us := by
  rw [reading, h]

theorem reading_numbered_append {v : UInt16} (h : isFieldLetter v = false) (us : Units) :
    reading (numbered v ++ us) = v :: reading us := by
  have hescape : escapeAt? (numbered v ++ us) = some v :=
    escapeAt?_eq_some_iff.2 ⟨h, List.prefix_append _ _⟩
  obtain ⟨digits, hnumbered, hlength, -⟩ := exists_numbered_eq v
  rw [hnumbered, List.cons_append] at hescape ⊢
  rw [reading, hescape]
  simp only
  rw [List.cons_append, List.drop_succ_cons, List.drop_left' hlength]

/-- What stands in front when an escape does. -/
theorem eq_numbered_append {u v : UInt16} {us : Units} (h : escapeAt? (u :: us) = some v) :
    isFieldLetter v = false ∧ u :: us = numbered v ++ us.drop (escapeWidth + 1) := by
  obtain ⟨hletter, rest, hrest⟩ := escapeAt?_eq_some_iff.1 h
  obtain ⟨digits, hnumbered, hlength, -⟩ := exists_numbered_eq v
  refine ⟨hletter, ?_⟩
  rw [hnumbered, List.cons_append, List.cons_append] at hrest
  obtain ⟨rfl, hback⟩ := List.cons.inj hrest
  rw [hnumbered, ← hback, List.drop_succ_cons, List.drop_left' hlength, List.cons_append,
    List.cons_append]

/-- **A name is read as its spelling is.** -/
theorem reading_fieldUnits (us : Units) : reading (fieldUnits us) = reading us := by
  -- an escape in the name is letters, which stay; a unit that gets an escape is read back from it
  fun_induction reading us with
  | case1 => rw [fieldUnits, List.flatMap_nil, reading]
  | case2 u us v hescape ih =>
    obtain ⟨hletter, hfront⟩ := eq_numbered_append hescape
    rw [hfront, fieldUnits_append_of_letters fun _ => isFieldLetter_of_mem_numbered,
      reading_numbered_append hletter, ih]
  | case3 u us hnone ih =>
    rcases hu : isFieldLetter u with _ | _
    · rw [fieldUnits_cons_of_not_letter hu, reading_numbered_append hu, ih]
    · have hspelled : escapeAt? (u :: fieldUnits us) = none := by
        rw [← Option.not_isSome_iff_eq_none, Option.isSome_iff_exists]
        rintro ⟨v, hv⟩
        obtain ⟨hletter, hfront⟩ := escapeAt?_eq_some_iff.1 hv
        obtain ⟨digits, hnumbered, -, -, hdigits⟩ := exists_numbered_eq v
        -- behind its `_` the escape holds none, so it stands in the name already
        rw [hnumbered, List.cons_prefix_cons] at hfront
        have hback : 0x30 :: digits <+: us := by
          apply prefix_of_prefix_fieldUnits _ hfront.2
          rw [List.mem_cons, not_or]
          exact ⟨by decide, hdigits⟩
        have hsome : escapeAt? (u :: us) = some v := by
          rw [escapeAt?_eq_some_iff, hnumbered, List.cons_prefix_cons]
          exact ⟨hletter, hfront.1, hback⟩
        rw [hnone] at hsome
        contradiction
      rw [fieldUnits_cons_of_letter hu, reading_cons_of_none hspelled, ih]

/-- **A reading is spelled as the name is.** -/
theorem fieldUnits_reading (us : Units) : fieldUnits (reading us) = fieldUnits us := by
  fun_induction reading us with
  | case1 => rfl
  | case2 u us v hescape ih =>
    obtain ⟨hletter, hfront⟩ := eq_numbered_append hescape
    rw [hfront, fieldUnits_cons_of_not_letter hletter,
      fieldUnits_append_of_letters fun _ => isFieldLetter_of_mem_numbered, ih]
  | case3 u us hnone ih =>
    rcases hu : isFieldLetter u with _ | _
    · rw [fieldUnits_cons_of_not_letter hu, fieldUnits_cons_of_not_letter hu, ih]
    · rw [fieldUnits_cons_of_letter hu, fieldUnits_cons_of_letter hu, ih]

/-- A name without escapes is read as it stands. -/
theorem reading_eq_self {us : Units} (h : ∀ v, isFieldLetter v = false → ¬ numbered v <:+: us) :
    reading us = us := by
  induction us with
  | nil => rw [reading]
  | cons u us ih =>
    have hnone : escapeAt? (u :: us) = none := by
      rw [← Option.not_isSome_iff_eq_none, Option.isSome_iff_exists]
      rintro ⟨v, hv⟩
      obtain ⟨hletter, hfront⟩ := escapeAt?_eq_some_iff.1 hv
      exact h v hletter hfront.isInfix
    have hrest : ∀ v, isFieldLetter v = false → ¬ numbered v <:+: us := by
      intro v hletter hwithin
      exact h v hletter (hwithin.trans (List.suffix_cons u us).isInfix)
    rw [reading_cons_of_none hnone, ih hrest]

/-- **Fields have one spelling exactly when their names have one reading.** -/
theorem escapeFieldName_eq_iff {a b : String} :
    escapeFieldName a = escapeFieldName b
      ↔ reading (Text.unitsOf a) = reading (Text.unitsOf b) := by
  rw [← Text.unitsOf_inj, unitsOf_escapeFieldName, unitsOf_escapeFieldName]
  constructor
  · intro h
    rw [← reading_fieldUnits, h, reading_fieldUnits]
  · intro h
    rw [← fieldUnits_reading, h, fieldUnits_reading]

end Symbol

/-! ## Macros -/

namespace Header

open NativeHeaders.Symbol (reading numbered isFieldLetter)

theorem name_definitionOf_eq_iff {escapedName : String} {a b : Constant} :
    (definitionOf escapedName a).name = (definitionOf escapedName b).name
      ↔ reading (Text.unitsOf a.name) = reading (Text.unitsOf b.name) := by
  have hname : ∀ constant, (definitionOf escapedName constant).name.toList
      = (escapedName ++ "_").toList ++ (Symbol.escapeFieldName constant.name).toList := by
    intro constant
    rw [definitionOf, String.toList_append]
  rw [← Symbol.escapeFieldName_eq_iff, ← String.toList_inj, hname, hname,
    List.append_cancel_left_eq, String.toList_inj]

/-- **The macros of a header are distinct as far as their fields are read differently.** That is
so in particular where the names of the fields are distinct and hold no escapes. -/
theorem macros_nodup_iff {settings : Settings} {c : ClassModel} {header : Header}
    (hconstants : settings.emitConstants = true)
    (h : ofClass settings c = .ok (some header)) :
    ((header.constants.map Definition.name).Nodup
        ↔ (c.constants.map fun constant => reading (Text.unitsOf constant.name)).Nodup)
      ∧ ((c.constants.map Constant.name).Nodup →
          (∀ constant ∈ c.constants, ∀ v, isFieldLetter v = false →
            ¬ numbered v <:+: Text.unitsOf constant.name) →
          (header.constants.map Definition.name).Nodup) := by
  have hmacros : (header.constants.map Definition.name).Nodup
      ↔ (c.constants.map fun constant => reading (Text.unitsOf constant.name)).Nodup := by
    obtain ⟨prototypes, -, rfl⟩ := exists_of_ofClass h
    simp only [hconstants, if_true, List.map_map, List.Nodup, List.pairwise_map,
      Function.comp_apply, ne_eq, name_definitionOf_eq_iff]
  refine ⟨hmacros, ?_⟩
  intro hdistinct hplain
  have hreading : (c.constants.map fun constant => reading (Text.unitsOf constant.name))
      = (c.constants.map Constant.name).map Text.unitsOf := by
    rw [List.map_map]
    apply List.map_congr_left
    intro constant hmem
    exact Symbol.reading_eq_self (hplain constant hmem)
  rw [hmacros, hreading]
  exact hdistinct.map fun a b hab => Text.unitsOf_inj.1 hab

/-- A class with a native method and constants. -/
def withConstants (constants : List Constant) : ClassModel :=
  ⟨"a/K", [], [⟨"f", "()V", true, false, true, false⟩], constants⟩

/-- The names of the constants in the header of such a class. -/
def macrosOf (constants : List Constant) : Option (List String) :=
  (ofClass {} (withConstants constants)).toOption.join.map fun header =>
    header.constants.map Definition.name

theorem exists_of_macrosOf {constants : List Constant} {names : List String}
    (h : macrosOf constants = some names) :
    ∃ header, ofClass {} (withConstants constants) = .ok (some header)
      ∧ header.constants.map Definition.name = names := by
  rw [macrosOf, Option.map_eq_some_iff] at h
  obtain ⟨header, hjoin, hnames⟩ := h
  rw [Option.join_eq_some_iff] at hjoin
  rcases hheader : ofClass {} (withConstants constants) with e | result
  · rw [hheader] at hjoin
    exact absurd hjoin (by simp [Except.toOption])
  · rw [hheader] at hjoin
    exact ⟨header, congrArg Except.ok (Option.some.inj hjoin), hnames⟩

/-- Names as those of `java.lang.Integer`: a `_` is no escape by itself. -/
def limits : List Constant := [⟨"MIN_VALUE", .int (-2147483648)⟩, ⟨"MAX_VALUE", .int 2147483647⟩]

theorem macros_nodup_iff_of_limits :
    ∃ header, ofClass {} (withConstants limits) = .ok (some header)
      ∧ (header.constants.map Definition.name).Nodup := by
  have hmacros : macrosOf limits = some ["a_K_MIN_VALUE", "a_K_MAX_VALUE"] := by decide +kernel
  obtain ⟨header, hheader, -⟩ := exists_of_macrosOf hmacros
  have hdistinct : (limits.map Constant.name).Nodup := by decide +kernel
  refine ⟨header, hheader, (macros_nodup_iff rfl hheader).2 hdistinct ?_⟩
  intro constant hmem v _ hwithin
  -- an escape holds a zero, and these names hold none
  have hzero : (0x30 : UInt16) ∈ numbered v := by
    obtain ⟨digits, hnumbered, -⟩ := Symbol.exists_numbered_eq v
    rw [hnumbered]
    exact List.mem_cons_of_mem _ List.mem_cons_self
  have hnone : ∀ constant ∈ limits, (0x30 : UInt16) ∉ Text.unitsOf constant.name := by
    decide +kernel
  exact hnone constant hmem (hwithin.subset hzero)

/-- Names of which one holds the escape of the other. -/
def shadowing : List Constant := [⟨"é", .int 1⟩, ⟨"_000e9", .int 2⟩]

theorem macros_shadowed :
    (shadowing.map Constant.name).Nodup
      ∧ ∃ header, ofClass {} (withConstants shadowing) = .ok (some header)
        ∧ ¬ (header.constants.map Definition.name).Nodup := by
  have hmacros : macrosOf shadowing = some ["a_K__000e9", "a_K__000e9"] := by decide +kernel
  obtain ⟨header, hheader, hnames⟩ := exists_of_macrosOf hmacros
  refine ⟨by decide +kernel, header, hheader, ?_⟩
  rw [hnames]
  decide

end Header

end NativeHeaders
