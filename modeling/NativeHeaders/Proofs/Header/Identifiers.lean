import NativeHeaders.Proofs.Header.Names
import NativeHeaders.Proofs.Symbol.Fields

/-!
# What a header declares are identifiers

Nothing but letters, digits and `_` comes out of escaping, so what is left to ask of a name is how
it starts. Guards and symbols start with a text of their own. A macro starts as the escaped name of
the class does, and escaping takes care of no other digits there than those that could be mistaken
for an escape. So a class name that starts with `4` to `9` hands this digit on to its macros
(`head?_definitionOf`), and that is the only way in which a name that a header declares is no
identifier (`declared_names_are_identifiers`).
-/

set_option autoImplicit false

namespace NativeHeaders

/-- Whether a text is an identifier of C: letters, digits and `_`, and no digit in front. -/
structure IsIdentifier (s : String) : Prop where
  ne_empty : s ≠ ""
  letters : ∀ c ∈ s.toList, IsIdentifierChar c
  start : ∀ c, s.toList.head? = some c → c.isDigit = false

/-- The digits that no escape starts with, so that escaping leaves them where a segment opens. -/
def plainDigits : List Char := ['4', '5', '6', '7', '8', '9']

namespace Text

/-- The first unit of a character is that character when it is ASCII, and otherwise none. -/
theorem exists_unitsOfChar_eq_cons (c : Char) :
    ∃ u us, unitsOfChar c = u :: us ∧ ascii? u = if c.toNat < 0x80 then some c else none := by
  have hsize : UInt16.size = 0x10000 := rfl
  have hrange := toNat_char_range c
  unfold unitsOfChar
  split
  · rename_i hsmall
    have hu : (UInt16.ofNat c.toNat).toNat = c.toNat := UInt16.toNat_ofNat_of_lt' (by omega)
    refine ⟨_, _, rfl, ?_⟩
    rw [ascii?, hu, Char.ofNat_toNat]
  · -- the first of two surrogates lies far above ASCII, as its character does
    have hu : (UInt16.ofNat (0xd800 + (c.toNat - 0x10000) / 0x400)).toNat
        = 0xd800 + (c.toNat - 0x10000) / 0x400 := UInt16.toNat_ofNat_of_lt' (by omega)
    refine ⟨_, _, rfl, ?_⟩
    rw [ascii?, hu, if_neg (by omega), if_neg (by omega)]

end Text

namespace Symbol

open Text (Units)

/-! ## How an escaped name starts -/

/-- What escaping makes of the character that starts a name: that character or a `_`. -/
def startOf (c : Char) : Char := if c.isAlphanum && !isEscapeDigit c then c else '_'

theorem startOf_of_not_ascii {c : Char} (h : ¬ c.toNat < 0x80) : startOf c = '_' := by
  have hletter : ¬ c.isAlphanum = true := fun hc => h (toNat_lt_of_isIdentifierChar (Or.inl hc))
  rw [startOf, Bool.eq_false_iff.2 hletter]
  rfl

/-- Only the digits that no escape starts with are left in front. -/
theorem isDigit_startOf_iff {c : Char} : (startOf c).isDigit = true ↔ c ∈ plainDigits := by
  -- one by one below 0x80, and above it the start is a `_`
  have hsmall : ∀ n : Nat, n < 0x80 →
      ((startOf (Char.ofNat n)).isDigit = true ↔ Char.ofNat n ∈ plainDigits) := by decide +kernel
  by_cases hc : c.toNat < 0x80
  · rw [← Char.ofNat_toNat c]
    exact hsmall c.toNat hc
  · have hdigits : ∀ d ∈ plainDigits, d.toNat < 0x80 := List.all_iff_forall_prop.1 (by decide)
    rw [startOf_of_not_ascii hc]
    exact ⟨fun h => absurd h (by decide), fun hmem => absurd (hdigits c hmem) hc⟩

theorem exists_escapeUnit_eq_cons (u : UInt16) :
    ∃ tail, escapeUnit true u = (Text.ascii? u).elim '_' startOf :: tail := by
  unfold escapeUnit
  split
  · rename_i hascii
    rw [hascii]
    exact ⟨_, rfl⟩
  · rename_i c hascii
    rw [hascii, Option.elim_some]
    split
    · rename_i hc
      rw [eq_of_beq hc]
      exact ⟨_, rfl⟩
    · split
      · rename_i hc
        rw [eq_of_beq hc]
        exact ⟨_, rfl⟩
      · split
        · rename_i hc
          rw [eq_of_beq hc]
          exact ⟨_, rfl⟩
        · split
          · rename_i hplain
            rw [startOf, if_pos (by simpa using hplain)]
            exact ⟨_, rfl⟩
          · rename_i hplain
            rw [startOf, if_neg (by simpa using hplain)]
            exact ⟨_, rfl⟩

theorem head?_escape_true (c : Char) (us : Units) :
    (escape true (Text.unitsOfChar c ++ us)).head? = some (startOf c) := by
  obtain ⟨u, rest, hunits, hascii⟩ := Text.exists_unitsOfChar_eq_cons c
  have hunit : (Text.ascii? u).elim '_' startOf = startOf c := by
    rw [hascii]
    split
    · rfl
    · rename_i hc
      exact (startOf_of_not_ascii hc).symm
  rw [hunits, List.cons_append, escape]
  split
  · -- a separator is one of two characters, and neither may start a name
    rename_i hseparator
    rw [List.head?_cons, ← hunit]
    rcases Bool.or_eq_true_iff.1 hseparator with hu | hu
    · rw [eq_of_beq hu]
      rfl
    · rw [eq_of_beq hu]
      rfl
  · obtain ⟨tail, htail⟩ := exists_escapeUnit_eq_cons u
    rw [htail, hunit, List.cons_append, List.head?_cons]

/-- **An escaped name starts** with what its first character becomes. -/
theorem head?_escapeName (name : String) :
    (escapeName name).toList.head? = name.toList.head?.map startOf := by
  rw [escapeName, String.toList_ofList, Text.unitsOf]
  cases name.toList with
  | nil => rfl
  | cons c cs =>
    rw [Text.unitsOfChars_cons, head?_escape_true, List.head?_cons, Option.map_some]

/-! ## Symbols -/

theorem isIdentifier_fullName_link (className method descriptor : String) (overloaded : Bool) :
    IsIdentifier (link className method descriptor overloaded).fullName := by
  have hstart : (link className method descriptor overloaded).fullName.toList.head? = some 'J' := by
    rw [toList_fullName]
    rfl
  refine ⟨?_, fun c => isIdentifierChar_of_mem_fullName_link, ?_⟩
  · intro hempty
    rw [hempty] at hstart
    contradiction
  · intro c hc
    rw [hstart, Option.some.injEq] at hc
    rw [← hc]
    rfl

end Symbol

namespace Header

/-! ## Guards, macros and files -/

theorem isIdentifier_guard (name : String) :
    IsIdentifier ("_Included_" ++ Symbol.escapeName name) := by
  refine ⟨?_, ?_, ?_⟩
  · intro hempty
    have hlist := congrArg String.toList hempty
    rw [String.toList_append] at hlist
    contradiction
  · intro c hc
    rw [String.toList_append, List.mem_append] at hc
    rcases hc with hc | hc
    · exact List.all_iff_forall_prop.1 (by decide) c hc
    · exact Symbol.isIdentifierChar_of_mem_escapeName hc
  · intro c hc
    rw [String.toList_append] at hc
    rw [← Option.some.inj hc]
    rfl

variable {className : String} {constant : Constant}

theorem isIdentifierChar_of_mem_definitionOf {c : Char}
    (h : c ∈ (definitionOf (Symbol.escapeName className) constant).name.toList) :
    IsIdentifierChar c := by
  rw [definitionOf, String.toList_append, String.toList_append] at h
  rcases List.mem_append.1 h with h | hfield
  · rcases List.mem_append.1 h with hclass | hunderscore
    · exact Symbol.isIdentifierChar_of_mem_escapeName hclass
    · exact Or.inr (List.mem_singleton.1 hunderscore)
  · exact Symbol.isIdentifierChar_of_mem_escapeFieldName hfield

/-- **A macro starts** as the escaped name of its class does, and with a `_` if that is empty. -/
theorem head?_definitionOf (className : String) (constant : Constant) :
    (definitionOf (Symbol.escapeName className) constant).name.toList.head?
      = some ((className.toList.head?.map Symbol.startOf).getD '_') := by
  have hunderscore : "_".toList = ['_'] := rfl
  rw [definitionOf, String.toList_append, String.toList_append, List.head?_append,
    List.head?_append, Symbol.head?_escapeName, hunderscore]
  cases className.toList with
  | nil => rfl
  | cons c cs => rfl

/-- A macro starts with a digit just when its class does so with one that is left there. -/
theorem start_definitionOf_iff (className : String) (constant : Constant) :
    (∃ c, (definitionOf (Symbol.escapeName className) constant).name.toList.head? = some c
        ∧ c.isDigit = true)
      ↔ ∃ c ∈ plainDigits, className.toList.head? = some c := by
  rw [head?_definitionOf]
  rcases className.toList with _ | ⟨first, rest⟩
  · simp
  · simp [Symbol.isDigit_startOf_iff]

variable {settings : Settings} {c : ClassModel} {header : Header}

/-- The symbols of a header are linked for the native methods of its class. -/
theorem exists_link_of_mem {prototypes : List Prototype} (h : prototypesOf c = .ok prototypes)
    {p : Prototype} (hp : p ∈ prototypes) :
    ∃ method descriptor overloaded, p.symbol = Symbol.link c.name method descriptor overloaded := by
  obtain ⟨d, -, hd⟩ := exists_of_mapM_eq_ok (prototypesOf_eq_ok_iff.1 h) hp
  exact ⟨d.name, d.descriptor, _, (prototype_eq_ok_iff.1 hd).2.2.1⟩

/-- **What a header declares are identifiers**, whatever stands in the names of a class, with one
exception: the macros of a class whose name starts with one of the digits `4` to `9` start with that
digit. The file is called by such letters too, so its name holds no separator. -/
theorem declared_names_are_identifiers (h : ofClass settings c = .ok (some header)) :
    IsIdentifier header.guard
    ∧ (∀ p ∈ header.prototypes, IsIdentifier p.symbol.fullName)
    ∧ (∀ d ∈ header.constants, d.name ≠ "" ∧ (∀ x ∈ d.name.toList, IsIdentifierChar x)
        ∧ ((∃ x, d.name.toList.head? = some x ∧ x.isDigit = true)
          ↔ ∃ x ∈ plainDigits, c.name.toList.head? = some x))
    ∧ (∃ stem : String, header.fileName = stem ++ ".h"
        ∧ ∀ x ∈ stem.toList, IsIdentifierChar x)
    ∧ '/' ∉ header.fileName.toList ∧ '\\' ∉ header.fileName.toList := by
  obtain ⟨prototypes, hprototypes, rfl⟩ := exists_of_ofClass h
  refine ⟨isIdentifier_guard c.name, ?_, ?_, ?_, ?_⟩
  · intro p hp
    obtain ⟨method, descriptor, overloaded, hsymbol⟩ := exists_link_of_mem hprototypes hp
    rw [hsymbol]
    exact Symbol.isIdentifier_fullName_link c.name method descriptor overloaded
  · intro d hd
    simp only at hd
    split at hd
    · obtain ⟨constant, -, rfl⟩ := List.mem_map.1 hd
      refine ⟨?_, fun x => isIdentifierChar_of_mem_definitionOf,
        start_definitionOf_iff c.name constant⟩
      intro hempty
      have hstart := head?_definitionOf c.name constant
      rw [hempty] at hstart
      contradiction
    · contradiction
  · exact ⟨Symbol.escapeName c.name, rfl, fun x => Symbol.isIdentifierChar_of_mem_escapeName⟩
  · exact ⟨fun hmem => absurd (isIdentifierChar_or_of_mem hmem) (by decide),
      fun hmem => absurd (isIdentifierChar_or_of_mem hmem) (by decide)⟩

/-- A class whose names hold hardly a letter of identifiers, and one of whose fields has none. -/
def strangelyNamed : ClassModel where
  name := "1-é/2"
  enclosing := []
  methods := [⟨"3 *", "()V", true, false, true, false⟩]
  constants := [⟨"", .int 1⟩]

theorem declared_names_are_identifiers_of_strange :
    ∃ header, ofClass {} strangelyNamed = .ok (some header)
      ∧ (∀ p ∈ header.prototypes, IsIdentifier p.symbol.fullName)
      ∧ (header.prototypes.map fun p => p.symbol.fullName)
        = ["Java__00031_0002d_000e9__00032__00033_00020_0002a"]
      ∧ (∀ d ∈ header.constants, ∀ x, d.name.toList.head? = some x → x.isDigit = false)
      ∧ header.constants.map Definition.name = ["_00031_0002d_000e9__00032_"] := by
  have hsymbols : (ofClass {} strangelyNamed).toOption.join.map
      (fun header => header.prototypes.map fun p => p.symbol.fullName)
      = some ["Java__00031_0002d_000e9__00032__00033_00020_0002a"] := by decide +kernel
  have hmacros : (ofClass {} strangelyNamed).toOption.join.map
      (fun header => header.constants.map Definition.name)
      = some ["_00031_0002d_000e9__00032_"] := by decide +kernel
  rcases hclass : ofClass {} strangelyNamed with e | _ | header
  · rw [hclass] at hsymbols
    contradiction
  · rw [hclass] at hsymbols
    contradiction
  · rw [hclass] at hsymbols hmacros
    obtain ⟨-, hprototypes, hconstants, -⟩ := declared_names_are_identifiers hclass
    refine ⟨header, rfl, hprototypes, Option.some.inj hsymbols, ?_, Option.some.inj hmacros⟩
    intro d hd x hx
    rw [← Bool.not_eq_true]
    intro hdigit
    obtain ⟨y, hy, hname⟩ := (hconstants d hd).2.2.1 ⟨x, hx, hdigit⟩
    rw [← Option.some.inj hname] at hy
    exact absurd hy (by decide)

/-- A class whose name starts with a digit that escaping leaves there. -/
def digitInFront : ClassModel where
  name := "7a"
  enclosing := []
  methods := []
  constants := [⟨"F", .int 1⟩]

/-- Its macro is no identifier. -/
theorem macro_starts_with_digit :
    ∃ settings header, ofClass settings digitInFront = .ok (some header)
      ∧ ∃ d ∈ header.constants, ¬ IsIdentifier d.name := by
  refine ⟨{ emitEmpty := true }, { empty "7a" "7a" with constants := [⟨"7a_F", "1L"⟩] },
    by decide +kernel, ⟨"7a_F", "1L"⟩, List.mem_singleton_self _, ?_⟩
  intro h
  exact absurd (h.start '7' rfl) (by decide)

end Header

end NativeHeaders
