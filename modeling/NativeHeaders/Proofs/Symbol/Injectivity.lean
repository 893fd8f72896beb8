import NativeHeaders.ClassModel.Basic
import NativeHeaders.Proofs.Descriptor.RoundTrip
import NativeHeaders.Proofs.Text.Units
import NativeHeaders.Symbol.Link
import NativeHeaders.Text.Split

/-!
# Symbols tell native methods apart

Everything in a symbol is spelled with `_`: separators, escapes, the glue between class and method
and the glue before the parameters. Symbols are unambiguous all the same, and the argument has two
steps.

The glue is no third thing. What is glued to a name opens a segment, as if it stood behind a
separator, so a symbol is the escape of a single text, `Symbol.spelled`, in which class and method
are joined by `/` and the parameters by `//` (`toList_fullName`).

Escapes can be read back. Behind the `_` of an escape stands one of the digits `0` to `3`, behind
the `_` of a separator never, because such a digit is escaped where it opens a segment. So
`unescape` needs no state, although `escape` does, and all that it cannot tell is whether a
separator was `/` or `.` (`unescape_escape`).
-/

set_option autoImplicit false

namespace NativeHeaders

/-! ## Hexadecimal numerals -/

namespace Text

/-- The number that a lowercase hexadecimal digit stands for. -/
def digitValue (c : Char) : Nat := if c.toNat < 0x3a then c.toNat - 0x30 else c.toNat - 0x57

/-- The number that hexadecimal digits spell, most significant first. -/
def hexNumber (cs : List Char) : Nat := cs.foldl (fun n c => n * 16 + digitValue c) 0

theorem digitValue_hexDigit : ∀ n : Nat, n < 16 → digitValue (hexDigit n) = n := by decide

/-- The last digits of a number spell what they leave of it. -/
theorem hexNumber_fixedHex (width n : Nat) :
    hexNumber (fixedHex width n) = n % Nat.pow 16 width := by
  induction width generalizing n with
  | zero => exact (Nat.mod_one n).symm
  | succ width ih =>
    have hdigit : n % 16 < 16 := Nat.mod_lt n (by decide)
    have hstep : hexNumber (fixedHex (width + 1) n)
        = hexNumber (fixedHex width (n / 16)) * 16 + digitValue (hexDigit (n % 16)) := by
      simp only [hexNumber, fixedHex, List.foldl_append, List.foldl_cons, List.foldl_nil]
    rw [hstep, ih, digitValue_hexDigit _ hdigit,
      show Nat.pow 16 (width + 1) = 16 * Nat.pow 16 width from Nat.mul_comm _ _, Nat.mod_mul]
    omega

end Text

namespace Symbol

open Text (Units)

/-! ## Reading escapes back -/

/-- The unit that a separator is read as: `/`, whatever it was. -/
def slash (u : UInt16) : UInt16 := if isSeparator u then 0x2f else u

/-- The units that an escaped text spells. -/
def unescape : List Char → Units
  | [] => []
  | '_' :: '0' :: a :: b :: c :: d :: rest =>
    UInt16.ofNat (Text.hexNumber [a, b, c, d]) :: unescape rest
  | '_' :: '1' :: rest => 0x5f :: unescape rest
  | '_' :: '2' :: rest => 0x3b :: unescape rest
  | '_' :: '3' :: rest => 0x5b :: unescape rest
  | '_' :: rest => 0x2f :: unescape rest
  | c :: rest => UInt16.ofNat c.toNat :: unescape rest

/-- A `_` is a separator when no digit of an escape stands behind it. -/
theorem unescape_separator {cs : List Char}
    (h : ∀ c tail, cs = c :: tail → isEscapeDigit c = false) :
    unescape ('_' :: cs) = 0x2f :: unescape cs := by
  cases cs with
  | nil => rfl
  | cons c tail =>
    have hc := h c tail rfl
    rw [unescape]
    all_goals
      intros
      rename_i heq
      obtain ⟨⟩ := heq
      revert hc
      decide

theorem unescape_plain {c : Char} (h : c ≠ '_') (cs : List Char) :
    unescape (c :: cs) = UInt16.ofNat c.toNat :: unescape cs := by
  rw [unescape]
  all_goals
    intros
    simp_all

/-- A numbered escape is read as the unit of that number. -/
theorem unescape_escapeNumber (u : UInt16) (cs : List Char) :
    unescape (escapeNumber u ++ cs) = u :: unescape cs := by
  have hread := Text.hexNumber_fixedHex escapeWidth u.toNat
  have hsmall : u.toNat % Nat.pow 16 escapeWidth = u.toNat := Nat.mod_eq_of_lt u.toNat_lt
  have hdigits : ∃ a b c d, Text.fixedHex escapeWidth u.toNat = [a, b, c, d] := ⟨_, _, _, _, rfl⟩
  obtain ⟨a, b, c, d, hdigits⟩ := hdigits
  rw [hdigits, hsmall] at hread
  have hspelling : escapeNumber u ++ cs = '_' :: '0' :: a :: b :: c :: d :: cs := by
    rw [escapeNumber, hdigits]
    rfl
  rw [hspelling, unescape, hread, UInt16.ofNat_toNat]

theorem toNat_ofNat_ascii : ∀ n : Nat, n < 0x80 → (Char.ofNat n).toNat = n := by decide

/-- The unit of an ASCII character is the one that it was taken for. -/
theorem ofNat_of_ascii? {u : UInt16} {c : Char} (h : Text.ascii? u = some c) :
    UInt16.ofNat c.toNat = u := by
  unfold Text.ascii? at h
  split at h
  · rename_i hsmall
    rw [← Option.some.inj h, toNat_ofNat_ascii _ hsmall, UInt16.ofNat_toNat]
  · contradiction

/-- The spelling of a unit is read as that unit, whatever follows. -/
theorem unescape_escapeUnit (opening : Bool) (u : UInt16) (cs : List Char) :
    unescape (escapeUnit opening u ++ cs) = u :: unescape cs := by
  unfold escapeUnit
  split
  · exact unescape_escapeNumber u cs
  · rename_i c hascii
    have hu := ofNat_of_ascii? hascii
    split
    · rename_i hc
      rw [eq_of_beq hc] at hu
      rw [← hu]
      rfl
    · split
      · rename_i hc
        rw [eq_of_beq hc] at hu
        rw [← hu]
        rfl
      · split
        · rename_i hc
          rw [eq_of_beq hc] at hu
          rw [← hu]
          rfl
        · split
          · rename_i hne _ _ _
            have hc : c ≠ '_' := by simpa using hne
            rw [List.singleton_append, unescape_plain hc, hu]
          · exact unescape_escapeNumber u cs

/-- The spelling of a unit that opens a segment does not start with a digit of an escape. -/
theorem escapeUnit_true_head (u : UInt16) :
    ∃ c tail, escapeUnit true u = c :: tail ∧ isEscapeDigit c = false := by
  unfold escapeUnit
  split
  · exact ⟨_, _, rfl, rfl⟩
  · split
    · exact ⟨_, _, rfl, rfl⟩
    · split
      · exact ⟨_, _, rfl, rfl⟩
      · split
        · exact ⟨_, _, rfl, rfl⟩
        · split
          · rename_i hplain
            exact ⟨_, _, rfl, by simpa using (Bool.and_eq_true_iff.1 hplain).2⟩
          · exact ⟨_, _, rfl, rfl⟩

/-- No digit of an escape opens a segment. -/
theorem isEscapeDigit_escape_true {us : Units} {c : Char} {tail : List Char}
    (h : escape true us = c :: tail) : isEscapeDigit c = false := by
  rcases us with _ | ⟨u, us⟩
  · simp [escape] at h
  · rw [escape] at h
    split at h
    · rw [← (List.cons.inj h).1]
      rfl
    · obtain ⟨d, rest, hspelling, hd⟩ := escapeUnit_true_head u
      rw [hspelling, List.cons_append] at h
      rw [← (List.cons.inj h).1, hd]

/-- **Escapes are unambiguous.** An escaped text is read back up to the shape of its separators,
from wherever it was escaped. -/
theorem unescape_escape (opening : Bool) (us : Units) :
    unescape (escape opening us) = us.map slash := by
  induction us generalizing opening with
  | nil => rfl
  | cons u us ih =>
    rw [escape, List.map_cons]
    by_cases hu : isSeparator u = true
    · rw [if_pos hu, unescape_separator fun c tail h => isEscapeDigit_escape_true h, ih, slash,
        if_pos hu]
    · rw [if_neg hu, unescape_escapeUnit, ih, slash, if_neg hu]

/-- Escaping does not see the shape of separators. -/
theorem escape_map_slash (opening : Bool) (us : Units) :
    escape opening (us.map slash) = escape opening us := by
  induction us generalizing opening with
  | nil => rfl
  | cons u us ih =>
    have hslash : isSeparator 0x2f = true := rfl
    rw [List.map_cons, escape, escape, ih, ih, slash]
    by_cases hu : isSeparator u = true
    · rw [if_pos hu, if_pos hslash, if_pos hu]
    · rw [if_neg hu, if_neg hu]

theorem escape_eq_iff {opening : Bool} {us vs : Units} :
    escape opening us = escape opening vs ↔ us.map slash = vs.map slash := by
  constructor
  · intro h
    rw [← unescape_escape opening us, h, unescape_escape]
  · intro h
    rw [← escape_map_slash opening us, h, escape_map_slash]

/-! ## A symbol spells one text -/

theorem escape_append_separator (opening : Bool) (us vs : Units) :
    escape opening (us ++ 0x2f :: vs) = escape opening us ++ '_' :: escape true vs := by
  induction us generalizing opening with
  | nil => rfl
  | cons u us ih =>
    rw [List.cons_append, escape, escape, ih, ih]
    by_cases hu : isSeparator u = true
    · rw [if_pos hu, if_pos hu, List.cons_append]
    · rw [if_neg hu, if_neg hu, List.append_assoc]

/-- The text that a symbol spells: class and method are joined by `/`, and the parameters of an
overloaded method follow behind `//`. -/
def spelled (className method descriptor : String) (overloaded : Bool) : String :=
  className ++ "/" ++ method
    ++ if overloaded then "//" ++ String.ofList (parameterPortion descriptor.toList) else ""

/-- **A symbol is one escape.** Behind what every symbol starts with stands the escape of the text
that it spells; the glue between its parts is the escape of the separators in that text. -/
theorem toList_fullName (className method descriptor : String) (overloaded : Bool) :
    (link className method descriptor overloaded).fullName.toList
      = opening.toList
        ++ escape true (Text.unitsOf (spelled className method descriptor overloaded)) := by
  have hslash : Text.unitsOf "/" = [0x2f] := rfl
  have hslashes : Text.unitsOf "//" = [0x2f, 0x2f] := rfl
  have hglue : "_".toList = ['_'] := rfl
  have hseparator : overloadSeparator.toList = ['_', '_'] := rfl
  -- `/` separates class and method, so the method opens a segment behind `_`
  have hbase : escape true (Text.unitsOf (className ++ "/" ++ method))
      = escape true (Text.unitsOf className) ++ '_' :: escape true (Text.unitsOf method) := by
    rw [Text.unitsOf_append, Text.unitsOf_append, hslash, List.append_assoc, List.singleton_append,
      escape_append_separator]
  by_cases h : overloaded = true
  · have hportion : escape true (Text.unitsOf (className ++ "/" ++ method ++ ("//"
          ++ String.ofList (parameterPortion descriptor.toList))))
        = escape true (Text.unitsOf (className ++ "/" ++ method))
          ++ '_' :: '_' :: escape true
            (Text.unitsOf (String.ofList (parameterPortion descriptor.toList))) := by
      rw [Text.unitsOf_append, Text.unitsOf_append "//", hslashes, List.cons_append,
        escape_append_separator, List.cons_append, List.nil_append]
      rfl
    simp only [spelled, link, fullName, h, if_true, hportion, hbase, Option.getD_some,
      escapeParameters, escapeName, String.toList_append, String.toList_ofList, hglue, hseparator,
      List.append_assoc, List.cons_append, List.nil_append]
  · simp only [spelled, link, fullName, h, if_false, Option.getD_none, String.append_empty, hbase,
      escapeName, String.toList_append, String.toList_ofList, hglue, List.append_assoc,
      List.singleton_append, Bool.false_eq_true]

/-! ## When two symbols are one -/

theorem slash_of_ne {u : UInt16} (h : u ≠ 0x2e) : slash u = u := by
  unfold slash
  split
  · rename_i hu
    rcases Bool.or_eq_true_iff.1 hu with hu | hu
    · exact (eq_of_beq hu).symm
    · exact absurd (eq_of_beq hu) h
  · rfl

/-- A character that is no dot has no unit that looks like one. -/
theorem map_slash_unitsOfChar {c : Char} (h : c ≠ '.') :
    (Text.unitsOfChar c).map slash = Text.unitsOfChar c := by
  have hsize : UInt16.size = 0x10000 := rfl
  have hrange := Text.toNat_char_range c
  have hdot : c.toNat ≠ 0x2e := fun heq => h (Char.toNat_inj.1 heq)
  have hne : ∀ n : Nat, n < 0x10000 → n ≠ 0x2e → slash (UInt16.ofNat n) = UInt16.ofNat n := by
    intro n hn hn'
    apply slash_of_ne
    intro heq
    have := congrArg UInt16.toNat heq
    rw [UInt16.toNat_ofNat_of_lt' (by omega)] at this
    exact hn' this
  unfold Text.unitsOfChar
  split
  · rename_i hsmall
    rw [List.map_singleton, hne _ hsmall hdot]
  · rw [List.map_cons, List.map_singleton, hne _ (by omega) (by omega),
      hne _ (by omega) (by omega)]

/-- Escaping and internal names see the same separators. -/
theorem unitsOf_internalName (s : String) :
    Text.unitsOf (ClassModel.internalName s) = (Text.unitsOf s).map slash := by
  rw [Text.unitsOf, Text.unitsOf, ClassModel.internalName, String.toList_ofList]
  induction s.toList with
  | nil => rfl
  | cons c cs ih =>
    rw [List.map_cons, Text.unitsOfChars_cons, Text.unitsOfChars_cons, List.map_append, ih]
    by_cases hc : c = '.'
    · rw [if_pos hc, hc]
      rfl
    · rw [if_neg hc, map_slash_unitsOfChar hc]

/-- **Symbols and what they spell.** Two symbols are one exactly when they spell the same text up
to the shape of the separators. -/
theorem fullName_eq_iff {c m d c' m' d' : String} {o o' : Bool} :
    (link c m d o).fullName = (link c' m' d' o').fullName ↔
      ClassModel.internalName (spelled c m d o)
        = ClassModel.internalName (spelled c' m' d' o') := by
  rw [← String.toList_inj, toList_fullName, toList_fullName, List.append_cancel_left_eq,
    escape_eq_iff, ← unitsOf_internalName, ← unitsOf_internalName, Text.unitsOf_inj]

/-! ## Methods that classes can declare -/

/-- A class, the name of a method and a descriptor as a class can declare them: no segment of the
class name is empty, no name holds a separator, and the descriptor can be read. -/
structure Declarable (className method descriptor : String) : Prop where
  segments : ∀ segment ∈ Text.splitOn '/' className.toList, segment ≠ [] ∧ '.' ∉ segment
  method_ne : method ≠ ""
  method_plain : '/' ∉ method.toList ∧ '.' ∉ method.toList
  readable : ∃ d, MethodDescriptor.parse descriptor = .ok d

/-- The parameter portion of a descriptor that can be read spells its parameters. -/
theorem parameterPortion_eq_printAll {descriptor : String} {d : MethodDescriptor}
    (h : MethodDescriptor.parse descriptor = .ok d) :
    parameterPortion descriptor.toList = Descriptor.printAll d.parameters := by
  obtain ⟨rfl, hlegal, -⟩ := MethodDescriptor.parse_eq_ok_iff.1 h
  have hpass : ∀ c ∈ Descriptor.printAll d.parameters, (c != ')') = true := by
    intro c hc
    rw [bne_iff_ne]
    rintro rfl
    exact Descriptor.not_mem_printAll hlegal (by simp) hc
  rw [String.toList_ofList, Descriptor.print_method, parameterPortion, if_pos (by simp),
    List.takeWhile_append_of_pos hpass, List.takeWhile_cons_of_neg (by simp), List.append_nil]

/-- A text without dots is its own internal form. -/
theorem internalName_of_not_mem {s : String} (h : '.' ∉ s.toList) :
    ClassModel.internalName s = s := by
  have hmap : s.toList.map (fun c => if c = '.' then '/' else c) = s.toList.map id := by
    apply List.map_congr_left
    intro c hc
    have hne : ¬ c = '.' := by
      rintro rfl
      exact h hc
    rw [if_neg hne, id]
  rw [ClassModel.internalName, hmap, List.map_id, String.ofList_toList]

section Declarable

variable {className method descriptor : String}

theorem Declarable.dot_not_mem (h : Declarable className method descriptor) (overloaded : Bool) :
    '.' ∉ (spelled className method descriptor overloaded).toList := by
  obtain ⟨d, hd⟩ := h.readable
  have hclass : '.' ∉ className.toList := by
    intro hdot
    rw [← Text.joinWith_splitOn '/' className.toList] at hdot
    rcases Text.mem_joinWith hdot with heq | ⟨segment, hsegment, hmem⟩
    · simp at heq
    · exact (h.segments segment hsegment).2 hmem
  have hportion : '.' ∉ parameterPortion descriptor.toList := by
    rw [parameterPortion_eq_printAll hd]
    exact Descriptor.not_mem_printAll (MethodDescriptor.parse_eq_ok_iff.1 hd).2.1 (by simp)
  unfold spelled
  split <;> simp [hclass, hportion, h.method_plain.2]

/-- The parts of the text that a symbol spells: the segments of the class, the method and, behind
an empty part, those of the parameters. -/
theorem Declarable.splitOn_spelled (h : Declarable className method descriptor)
    (overloaded : Bool) :
    Text.splitOn '/' (spelled className method descriptor overloaded).toList
      = (Text.splitOn '/' className.toList ++ [method.toList])
        ++ if overloaded then [] :: Text.splitOn '/' (parameterPortion descriptor.toList)
          else [] := by
  have hslash : "/".toList = ['/'] := rfl
  have hslashes : "//".toList = ['/', '/'] := rfl
  have hmethod := Text.splitOn_of_not_mem h.method_plain.1
  unfold spelled
  by_cases ho : overloaded = true
  · have htext : (className ++ "/" ++ method
          ++ ("//" ++ String.ofList (parameterPortion descriptor.toList))).toList
        = className.toList
          ++ '/' :: (method.toList
            ++ '/' :: ([] ++ '/' :: parameterPortion descriptor.toList)) := by
      simp only [String.toList_append, hslash, hslashes, String.toList_ofList, List.append_assoc,
        List.cons_append, List.nil_append]
    rw [if_pos ho, if_pos ho, htext, Text.splitOn_append, Text.splitOn_append, Text.splitOn_append,
      hmethod, List.append_assoc]
    rfl
  · have htext : (className ++ "/" ++ method ++ "").toList
        = className.toList ++ '/' :: method.toList := by
      simp only [String.append_empty, String.toList_append, hslash, List.append_assoc,
        List.singleton_append]
    rw [if_neg ho, if_neg ho, htext, Text.splitOn_append, hmethod, List.append_nil]

/-- The method and the segments of the class are not empty, so the first empty part is the one
in front of the parameters. -/
theorem Declarable.nil_not_mem (h : Declarable className method descriptor) :
    [] ∉ Text.splitOn '/' className.toList ++ [method.toList] := by
  have hmethod : method.toList ≠ [] := by simpa using h.method_ne
  rw [List.mem_append, List.mem_singleton]
  rintro (hmem | hnil)
  · exact (h.segments [] hmem).1 rfl
  · exact hmethod hnil.symm

end Declarable

/-- **What a declared method's symbol spells determines it.** -/
theorem spelled_inj {c m d c' m' d' : String} {o o' : Bool} (h : Declarable c m d)
    (h' : Declarable c' m' d') (heq : spelled c m d o = spelled c' m' d' o') :
    c = c' ∧ m = m' ∧ (o = false ∧ o' = false
      ∨ o = true ∧ o' = true ∧ parameterPortion d.toList = parameterPortion d'.toList) := by
  have hparts := congrArg (fun s => Text.splitOn '/' s.toList) heq
  simp only [h.splitOn_spelled, h'.splitOn_spelled] at hparts
  have hnames : Text.splitOn '/' c.toList ++ [m.toList] = Text.splitOn '/' c'.toList ++ [m'.toList]
      → c = c' ∧ m = m' := by
    intro hnames
    obtain ⟨hclass, hmethod⟩ := List.append_inj' hnames rfl
    constructor
    · rw [← String.toList_inj, ← Text.joinWith_splitOn '/' c.toList, hclass, Text.joinWith_splitOn]
    · exact String.toList_inj.1 (List.singleton_inj.1 hmethod)
  by_cases ho : o = true
  · by_cases ho' : o' = true
    · rw [if_pos ho, if_pos ho'] at hparts
      obtain ⟨hfront, hback⟩ := Text.front_inj h.nil_not_mem h'.nil_not_mem hparts
      obtain ⟨hclass, hmethod⟩ := hnames hfront
      have hportion := congrArg (Text.joinWith '/') hback
      rw [Text.joinWith_splitOn, Text.joinWith_splitOn] at hportion
      exact ⟨hclass, hmethod, Or.inr ⟨ho, ho', hportion⟩⟩
    · rw [if_pos ho, if_neg ho', List.append_nil] at hparts
      refine absurd ?_ h'.nil_not_mem
      rw [← hparts]
      simp
  · by_cases ho' : o' = true
    · rw [if_neg ho, if_pos ho', List.append_nil] at hparts
      refine absurd ?_ h.nil_not_mem
      rw [hparts]
      simp
    · rw [if_neg ho, if_neg ho', List.append_nil, List.append_nil] at hparts
      obtain ⟨hclass, hmethod⟩ := hnames hparts
      exact ⟨hclass, hmethod, Or.inl ⟨by simpa using ho, by simpa using ho'⟩⟩

/-- **Symbols are injective.** Two symbols are one exactly when the texts that they spell agree up
to the shape of separators. For methods that classes can declare this leaves no choice: class and
method agree, and either neither method is overloaded or both are, with the same parameters. -/
theorem link_injective :
    (∀ (c m d : String) (o : Bool) (c' m' d' : String) (o' : Bool),
      (link c m d o).fullName = (link c' m' d' o').fullName ↔
        ClassModel.internalName (spelled c m d o) = ClassModel.internalName (spelled c' m' d' o'))
    ∧ ∀ (c m d : String) (o : Bool) (c' m' d' : String) (o' : Bool),
      Declarable c m d → Declarable c' m' d' →
        ((link c m d o).fullName = (link c' m' d' o').fullName ↔
          c = c' ∧ m = m' ∧ (o = false ∧ o' = false
            ∨ o = true ∧ o' = true ∧ parameterPortion d.toList = parameterPortion d'.toList))
        ∧ (link c m d o = link c' m' d' o' ↔
          c = c' ∧ m = m' ∧ (o = false ∧ o' = false
            ∨ o = true ∧ o' = true ∧ parameterPortion d.toList = parameterPortion d'.toList)) := by
  refine ⟨fun c m d o c' m' d' o' => fullName_eq_iff, ?_⟩
  intro c m d o c' m' d' o' h h'
  have hforth : (link c m d o).fullName = (link c' m' d' o').fullName →
      c = c' ∧ m = m' ∧ (o = false ∧ o' = false
        ∨ o = true ∧ o' = true ∧ parameterPortion d.toList = parameterPortion d'.toList) := by
    intro heq
    have hspelled := fullName_eq_iff.1 heq
    rw [internalName_of_not_mem (h.dot_not_mem o), internalName_of_not_mem (h'.dot_not_mem o')]
      at hspelled
    exact spelled_inj h h' hspelled
  have hback : c = c' ∧ m = m' ∧ (o = false ∧ o' = false
        ∨ o = true ∧ o' = true ∧ parameterPortion d.toList = parameterPortion d'.toList) →
      link c m d o = link c' m' d' o' := by
    rintro ⟨rfl, rfl, ⟨rfl, rfl⟩ | ⟨rfl, rfl, hportion⟩⟩
    · simp only [link, Bool.false_eq_true, if_false]
    · have hparameters : escapeParameters d = escapeParameters d' := by
        rw [escapeParameters, escapeParameters, hportion]
      simp only [link, hparameters]
  exact ⟨⟨hforth, fun hsame => congrArg fullName (hback hsame)⟩,
    ⟨fun heq => hforth (congrArg fullName heq), hback⟩⟩

/-- The glue in front of parameters is no separator in front of a name that starts with `_`. -/
theorem link_injective_of_glue :
    Declarable "p/Q" "f" "(I)V" ∧ Declarable "p/Q/f" "_I" "()V"
    ∧ (link "p/Q" "f" "(I)V" true).fullName ≠ (link "p/Q/f" "_I" "()V" false).fullName := by
  have hreadable : MethodDescriptor.parse "(I)V" = .ok ⟨[.primitive .int], .void⟩ :=
    MethodDescriptor.parse_eq_ok_iff.2 ⟨by decide, by decide⟩
  have hreadable' : MethodDescriptor.parse "()V" = .ok ⟨[], .void⟩ :=
    MethodDescriptor.parse_eq_ok_iff.2 ⟨by decide, by decide⟩
  have h : Declarable "p/Q" "f" "(I)V" := ⟨by decide, by decide, by decide, _, hreadable⟩
  have h' : Declarable "p/Q/f" "_I" "()V" := ⟨by decide, by decide, by decide, _, hreadable'⟩
  refine ⟨h, h', ?_⟩
  intro heq
  have hclass := ((link_injective.2 _ _ _ _ _ _ _ _ h h').1.1 heq).1
  exact absurd hclass (by decide)

end Symbol

end NativeHeaders
