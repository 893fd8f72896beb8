import NativeHeaders.Proofs.Descriptor.RoundTrip

/-!
# Reading descriptors through a byte offset

The readers walk along the characters that remain. A cursor keeps the whole text and a byte offset
instead, and slices the text at its offset whenever it looks at what comes next. A slice at an
offset where no character starts, or behind the end, has no result: there the program would stop.
A `Reading` keeps the offsets of its slices beside its outcome, so that it can be said where they
lie. The cursor ends because every character that it moves over brings it nearer to the end of the
text (`bump_ends`).
-/

set_option autoImplicit false

namespace NativeHeaders

namespace Descriptor

variable {α β : Type}

/-! ## Byte offsets -/

/-- The two sides of a byte offset in a text. There are none when the offset lies inside a
character or behind the end. -/
def splitBytes? : Nat → List Char → Option (List Char × List Char)
  | 0, cs => some ([], cs)
  | _ + 1, [] => none
  | k + 1, c :: cs =>
    if c.utf8Size ≤ k + 1 then
      (splitBytes? (k + 1 - c.utf8Size) cs).map fun sides => (c :: sides.1, sides.2)
    else none

theorem splitBytes?_append (front back : List Char) :
    splitBytes? (byteLength front) (front ++ back) = some (front, back) := by
  induction front with
  | nil => simp only [byteLength, splitBytes?, List.nil_append]
  | cons c front ih =>
    have hpos : 0 < c.utf8Size := c.utf8Size_pos
    -- no character takes no bytes, so the offset is of the form that the recursion matches on
    obtain ⟨k, hk⟩ : ∃ k, byteLength (c :: front) = k + 1 :=
      Nat.exists_eq_succ_of_ne_zero (by rw [byteLength]; omega)
    have hle : c.utf8Size ≤ k + 1 := by
      rw [← hk, byteLength]
      omega
    have hrest : k + 1 - c.utf8Size = byteLength front := by
      rw [← hk, byteLength]
      omega
    rw [hk, List.cons_append, splitBytes?, if_pos hle, hrest, ih, Option.map_some]

/-- An offset that splits a text lies at most at its end. -/
theorem eq_of_splitBytes? {k : Nat} {cs front back : List Char}
    (h : splitBytes? k cs = some (front, back)) : cs = front ++ back ∧ byteLength front = k := by
  induction cs generalizing k front with
  | nil =>
    rcases k with _ | k
    · obtain ⟨⟩ := h
      exact ⟨rfl, rfl⟩
    · contradiction
  | cons c cs ih =>
    rcases k with _ | k
    · obtain ⟨⟩ := h
      exact ⟨rfl, rfl⟩
    · rw [splitBytes?] at h
      split at h
      · rename_i hle
        obtain ⟨⟨front, left⟩, hsides, ⟨⟩⟩ := Option.map_eq_some_iff.1 h
        obtain ⟨hcs, hlength⟩ := ih hsides
        refine ⟨by rw [hcs, List.cons_append], ?_⟩
        rw [byteLength, hlength]
        omega
      · contradiction

/-- The number of bytes in front of the first `;`. -/
def findSemicolon? : List Char → Option Nat
  | [] => none
  | c :: cs => if c = ';' then some 0 else (findSemicolon? cs).map (c.utf8Size + ·)

/-- The search for `;` counts the bytes of what it passes over. -/
theorem findSemicolon?_eq (cs : List Char) :
    findSemicolon? cs =
      match cs.dropWhile (· != ';') with
      | [] => none
      | _ :: _ => some (byteLength (cs.takeWhile (· != ';'))) := by
  induction cs with
  | nil => rfl
  | cons c cs ih =>
    by_cases hc : c = ';'
    · rw [findSemicolon?, if_pos hc, List.dropWhile_cons_of_neg (by simp [hc]),
        List.takeWhile_cons_of_neg (by simp [hc])]
      rfl
    · rw [findSemicolon?, if_neg hc, ih, List.dropWhile_cons_of_pos (by simp [hc]),
        List.takeWhile_cons_of_pos (by simp [hc])]
      split
      · rfl
      · rfl

/-! ## Readings -/

/-- What reading through a cursor came to: the offsets of its slices and what it ended with. It
has no outcome when a slice has none. -/
structure Reading (α : Type) where
  slices : List Nat
  outcome : Option (Except DescriptorError (α × Nat))

namespace Reading

/-- A reading ended with `a`, at the offset `next`. -/
def Ends (r : Reading α) (a : α) (next : Nat) : Prop := r.outcome = some (.ok (a, next))

/-- What a reading ended with, wherever it ended. -/
def verdict (r : Reading α) : Option (Except DescriptorError α) :=
  r.outcome.map (Except.map Prod.fst)

def found (a : α) (next : Nat) : Reading α := ⟨[], some (.ok (a, next))⟩

def fail (e : DescriptorError) : Reading α := ⟨[], some (.error e)⟩

/-- Reads on from where a reading ended. The continuation may use that it did end there. -/
def bind (r : Reading α) (f : (a : α) → (next : Nat) → r.Ends a next → Reading β) : Reading β :=
  match h : r.outcome with
  | none => ⟨r.slices, none⟩
  | some (.error e) => ⟨r.slices, some (.error e)⟩
  | some (.ok (a, next)) => ⟨r.slices ++ (f a next h).slices, (f a next h).outcome⟩

def map (g : α → β) (r : Reading α) : Reading β := r.bind fun a next _ => found (g a) next

variable {r : Reading α} {f : (a : α) → (next : Nat) → r.Ends a next → Reading β}

theorem bind_of_ends {a : α} {next : Nat} (h : r.Ends a next) :
    r.bind f = ⟨r.slices ++ (f a next h).slices, (f a next h).outcome⟩ := by
  unfold bind
  split
  · rename_i hnone
    rw [Ends, hnone] at h
    contradiction
  · rename_i e herror
    rw [Ends, herror] at h
    cases h
  · rename_i b last hends
    have heq := h
    rw [Ends, hends] at heq
    obtain ⟨⟩ := heq
    rfl

theorem bind_of_error {e : DescriptorError} (h : r.outcome = some (.error e)) :
    r.bind f = ⟨r.slices, some (.error e)⟩ := by
  unfold bind
  split
  · rename_i hnone
    rw [hnone] at h
    contradiction
  · rename_i e' herror
    rw [herror] at h
    obtain ⟨⟩ := h
    rfl
  · rename_i b last hends
    rw [hends] at h
    cases h

/-- A reading of two parts that ended has two parts that ended. -/
theorem ends_of_bind {b : β} {last : Nat} (h : (r.bind f).Ends b last) :
    ∃ a next, ∃ hends : r.Ends a next, (f a next hends).Ends b last := by
  unfold bind at h
  split at h
  · contradiction
  · cases h
  · rename_i a next hends
    exact ⟨a, next, hends, h⟩

theorem ends_of_map {g : α → β} {b : β} {last : Nat} (h : (r.map g).Ends b last) :
    ∃ a, r.Ends a last ∧ b = g a := by
  obtain ⟨a, next, hends, hfound⟩ := ends_of_bind h
  obtain ⟨⟩ := hfound
  exact ⟨a, hends, rfl⟩

end Reading

/-! ## The cursor -/

namespace Cursor

/-- The text from an offset on. -/
def slice (text : List Char) (offset : Nat) : Reading (List Char) :=
  ⟨[offset], (splitBytes? offset text).map fun sides => .ok (sides.2, offset)⟩

/-- The character at an offset, if it is not the end. -/
def peek (text : List Char) (offset : Nat) : Reading (Option Char) :=
  (slice text offset).map List.head?

/-- Moves over the character at an offset. -/
def bump (text : List Char) (offset : Nat) : Reading Char :=
  (peek text offset).bind fun next? offset _ =>
    match next? with
    | none => .fail .unexpectedEnd
    | some c => .found c (offset + c.utf8Size)

/-- Moves over one character that is due. -/
def expect (wanted : Char) (text : List Char) (offset : Nat) : Reading Unit :=
  (bump text offset).bind fun c next _ =>
    if c = wanted then .found () next else .fail (.expected wanted offset)

/-- A class name at an offset, after an `L` at `start`. -/
def className (text : List Char) (start offset : Nat) : Reading FieldType :=
  (slice text offset).bind fun rest offset _ =>
    match findSemicolon? rest with
    | none => .fail .unexpectedEnd
    | some length =>
      -- a second slice, of what the first one gave
      match splitBytes? length rest with
      | none => ⟨[], none⟩
      | some (name, _) =>
        if name = [] then .fail (.emptyClassName start)
        else if name.any isIllegalInName then .fail (.illegalClassName start)
        else .found (.object (String.ofList name)) (offset + length + 1)

theorem slice_ends {text cs : List Char} {offset next : Nat}
    (h : (slice text offset).Ends cs next) :
    next = offset ∧ ∃ front, text = front ++ cs ∧ byteLength front = offset := by
  obtain ⟨⟨front, back⟩, hsides, heq⟩ := Option.map_eq_some_iff.1 h
  obtain ⟨⟩ := heq
  exact ⟨rfl, front, eq_of_splitBytes? hsides⟩

/-- Moving over a character brings the offset nearer to the end. -/
theorem bump_ends {text : List Char} {offset next : Nat} {c : Char}
    (h : (bump text offset).Ends c next) : offset < next ∧ offset < byteLength text := by
  obtain ⟨next?, reached, hpeek, hfound⟩ := Reading.ends_of_bind h
  obtain ⟨cs, hslice, rfl⟩ := Reading.ends_of_map hpeek
  obtain ⟨rfl, front, rfl, hfront⟩ := slice_ends hslice
  rcases cs with _ | ⟨d, cs⟩
  · cases hfound
  · obtain ⟨⟩ := hfound
    have hpos : 0 < c.utf8Size := c.utf8Size_pos
    rw [byteLength_append, hfront, byteLength]
    omega

theorem className_ends {text : List Char} {start offset next : Nat} {type : FieldType}
    (h : (className text start offset).Ends type next) : offset < next := by
  obtain ⟨cs, reached, hslice, hfound⟩ := Reading.ends_of_bind h
  obtain ⟨rfl, -⟩ := slice_ends hslice
  split at hfound
  · cases hfound
  · split at hfound
    · cases hfound
    · split at hfound
      · cases hfound
      · split at hfound
        · cases hfound
        · obtain ⟨⟩ := hfound
          omega

/-- A type at an offset. -/
def fieldType (text : List Char) (offset : Nat) : Reading FieldType :=
  (bump text offset).bind fun c next _h =>
    if c = 'L' then className text offset next
    else if c = '[' then (fieldType text next).map .array
    else
      match Primitive.ofCode? c with
      | some type => .found (.primitive type) next
      | none => .fail (.unknownTypeCode c)
termination_by byteLength text - offset
decreasing_by
  -- an element is read behind its bracket
  have := bump_ends _h
  omega

/-- A type takes at least one character, whatever the text is. -/
theorem fieldType_ends {text : List Char} {offset next : Nat} {type : FieldType}
    (h : (fieldType text offset).Ends type next) : offset < next ∧ offset < byteLength text := by
  induction offset using fieldType.induct text generalizing next type with
  | case1 offset ih =>
    rw [fieldType] at h
    obtain ⟨c, reached, hbump, hfound⟩ := Reading.ends_of_bind h
    obtain ⟨hlt, hend⟩ := bump_ends hbump
    refine ⟨?_, hend⟩
    split at hfound
    · exact Nat.lt_trans hlt (className_ends hfound)
    · split at hfound
      · obtain ⟨element, helement, -⟩ := Reading.ends_of_map hfound
        exact Nat.lt_trans hlt (ih c reached hbump helement).1
      · split at hfound
        · obtain ⟨⟩ := hfound
          exact hlt
        · cases hfound

/-- Types up to a closing bracket. -/
def parameters (text : List Char) (offset : Nat) : Reading (List FieldType) :=
  (peek text offset).bind fun next? _ _ =>
    match next? with
    | none => .fail .unexpectedEnd
    | some c =>
      if c = ')' then (bump text offset).map fun _ => []
      else
        (fieldType text offset).bind fun type next _h =>
          (parameters text next).map (type :: ·)
termination_by byteLength text - offset
decreasing_by
  -- the others are read behind the first
  have := fieldType_ends _h
  omega

/-- What a method returns, at an offset. -/
def result (text : List Char) (offset : Nat) : Reading ReturnType :=
  (peek text offset).bind fun next? _ _ =>
    if next? = some 'V' then (bump text offset).map fun _ => .void
    else (fieldType text offset).map .value

/-- A reading that must end where the text does. -/
def whole (text : List Char) (r : Reading α) : Reading α :=
  r.bind fun a offset _ =>
    if offset = byteLength text then .found a offset else .fail (.trailingCharacters offset)

/-- The parts of a method descriptor, one after the other. -/
def parts (text : List Char) : Reading MethodDescriptor :=
  (expect '(' text 0).bind fun _ next _ =>
    (parameters text next).bind fun parameters next _ =>
      (result text next).map fun result => ⟨parameters, result⟩

/-- A method descriptor. -/
def method (text : List Char) : Reading MethodDescriptor := whole text (parts text)

/-- A field descriptor. -/
def field (text : List Char) : Reading FieldType := whole text (fieldType text 0)

end Cursor

end Descriptor

end NativeHeaders
