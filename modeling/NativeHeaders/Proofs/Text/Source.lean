import Mathlib.Data.List.Infix

/-!
# How C source is read

Before anything else a line that ends in `\` is joined with the next one (`splice`). Then each
comment gives way to a space (`read`). Both go from the left: a block comment ends at the first
terminator that it holds, while inside quotes and line comments a terminator means nothing.
Trigraphs are left alone.

Some text is read as it stands wherever it stands (`Plain`), and such texts can be put in a row. A
block comment ends where it was meant to end exactly when there is no terminator in its body
(`closesAtEnd_iff`), and then reading goes on behind it (`read_comment`).
-/

set_option autoImplicit false

namespace NativeHeaders.CSource

/-! ## Lines -/

/-- Joins each line that ends in `\` with the next one. -/
def splice : List Char → List Char
  | '\\' :: '\n' :: cs => splice cs
  | c :: cs => c :: splice cs
  | [] => []

theorem splice_cons {c : Char} {cs : List Char} (h : c = '\\' → cs.head? ≠ some '\n') :
    splice (c :: cs) = c :: splice cs := by
  rw [splice]
  intro rest hc hrest
  exact h hc (by rw [hrest, List.head?_cons])

theorem splice_eq_self {cs : List Char} (h : '\\' ∉ cs) : splice cs = cs := by
  induction cs with
  | nil => rfl
  | cons c cs ih =>
    rw [List.mem_cons, not_or] at h
    rw [splice_cons fun hc => absurd hc.symm h.1, ih h.2]

/-- Texts are spliced apart, unless a line is joined across. -/
theorem splice_append {cs ds : List Char} (h : cs.getLast? = some '\\' → ds.head? ≠ some '\n') :
    splice (cs ++ ds) = splice cs ++ splice ds := by
  induction cs using splice.induct with
  | case1 cs ih =>
    rw [List.cons_append, List.cons_append, splice, splice]
    apply ih
    intro hlast
    apply h
    simp [List.getLast?_cons, hlast]
  | case2 c cs hjoin ih =>
    have halone : c = '\\' → cs.head? ≠ some '\n' := by
      intro hc hhead
      obtain ⟨rest, hrest⟩ := List.head?_eq_some_iff.1 hhead
      exact hjoin rest hc hrest
    have hfront : c = '\\' → (cs ++ ds).head? ≠ some '\n' := by
      intro hc
      cases cs with
      | nil => exact h (by rw [hc]; rfl)
      | cons d cs => exact halone hc
    rw [List.cons_append, splice_cons hfront, splice_cons halone, ih, List.cons_append]
    intro hlast
    apply h
    simp [List.getLast?_cons, hlast]
  | case3 => rfl

/-- A line that goes on behind some text. -/
theorem splice_line (cs ds : List Char) :
    splice (cs ++ '\n' :: ds) = splice cs ++ '\n' :: splice ds
      ∨ ∃ front, splice cs = front ++ ['\\'] ∧ splice (cs ++ '\n' :: ds) = front ++ splice ds := by
  by_cases hlast : cs.getLast? = some '\\'
  · right
    obtain ⟨front, rfl⟩ := List.getLast?_eq_some_iff.1 hlast
    refine ⟨splice front, ?_, ?_⟩
    · rw [splice_append (by simp)]
      rfl
    · rw [List.append_assoc, splice_append (by simp)]
      rfl
  · left
    rw [splice_append fun h => absurd h hlast]
    rfl

/-! ## Comments -/

/-- Where in a source text a character stands. -/
inductive Place where
  | code
  /-- Inside a string or a character, up to the quote that it starts with. -/
  | quoted (quote : Char)
  | line
  | block

/-- The text without its comments, read from a place on. -/
def read : Place → List Char → List Char
  | .code, '/' :: '*' :: cs => ' ' :: read .block cs
  | .code, '/' :: '/' :: cs => ' ' :: read .line cs
  | .code, '"' :: cs => '"' :: read (.quoted '"') cs
  | .code, '\x27' :: cs => '\x27' :: read (.quoted '\x27') cs
  | .code, c :: cs => c :: read .code cs
  | .quoted quote, '\\' :: c :: cs => '\\' :: c :: read (.quoted quote) cs
  | .quoted quote, c :: cs =>
    -- a quote that is not closed on its line ends with it
    c :: read (if c = quote ∨ c = '\n' then .code else .quoted quote) cs
  | .line, '\n' :: cs => '\n' :: read .code cs
  | .line, _ :: cs => read .line cs
  | .block, '*' :: '/' :: cs => read .code cs
  | .block, _ :: cs => read .block cs
  | _, [] => []

/-- What ends a block comment. -/
def terminator : List Char := ['*', '/']

/-- Whether a block comment with some body ends where it is meant to end: the terminator behind the
body is the only one. -/
def ClosesAtEnd (body : List Char) : Prop :=
  ∀ front back, body ++ terminator = front ++ terminator ++ back → front = body

theorem closesAtEnd_iff {body : List Char} : ClosesAtEnd body ↔ ¬ terminator <:+: body := by
  constructor
  · rintro h ⟨front, back, rfl⟩
    have hfront := h front (back ++ terminator) (by simp)
    have hlength := congrArg List.length hfront
    simp [terminator] at hlength
  · intro h front back heq
    rcases List.append_eq_append_iff.1 heq with ⟨middle, hfront, hmiddle⟩ | ⟨middle, hbody, -⟩
    · -- the two terminators overlap in `middle`: not at all, by one character, or altogether
      rcases middle with _ | ⟨c, _ | ⟨d, middle⟩⟩
      · rw [List.append_nil] at hfront
        exact absurd ⟨front, [], by rw [hfront, List.append_nil]⟩ h
      · have hc : c = '*' := (List.cons.inj hmiddle).1.symm
        have hlast := congrArg List.getLast? hfront
        simp [terminator, hc] at hlast
      · simp only [terminator, List.cons_append, List.cons.injEq, List.nil_eq_append_iff]
          at hmiddle
        obtain ⟨rfl, rfl, rfl, -⟩ := hmiddle
        exact List.append_cancel_right hfront
    · exact absurd ⟨front, middle, hbody.symm⟩ h

theorem read_block_cons {c : Char} {cs : List Char} (h : c = '*' → cs.head? ≠ some '/') :
    read .block (c :: cs) = read .block cs := by
  rw [read]
  intro rest hc hrest
  exact h hc (by rw [hrest, List.head?_cons])

/-- Behind a block comment reading goes on. The induction is on the body: a `*` in it is followed
by something else than `/`, since there is no terminator in it. -/
theorem read_block {body : List Char} (h : ¬ terminator <:+: body) (rest : List Char) :
    read .block (body ++ (terminator ++ rest)) = read .code rest := by
  induction body with
  | nil => rfl
  | cons c body ih =>
    rw [List.infix_cons_iff, not_or] at h
    rw [List.cons_append, read_block_cons, ih h.2]
    rintro rfl hhead
    cases body with
    | nil => simp [terminator] at hhead
    | cons d body =>
      rw [List.cons_append, List.head?_cons, Option.some.injEq] at hhead
      subst hhead
      exact h.1 ⟨body, rfl⟩

/-- A block comment gives way to a space. -/
theorem read_comment {body : List Char} (h : ¬ terminator <:+: body) (rest : List Char) :
    read .code ('/' :: '*' :: (body ++ (terminator ++ rest))) = ' ' :: read .code rest := by
  rw [read, read_block h]

/-! ## Terminators -/

/-- A terminator does not reach across to a text that does not start with its second half. -/
theorem terminator_infix_append_iff {cs ds : List Char}
    (h : cs.getLast? = some '*' → ds.head? ≠ some '/') :
    terminator <:+: cs ++ ds ↔ terminator <:+: cs ∨ terminator <:+: ds := by
  rw [List.infix_append_iff]
  constructor
  · rintro (hcs | hds | ⟨front, back, hsplit, hfront, hback⟩)
    · exact Or.inl hcs
    · exact Or.inr hds
    · rcases front with _ | ⟨c, _ | ⟨d, front⟩⟩
      · rw [List.nil_append] at hsplit
        rw [hsplit]
        exact Or.inr hback.isInfix
      · exfalso
        simp only [terminator, List.cons_append, List.nil_append, List.cons.injEq] at hsplit
        obtain ⟨rfl, rfl⟩ := hsplit
        obtain ⟨others, rfl⟩ := hfront
        obtain ⟨rest, rfl⟩ := hback
        exact h (by simp) rfl
      · have hlength := congrArg List.length hsplit
        simp only [terminator, List.length_cons, List.length_nil, List.length_append] at hlength
        have hnil : back = [] := List.length_eq_zero_iff.1 (by omega)
        rw [hnil, List.append_nil] at hsplit
        rw [hsplit]
        exact Or.inl hfront.isInfix
  · rintro (hcs | hds)
    · exact Or.inl hcs
    · exact Or.inr (Or.inl hds)

theorem not_infix_of_slash_not_mem {cs : List Char} (h : '/' ∉ cs) : ¬ terminator <:+: cs := by
  intro hholds
  exact h (hholds.subset (by simp [terminator]))

/-- Whether a text brings a terminator into the comment that it stands in. -/
def HoldsTerminator (text : String) : Prop := terminator <:+: splice text.toList

instance (text : String) : Decidable (HoldsTerminator text) :=
  inferInstanceAs (Decidable (terminator <:+: splice text.toList))

/-- Text between two others in a comment that cannot be part of a terminator. -/
structure Separating (front : List Char) : Prop where
  not_mem : '\\' ∉ front
  slash_not_mem : '/' ∉ front
  getLast?_ne : front.getLast? ≠ some '*'

theorem Separating.append {cs ds : List Char} (hcs : Separating cs) (hds : Separating ds) :
    Separating (cs ++ ds) where
  not_mem := by
    rw [List.mem_append, not_or]
    exact ⟨hcs.not_mem, hds.not_mem⟩
  slash_not_mem := by
    rw [List.mem_append, not_or]
    exact ⟨hcs.slash_not_mem, hds.slash_not_mem⟩
  getLast?_ne := by
    rw [List.getLast?_append]
    rcases hlast : ds.getLast? with _ | c
    · exact hcs.getLast?_ne
    · have hne := hds.getLast?_ne
      rw [hlast] at hne
      exact hne

theorem Separating.terminator_infix_iff {front : List Char} (h : Separating front)
    (cs : List Char) : terminator <:+: splice (front ++ cs) ↔ terminator <:+: splice cs := by
  rw [splice_append fun hlast => absurd (List.mem_of_getLast? hlast) h.not_mem,
    splice_eq_self h.not_mem, terminator_infix_append_iff fun hlast => absurd hlast h.getLast?_ne]
  exact or_iff_right (not_infix_of_slash_not_mem h.slash_not_mem)

/-- A terminator in front of a new line, or behind. -/
theorem Separating.terminator_infix_line_iff {front : List Char} (h : Separating front)
    (hline : ['\n', ' '] <+: front) (cs ds : List Char) :
    terminator <:+: splice (cs ++ (front ++ ds))
      ↔ terminator <:+: splice cs ∨ terminator <:+: splice ds := by
  obtain ⟨indented, rfl⟩ := hline
  have hbehind := h.terminator_infix_iff ds
  simp only [List.cons_append, List.nil_append] at hbehind ⊢
  have hacross : ∀ front : List Char, terminator <:+: front ++ splice (' ' :: (indented ++ ds))
      ↔ terminator <:+: front ∨ terminator <:+: splice (' ' :: (indented ++ ds)) := by
    intro front
    apply terminator_infix_append_iff
    intro _
    simp [splice]
  have hend : ∀ (front : List Char) (c : Char), c ≠ '/' →
      (terminator <:+: front ++ [c] ↔ terminator <:+: front) := by
    intro front c hc
    rw [terminator_infix_append_iff fun _ => by simpa using hc]
    exact or_iff_left (not_infix_of_slash_not_mem (by simpa using hc.symm))
  have hnewline : terminator <:+: splice ('\n' :: ' ' :: (indented ++ ds))
      ↔ terminator <:+: splice (' ' :: (indented ++ ds)) := by
    have hcons := hacross ['\n']
    rw [or_iff_right (not_infix_of_slash_not_mem (by simp))] at hcons
    exact hcons
  rw [← hbehind, hnewline]
  rcases splice_line cs (' ' :: (indented ++ ds)) with hline | ⟨back, hback, hline⟩
  · rw [hline, List.append_cons, hacross, hend _ _ (by decide)]
  · rw [hline, hback, hacross, hend _ _ (by decide)]

/-! ## Plain text -/

/-- Text that is read as it stands, whatever follows it. -/
structure Plain (cs : List Char) : Prop where
  not_mem : '\\' ∉ cs
  read_append : ∀ rest, read .code (cs ++ rest) = cs ++ read .code rest

theorem Plain.nil : Plain [] := ⟨by simp, fun _ => rfl⟩

theorem Plain.append {cs ds : List Char} (hcs : Plain cs) (hds : Plain ds) :
    Plain (cs ++ ds) where
  not_mem := by
    rw [List.mem_append, not_or]
    exact ⟨hcs.not_mem, hds.not_mem⟩
  read_append := by
    intro rest
    rw [List.append_assoc, hcs.read_append, hds.read_append, List.append_assoc]

theorem Plain.flatMap {α : Type} {text : α → List Char} {as : List α}
    (h : ∀ a ∈ as, Plain (text a)) : Plain (as.flatMap text) := by
  induction as with
  | nil => exact Plain.nil
  | cons a as ih =>
    rw [List.forall_mem_cons] at h
    rw [List.flatMap_cons]
    exact h.1.append (ih h.2)

theorem read_code_cons {c : Char} (hslash : c ≠ '/') (hquote : c ≠ '"') (hapostrophe : c ≠ '\x27')
    (cs : List Char) : read .code (c :: cs) = c :: read .code cs := by
  rw [read]
  · exact fun _ hc => absurd hc hslash
  · exact fun _ hc => absurd hc hslash
  · exact hquote
  · exact hapostrophe

/-- Text of characters that mean nothing else than themselves. -/
theorem Plain.of_forall {P : Char → Prop} {cs : List Char} (h : ∀ c ∈ cs, P c) (hslash : ¬ P '/')
    (hquote : ¬ P '"') (hapostrophe : ¬ P '\x27') (hjoin : ¬ P '\\') : Plain cs where
  not_mem := by
    intro hmem
    exact hjoin (h _ hmem)
  read_append := by
    intro rest
    induction cs with
    | nil => rfl
    | cons c cs ih =>
      rw [List.forall_mem_cons] at h
      have hne : ∀ special, ¬ P special → c ≠ special := by
        rintro special hspecial rfl
        exact hspecial h.1
      rw [List.cons_append, read_code_cons (hne _ hslash) (hne _ hquote) (hne _ hapostrophe),
        ih h.2, List.cons_append]

/-- The characters that mean something else than themselves. -/
def isSpecial (c : Char) : Bool := c == '/' || c == '"' || c == '\x27' || c == '\\'

theorem Plain.of_all {cs : List Char} (h : (cs.all fun c => !isSpecial c) = true) : Plain cs :=
  .of_forall (List.all_eq_true.1 h) (by decide) (by decide) (by decide) (by decide)

end NativeHeaders.CSource
