/-!
# Splitting text at a separator

`splitOn` cuts a text at every occurrence of a separator, and `joinWith` puts the parts together
again; the parts are never fewer than one, and none of them holds the separator.
-/

set_option autoImplicit false

namespace NativeHeaders.Text

/-- The parts of a list between separators. -/
def splitOn (separator : Char) : List Char → List (List Char)
  | [] => [[]]
  | c :: cs =>
    if c = separator then [] :: splitOn separator cs
    else
      match splitOn separator cs with
      | [] => [[c]]
      | part :: parts => (c :: part) :: parts

/-- Parts with a separator between each two of them. -/
def joinWith (separator : Char) : List (List Char) → List Char
  | [] => []
  | [part] => part
  | part :: parts => part ++ separator :: joinWith separator parts

theorem splitOn_ne_nil (separator : Char) (cs : List Char) : splitOn separator cs ≠ [] := by
  cases cs with
  | nil => simp [splitOn]
  | cons c cs =>
    unfold splitOn
    split
    · simp
    · split <;> simp

theorem joinWith_splitOn (separator : Char) (cs : List Char) :
    joinWith separator (splitOn separator cs) = cs := by
  induction cs with
  | nil => rfl
  | cons c cs ih =>
    have hne := splitOn_ne_nil separator cs
    unfold splitOn
    split
    · rename_i hc
      cases hs : splitOn separator cs with
      | nil => exact absurd hs hne
      | cons part parts =>
        rw [hs] at ih
        simp [joinWith, ih, hc]
    · split
      · rename_i hs
        exact absurd hs hne
      · rename_i part parts hs
        rw [hs] at ih
        cases parts with
        | nil => simpa [joinWith] using ih
        | cons next parts => simpa [joinWith] using ih

/-- Everything in a joined text is a separator or stands in one of the parts. -/
theorem mem_joinWith {separator c : Char} {parts : List (List Char)}
    (h : c ∈ joinWith separator parts) : c = separator ∨ ∃ part ∈ parts, c ∈ part := by
  fun_induction joinWith separator parts with
  | case1 => simp at h
  | case2 part => exact Or.inr ⟨part, by simp, h⟩
  | case3 part parts _ ih =>
    rw [List.mem_append, List.mem_cons] at h
    rcases h with h | h | h
    · exact Or.inr ⟨part, by simp, h⟩
    · exact Or.inl h
    · rcases ih h with hc | ⟨other, hother, hc⟩
      · exact Or.inl hc
      · exact Or.inr ⟨other, List.mem_cons_of_mem _ hother, hc⟩

/-- What stands in a part stands in the joined text. -/
theorem mem_joinWith_of_mem {separator c : Char} {parts : List (List Char)} {part : List Char}
    (hpart : part ∈ parts) (hc : c ∈ part) : c ∈ joinWith separator parts := by
  fun_induction joinWith separator parts with
  | case1 => exact absurd hpart List.not_mem_nil
  | case2 only => rwa [← List.mem_singleton.1 hpart]
  | case3 first parts _ ih =>
    rw [List.mem_append, List.mem_cons]
    rcases List.mem_cons.1 hpart with rfl | hpart
    · exact Or.inl hc
    · exact Or.inr (Or.inr (ih hpart))

/-- What stands in front of the first occurrence of something is determined, and so is the rest. -/
theorem front_inj {α : Type} {a : α} {front front' back back' : List α} (h : a ∉ front)
    (h' : a ∉ front') (heq : front ++ a :: back = front' ++ a :: back') :
    front = front' ∧ back = back' := by
  induction front generalizing front' with
  | nil =>
    rcases front' with _ | ⟨b, front'⟩
    · exact ⟨rfl, (List.cons.inj heq).2⟩
    · rw [(List.cons.inj heq).1] at h'
      exact absurd List.mem_cons_self h'
  | cons b front ih =>
    rw [List.mem_cons, not_or] at h
    rcases front' with _ | ⟨c, front'⟩
    · exact absurd (List.cons.inj heq).1.symm h.1
    · rw [List.mem_cons, not_or] at h'
      obtain ⟨hbc, htails⟩ := List.cons.inj heq
      obtain ⟨hfront, hback⟩ := ih h.2 h'.2 htails
      exact ⟨by rw [hbc, hfront], hback⟩

/-- What stands on the two sides of a separator is split on its own. -/
theorem splitOn_append (separator : Char) (cs ds : List Char) :
    splitOn separator (cs ++ separator :: ds) = splitOn separator cs ++ splitOn separator ds := by
  induction cs with
  | nil => simp [splitOn]
  | cons c cs ih =>
    rw [List.cons_append, splitOn, splitOn]
    by_cases hc : c = separator
    · rw [if_pos hc, if_pos hc, ih, List.cons_append]
    · rw [if_neg hc, if_neg hc, ih]
      rcases hs : splitOn separator cs with _ | ⟨part, parts⟩
      · exact absurd hs (splitOn_ne_nil separator cs)
      · rfl

theorem splitOn_of_not_mem {separator : Char} {cs : List Char} (h : separator ∉ cs) :
    splitOn separator cs = [cs] := by
  induction cs with
  | nil => rfl
  | cons c cs ih =>
    rw [List.mem_cons, not_or] at h
    rw [splitOn, if_neg (Ne.symm h.1), ih h.2]

/-- The separator stands in none of the parts. -/
theorem not_mem_of_mem_splitOn {separator : Char} {cs part : List Char}
    (h : part ∈ splitOn separator cs) : separator ∉ part := by
  induction cs generalizing part with
  | nil =>
    rw [splitOn, List.mem_singleton] at h
    rw [h]
    exact List.not_mem_nil
  | cons c cs ih =>
    rw [splitOn] at h
    by_cases hc : c = separator
    · rw [if_pos hc, List.mem_cons] at h
      rcases h with rfl | h
      · exact List.not_mem_nil
      · exact ih h
    · rw [if_neg hc] at h
      rcases hs : splitOn separator cs with _ | ⟨first, parts⟩
      · exact absurd hs (splitOn_ne_nil separator cs)
      · rw [hs] at h ih
        rcases List.mem_cons.1 h with rfl | h
        · rw [List.mem_cons, not_or]
          exact ⟨Ne.symm hc, ih List.mem_cons_self⟩
        · exact ih (List.mem_cons_of_mem _ h)

/-- What follows the last separator belongs to the last part. -/
theorem splitOn_append_of_not_mem {separator : Char} {back : List Char} (h : separator ∉ back)
    (cs : List Char) : ∃ front last, splitOn separator cs = front ++ [last]
      ∧ splitOn separator (cs ++ back) = front ++ [last ++ back] := by
  induction cs with
  | nil => exact ⟨[], [], rfl, splitOn_of_not_mem h⟩
  | cons c cs ih =>
    obtain ⟨front, last, hcs, hback⟩ := ih
    rw [List.cons_append, splitOn, splitOn, hcs, hback]
    by_cases hc : c = separator
    · rw [if_pos hc, if_pos hc]
      exact ⟨[] :: front, last, rfl, rfl⟩
    · rw [if_neg hc, if_neg hc]
      rcases front with _ | ⟨first, front⟩
      · exact ⟨[], c :: last, rfl, rfl⟩
      · exact ⟨(c :: first) :: front, last, rfl, rfl⟩

/-- Parts that do not hold the separator are found again. -/
theorem splitOn_joinWith {separator : Char} {parts : List (List Char)} (hne : parts ≠ [])
    (h : ∀ part ∈ parts, separator ∉ part) :
    splitOn separator (joinWith separator parts) = parts := by
  fun_induction joinWith separator parts with
  | case1 => exact absurd rfl hne
  | case2 part => exact splitOn_of_not_mem (h part List.mem_cons_self)
  | case3 part parts hparts ih =>
    rw [splitOn_append, splitOn_of_not_mem (h part List.mem_cons_self),
      ih hparts
        fun other hother => h other (List.mem_cons_of_mem _ hother)]
    rfl

/-- A text ends in the separator where its last part is empty. -/
theorem getLast?_joinWith_append_nil {separator : Char} {parts : List (List Char)}
    (h : parts ≠ []) : (joinWith separator (parts ++ [[]])).getLast? = some separator := by
  induction parts with
  | nil => exact absurd rfl h
  | cons part parts ih =>
    rcases parts with _ | ⟨next, parts⟩
    · simp [joinWith]
    · have hlast := ih (by simp)
      have hjoin : joinWith separator (part :: next :: parts ++ [[]])
          = part ++ separator :: joinWith separator (next :: parts ++ [[]]) := rfl
      rw [hjoin, List.getLast?_append, List.getLast?_cons, hlast]
      rfl

end NativeHeaders.Text
