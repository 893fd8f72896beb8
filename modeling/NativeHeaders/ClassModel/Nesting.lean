/-!
# The classes around a class

Links lead from an inner class to its outer class; of two links from one class the later counts.
Following them from a class either ends at one without an outer class or comes back to one that
was met before. Each step takes a class that was not met before and that a link leads from, so
their number bounds the walk.
-/

set_option autoImplicit false

namespace NativeHeaders.Nesting

/-- Pairs of an inner and an outer class. -/
abbrev Links := List (String × String)

/-- The outer class of a class: the last link counts. -/
def outerOf (links : Links) (name : String) : Option String := links.reverse.lookup name

/-- The links that lead from classes not met yet. -/
def unmet (links : Links) (met : List String) : Links :=
  links.filter fun link => !met.contains link.1

theorem outerOf_mem {links : Links} {name outer : String} (h : outerOf links name = some outer) :
    (name, outer) ∈ links := by
  have key : ∀ ls : Links, ls.lookup name = some outer → (name, outer) ∈ ls := by
    intro ls
    induction ls with
    | nil => intro hl; cases hl
    | cons l ls ih =>
      intro hl
      rw [List.lookup_cons] at hl
      split at hl
      · rename_i heq
        cases hl
        rw [beq_iff_eq] at heq
        exact List.mem_cons.2 (Or.inl (by rw [heq]))
      · exact List.mem_cons_of_mem _ (ih hl)
  exact List.mem_reverse.1 (key _ h)

/-- A step of the walk uses a link up. -/
theorem unmet_length_lt {links : Links} {met : List String} {name outer : String}
    (hmet : ¬ name ∈ met) (h : outerOf links name = some outer) :
    (unmet links (name :: met)).length < (unmet links met).length := by
  -- meeting `name` takes away exactly the links that lead from it
  have hsplit : unmet links (name :: met)
      = (unmet links met).filter fun link => !(link.1 == name) := by
    unfold unmet
    rw [List.filter_filter]
    apply List.filter_congr
    intro link _
    by_cases hl : link.1 = name <;> simp [hl]
  rw [hsplit]
  apply Nat.lt_of_le_of_ne (List.length_filter_le _ _)
  intro heq
  rw [List.length_filter_eq_length_iff] at heq
  -- and there is one, the link that is followed
  have hin : (name, outer) ∈ unmet links met := by
    unfold unmet
    rw [List.mem_filter]
    exact ⟨outerOf_mem h, by simpa using hmet⟩
  have := heq _ hin
  simp at this

/-- The classes met from `current` on, or the first of them that was met before. -/
def walk (links : Links) (met : List String) (current : String) : Except String (List String) :=
  if _hmet : current ∈ met then .error current
  else
    match _h : outerOf links current with
    | none => .ok [current]
    | some outer =>
      match walk links (current :: met) outer with
      | .error through => .error through
      | .ok outward => .ok (current :: outward)
termination_by (unmet links met).length
decreasing_by exact unmet_length_lt _hmet _h

end NativeHeaders.Nesting
