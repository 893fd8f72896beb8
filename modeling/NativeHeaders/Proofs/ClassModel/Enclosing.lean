import NativeHeaders.Proofs.Header.Validity

/-!
# Following links outward

The classes around a class are found by following links from inner to outer classes, and nothing
says that the links of a class file lead anywhere: they may come back to the class or run into a
circle that does not contain it. Here the walk is compared with the bare sequence of classes that
the links describe (`Nesting.outward`), which has no memory and may go on forever.

* The walk gives up exactly where that sequence meets a class again, the class itself counted as
  met, and names the first class that is met again.
* Where it does not give up, what it found is the whole sequence.
* It looks at no more classes than there are links, and one.

The walk remembers the classes that it met, so the statements about it speak of any list of them.
A step puts the class of the moment on that list and starts over from the next one; `repeats_succ`
says that nothing else happens to the sequence, and every induction below goes by it.
-/

set_option autoImplicit false

namespace NativeHeaders

namespace Nesting

variable {links : Links} {met : List String} {current outer : String}

/-! ## One step -/

/-- The outer class of a class stands in the last link that leads from it. -/
theorem outerOf_eq_some_iff :
    outerOf links current = some outer ↔
      ∃ earlier later, links = earlier ++ (current, outer) :: later
        ∧ ∀ link ∈ later, link.1 ≠ current := by
  rw [outerOf, List.lookup_eq_some_iff]
  constructor
  · rintro ⟨later, earlier, hlinks, hlater⟩
    refine ⟨earlier.reverse, later.reverse, ?_, ?_⟩
    · rw [← List.reverse_reverse links, hlinks]
      simp
    · intro link hlink heq
      have hne := hlater link (List.mem_reverse.1 hlink)
      simp [heq] at hne
  · rintro ⟨earlier, later, rfl, hlater⟩
    refine ⟨later.reverse, earlier.reverse, by simp, ?_⟩
    intro link hlink
    simpa using Ne.symm (hlater link (List.mem_reverse.1 hlink))

/-! ## Many steps -/

/-- The class that is met after some steps outward from a start, if the links lead that far. -/
def outward (links : Links) (start : Option String) : Nat → Option String
  | 0 => start
  | n + 1 => (outward links start n).bind (outerOf links)

/-- The first step may as well be taken before the others. -/
theorem outward_succ (start : Option String) (n : Nat) :
    outward links start (n + 1) = outward links (start.bind (outerOf links)) n := by
  induction n with
  | zero => rfl
  | succ n ih => rw [outward, ih, outward]

theorem outward_none (n : Nat) : outward links none n = none := by
  induction n with
  | zero => rfl
  | succ n ih => rw [outward, ih, Option.bind_none]

/-- Whether the class that is met after some steps was met before, on the way or earlier. -/
def Repeats (links : Links) (met : List String) (start : Option String) (n : Nat) : Prop :=
  ∃ c, outward links start n = some c ∧ (c ∈ met ∨ ∃ i < n, outward links start i = some c)

theorem repeats_zero : Repeats links met (some current) 0 ↔ current ∈ met := by
  constructor
  · rintro ⟨c, hc, hmet | ⟨i, hi, -⟩⟩
    · obtain rfl := Option.some.inj hc
      exact hmet
    · omega
  · intro hmet
    exact ⟨current, rfl, Or.inl hmet⟩

/-- **A step forgets nothing.** What is met again from a class on is what is met again from its
outer class on, where the class is one of those met before. -/
theorem repeats_succ (houter : outerOf links current = some outer) (n : Nat) :
    Repeats links met (some current) (n + 1) ↔ Repeats links (current :: met) (some outer) n := by
  have hstep : ∀ i, outward links (some current) (i + 1) = outward links (some outer) i := by
    intro i
    rw [outward_succ, Option.bind_some, houter]
  constructor
  · rintro ⟨c, hc, hbefore⟩
    refine ⟨c, by rw [← hstep, hc], ?_⟩
    rcases hbefore with hmet | ⟨i, hi, hci⟩
    · exact Or.inl (List.mem_cons_of_mem _ hmet)
    · -- what was met on the way was met here or further out
      cases i with
      | zero =>
        obtain rfl := Option.some.inj hci
        exact Or.inl List.mem_cons_self
      | succ i => exact Or.inr ⟨i, by omega, by rw [← hstep, hci]⟩
  · rintro ⟨c, hc, hbefore⟩
    refine ⟨c, by rw [hstep, hc], ?_⟩
    rcases hbefore with hmet | ⟨i, hi, hci⟩
    · rcases List.mem_cons.1 hmet with rfl | hmet
      · exact Or.inr ⟨0, by omega, rfl⟩
      · exact Or.inl hmet
    · exact Or.inr ⟨i + 1, by omega, by rw [hstep, hci]⟩

/-- Whether a list holds all that is met from a start on, in order. -/
def IsTrail (links : Links) (start : Option String) (trail : List String) : Prop :=
  ∀ n, outward links start n = trail[n]?

theorem isTrail_nil : IsTrail links none [] := by
  intro n
  rw [outward_none, List.getElem?_nil]

theorem isTrail_singleton (houter : outerOf links current = none) :
    IsTrail links (some current) [current] := by
  intro n
  cases n with
  | zero => rfl
  | succ n =>
    rw [outward_succ, Option.bind_some, houter, outward_none]
    simp

theorem IsTrail.cons {trail : List String} (houter : outerOf links current = some outer)
    (h : IsTrail links (some outer) trail) : IsTrail links (some current) (current :: trail) := by
  intro n
  cases n with
  | zero => rfl
  | succ n => rw [outward_succ, Option.bind_some, houter, h n, List.getElem?_cons_succ]

/-- Nothing is met again where the list of what is met has no repetitions. -/
theorem IsTrail.not_repeats {start : Option String} {trail : List String}
    (h : IsTrail links start trail) (hnodup : trail.Nodup) (hmet : ∀ c ∈ trail, c ∉ met)
    (n : Nat) : ¬ Repeats links met start n := by
  rintro ⟨c, hc, hbefore⟩
  rw [h n] at hc
  rcases hbefore with hold | ⟨i, hi, hci⟩
  · exact hmet c (List.mem_of_getElem? hc) hold
  · rw [h i] at hci
    obtain ⟨hn, -⟩ := List.getElem?_eq_some_iff.1 hc
    apply List.nodup_iff_getElem?_ne_getElem?.1 hnodup i n hi hn
    rw [hci, hc]

/-- Neighbours in a trail are linked, and its last class has no outer class. -/
theorem IsTrail.linked {start : Option String} {trail : List String}
    (h : IsTrail links start trail) :
    trail.head? = start
      ∧ trail.IsChain (fun inner outer => outerOf links inner = some outer)
      ∧ ∀ last ∈ trail.getLast?, outerOf links last = none := by
  have hstep : ∀ n c, trail[n]? = some c → outerOf links c = trail[n + 1]? := by
    intro n c hc
    rw [← h (n + 1), outward, h n, hc, Option.bind_some]
  refine ⟨?_, ?_, ?_⟩
  · rw [List.head?_eq_getElem?]
    exact (h 0).symm
  · rw [List.isChain_iff_getElem]
    intro i hi
    rw [hstep i trail[i] (List.getElem?_eq_getElem (by omega)), List.getElem?_eq_getElem hi]
  · intro last hlast
    rw [Option.mem_def, List.getLast?_eq_getElem?] at hlast
    have hend := List.getElem?_eq_some_iff.1 hlast
    rw [hstep _ last hlast]
    apply List.getElem?_eq_none
    omega

/-! ## The walk -/

theorem walk_of_last (hmet : current ∉ met) (houter : outerOf links current = none) :
    walk links met current = .ok [current] := by
  rw [walk, dif_neg hmet]
  split
  · rfl
  · rename_i heq
    rw [houter] at heq
    contradiction

theorem walk_of_link (hmet : current ∉ met) (houter : outerOf links current = some outer) :
    walk links met current =
      match walk links (current :: met) outer with
      | .error through => .error through
      | .ok trail => .ok (current :: trail) := by
  rw [walk, dif_neg hmet]
  split
  · rename_i heq
    rw [houter] at heq
    contradiction
  · rename_i heq
    rw [houter] at heq
    obtain rfl := Option.some.inj heq
    rfl

/-- A walk that does not give up finds all that is met, each class once and none that was met
before. -/
theorem walk_eq_ok {trail : List String} (h : walk links met current = .ok trail) :
    IsTrail links (some current) trail ∧ trail.Nodup ∧ ∀ c ∈ trail, c ∉ met := by
  fun_induction walk links met current generalizing trail with
  | case1 => contradiction
  | case2 met current hmet houter =>
    obtain rfl := Except.ok.inj h
    refine ⟨isTrail_singleton houter, List.nodup_singleton _, ?_⟩
    intro c hc
    obtain rfl := List.mem_singleton.1 hc
    exact hmet
  | case3 => contradiction
  | case4 met current hmet outer houter found hfound ih =>
    obtain rfl := Except.ok.inj h
    obtain ⟨htrail, hnodup, hfresh⟩ := ih hfound
    refine ⟨htrail.cons houter, ?_, ?_⟩
    · rw [List.nodup_cons]
      exact ⟨fun hmem => hfresh current hmem List.mem_cons_self, hnodup⟩
    · intro c hc
      rcases List.mem_cons.1 hc with rfl | hc
      · exact hmet
      · exact fun hold => hfresh c hc (List.mem_cons_of_mem _ hold)

/-- A walk that gives up names the first class that is met again. -/
theorem walk_eq_error {through : String} (h : walk links met current = .error through) :
    ∃ n, outward links (some current) n = some through ∧ Repeats links met (some current) n
      ∧ ∀ m < n, ¬ Repeats links met (some current) m := by
  fun_induction walk links met current with
  | case1 met current hmet =>
    obtain rfl := Except.error.inj h
    exact ⟨0, rfl, repeats_zero.2 hmet, by omega⟩
  | case2 => contradiction
  | case3 met current hmet outer houter e he ih =>
    obtain rfl := Except.error.inj h
    obtain ⟨n, hn, hrepeats, hfirst⟩ := ih he
    refine ⟨n + 1, ?_, (repeats_succ houter n).2 hrepeats, ?_⟩
    · rw [outward_succ, Option.bind_some, houter, hn]
    · intro m hm
      cases m with
      | zero => exact fun hzero => hmet (repeats_zero.1 hzero)
      | succ m => exact fun hsucc => hfirst m (by omega) ((repeats_succ houter m).1 hsucc)
  | case4 => contradiction

/-! ## How long it takes -/

/-- The walk together with the number of classes that it looks at. -/
def countedWalk (links : Links) (met : List String) (current : String) :
    Except String (List String) × Nat :=
  if _hmet : current ∈ met then (.error current, 1)
  else
    match _h : outerOf links current with
    | none => (.ok [current], 1)
    | some outer =>
      match countedWalk links (current :: met) outer with
      | (.error through, n) => (.error through, n + 1)
      | (.ok trail, n) => (.ok (current :: trail), n + 1)
termination_by (unmet links met).length
decreasing_by exact unmet_length_lt _hmet _h

/-- Counting changes nothing about the walk, and each class that it looks at, but for the last,
uses up a link. -/
theorem countedWalk_spec (links : Links) (met : List String) (current : String) :
    (countedWalk links met current).1 = walk links met current
      ∧ (countedWalk links met current).2 ≤ (unmet links met).length + 1 := by
  fun_induction countedWalk links met current with
  | case1 met current hmet =>
    rw [walk, dif_pos hmet]
    exact ⟨rfl, Nat.le_add_left 1 _⟩
  | case2 met current hmet houter =>
    rw [walk_of_last hmet houter]
    exact ⟨rfl, Nat.le_add_left 1 _⟩
  | case3 met current hmet outer houter through n hcount ih =>
    have hless := unmet_length_lt hmet houter
    rw [hcount] at ih
    obtain ⟨hwalk, hn⟩ := ih
    rw [walk_of_link hmet houter, ← hwalk]
    exact ⟨rfl, by omega⟩
  | case4 met current hmet outer houter trail n hcount ih =>
    have hless := unmet_length_lt hmet houter
    rw [hcount] at ih
    obtain ⟨hwalk, hn⟩ := ih
    rw [walk_of_link hmet houter, ← hwalk]
    exact ⟨rfl, by omega⟩

end Nesting

open Nesting (outerOf outward Repeats countedWalk)

namespace ClassFile

/-! ## In a class file -/

variable {file : ClassFile} {name : String} {links : Nesting.Links} {start : Option String}

/-- Where the walk outward from a class starts: at its outer class, and only where it has none at
the class around the method that it is declared in. -/
inductive StartsAt (file : ClassFile) (links : Nesting.Links) (name : String) :
    Option String → Prop
  | outer {first : String} : outerOf links name = some first → StartsAt file links name (some first)
  | method {first : String} {classIndex methodIndex : UInt16} : outerOf links name = none →
      file.attributes.enclosingMethod? = some (classIndex, methodIndex) →
      file.pool.classNameAt classIndex = .ok first → StartsAt file links name (some first)
  | nowhere : outerOf links name = none → file.attributes.enclosingMethod? = none →
      StartsAt file links name none

/-- Whether the name of a class and all names that its nesting takes from the pool are there: those
of the entries that have an outer class, and that of the class where the walk starts. -/
structure Nested (file : ClassFile) (name : String) (links : Nesting.Links)
    (start : Option String) : Prop where
  name_eq : file.name = .ok name
  links_of : List.Forall₂ (fun (entry : InnerClass) link =>
      file.pool.classNameAt entry.innerIndex = .ok link.1
        ∧ file.pool.classNameAt entry.outerIndex = .ok link.2)
    (file.attributes.innerClasses.filter fun entry => entry.outerIndex ≠ 0) links
  startsAt : file.StartsAt links name start

theorem nestingLinks_eq_ok {pool : ConstantPool} {entries : List InnerClass}
    (h : List.Forall₂ (fun (entry : InnerClass) link =>
        pool.classNameAt entry.innerIndex = .ok link.1
          ∧ pool.classNameAt entry.outerIndex = .ok link.2)
      (entries.filter fun entry => entry.outerIndex ≠ 0) links) :
    nestingLinks pool entries = .ok links := by
  induction entries generalizing links with
  | nil =>
    obtain rfl := List.forall₂_nil_left_iff.1 h
    rfl
  | cons entry entries ih =>
    by_cases hzero : entry.outerIndex = 0
    · rw [nestingLinks, if_pos hzero]
      apply ih
      simpa [hzero] using h
    · rw [List.filter_cons_of_pos (by simpa using hzero)] at h
      obtain ⟨link, others, ⟨hinner, houter⟩, hothers, rfl⟩ := List.forall₂_cons_left_iff.1 h
      rw [nestingLinks, if_neg hzero, hinner, houter, ih hothers]
      rfl

/-- The links are no more than the entries that they come from. -/
theorem Nested.length_links_le (h : file.Nested name links start) :
    links.length ≤ file.attributes.innerClasses.length := by
  rw [← h.links_of.length_eq]
  exact List.length_filter_le _ _

theorem Nested.directlyEnclosing_eq (h : file.Nested name links start) :
    file.directlyEnclosing links name = .ok start := by
  cases h.startsAt with
  | outer houter => rw [directlyEnclosing, houter]
  | method houter hmethod hfirst =>
    rw [directlyEnclosing, houter, hmethod]
    simp only [hfirst]
    rfl
  | nowhere houter hmethod => rw [directlyEnclosing, houter, hmethod]

theorem Nested.enclosing_eq (h : file.Nested name links start) :
    file.enclosing name =
      match start with
      | none => .ok []
      | some first =>
        match (countedWalk links [name] first).1 with
        | .ok trail => .ok trail.reverse
        | .error through => .error (.malformedClass name (.cyclicNesting through)) := by
  rw [enclosing, nestingLinks_eq_ok h.links_of]
  simp only [Generated.lookup, bind, Except.bind, h.directlyEnclosing_eq]
  cases start with
  | none => rfl
  | some first =>
    simp only [(Nesting.countedWalk_spec links [name] first).1]
    cases Nesting.walk links [name] first with
    | ok trail => rfl
    | error through => rfl

/-- The classes around a class, if they are found, are all that the links lead to. -/
theorem Nested.isTrail_reverse (h : file.Nested name links start) {chain : List String}
    (hchain : file.enclosing name = .ok chain) :
    Nesting.IsTrail links start chain.reverse ∧ chain.reverse.Nodup
      ∧ ∀ c ∈ chain.reverse, c ∉ [name] := by
  rw [h.enclosing_eq] at hchain
  cases start with
  | none =>
    obtain rfl := Except.ok.inj hchain
    exact ⟨Nesting.isTrail_nil, List.nodup_nil, nofun⟩
  | some first =>
    simp only [(Nesting.countedWalk_spec links [name] first).1] at hchain
    split at hchain
    · rename_i trail hwalk
      obtain rfl := Except.ok.inj hchain
      rw [List.reverse_reverse]
      exact Nesting.walk_eq_ok hwalk
    · contradiction

/-- The classes around a class are found, or the links come back and the error names the first class
that is met again. -/
theorem Nested.enclosing_cases (h : file.Nested name links start) :
    (∃ chain, file.enclosing name = .ok chain)
      ∨ ∃ through n,
        file.enclosing name = .error (.malformedClass name (.cyclicNesting through))
          ∧ outward links start n = some through ∧ Repeats links [name] start n
          ∧ ∀ m < n, ¬ Repeats links [name] start m := by
  have hcount := h.enclosing_eq
  cases start with
  | none => exact Or.inl ⟨_, hcount⟩
  | some first =>
    simp only [(Nesting.countedWalk_spec links [name] first).1] at hcount
    cases hwalk : Nesting.walk links [name] first with
    | ok trail =>
      rw [hwalk] at hcount
      exact Or.inl ⟨_, hcount⟩
    | error through =>
      rw [hwalk] at hcount
      obtain ⟨n, hn, hrepeats, hfirst⟩ := Nesting.walk_eq_error hwalk
      exact Or.inr ⟨through, n, hcount, hn, hrepeats, hfirst⟩

theorem Nested.enclosing_eq_ok_iff (h : file.Nested name links start) :
    (∃ chain, file.enclosing name = .ok chain) ↔ ∀ n, ¬ Repeats links [name] start n := by
  constructor
  · rintro ⟨chain, hchain⟩
    obtain ⟨htrail, hnodup, hfresh⟩ := h.isTrail_reverse hchain
    exact htrail.not_repeats hnodup hfresh
  · intro hnever
    rcases h.enclosing_cases with hok | ⟨through, n, -, -, hrepeats, -⟩
    · exact hok
    · exact absurd hrepeats (hnever n)

theorem Nested.enclosing_eq_error_iff (h : file.Nested name links start) {through : String} :
    file.enclosing name = .error (.malformedClass name (.cyclicNesting through)) ↔
      ∃ n, outward links start n = some through ∧ Repeats links [name] start n
        ∧ ∀ m < n, ¬ Repeats links [name] start m := by
  rcases h.enclosing_cases with ⟨chain, hchain⟩ | ⟨through', n', herror, hn', hrepeats', hfirst'⟩
  · rw [hchain]
    constructor
    · intro hfalse
      contradiction
    · rintro ⟨n, -, hrepeats, -⟩
      exact absurd hrepeats (h.enclosing_eq_ok_iff.1 ⟨chain, hchain⟩ n)
  · rw [herror, Except.error.injEq, GenerationError.malformedClass.injEq,
      ClassFlaw.cyclicNesting.injEq]
    constructor
    · rintro ⟨-, rfl⟩
      exact ⟨n', hn', hrepeats', hfirst'⟩
    · rintro ⟨n, hn, hrepeats, hfirst⟩
      -- there is only one first class that is met again
      have hle : n ≤ n' := Nat.le_of_not_lt fun hlt => hfirst n' hlt hrepeats'
      have hge : n' ≤ n := Nat.le_of_not_lt fun hlt => hfirst' n hlt hrepeats
      obtain rfl := Nat.le_antisymm hle hge
      rw [hn', Option.some.injEq] at hn
      exact ⟨rfl, hn⟩

/-- A method may be unreadable for many reasons, but not because of the classes around its own. -/
theorem readMethod_ne_cyclicNesting (pool : ConstantPool) (className : String) (method : Method)
    (through : String) :
    readMethod pool className method ≠ .error (.malformedClass name (.cyclicNesting through)) := by
  rw [readMethod_eq]
  cases pool.textAt method.nameIndex with
  | error e => simp [Generated.lookup]
  | ok methodName =>
    cases pool.textAt method.descriptorIndex with
    | error e => simp [Generated.lookup]
    | ok descriptor =>
      simp only [Generated.lookup]
      cases MethodDescriptor.parse descriptor with
      | error e => cases e <;> simp [GenerationError.ofDescriptor]
      | ok parsed => simp

/-- No other part of the reading fails like this. -/
theorem model_eq_cyclicNesting_iff (hname : file.name = .ok name) {through : String} :
    file.model = .error (.malformedClass name (.cyclicNesting through)) ↔
      file.enclosing name = .error (.malformedClass name (.cyclicNesting through)) := by
  rw [model_eq, hname]
  simp only [Generated.lookup]
  cases file.enclosing name with
  | error e => simp
  | ok chain =>
    simp only [reduceCtorEq, iff_false]
    cases hmethods : file.methods.mapM (readMethod file.pool name) with
    | error e =>
      simp only [Except.error.injEq]
      rintro rfl
      obtain ⟨method, -, hfailure⟩ :=
        List.exists_of_findSome?_eq_some (mapM_eq_error_iff.1 hmethods)
      exact readMethod_ne_cyclicNesting _ _ _ _ (failure?_eq_some_iff.1 hfailure)
    | ok methods =>
      cases readConstants file.pool file.fields with
      | error flaw => simp
      | ok constants => simp

/-- **The classes around a class are all that its links lead to.** Of two links that lead from one
class the last one counts. Reading gives up over the nesting just where following the links from
the start meets the class itself, or any class a second time, and then names the first such class;
otherwise the classes around the class are found. Read inward-out they are the sequence that the
links describe, up to the first class that has no outer class: neighbours are linked, and none of
them is met twice or is the class itself. At most one class more than there are entries is looked
at. -/
theorem enclosing_follows_links (h : file.Nested name links start) :
    (∀ inner outer, outerOf links inner = some outer ↔
      ∃ earlier later, links = earlier ++ (inner, outer) :: later
        ∧ ∀ link ∈ later, link.1 ≠ inner)
    ∧ ((∃ through, file.model = .error (.malformedClass name (.cyclicNesting through)))
      ↔ ∃ n, Repeats links [name] start n)
    ∧ (∀ through, file.model = .error (.malformedClass name (.cyclicNesting through))
      ↔ ∃ n, outward links start n = some through ∧ Repeats links [name] start n
          ∧ ∀ m < n, ¬ Repeats links [name] start m)
    ∧ ((∃ chain, file.enclosing name = .ok chain) ↔ ∀ n, ¬ Repeats links [name] start n)
    ∧ (∀ c, file.model = .ok c →
      c.name = name
        ∧ (∀ n, c.enclosing.reverse[n]? = outward links start n)
        ∧ c.enclosing.getLast? = start
        ∧ c.enclosing.IsChain (fun outer inner => outerOf links inner = some outer)
        ∧ (∀ outermost ∈ c.enclosing.head?, outerOf links outermost = none)
        ∧ c.enclosing.Nodup ∧ name ∉ c.enclosing)
    ∧ (file.enclosing name =
        match start with
        | none => .ok []
        | some first =>
          match (countedWalk links [name] first).1 with
          | .ok trail => .ok trail.reverse
          | .error through => .error (.malformedClass name (.cyclicNesting through)))
    ∧ ∀ first, (countedWalk links [name] first).2 ≤ file.attributes.innerClasses.length + 1 := by
  have herror : ∀ through, file.model = .error (.malformedClass name (.cyclicNesting through))
      ↔ ∃ n, outward links start n = some through ∧ Repeats links [name] start n
          ∧ ∀ m < n, ¬ Repeats links [name] start m := fun through =>
    (model_eq_cyclicNesting_iff h.name_eq).trans h.enclosing_eq_error_iff
  refine ⟨fun inner outer => Nesting.outerOf_eq_some_iff, ?_, herror, h.enclosing_eq_ok_iff, ?_,
    h.enclosing_eq, ?_⟩
  · constructor
    · rintro ⟨through, hthrough⟩
      obtain ⟨n, -, hrepeats, -⟩ := (herror through).1 hthrough
      exact ⟨n, hrepeats⟩
    · rintro ⟨n, hrepeats⟩
      rcases h.enclosing_cases with hok | ⟨through, first, -, hthrough⟩
      · exact absurd hrepeats (h.enclosing_eq_ok_iff.1 hok n)
      · exact ⟨through, (herror through).2 ⟨first, hthrough⟩⟩
  · intro c hc
    obtain ⟨hcname, hchain, -, -⟩ := model_eq_ok_iff.1 hc
    rw [h.name_eq, Except.ok.injEq] at hcname
    rw [← hcname] at hchain
    obtain ⟨htrail, hnodup, hfresh⟩ := h.isTrail_reverse hchain
    obtain ⟨hhead, hlinked, hlast⟩ := htrail.linked
    rw [List.head?_reverse] at hhead
    rw [List.isChain_reverse] at hlinked
    rw [List.getLast?_reverse] at hlast
    refine ⟨hcname.symm, fun n => (htrail n).symm, hhead, hlinked, hlast,
      List.nodup_reverse.1 hnodup, ?_⟩
    intro hmem
    exact hfresh name (List.mem_reverse.2 hmem) List.mem_cons_self
  · intro first
    have hcount := (Nesting.countedWalk_spec links [name] first).2
    have hunmet : (Nesting.unmet links [name]).length ≤ links.length := List.length_filter_le _ _
    have hentries := h.length_links_le
    omega

/-- The file of a class `A` without members, with some entries about the classes `A`, `B` and `C`,
which stand at the indices 2, 4 and 6 of its pool. -/
def nestedBy (entries : List InnerClass) : ClassFile where
  majorVersion := 52
  minorVersion := 0
  pool := ⟨[.utf8 (Text.unitsOf "A"), .classRef 1, .utf8 (Text.unitsOf "B"), .classRef 3,
    .utf8 (Text.unitsOf "C"), .classRef 5, .utf8 (Text.unitsOf "InnerClasses")]⟩
  flags := specimen.flags
  thisClass := 2
  superClass := 0
  interfaces := []
  fields := []
  methods := []
  attributes := [⟨7, "InnerClasses", .innerClasses entries⟩]

/-- An entry that leads from one class to another. -/
def linking (inner outer : UInt16) : InnerClass := ⟨inner, outer, 0, ⟨0, by decide⟩⟩

theorem classNameAt_nestedBy (entries : List InnerClass) :
    (nestedBy entries).pool.classNameAt 2 = .ok "A"
      ∧ (nestedBy entries).pool.classNameAt 4 = .ok "B"
      ∧ (nestedBy entries).pool.classNameAt 6 = .ok "C" :=
  ⟨ConstantPool.HasClass.classNameAt_eq ⟨1, rfl, rfl⟩,
    ConstantPool.HasClass.classNameAt_eq ⟨3, rfl, rfl⟩,
    ConstantPool.HasClass.classNameAt_eq ⟨5, rfl, rfl⟩⟩

/-- A later link from `B` replaces one that leads back to `A`. With a link from `C` to `B` the walk
runs into a circle that does not contain `A`. -/
theorem enclosing_follows_links_of_circle :
    (nestedBy [linking 2 4, linking 4 2, linking 6 0, linking 4 6]).Nested "A"
        [("A", "B"), ("B", "A"), ("B", "C")] (some "B")
    ∧ (∃ c, (nestedBy [linking 2 4, linking 4 2, linking 6 0, linking 4 6]).model = .ok c
        ∧ c.enclosing.getLast? = some "B" ∧ "A" ∉ c.enclosing)
    ∧ ∃ through, (nestedBy [linking 2 4, linking 4 6, linking 6 4]).model
        = .error (.malformedClass "A" (.cyclicNesting through)) := by
  have hopen : (nestedBy [linking 2 4, linking 4 2, linking 6 0, linking 4 6]).Nested "A"
      [("A", "B"), ("B", "A"), ("B", "C")] (some "B") := by
    obtain ⟨hA, hB, hC⟩ := classNameAt_nestedBy [linking 2 4, linking 4 2, linking 6 0, linking 4 6]
    exact ⟨hA, .cons ⟨hA, hB⟩ (.cons ⟨hB, hA⟩ (.cons ⟨hB, hC⟩ .nil)), .outer rfl⟩
  have hcircle : (nestedBy [linking 2 4, linking 4 6, linking 6 4]).Nested "A"
      [("A", "B"), ("B", "C"), ("C", "B")] (some "B") := by
    obtain ⟨hA, hB, hC⟩ := classNameAt_nestedBy [linking 2 4, linking 4 6, linking 6 4]
    exact ⟨hA, .cons ⟨hA, hB⟩ (.cons ⟨hB, hC⟩ (.cons ⟨hC, hB⟩ .nil)), .outer rfl⟩
  have hmodel : (nestedBy [linking 2 4, linking 4 2, linking 6 0, linking 4 6]).model
      = .ok ⟨"A", ["C", "B"], [], []⟩ := by decide +kernel
  obtain ⟨-, -, hstart, -, -, -, hself⟩ := (enclosing_follows_links hopen).2.2.2.2.1 _ hmodel
  refine ⟨hopen, ⟨_, hmodel, hstart, hself⟩, ?_⟩
  apply (enclosing_follows_links hcircle).2.1.2
  exact ⟨2, "B", rfl, Or.inr ⟨0, by omega, rfl⟩⟩

end ClassFile

end NativeHeaders
