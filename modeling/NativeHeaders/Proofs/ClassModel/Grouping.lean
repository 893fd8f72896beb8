import NativeHeaders.Proofs.ClassModel.Overloads

/-!
# Overload groups partition the native methods

Each native method of a class is in exactly one group, at its own place, and the groups stand in the
order of their first members (`overloadGroups_partition`). Most of it is read off the closed form of
the groups. The order of the first members is not: it is kept by each native method that comes in,
because one that joins a group is not its first member and one that opens a group is declared after
all others.

The groups can also be grown with an index at hand that leads from a name to the place of its group,
so that no search is needed. `Indexed.Sound` is what keeps such an index in range: it leads to the
place of a group just when the group there has the name.
-/

set_option autoImplicit false

namespace NativeHeaders

namespace OverloadGroup

/-! ## First members -/

/-- Whether groups stand in the order in which their first members are declared. -/
def FirstBefore (g h : OverloadGroup) : Prop :=
  ∀ first ∈ g.members.head?, ∀ other ∈ h.members.head?, first.index < other.index

theorem members_ofName_ne_nil {natives : List NativeMethod} {name : String}
    (h : name ∈ namesOf natives) : (ofName natives name).members ≠ [] := by
  obtain ⟨native, hnative, rfl⟩ := mem_namesOf.1 h
  apply List.ne_nil_of_mem (a := native)
  exact List.mem_filter.2 ⟨hnative, beq_self_eq_true _⟩

/-- A group that is there keeps its first member. -/
theorem head?_ofName_append {natives : List NativeMethod} {name : String}
    (h : name ∈ namesOf natives) (native : NativeMethod) :
    (ofName (natives ++ [native]) name).members.head? = (ofName natives name).members.head? := by
  rw [ofName, List.filter_append]
  exact List.head?_append_of_ne_nil _ (members_ofName_ne_nil h)

/-- **The groups stand in the order of their first members.** The induction is on the native methods
from the right: the last of them changes no first member, unless it opens a group, which then
stands behind the others. -/
theorem pairwise_firstBefore {natives : List NativeMethod}
    (h : natives.Pairwise fun a b => a.index < b.index) :
    ((namesOf natives).map (ofName natives)).Pairwise FirstBefore := by
  rw [List.pairwise_map]
  induction natives using List.reverseRecOn with
  | nil => exact List.Pairwise.nil
  | append_singleton natives native ih =>
    obtain ⟨hold, -, hlast⟩ := List.pairwise_append.1 h
    have hkept : (namesOf natives).Pairwise fun x y =>
        FirstBefore (ofName (natives ++ [native]) x) (ofName (natives ++ [native]) y) := by
      refine (ih hold).imp_of_mem ?_
      intro x y hx hy hbefore
      rw [FirstBefore, head?_ofName_append hx, head?_ofName_append hy]
      exact hbefore
    rw [namesOf_append]
    by_cases hseen : native.method.name ∈ namesOf natives
    · rw [if_pos hseen]
      exact hkept
    · rw [if_neg hseen, List.pairwise_append]
      refine ⟨hkept, List.pairwise_singleton _ _, ?_⟩
      intro x hx y hy first hfirst other hother
      obtain rfl := List.mem_singleton.1 hy
      -- the first member of an older group is an older native method
      rw [head?_ofName_append hx] at hfirst
      have hmem : first ∈ natives := (List.mem_filter.1 (List.mem_of_mem_head? hfirst)).1
      have hnew : other ∈ natives ++ [native] :=
        (List.mem_filter.1 (List.mem_of_mem_head? hother)).1
      have hname : other.method.name = native.method.name :=
        eq_of_beq (List.mem_filter.1 (List.mem_of_mem_head? hother)).2
      rcases List.mem_append.1 hnew with hin | hin
      · exact absurd (mem_namesOf.2 ⟨other, hin, hname⟩) hseen
      · exact hlast first hmem other hin

/-! ## An index of the groups -/

/-- Groups with an index that leads from a name to a place among them. -/
structure Indexed where
  groups : List OverloadGroup
  places : Std.HashMap String Nat

namespace Indexed

/-- No groups yet. -/
def empty : Indexed := ⟨[], ∅⟩

/-- Adds a native method at the place that the index gives for its name. There is no result if that
place is past the last group. -/
def insert? (native : NativeMethod) (s : Indexed) : Option Indexed :=
  match s.places[native.method.name]? with
  | some place =>
    match s.groups[place]? with
    | some g =>
      some { s with groups := s.groups.set place { g with members := g.members ++ [native] } }
    | none => none
  | none =>
    some {
      groups := s.groups ++ [⟨native.method.name, [native]⟩]
      places := s.places.insert native.method.name s.groups.length }

/-- Adds the native methods among methods whose places start at `index`. -/
def collect? (index : Nat) (methods : List MethodModel) (s : Indexed) : Option Indexed :=
  match methods with
  | [] => some s
  | m :: methods =>
    if m.isNative then
      match insert? ⟨index, m⟩ s with
      | some s' => collect? (index + 1) methods s'
      | none => none
    else collect? (index + 1) methods s

/-- Whether the index leads from a name to a place just when the group there has the name. -/
def Sound (s : Indexed) : Prop :=
  ∀ name place, s.places[name]? = some place ↔
    ∃ g : OverloadGroup, s.groups[place]? = some g ∧ g.name = name

theorem sound_empty : Sound empty := by
  intro name place
  simp [empty]

end Indexed

/-- A native method joins the first group of its name. -/
theorem insert_of_getElem? {native : NativeMethod} {groups : List OverloadGroup}
    {g : OverloadGroup} {place : Nat} (hg : groups[place]? = some g)
    (hname : g.name = native.method.name)
    (hfirst : ∀ i < place, ∀ h, groups[i]? = some h → h.name ≠ native.method.name) :
    insert native groups = groups.set place { g with members := g.members ++ [native] } := by
  induction groups generalizing place with
  | nil => simp at hg
  | cons h groups ih =>
    cases place with
    | zero =>
      obtain rfl := Option.some.inj hg
      rw [insert, if_pos hname, List.set_cons_zero]
    | succ place =>
      have hne : h.name ≠ native.method.name := hfirst 0 (by omega) h rfl
      rw [insert, if_neg hne, List.set_cons_succ, ih (by simpa using hg)]
      intro i hi k hk
      exact hfirst (i + 1) (by omega) k (by simpa using hk)

namespace Indexed

/-- A place that the index gives is that of the first group of the name. -/
theorem Sound.ne_of_lt {s : Indexed} (h : s.Sound) {name : String} {place i : Nat}
    (hplace : s.places[name]? = some place) (hi : i < place) {g : OverloadGroup}
    (hg : s.groups[i]? = some g) : g.name ≠ name := by
  intro hname
  have hplace' := (h name i).2 ⟨g, hg, hname⟩
  rw [hplace, Option.some.injEq] at hplace'
  omega

/-- Where the index gives no place, no group has the name. -/
theorem Sound.ne_of_mem {s : Indexed} (h : s.Sound) {name : String}
    (hplace : s.places[name]? = none) {g : OverloadGroup} (hg : g ∈ s.groups) : g.name ≠ name := by
  intro hname
  obtain ⟨i, hi⟩ := List.mem_iff_getElem?.1 hg
  have hplace' := (h name i).2 ⟨g, hi, hname⟩
  rw [hplace] at hplace'
  contradiction

/-- A group may be exchanged for another of its name. -/
theorem Sound.set {s : Indexed} (h : s.Sound) {place : Nat} {g g' : OverloadGroup}
    (hg : s.groups[place]? = some g) (hname : g'.name = g.name) :
    Sound { s with groups := s.groups.set place g' } := by
  intro name i
  rw [h name i]
  by_cases hi : place = i
  · subst hi
    rw [List.getElem?_set_self (List.getElem?_eq_some_iff.1 hg).1, hg]
    simp [hname]
  · rw [List.getElem?_set_ne hi]

/-- A group of a new name may be put behind the others. -/
theorem Sound.append {s : Indexed} (h : s.Sound) {g : OverloadGroup}
    (hplace : s.places[g.name]? = none) :
    Sound ⟨s.groups ++ [g], s.places.insert g.name s.groups.length⟩ := by
  intro name i
  rw [Std.HashMap.getElem?_insert]
  by_cases hname : g.name = name
  · -- the new place is the only one of the name, because no old group has it
    subst hname
    rw [if_pos (beq_self_eq_true _), Option.some.injEq]
    constructor
    · rintro rfl
      exact ⟨g, List.getElem?_concat_length, rfl⟩
    · rintro ⟨k, hk, hkname⟩
      rcases Nat.lt_trichotomy i s.groups.length with hi | hi | hi
      · rw [List.getElem?_append_left hi] at hk
        exact absurd hkname (h.ne_of_mem hplace (List.mem_of_getElem? hk))
      · exact hi.symm
      · rw [List.getElem?_eq_none (by rw [List.length_append]; simp; omega)] at hk
        contradiction
  · rw [if_neg (by simpa using hname), h name i]
    constructor
    · rintro ⟨k, hk, hkname⟩
      exact ⟨k, by rw [List.getElem?_append_left (List.getElem?_eq_some_iff.1 hk).1, hk], hkname⟩
    · rintro ⟨k, hk, hkname⟩
      refine ⟨k, ?_, hkname⟩
      rw [List.getElem?_append] at hk
      split at hk
      · exact hk
      · -- what is found behind the old groups is the new one
        have hlast := List.mem_of_getElem? hk
        obtain rfl := List.mem_singleton.1 hlast
        exact absurd hkname hname

/-- **One step.** With a sound index a native method always finds its place, the groups grow as they
do by searching, and the index stays sound. -/
theorem Sound.insert?_eq {s : Indexed} (h : s.Sound) (native : NativeMethod) :
    ∃ s', s.insert? native = some s' ∧ s'.groups = OverloadGroup.insert native s.groups
      ∧ s'.Sound := by
  rw [Indexed.insert?]
  cases hplace : s.places[native.method.name]? with
  | some place =>
    obtain ⟨g, hg, hname⟩ := (h _ _).1 hplace
    simp only [hg]
    refine ⟨_, rfl, ?_, h.set hg rfl⟩
    rw [insert_of_getElem? hg hname fun i hi k hk => h.ne_of_lt hplace hi hk]
  | none =>
    refine ⟨_, rfl, ?_, h.append hplace⟩
    rw [insert_of_forall_ne fun k hk => h.ne_of_mem hplace hk]

/-- **A run.** The index never leads past the groups, and the groups are those that searching
gives. -/
theorem Sound.collect?_eq {s : Indexed} (h : s.Sound) (index : Nat) (methods : List MethodModel) :
    ∃ s', collect? index methods s = some s'
      ∧ s'.groups = (ClassModel.nativesFrom index methods).foldl
          (fun groups native => OverloadGroup.insert native groups) s.groups := by
  induction methods generalizing index s with
  | nil => exact ⟨s, rfl, rfl⟩
  | cons m methods ih =>
    rw [collect?, ClassModel.nativesFrom]
    by_cases hm : m.isNative = true
    · obtain ⟨s', hs', hgroups, hsound⟩ := h.insert?_eq ⟨index, m⟩
      rw [if_pos hm, if_pos hm, hs', List.foldl_cons, ← hgroups]
      exact ih hsound (index + 1)
    · rw [if_neg hm, if_neg hm]
      exact ih h (index + 1)

end Indexed

end OverloadGroup

namespace ClassModel

open OverloadGroup (ofName namesOf Indexed)

/-! ## Native methods -/

theorem mem_nativesFrom_iff {index : Nat} {methods : List MethodModel} {native : NativeMethod} :
    native ∈ nativesFrom index methods ↔
      ∃ i, native.index = index + i ∧ methods[i]? = some native.method
        ∧ native.method.isNative = true := by
  induction methods generalizing index with
  | nil => simp [nativesFrom]
  | cons m methods ih =>
    -- the method in front has place `index`, and the others are one place further
    have hothers : native ∈ nativesFrom (index + 1) methods ↔
        ∃ i, native.index = index + (i + 1) ∧ (m :: methods)[i + 1]? = some native.method
          ∧ native.method.isNative = true := by
      rw [ih]
      simp only [List.getElem?_cons_succ, Nat.add_assoc, Nat.add_comm 1]
    rw [nativesFrom]
    by_cases hm : m.isNative = true
    · rw [if_pos hm, List.mem_cons, hothers]
      constructor
      · rintro (rfl | ⟨i, hi⟩)
        · exact ⟨0, rfl, rfl, hm⟩
        · exact ⟨i + 1, hi⟩
      · rintro ⟨i, hi, hmethod, hnative⟩
        cases i with
        | zero =>
          left
          obtain ⟨place, method⟩ := native
          obtain rfl := Option.some.inj hmethod
          obtain rfl : place = index := hi
          rfl
        | succ i => exact Or.inr ⟨i, hi, hmethod, hnative⟩
    · rw [if_neg hm, hothers]
      constructor
      · rintro ⟨i, hi⟩
        exact ⟨i + 1, hi⟩
      · rintro ⟨i, hi, hmethod, hnative⟩
        cases i with
        | zero =>
          rw [List.getElem?_cons_zero, Option.some.injEq] at hmethod
          rw [← hmethod] at hnative
          contradiction
        | succ i => exact ⟨i, hi, hmethod, hnative⟩

/-- A native method stands among the native methods under its true place. -/
theorem mem_natives_iff {c : ClassModel} {native : NativeMethod} :
    native ∈ c.natives ↔
      c.methods[native.index]? = some native.method ∧ native.method.isNative = true := by
  rw [natives, mem_nativesFrom_iff]
  constructor
  · rintro ⟨i, hi, hmethod, hnative⟩
    rw [hi, Nat.zero_add]
    exact ⟨hmethod, hnative⟩
  · rintro ⟨hmethod, hnative⟩
    exact ⟨native.index, (Nat.zero_add _).symm, hmethod, hnative⟩

/-- **The groups partition the native methods.** Whatever other methods stand between them, every
native method of the class is in the groups, at its true place, once, and nothing else is. A group
is not empty and its members have its name, which no other group has. The members of a group, and
the first members of the groups, stand in the order of declaration. Growing the groups by way of an
index of their places never leaves the list of groups and gives the same. -/
theorem overloadGroups_partition (c : ClassModel) :
    (∀ native, native ∈ c.overloadGroups.flatMap OverloadGroup.members ↔
      c.methods[native.index]? = some native.method ∧ native.method.isNative = true)
    ∧ ((c.overloadGroups.flatMap OverloadGroup.members).map NativeMethod.index).Nodup
    ∧ (∀ g ∈ c.overloadGroups, g.members ≠ []
      ∧ (∀ native ∈ g.members, native.method.name = g.name)
      ∧ g.members.Pairwise fun a b => a.index < b.index)
    ∧ (c.overloadGroups.map OverloadGroup.name).Nodup
    ∧ c.overloadGroups.Pairwise OverloadGroup.FirstBefore
    ∧ ∃ s, Indexed.collect? 0 c.methods Indexed.empty = some s ∧ s.groups = c.overloadGroups := by
  refine ⟨?_, ?_, ?_, ?_, ?_, Indexed.sound_empty.collect?_eq 0 c.methods⟩
  · intro native
    rw [c.members_perm.mem_iff, mem_natives_iff]
  · rw [(c.members_perm.map NativeMethod.index).nodup_iff]
    exact List.pairwise_map.2 (c.pairwise_natives.imp fun hlt => Nat.ne_of_lt hlt)
  · intro g hg
    rw [overloadGroups_eq] at hg
    obtain ⟨name, hname, rfl⟩ := List.mem_map.1 hg
    refine ⟨OverloadGroup.members_ofName_ne_nil hname, ?_, ?_⟩
    · intro native hnative
      exact eq_of_beq (List.mem_filter.1 hnative).2
    · exact c.pairwise_natives.filter _
  · have hnames : c.overloadGroups.map OverloadGroup.name = namesOf c.natives := by
      rw [overloadGroups_eq, List.map_map]
      exact List.map_id _
    rw [hnames]
    exact OverloadGroup.nodup_namesOf _
  · rw [overloadGroups_eq]
    exact OverloadGroup.pairwise_firstBefore c.pairwise_natives

/-- A class with two native methods of one name, between which there are a native method of another
name and a method of that name that is not native. -/
def interleaved : ClassModel where
  name := "p/Q"
  enclosing := []
  methods := [
    ⟨"g", "()V", true, false, true, false⟩,
    ⟨"f", "(I)V", true, false, true, false⟩,
    ⟨"g", "(I)V", false, false, true, false⟩,
    ⟨"g", "(J)V", true, false, true, false⟩]
  constants := []

/-- The group of the name that is seen twice has both native methods, and it stands before the group
that is opened between them. -/
theorem overloadGroups_partition_of_interleaved :
    ∃ g, interleaved.overloadGroups[0]? = some g ∧ g.name = "g"
      ∧ g.members ≠ [] ∧ (∀ native ∈ g.members, native.method.name = "g")
      ∧ (⟨3, ⟨"g", "(J)V", true, false, true, false⟩⟩ : NativeMethod)
        ∈ interleaved.overloadGroups.flatMap OverloadGroup.members
      ∧ ∀ h, interleaved.overloadGroups[1]? = some h → g.FirstBefore h := by
  obtain ⟨hmembers, -, hgroups, -, hfirst, -⟩ := overloadGroups_partition interleaved
  have hg : interleaved.overloadGroups[0]? = some ⟨"g",
      [⟨0, ⟨"g", "()V", true, false, true, false⟩⟩,
        ⟨3, ⟨"g", "(J)V", true, false, true, false⟩⟩]⟩ := by decide
  obtain ⟨hne, hname, -⟩ := hgroups _ (List.mem_of_getElem? hg)
  refine ⟨_, hg, rfl, hne, hname, (hmembers _).2 ⟨rfl, rfl⟩, ?_⟩
  intro h hh
  obtain ⟨h0, hget0⟩ := List.getElem?_eq_some_iff.1 hg
  obtain ⟨h1, hget1⟩ := List.getElem?_eq_some_iff.1 hh
  rw [← hget0, ← hget1]
  exact List.pairwise_iff_getElem.1 hfirst 0 1 h0 h1 Nat.zero_lt_one

end ClassModel

end NativeHeaders
