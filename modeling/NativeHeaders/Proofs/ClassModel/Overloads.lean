import Mathlib.Data.List.Induction
import Mathlib.Data.List.Nodup
import NativeHeaders.ClassModel.Overloads

/-!
# Overload groups in closed form

The groups of a class are grown one native method at a time. Here they are given all at once: one
group for each name, in the order in which the names are first seen, holding the native methods of
that name in the order of declaration (`overloadGroups_eq`). The induction is on the native methods
from the right, because the last method either joins a group that is there or opens one at the end.

Two facts are read off the closed form. Taken together the groups hold the native methods, each
once (`members_perm`), and what is in a group depends on nothing but the native methods, so the
methods that are not native cannot be seen in it.
-/

set_option autoImplicit false

namespace NativeHeaders

namespace OverloadGroup

/-- The group of a name among native methods. -/
def ofName (natives : List NativeMethod) (name : String) : OverloadGroup :=
  ⟨name, natives.filter fun native => native.method.name == name⟩

/-- The names of native methods, each where it is first seen. -/
def namesOf (natives : List NativeMethod) : List String :=
  (natives.map fun native => native.method.name).eraseDups

/-! ## Names -/

theorem mem_namesOf {natives : List NativeMethod} {name : String} :
    name ∈ namesOf natives ↔ ∃ native ∈ natives, native.method.name = name := by
  rw [namesOf, List.mem_eraseDups, List.mem_map]

/-- One more native method adds its name unless it has been seen. -/
theorem namesOf_append (natives : List NativeMethod) (native : NativeMethod) :
    namesOf (natives ++ [native])
      = if native.method.name ∈ namesOf natives then namesOf natives
        else namesOf natives ++ [native.method.name] := by
  have hmem : native.method.name ∈ natives.map (fun n => n.method.name)
      ↔ native.method.name ∈ namesOf natives := by rw [namesOf, List.mem_eraseDups]
  rw [namesOf, List.map_append, List.map_singleton, List.eraseDups_append]
  by_cases h : native.method.name ∈ namesOf natives
  · have hseen : [native.method.name].removeAll (natives.map fun n => n.method.name) = [] := by
      have hold : (natives.map fun n => n.method.name).elem native.method.name = true :=
        List.elem_eq_true_of_mem (hmem.2 h)
      rw [List.removeAll, List.filter_cons_of_neg (by rw [hold]; decide), List.filter_nil]
    rw [if_pos h, hseen, List.eraseDups_nil, List.append_nil, namesOf]
  · have hnew : [native.method.name].removeAll (natives.map fun n => n.method.name)
        = [native.method.name] := by
      have hfresh : (natives.map fun n => n.method.name).elem native.method.name = false := by
        rw [Bool.eq_false_iff]
        exact fun helem => h (hmem.1 (List.mem_of_elem_eq_true helem))
      rw [List.removeAll, List.filter_cons_of_pos (by rw [hfresh]; rfl), List.filter_nil]
    rw [if_neg h, hnew, List.eraseDups_cons, List.filter_nil, List.eraseDups_nil, namesOf]

theorem nodup_namesOf (natives : List NativeMethod) : (namesOf natives).Nodup := by
  induction natives using List.reverseRecOn with
  | nil => exact List.nodup_nil
  | append_singleton natives native ih =>
    rw [namesOf_append]
    by_cases h : native.method.name ∈ namesOf natives
    · rw [if_pos h]
      exact ih
    · rw [if_neg h]
      rw [← List.concat_eq_append]
      exact ih.concat h

/-! ## Groups -/

/-- A native method of another name does not change a group. -/
theorem ofName_append_of_ne {natives : List NativeMethod} {native : NativeMethod} {name : String}
    (h : name ≠ native.method.name) : ofName (natives ++ [native]) name = ofName natives name := by
  have hother : (native.method.name == name) = false := by simpa using Ne.symm h
  rw [ofName, ofName, List.filter_append, List.filter_cons_of_neg (by simp [hother]),
    List.filter_nil, List.append_nil]

/-- A native method stands at the end of the group of its name. -/
theorem ofName_append_self (natives : List NativeMethod) (native : NativeMethod) :
    ofName (natives ++ [native]) native.method.name
      = { ofName natives native.method.name with
          members := (ofName natives native.method.name).members ++ [native] } := by
  rw [ofName, ofName, List.filter_append, List.filter_cons_of_pos (by simp), List.filter_nil]

/-- Where no group has its name, a native method opens one at the end. -/
theorem insert_of_forall_ne {native : NativeMethod} {groups : List OverloadGroup}
    (h : ∀ g ∈ groups, g.name ≠ native.method.name) :
    insert native groups = groups ++ [⟨native.method.name, [native]⟩] := by
  induction groups with
  | nil => rfl
  | cons g groups ih =>
    obtain ⟨hg, hgroups⟩ := List.forall_mem_cons.1 h
    rw [insert, if_neg hg, ih hgroups, List.cons_append]

/-- Where a group has its name, a native method joins it. -/
theorem insert_of_mem {natives : List NativeMethod} {native : NativeMethod} {names : List String}
    (hnodup : names.Nodup) (h : native.method.name ∈ names) :
    insert native (names.map (ofName natives)) = names.map (ofName (natives ++ [native])) := by
  induction names with
  | nil => exact absurd h List.not_mem_nil
  | cons name names ih =>
    obtain ⟨hfresh, hnodup⟩ := List.nodup_cons.1 hnodup
    by_cases hname : name = native.method.name
    · -- no later group has the name, so the later groups stay as they are
      have hrest : names.map (ofName (natives ++ [native])) = names.map (ofName natives) := by
        apply List.map_congr_left
        intro other hother
        apply ofName_append_of_ne
        rintro rfl
        exact hfresh (hname ▸ hother)
      have heq : (ofName natives native.method.name).name = native.method.name := rfl
      rw [List.map_cons, List.map_cons, hrest, hname, ofName_append_self, insert, if_pos heq]
    · have hmem : native.method.name ∈ names :=
        (List.mem_cons.1 h).resolve_left (Ne.symm hname)
      have hne : ¬ (ofName natives name).name = native.method.name := hname
      rw [List.map_cons, List.map_cons, insert, if_neg hne, ih hnodup hmem,
        ofName_append_of_ne hname]

/-- **The groups in closed form.** -/
theorem foldl_insert_eq (natives : List NativeMethod) :
    natives.foldl (fun groups native => insert native groups) []
      = (namesOf natives).map (ofName natives) := by
  induction natives using List.reverseRecOn with
  | nil => rfl
  | append_singleton natives native ih =>
    rw [List.foldl_append, List.foldl_cons, List.foldl_nil, ih, namesOf_append]
    by_cases h : native.method.name ∈ namesOf natives
    · rw [if_pos h, insert_of_mem (nodup_namesOf natives) h]
    · have hgroups : (namesOf natives).map (ofName (natives ++ [native]))
          = (namesOf natives).map (ofName natives) := by
        apply List.map_congr_left
        intro name hname
        apply ofName_append_of_ne
        rintro rfl
        exact h hname
      have halone : ofName (natives ++ [native]) native.method.name
          = ⟨native.method.name, [native]⟩ := by
        have hnone : natives.filter (fun n => n.method.name == native.method.name) = [] := by
          rw [List.filter_eq_nil_iff]
          intro n hn heq
          exact h (mem_namesOf.2 ⟨n, hn, eq_of_beq heq⟩)
        rw [ofName_append_self, ofName, hnone, List.nil_append]
      have hothers : ∀ g ∈ (namesOf natives).map (ofName natives),
          g.name ≠ native.method.name := by
        intro g hg heq
        obtain ⟨name, hname, rfl⟩ := List.mem_map.1 hg
        have hsame : name = native.method.name := heq
        exact h (hsame ▸ hname)
      rw [if_neg h, insert_of_forall_ne hothers, List.map_append, List.map_singleton, hgroups,
        halone]

/-- Inserting adds the native method to the members of all groups and takes none away. -/
theorem insert_members_perm (native : NativeMethod) (groups : List OverloadGroup) :
    ((insert native groups).flatMap OverloadGroup.members).Perm
      (groups.flatMap OverloadGroup.members ++ [native]) := by
  induction groups with
  | nil => exact List.Perm.refl _
  | cons g groups ih =>
    rw [insert]
    split
    · rw [List.flatMap_cons, List.flatMap_cons, List.append_assoc, List.append_assoc]
      exact List.Perm.append_left _ List.perm_append_comm
    · rw [List.flatMap_cons, List.flatMap_cons, List.append_assoc]
      exact List.Perm.append_left _ ih

end OverloadGroup

namespace ClassModel

open OverloadGroup (ofName namesOf)

theorem overloadGroups_eq (c : ClassModel) :
    c.overloadGroups = (namesOf c.natives).map (ofName c.natives) :=
  OverloadGroup.foldl_insert_eq c.natives

/-- The members of all groups are the native methods, each once. -/
theorem members_perm (c : ClassModel) :
    (c.overloadGroups.flatMap OverloadGroup.members).Perm c.natives := by
  unfold overloadGroups
  induction c.natives using List.reverseRecOn with
  | nil => exact List.Perm.refl _
  | append_singleton natives native ih =>
    rw [List.foldl_append, List.foldl_cons, List.foldl_nil]
    exact (OverloadGroup.insert_members_perm native _).trans (ih.append_right [native])

/-! ## Places -/

theorem le_index_of_mem_nativesFrom {index : Nat} {methods : List MethodModel}
    {native : NativeMethod} (h : native ∈ nativesFrom index methods) : index ≤ native.index := by
  induction methods generalizing index with
  | nil => exact absurd h List.not_mem_nil
  | cons m methods ih =>
    rw [nativesFrom] at h
    split at h
    · rcases List.mem_cons.1 h with rfl | h
      · exact Nat.le_refl _
      · exact Nat.le_of_succ_le (ih h)
    · exact Nat.le_of_succ_le (ih h)

theorem pairwise_nativesFrom (index : Nat) (methods : List MethodModel) :
    (nativesFrom index methods).Pairwise fun a b => a.index < b.index := by
  induction methods generalizing index with
  | nil => exact List.Pairwise.nil
  | cons m methods ih =>
    rw [nativesFrom]
    split
    · rw [List.pairwise_cons]
      exact ⟨fun b hb => le_index_of_mem_nativesFrom hb, ih (index + 1)⟩
    · exact ih (index + 1)

/-- The places of the native methods increase in the order of declaration. -/
theorem pairwise_natives (c : ClassModel) : c.natives.Pairwise fun a b => a.index < b.index :=
  pairwise_nativesFrom 0 c.methods

theorem map_method_nativesFrom (index : Nat) (methods : List MethodModel) :
    (nativesFrom index methods).map NativeMethod.method = methods.filter (·.isNative) := by
  induction methods generalizing index with
  | nil => rfl
  | cons m methods ih =>
    rw [nativesFrom]
    split
    · rename_i hm
      rw [List.filter_cons_of_pos hm, List.map_cons, ih]
    · rename_i hm
      rw [List.filter_cons_of_neg hm, ih]

theorem map_method_natives (c : ClassModel) :
    c.natives.map NativeMethod.method = c.methods.filter (·.isNative) :=
  map_method_nativesFrom 0 c.methods

end ClassModel

end NativeHeaders
