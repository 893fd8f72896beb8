import Mathlib.Data.List.TakeWhile
import NativeHeaders.ClassPath.Basic

/-!
# The entries of a class path

A class path is written as paths with `:` between them. Each path that is not empty is an entry, and
its last name tells what for: a name that ends in `.jar` or `.zip`, in letters of any case, is that
of an archive, and all others are directories (`ofPath_cases`). A name that only consists of such an
ending is none.
-/

set_option autoImplicit false

namespace NativeHeaders

/-- What stands behind the last dot of a name, and that something stands in front of it. -/
theorem Path.extension?_eq_some_iff {p : Path} {extension : String} :
    extension? p = some extension
      ↔ ∃ name stem, fileName? p = some name ∧ name.toList = stem ++ '.' :: extension.toList
        ∧ stem ≠ [] ∧ '.' ∉ extension.toList := by
  rw [extension?, Option.bind_eq_bind, Option.bind_eq_some_iff]
  refine exists_congr fun name => ?_
  -- the name is parted at its last dot, which is the first from its end
  have hparted := List.takeWhile_append_dropWhile (p := (· != '.')) (l := name.toList.reverse)
  have hfront : '.' ∉ name.toList.reverse.takeWhile (· != '.') := by
    intro hdot
    simpa using List.mem_takeWhile_imp hdot
  constructor
  · rintro ⟨hname, hextension⟩
    dsimp only at hextension
    split at hextension
    · contradiction
    · rename_i hstem
      rcases hback : name.toList.reverse.dropWhile (· != '.') with _ | ⟨c, stem⟩
      · rw [hback] at hstem
        exact absurd rfl hstem
      · have hc : c = '.' := by
          have hhead := List.head?_dropWhile_not (p := (· != '.')) (l := name.toList.reverse)
          rw [hback] at hhead
          simpa using hhead
        rw [hback] at hstem hparted
        obtain rfl := Option.some.inj hextension
        refine ⟨stem.reverse, hname, ?_, by simpa using hstem, ?_⟩
        · have hparts := congrArg List.reverse hparted
          rw [List.reverse_append, List.reverse_cons, List.reverse_reverse, hc, List.append_assoc,
            List.singleton_append] at hparts
          rw [String.toList_ofList]
          exact hparts.symm
        · rw [String.toList_ofList, List.mem_reverse]
          exact hfront
  · rintro ⟨stem, hname, hparts, hstem, hdot⟩
    refine ⟨hname, ?_⟩
    have hreverse : name.toList.reverse = extension.toList.reverse ++ '.' :: stem.reverse := by
      rw [hparts]
      simp
    have htake : name.toList.reverse.takeWhile (· != '.') = extension.toList.reverse := by
      rw [hreverse, List.takeWhile_append_of_pos, List.takeWhile_cons_of_neg (by simp),
        List.append_nil]
      intro c hc
      rw [bne_iff_ne]
      rintro rfl
      exact hdot (List.mem_reverse.1 hc)
    have hdrop : name.toList.reverse.dropWhile (· != '.') = '.' :: stem.reverse := by
      rw [hreverse, List.dropWhile_append_of_pos, List.dropWhile_cons_of_neg (by simp)]
      intro c hc
      rw [bne_iff_ne]
      rintro rfl
      exact hdot (List.mem_reverse.1 hc)
    dsimp only
    rw [htake, hdrop, if_neg (by simpa using hstem), List.reverse_reverse, String.ofList_toList]

namespace ClassPathEntry

/-- Whether the last name of a path is that of an archive. -/
def IsArchiveName (name : String) : Prop :=
  ∃ stem extension, name.toList = stem ++ '.' :: extension ∧ stem ≠ [] ∧ '.' ∉ extension
    ∧ (extension.map Char.toLower = ['j', 'a', 'r'] ∨ extension.map Char.toLower = ['z', 'i', 'p'])

/-- Whether a path is that of an archive, which its last name alone tells. -/
def IsArchive (p : Path) : Prop := ∃ name, Path.fileName? p = some name ∧ IsArchiveName name

/-- **A path is an archive or a directory** by its last name. -/
theorem ofPath_cases (p : Path) :
    (IsArchive p ∧ ofPath p = archive p) ∨ (¬ IsArchive p ∧ ofPath p = directory p) := by
  have hiff : IsArchive p ↔ ∃ extension, Path.extension? p = some extension
        ∧ (extension.toList.map Char.toLower = ['j', 'a', 'r']
          ∨ extension.toList.map Char.toLower = ['z', 'i', 'p']) := by
    constructor
    · rintro ⟨name, hname, stem, extension, hparts, hstem, hdot, hletters⟩
      refine ⟨String.ofList extension, Path.extension?_eq_some_iff.2 ⟨name, stem, hname, ?_⟩, ?_⟩
      · rw [String.toList_ofList]
        exact ⟨hparts, hstem, hdot⟩
      · rwa [String.toList_ofList]
    · rintro ⟨extension, hextension, hletters⟩
      obtain ⟨name, stem, hname, hparts, hstem, hdot⟩ := Path.extension?_eq_some_iff.1 hextension
      exact ⟨name, hname, stem, extension.toList, hparts, hstem, hdot, hletters⟩
  rw [hiff]
  unfold ofPath
  split
  · rename_i hletters
    obtain ⟨extension, hextension, hlower⟩ := Option.map_eq_some_iff.1 hletters
    exact Or.inl ⟨⟨extension, hextension, Or.inl hlower⟩, rfl⟩
  · rename_i hletters
    obtain ⟨extension, hextension, hlower⟩ := Option.map_eq_some_iff.1 hletters
    exact Or.inl ⟨⟨extension, hextension, Or.inr hlower⟩, rfl⟩
  · rename_i hjar hzip
    refine Or.inr ⟨?_, rfl⟩
    rintro ⟨extension, hextension, hlower | hlower⟩
    · exact hjar (by rw [hextension, Option.map_some, hlower])
    · exact hzip (by rw [hextension, Option.map_some, hlower])

end ClassPathEntry

/-- The entries of a list of paths are its paths, without the empty ones. -/
theorem ClassPath.exists_parts_of_parse (paths : String) :
    ∃ parts, Text.joinWith ':' parts = paths.toList ∧ (∀ part ∈ parts, ':' ∉ part)
      ∧ ∀ α : Type, (parse paths : ClassPath α) = ofEntries
        ((parts.filter fun part => part ≠ []).map fun part =>
          ClassPathEntry.ofPath (String.ofList part)) := by
  refine ⟨Text.splitOn ':' paths.toList, Text.joinWith_splitOn ':' paths.toList,
    fun part hpart => Text.not_mem_of_mem_splitOn hpart, fun α => ?_⟩
  have hfilter : (fun part : List Char => !part.isEmpty) = fun part => decide (part ≠ []) := by
    funext part
    cases part <;> rfl
  rw [parse, hfilter]

end NativeHeaders
