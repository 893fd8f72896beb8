import Mathlib.Data.List.Nodup
import NativeHeaders.ClassPath.Basic
import NativeHeaders.Proofs.Files.Paths

/-!
# The file names of a class

Whoever asks for a class may write a dot or a slash between packages and before a nested class. So a
class with `k` separators has `k + 1` names: in the name number `i` the last `i` separators are
those of nested classes and the others those of packages (`spelled`, `candidates_eq`). The names
also arise one from the other, by rewriting the last separator as long as there is one
(`rewritings_slashed`), and they differ in how many slashes are left (`candidates_nodup`).

No dot is left in a name, so the only one in the file of a class stands before its extension: no
piece of the path leads upwards, and the file is found below every directory that it is looked for
in (`location_fileBelow`).
-/

set_option autoImplicit false

namespace NativeHeaders

namespace ClassPath

/-! ## Names by their separators -/

/-- Whether a character stands between the names of packages and classes. -/
def isSeparator (c : Char) : Bool := c == '.' || c == '/'

/-- The number of separators in the name of a class. -/
def separators (className : String) : Nat := className.toList.countP isSeparator

/-- A name whose last `nested` separators are those of nested classes and whose other separators
are those of packages. A separator is one of the last when no more than `nested` stand from it
on. -/
def spelled (nested : Nat) : List Char → List Char
  | [] => []
  | c :: cs =>
    (if isSeparator c then (if (c :: cs).countP isSeparator ≤ nested then '$' else '/') else c)
      :: spelled nested cs

/-- A name with slashes for its separators. -/
def slashed (cs : List Char) : List Char := cs.map fun c => if c = '.' then '/' else c

theorem isSeparator_iff {c : Char} : isSeparator c = true ↔ c = '.' ∨ c = '/' := by
  simp [isSeparator]

theorem count_slashed (cs : List Char) : (slashed cs).count '/' = cs.countP isSeparator := by
  rw [slashed, List.count_eq_countP, List.countP_map]
  congr 1
  funext c
  by_cases hdot : c = '.'
  · simp [hdot, isSeparator]
  · simp [hdot, isSeparator]

theorem nestAfter_cons_of_ne {c : Char} (h : c ≠ '/') (kept : Nat) (cs : List Char) :
    nestAfter kept (c :: cs) = c :: nestAfter kept cs := by
  rw [nestAfter.eq_def]
  exact if_neg h

theorem spelled_cons_of_separator {c : Char} (h : isSeparator c = true) (nested : Nat)
    (cs : List Char) : spelled nested (c :: cs)
      = (if cs.countP isSeparator < nested then '$' else '/') :: spelled nested cs := by
  rw [spelled, if_pos h, List.countP_cons_of_pos h]
  rfl

theorem spelled_cons_of_not_separator {c : Char} (h : ¬ isSeparator c = true) (nested : Nat)
    (cs : List Char) : spelled nested (c :: cs) = c :: spelled nested cs := by
  rw [spelled, if_neg h]

theorem slashed_cons_of_separator {c : Char} (h : isSeparator c = true) (cs : List Char) :
    slashed (c :: cs) = '/' :: slashed cs := by
  rcases isSeparator_iff.1 h with rfl | rfl
  · rfl
  · rfl

theorem slashed_cons_of_not_separator {c : Char} (h : ¬ isSeparator c = true) (cs : List Char) :
    slashed (c :: cs) = c :: slashed cs := by
  rw [slashed, List.map_cons, if_neg fun hdot => h (isSeparator_iff.2 (Or.inl hdot)), ← slashed]

theorem ne_slash {c : Char} (h : ¬ isSeparator c = true) : c ≠ '/' :=
  fun hslash => h (isSeparator_iff.2 (Or.inr hslash))

/-- Keeping the first separators is rewriting the last ones. -/
theorem nestAfter_slashed (nested : Nat) (cs : List Char) :
    nestAfter (cs.countP isSeparator - nested) (slashed cs) = spelled nested cs := by
  induction cs with
  | nil => rfl
  | cons c cs ih =>
    by_cases hsep : isSeparator c = true
    · rw [slashed_cons_of_separator hsep, spelled_cons_of_separator hsep,
        List.countP_cons_of_pos hsep, ← ih]
      by_cases hlast : cs.countP isSeparator < nested
      · rw [if_pos hlast, Nat.sub_eq_zero_of_le hlast, Nat.sub_eq_zero_of_le (Nat.le_of_lt hlast)]
        rfl
      · rw [if_neg hlast, Nat.sub_add_comm (Nat.not_lt.1 hlast)]
        rfl
    · rw [slashed_cons_of_not_separator hsep, spelled_cons_of_not_separator hsep,
        List.countP_cons_of_neg hsep, nestAfter_cons_of_ne (ne_slash hsep), ih]

/-- **The names of a class**: one after the other, its separators become those of nested classes,
from the last on. -/
theorem candidates_eq (className : String) :
    candidates className = (List.range (separators className + 1)).map fun nested =>
      String.ofList (spelled nested className.toList) := by
  have hunfold : candidates className
      = ((List.range ((slashed className.toList).count '/' + 1)).reverse.map fun kept =>
          nestAfter kept (slashed className.toList)).map String.ofList := rfl
  rw [hunfold, count_slashed, ← separators, List.map_map]
  apply List.ext_getElem
  · simp
  · intro nested hnested hlt
    simp only [List.length_map, List.length_reverse, List.length_range] at hnested
    simp only [List.getElem_map, List.getElem_reverse, List.getElem_range, List.length_range,
      Function.comp_apply]
    rw [Nat.add_sub_cancel, separators, nestAfter_slashed]

theorem mem_candidates_iff {className name : String} :
    name ∈ candidates className
      ↔ ∃ nested ≤ separators className,
        name = String.ofList (spelled nested className.toList) := by
  rw [candidates_eq, List.mem_map]
  simp only [List.mem_range, Nat.lt_succ_iff, eq_comm (a := name)]

/-! ## One name after the other -/

/-- A name with the last slash turned into the sign of a nested class, if it has one. -/
def nestLast? : List Char → Option (List Char)
  | [] => none
  | c :: cs =>
    match nestLast? cs with
    | some nested => some (c :: nested)
    | none => if c = '/' then some ('$' :: cs) else none

theorem count_of_nestLast? {cs nested : List Char} (h : nestLast? cs = some nested) :
    nested.count '/' + 1 = cs.count '/' := by
  induction cs generalizing nested with
  | nil => contradiction
  | cons c cs ih =>
    rw [nestLast?] at h
    split at h
    · rename_i others hothers
      obtain rfl := Option.some.inj h
      rw [List.count_cons, List.count_cons, ← ih hothers]
      omega
    · split at h
      · rename_i hslash
        obtain rfl := Option.some.inj h
        simp [hslash]
      · contradiction

/-- A name and those that arise from it, as long as there is a slash to rewrite. -/
def rewritings (name : List Char) : List (List Char) :=
  match _h : nestLast? name with
  | none => [name]
  | some nested => name :: rewritings nested
termination_by name.count '/'
decreasing_by
  have := count_of_nestLast? _h
  omega

theorem count_spelled (nested : Nat) (cs : List Char) :
    (spelled nested cs).count '/' = cs.countP isSeparator - nested := by
  induction cs with
  | nil => simp [spelled]
  | cons c cs ih =>
    by_cases hsep : isSeparator c = true
    · rw [spelled_cons_of_separator hsep, List.countP_cons_of_pos hsep]
      by_cases hlast : cs.countP isSeparator < nested
      · rw [if_pos hlast, List.count_cons_of_ne (by decide), ih]
        omega
      · rw [if_neg hlast, List.count_cons_self, ih]
        omega
    · rw [spelled_cons_of_not_separator hsep, List.countP_cons_of_neg hsep,
        List.count_cons_of_ne (ne_slash hsep), ih]

/-- The last slash that is left is the next separator to rewrite. -/
theorem nestLast?_spelled (nested : Nat) (cs : List Char) :
    nestLast? (spelled nested cs)
      = if nested < cs.countP isSeparator then some (spelled (nested + 1) cs) else none := by
  induction cs with
  | nil => simp [spelled, nestLast?]
  | cons c cs ih =>
    by_cases hsep : isSeparator c = true
    · rw [spelled_cons_of_separator hsep, spelled_cons_of_separator hsep,
        List.countP_cons_of_pos hsep, nestLast?, ih]
      rcases Nat.lt_trichotomy nested (cs.countP isSeparator) with hlt | heq | hgt
      · -- the next one stands further behind
        have hkept : ¬ cs.countP isSeparator < nested := by omega
        have hkept' : ¬ cs.countP isSeparator < nested + 1 := by omega
        have hlt' : nested < cs.countP isSeparator + 1 := by omega
        simp only [hlt, hkept, hkept', hlt', if_true, if_false]
      · -- this separator is the next one, and behind it none is left
        have hsame : spelled nested cs = spelled (nested + 1) cs := by
          rw [← nestAfter_slashed, ← nestAfter_slashed, Nat.sub_eq_zero_of_le (by omega),
            Nat.sub_eq_zero_of_le (by omega)]
        rw [heq] at hsame ⊢
        simp only [Nat.lt_irrefl, Nat.lt_succ_self, if_true, if_false, hsame]
      · have hdone : ¬ nested < cs.countP isSeparator := by omega
        have hdone' : ¬ nested < cs.countP isSeparator + 1 := by omega
        simp only [hgt, hdone, hdone', if_true, if_false]
        rfl
    · rw [spelled_cons_of_not_separator hsep, spelled_cons_of_not_separator hsep,
        List.countP_cons_of_neg hsep, nestLast?, ih]
      by_cases hlt : nested < cs.countP isSeparator
      · rw [if_pos hlt, if_pos hlt]
      · rw [if_neg hlt, if_neg hlt]
        exact if_neg (ne_slash hsep)

theorem spelled_zero (cs : List Char) : spelled 0 cs = slashed cs := by
  induction cs with
  | nil => rfl
  | cons c cs ih =>
    by_cases hsep : isSeparator c = true
    · rw [spelled_cons_of_separator hsep, slashed_cons_of_separator hsep, ih,
        if_neg (Nat.not_lt_zero _)]
    · rw [spelled_cons_of_not_separator hsep, slashed_cons_of_not_separator hsep, ih]

/-- The induction is on the separators that are left. -/
theorem rewritings_spelled (cs : List Char) (left nested : Nat)
    (h : nested + left = cs.countP isSeparator) :
    rewritings (spelled nested cs)
      = (List.range' nested (left + 1)).map fun n => spelled n cs := by
  induction left generalizing nested with
  | zero =>
    have hlast : nestLast? (spelled nested cs) = none := by
      rw [nestLast?_spelled, if_neg (by omega)]
    rw [rewritings]
    split
    · rfl
    · rename_i next hnext
      rw [hlast] at hnext
      contradiction
  | succ left ih =>
    have hnext : nestLast? (spelled nested cs) = some (spelled (nested + 1) cs) := by
      rw [nestLast?_spelled, if_pos (by omega)]
    rw [rewritings]
    split
    · rename_i hnone
      rw [hnext] at hnone
      contradiction
    · rename_i next hsome
      rw [hnext] at hsome
      obtain rfl := Option.some.inj hsome
      rw [ih (nested + 1) (by omega)]
      rfl

/-- **The names arise one from the other**, until no slash is left. -/
theorem rewritings_slashed (className : String) :
    candidates className = (rewritings (slashed className.toList)).map String.ofList := by
  rw [← spelled_zero, rewritings_spelled _ (separators className) 0 (Nat.zero_add _), candidates_eq,
    ← List.range_eq_range', List.map_map]
  rfl

/-- Names with different numbers of separators rewritten have different numbers of slashes. -/
theorem candidates_nodup (className : String) : (candidates className).Nodup := by
  rw [candidates_eq]
  apply List.Nodup.map_on _ List.nodup_range
  intro n hn n' hn' heq
  rw [List.mem_range] at hn hn'
  have hcount := congrArg (fun s : String => s.toList.count '/') heq
  simp only [String.toList_ofList, count_spelled] at hcount
  rw [separators] at hn hn'
  omega

/-! ## Paths below a directory -/

theorem dot_not_mem_spelled (nested : Nat) (cs : List Char) : '.' ∉ spelled nested cs := by
  induction cs with
  | nil => exact List.not_mem_nil
  | cons c cs ih =>
    by_cases hsep : isSeparator c = true
    · rw [spelled_cons_of_separator hsep, List.mem_cons, not_or]
      refine ⟨?_, ih⟩
      split <;> decide
    · rw [spelled_cons_of_not_separator hsep, List.mem_cons, not_or]
      exact ⟨fun h => hsep (isSeparator_iff.2 (Or.inl h.symm)), ih⟩

/-- Whether a piece of a path leads nowhere but down. -/
structure IsDownward (piece : String) : Prop where
  ne_here : piece ≠ "."
  ne_up : piece ≠ ".."
  relative : Path.isAbsolute piece = false

theorem isAbsolute_ofList_of_not_mem {cs : List Char} (hslash : '/' ∉ cs) :
    Path.isAbsolute (String.ofList cs) = false := by
  rw [Path.isAbsolute, String.toList_ofList, beq_eq_false_iff_ne]
  exact fun h => hslash (List.mem_of_mem_head? h)

theorem isDownward_of_dot_not_mem {cs : List Char} (hdot : '.' ∉ cs) (hslash : '/' ∉ cs) :
    IsDownward (String.ofList cs) := by
  have hne : ∀ piece : String, '.' ∈ piece.toList → String.ofList cs ≠ piece := by
    rintro piece hmem rfl
    rw [String.toList_ofList] at hmem
    exact hdot hmem
  exact ⟨hne _ (by decide), hne _ (by decide), isAbsolute_ofList_of_not_mem hslash⟩

/-- The file of a class ends in its extension, which is more than the pieces that lead elsewhere. -/
theorem isDownward_of_extension {cs : List Char} (hslash : '/' ∉ cs ++ ".class".toList) :
    IsDownward (String.ofList (cs ++ ".class".toList)) := by
  have hlong : ∀ short : String, short.toList.length < 6 →
      String.ofList (cs ++ ".class".toList) ≠ short := by
    intro short hshort h
    have hlength := congrArg (fun s : String => s.toList.length) h
    have hextension : ".class".toList.length = 6 := by decide
    rw [String.toList_ofList, List.length_append, hextension] at hlength
    omega
  exact ⟨hlong _ (by decide), hlong _ (by decide), isAbsolute_ofList_of_not_mem hslash⟩

/-- **No piece of the file of a class leads upwards or to the root.** -/
theorem isDownward_of_mem_pieces {className name piece : String}
    (hname : name ∈ candidates className)
    (hpiece : piece ∈ Path.pieces (name ++ ".class")) : IsDownward piece := by
  obtain ⟨nested, -, rfl⟩ := mem_candidates_iff.1 hname
  have hdot := dot_not_mem_spelled nested className.toList
  generalize spelled nested className.toList = cs at hdot hpiece
  have hslash := Path.slash_not_mem_of_mem_pieces hpiece
  have hback : '/' ∉ ".class".toList := by decide
  obtain ⟨front, last, hcs, hfile⟩ := Text.splitOn_append_of_not_mem hback cs
  rw [Path.pieces, String.toList_append, String.toList_ofList, hfile, List.map_append,
    List.mem_append, List.mem_map] at hpiece
  rcases hpiece with ⟨part, hpart, rfl⟩ | hlast
  · -- a part before the last one stands in the name itself
    rw [String.toList_ofList] at hslash
    refine isDownward_of_dot_not_mem (fun hmem => hdot ?_) hslash
    rw [← Text.joinWith_splitOn '/' cs, hcs]
    exact Text.mem_joinWith_of_mem (List.mem_append_left _ hpart) hmem
  · rw [List.map_singleton, List.mem_singleton] at hlast
    subst hlast
    rw [String.toList_ofList] at hslash
    exact isDownward_of_extension hslash

/-- The names that the file of a class leads down by. -/
def namesBelow (name : String) : List String :=
  (Path.pieces name).filter fun piece => !Path.isIdle piece

/-- The pieces of the file of a class are joined to a directory one by one. -/
theorem empty_or_isName_of_mem_pieces {className name piece : String}
    (hname : name ∈ candidates className) (hpiece : piece ∈ Path.pieces (name ++ ".class")) :
    piece = "" ∨ Path.IsName piece := by
  have hdown := isDownward_of_mem_pieces hname hpiece
  by_cases hempty : piece = ""
  · exact Or.inl hempty
  · refine Or.inr ⟨Path.slash_not_mem_of_mem_pieces hpiece, ?_, hdown.ne_up⟩
    simp [Path.isIdle, hempty, hdown.ne_here]

/-- **The file of a class is found below the directory that it is looked for in**: some names lead
down from there, and the path goes on from that of the directory. -/
theorem location_fileBelow {className name : String} (hname : name ∈ candidates className)
    (here : List String) (directory : Path) :
    Path.location here (fileBelow directory (name ++ ".class"))
      = Path.location here directory ++ namesBelow (name ++ ".class") :=
  Path.location_foldl_join (fun _ hpiece => empty_or_isName_of_mem_pieces hname hpiece) here
    directory

theorem prefix_fileBelow {className name : String} (hname : name ∈ candidates className)
    {directory : Path} (hdirectory : directory ≠ "") :
    directory.toList <+: (fileBelow directory (name ++ ".class")).toList :=
  Path.prefix_foldl_join
    (fun _ hpiece => (isDownward_of_mem_pieces hname hpiece).relative) hdirectory

end ClassPath

end NativeHeaders
