import Mathlib.Data.List.Infix
import NativeHeaders.Files.Tree

/-!
# Where paths lead

As long as everything in front of its last piece is a directory, the text of a path and the working
directory say which location it names: a name leads down, `..` leads up, and idle pieces lead
nowhere (`location`). On the way there a path passes the locations that its first pieces name
(`Passes`), and those are the places of the directories above it (`pieces_prefix_of_mem_above`). A
name that is joined to a path leads down from it by one (`location_join`).
-/

set_option autoImplicit false

namespace NativeHeaders

namespace Path

variable {here : List String}

/-- The location that a path names, seen from a working directory. -/
def location (here : List String) (p : Path) : List String := (pieces p).foldl step (start here p)

/-- Whether a path leads through a location: some of its first pieces name it. -/
def Passes (here : List String) (p : Path) (l : List String) : Prop :=
  ∃ front, front <+: pieces p ∧ front.foldl step (start here p) = l

/-- A name leads down by one. -/
structure IsName (name : String) : Prop where
  slash_not_mem : '/' ∉ name.toList
  not_idle : isIdle name = false
  ne_up : name ≠ ".."

/-! ## Following pieces -/

theorem step_of_idle {piece : String} (h : isIdle piece = true) (here : List String) :
    step here piece = here := if_pos h

theorem step_name {name : String} (h : IsName name) (here : List String) :
    step here name = here ++ [name] := by
  rw [step, if_neg (by rw [h.not_idle]; decide), if_neg h.ne_up]

theorem foldl_step_of_idle {ps : List String} (h : ∀ piece ∈ ps, isIdle piece = true)
    (here : List String) : ps.foldl step here = here := by
  induction ps with
  | nil => rfl
  | cons piece ps ih =>
    rw [List.foldl_cons, step_of_idle (h piece List.mem_cons_self)]
    exact ih fun other hother => h other (List.mem_cons_of_mem _ hother)

/-! ## Where a path starts -/

theorem IsName.isAbsolute_eq {name : String} (h : IsName name) : isAbsolute name = false := by
  rw [isAbsolute, beq_eq_false_iff_ne]
  intro hhead
  exact h.slash_not_mem (List.mem_of_mem_head? hhead)

theorem start_append {p : Path} (hp : p ≠ "") (q : String) :
    start here (p ++ q) = start here p := by
  -- the first character alone decides, and it is still that of `p`
  have hne : p.toList ≠ [] := fun hnil => hp (String.toList_inj.1 hnil)
  rw [start, start, isAbsolute, isAbsolute, String.toList_append,
    List.head?_append_of_ne_nil _ hne]

theorem join_empty (name : Path) : join "" name = name := by simp [join]

/-- What is joined to a path is written behind it, with a separator in between. -/
theorem join_of_ne_empty {directory name : Path} (hdirectory : directory ≠ "")
    (hname : isAbsolute name = false) :
    join directory name
      = if directory.toList.getLast? = some '/' then directory ++ name
        else directory ++ "/" ++ name := by
  have hbehind : ¬ (isAbsolute name || directory == "") = true := by
    rw [hname]
    simpa using hdirectory
  rw [join, if_neg hbehind]

/-- What is joined to a path starts where the path does. -/
theorem start_join {name : Path} (h : isAbsolute name = false) (directory : Path) :
    start here (join directory name) = start here directory := by
  by_cases hempty : directory = ""
  · rw [hempty, join_empty, start, h]
    rfl
  · rw [join_of_ne_empty hempty h]
    split
    · exact start_append hempty name
    · rw [String.append_assoc]
      exact start_append hempty _

/-! ## Pieces -/

theorem slash_not_mem_of_mem_pieces {p : Path} {piece : String} (h : piece ∈ pieces p) :
    '/' ∉ piece.toList := by
  obtain ⟨part, hpart, rfl⟩ := List.mem_map.1 h
  rw [String.toList_ofList]
  exact Text.not_mem_of_mem_splitOn hpart

/-- The pieces of a path that was put together from pieces. -/
theorem pieces_ofPieces {ps : List String} (hne : ps ≠ [])
    (h : ∀ piece ∈ ps, '/' ∉ piece.toList) : pieces (ofPieces ps) = ps := by
  have hparts : ∀ part ∈ ps.map String.toList, '/' ∉ part := by
    intro part hpart
    obtain ⟨piece, hpiece, rfl⟩ := List.mem_map.1 hpart
    exact h piece hpiece
  rw [pieces, ofPieces, String.toList_ofList, Text.splitOn_joinWith (by simpa using hne) hparts,
    List.map_map]
  simp [Function.comp_def]

/-- Only a path that ends in a separator has an empty last piece. -/
theorem getLast?_pieces_ne {p : Path} (hne : p ≠ "") (h : p.toList.getLast? ≠ some '/') :
    (pieces p).getLast? ≠ some "" := by
  intro hlast
  rw [pieces, List.getLast?_map, Option.map_eq_some_iff] at hlast
  obtain ⟨part, hpart, hempty⟩ := hlast
  have hnil : part = [] := by rw [← String.toList_ofList (l := part), hempty]; rfl
  obtain ⟨front, hfront⟩ := List.getLast?_eq_some_iff.1 hpart
  have hjoin := Text.joinWith_splitOn '/' p.toList
  rw [hfront, hnil] at hjoin
  -- an empty piece is the whole path, or a separator stands in front of it
  by_cases hone : front = []
  · rw [hone] at hjoin
    exact hne (String.toList_inj.1 hjoin.symm)
  · rw [← hjoin, Text.getLast?_joinWith_append_nil hone] at h
    exact h rfl

/-- A path starts at the root just when a separator stands in front of its pieces. -/
theorem isAbsolute_eq_true_iff {p : Path} :
    isAbsolute p = true ↔ ∃ next rest, pieces p = "" :: next :: rest := by
  have hjoin := Text.joinWith_splitOn '/' p.toList
  rw [isAbsolute, beq_iff_eq, pieces]
  constructor
  · intro hhead
    obtain ⟨cs, hcs⟩ := List.head?_eq_some_iff.1 hhead
    obtain ⟨next, rest, hnext⟩ := List.exists_cons_of_ne_nil (Text.splitOn_ne_nil '/' cs)
    refine ⟨String.ofList next, rest.map String.ofList, ?_⟩
    rw [hcs, Text.splitOn, if_pos rfl, hnext]
    rfl
  · rintro ⟨next, rest, hpieces⟩
    obtain ⟨first, parts, hparts, hfirst, hrest⟩ := List.map_eq_cons_iff.1 hpieces
    obtain ⟨second, others, rfl, -, -⟩ := List.map_eq_cons_iff.1 hrest
    have hnil : first = [] := by rw [← String.toList_ofList (l := first), hfirst]; rfl
    rw [← hjoin, hparts, hnil]
    rfl

/-! ## The directories above a path -/

theorem trimIdle_suffix (ps : List String) : trimIdle ps <:+ ps := by
  fun_induction trimIdle ps with
  | case1 => exact List.suffix_refl _
  | case2 => exact List.suffix_refl _
  | case3 piece rest _ _ ih => exact ih.trans (List.suffix_cons _ _)
  | case4 => exact List.suffix_refl _

/-- A path is cut in front of some of its last pieces, but not behind the root. -/
theorem exists_suffix_of_mem_cuts {ps : List String} {q : Path} (h : q ∈ cuts ps) :
    ∃ back, back ≠ [] ∧ back ≠ [""] ∧ back <:+ ps ∧ q = ofPieces back.reverse := by
  fun_induction cuts ps with
  | case1 => simp at h
  | case2 => simp at h
  | case3 first hfirst =>
    rw [List.mem_singleton] at h
    refine ⟨[first], by simp, by simpa using hfirst, List.suffix_refl _, ?_⟩
    rw [h]
    simp [ofPieces, Text.joinWith]
  | case4 piece rest _ _ ih =>
    obtain ⟨back, hne, hroot, hsuffix, hq⟩ := ih h
    exact ⟨back, hne, hroot, hsuffix.trans (List.suffix_cons _ _), hq⟩
  | case5 piece rest hidle hrest ih =>
    -- the nearest directory ends in `piece`, and those above it are cut from the rest
    rcases List.mem_cons.1 h with rfl | h
    · refine ⟨piece :: rest, by simp, ?_, List.suffix_refl _, rfl⟩
      rintro ⟨⟩
      exact hrest rfl
    · obtain ⟨back, hne, hroot, hsuffix, hq⟩ := ih h
      exact ⟨back, hne, hroot, hsuffix.trans (List.suffix_cons _ _), hq⟩

/-- A directory above a path has some of the first pieces of the path, and starts where it does. -/
theorem pieces_prefix_of_mem_above {p q : Path} (h : q ∈ above p) :
    pieces q <+: pieces p ∧ isAbsolute q = isAbsolute p := by
  obtain ⟨back, hne, hroot, hsuffix, rfl⟩ := exists_suffix_of_mem_cuts h
  have hback : back <:+ (pieces p).reverse :=
    (hsuffix.trans (List.tail_suffix _)).trans (trimIdle_suffix _)
  have hfront : back.reverse <+: pieces p := by
    rw [← List.reverse_reverse (pieces p), List.reverse_prefix]
    exact hback
  have hpieces : pieces (ofPieces back.reverse) = back.reverse := by
    apply pieces_ofPieces (by simpa using hne)
    intro piece hpiece
    exact slash_not_mem_of_mem_pieces (hfront.subset hpiece)
  refine ⟨by rwa [hpieces], ?_⟩
  rw [Bool.eq_iff_iff, isAbsolute_eq_true_iff, isAbsolute_eq_true_iff, hpieces]
  obtain ⟨tail, htail⟩ := hfront
  rw [← htail]
  constructor
  · rintro ⟨next, rest, hrest⟩
    rw [hrest]
    exact ⟨next, rest ++ tail, rfl⟩
  · -- the empty piece in front is followed by another in the directory, which is not the root
    rintro ⟨next, rest, hrest⟩
    rcases hreverse : back.reverse with _ | ⟨first, _ | ⟨second, others⟩⟩
    · exact absurd (List.reverse_eq_nil_iff.1 hreverse) hne
    · rw [hreverse, List.singleton_append] at hrest
      rw [(List.cons.inj hrest).1, List.reverse_eq_iff] at hreverse
      exact absurd hreverse hroot
    · rw [hreverse, List.cons_append] at hrest
      exact ⟨second, others, by rw [(List.cons.inj hrest).1]⟩

/-- On the way to a path lie the directories above it. -/
theorem passes_of_mem_above {p q : Path} (h : q ∈ above p) : Passes here p (location here q) := by
  obtain ⟨hfront, habsolute⟩ := pieces_prefix_of_mem_above h
  exact ⟨pieces q, hfront, by rw [location, start, start, habsolute]⟩

theorem passes_location (here : List String) (p : Path) : Passes here p (location here p) :=
  ⟨pieces p, List.prefix_refl _, rfl⟩

/-! ## A name below a directory -/

/-- The pieces of a path with a name joined to it lead to the path first. -/
theorem exists_pieces_join {name : String} (h : IsName name) (here : List String)
    (directory : Path) :
    ∃ front, pieces (join directory name) = front ++ [name]
      ∧ front.foldl step (start here directory) = location here directory := by
  have hname : pieces name = [name] := by
    rw [pieces, Text.splitOn_of_not_mem h.slash_not_mem]
    simp
  by_cases hempty : directory = ""
  · refine ⟨[], ?_, ?_⟩
    · rw [hempty, join_empty, hname]
      rfl
    · rw [hempty]
      rfl
  · rw [join_of_ne_empty hempty h.isAbsolute_eq]
    by_cases hslash : directory.toList.getLast? = some '/'
    · -- the separator is there already, and the empty piece behind it leads nowhere
      obtain ⟨cs, hcs⟩ := List.getLast?_eq_some_iff.1 hslash
      have hpieces : pieces directory = (Text.splitOn '/' cs).map String.ofList ++ [""] := by
        rw [pieces, hcs, Text.splitOn_append]
        simp [Text.splitOn]
      rw [if_pos hslash]
      refine ⟨(Text.splitOn '/' cs).map String.ofList, ?_, ?_⟩
      · have htext : (directory ++ name).toList = cs ++ '/' :: name.toList := by
          rw [String.toList_append, hcs, List.append_assoc]
          rfl
        rw [pieces, htext, Text.splitOn_append, Text.splitOn_of_not_mem h.slash_not_mem]
        simp
      · rw [location, hpieces, List.foldl_append, List.foldl_cons, List.foldl_nil,
          step_of_idle rfl]
    · rw [if_neg hslash]
      refine ⟨pieces directory, ?_, rfl⟩
      have htext : (directory ++ "/" ++ name).toList = directory.toList ++ '/' :: name.toList := by
        rw [String.toList_append, String.toList_append, List.append_assoc]
        rfl
      rw [pieces, htext, Text.splitOn_append, Text.splitOn_of_not_mem h.slash_not_mem]
      simp [pieces]

/-- **A name leads down by one** from the path that it is joined to. -/
theorem location_join {name : String} (h : IsName name) (here : List String) (directory : Path) :
    location here (join directory name) = location here directory ++ [name] := by
  obtain ⟨front, hpieces, hfront⟩ := exists_pieces_join h here directory
  rw [location, hpieces, start_join h.isAbsolute_eq, List.foldl_append, hfront, List.foldl_cons,
    List.foldl_nil, step_name h]

/-- A path with a separator behind it leads to the same place. -/
theorem location_join_empty (here : List String) (directory : Path) :
    location here (join directory "") = location here directory := by
  by_cases hempty : directory = ""
  · rw [hempty]
    rfl
  · rw [location, start_join (by rfl), join_of_ne_empty hempty (by rfl)]
    by_cases hslash : directory.toList.getLast? = some '/'
    · rw [if_pos hslash, String.append_empty, location]
    · have htext : (directory ++ "/" ++ "").toList = directory.toList ++ '/' :: [] := by
        rw [String.append_empty, String.toList_append]
        rfl
      have hpieces : pieces (directory ++ "/" ++ "") = pieces directory ++ [""] := by
        rw [pieces, htext, Text.splitOn_append, List.map_append]
        rfl
      rw [if_neg hslash, hpieces, List.foldl_append, List.foldl_cons, List.foldl_nil,
        step_of_idle rfl, location]

/-- Names and empty pieces that are joined one after the other lead down by the names. -/
theorem location_foldl_join {ps : List String} (h : ∀ piece ∈ ps, piece = "" ∨ IsName piece)
    (here : List String) (directory : Path) :
    location here (ps.foldl join directory)
      = location here directory ++ ps.filter fun piece => !isIdle piece := by
  induction ps generalizing directory with
  | nil => rw [List.foldl_nil, List.filter_nil, List.append_nil]
  | cons piece ps ih =>
    rw [List.foldl_cons, ih fun other hother => h other (List.mem_cons_of_mem _ hother)]
    rcases h piece List.mem_cons_self with rfl | hname
    · rw [location_join_empty, List.filter_cons_of_neg (by decide)]
    · rw [location_join hname, List.filter_cons_of_pos (by rw [hname.not_idle]; rfl),
        List.append_assoc, List.singleton_append]

theorem prefix_join {directory name : Path} (hdirectory : directory ≠ "")
    (hname : isAbsolute name = false) : directory.toList <+: (join directory name).toList := by
  rw [join_of_ne_empty hdirectory hname]
  split
  · rw [String.toList_append]
    exact List.prefix_append _ _
  · rw [String.toList_append, String.toList_append, List.append_assoc]
    exact List.prefix_append _ _

theorem prefix_foldl_join {ps : List String} (h : ∀ piece ∈ ps, isAbsolute piece = false)
    {directory : Path} (hdirectory : directory ≠ "") :
    directory.toList <+: (ps.foldl join directory).toList := by
  induction ps generalizing directory with
  | nil => exact List.prefix_refl _
  | cons piece ps ih =>
    -- what was joined so far is not empty, so the next piece does not take its place
    have hprefix := prefix_join hdirectory (h piece List.mem_cons_self)
    have hne : join directory piece ≠ "" := by
      intro hempty
      rw [hempty, String.toList_empty, List.prefix_nil] at hprefix
      exact hdirectory (String.toList_inj.1 hprefix)
    exact hprefix.trans (ih (fun other hother => h other (List.mem_cons_of_mem _ hother)) hne)

end Path

end NativeHeaders
