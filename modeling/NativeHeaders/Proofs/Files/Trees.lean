import Mathlib.Data.List.TakeWhile
import NativeHeaders.Proofs.Files.Paths

/-!
# What becomes of a file tree

A path is walked through directories only, so a walk that leads somewhere leads to the location that
the path names, and it does so in every tree that keeps the directories (`walk_of_keeps`). No
operation takes a directory away: directories are made where nothing is, and files are written where
no directory is. A file that is written keeps its mode, and the null device stays what it is.
`Changes` says in which places a tree may have changed like that. It holds of each operation, and of
one operation after the other (`Changes.trans`).
-/

set_option autoImplicit false

namespace NativeHeaders

namespace FileNode

/-! ## Contents -/

/-- What a file stores, whether it can be read or not. -/
def stored? : FileNode → Option Bytes
  | file content _ => some content
  | _ => none

/-- Whether what a node is given cannot be read from it. -/
def isBlind : FileNode → Bool
  | file _ mode => !mode.isReadable
  | null => true
  | directory => false

variable {content content' : Bytes} {before : Option FileNode} {node node' : FileNode}

/-- What is written lasts, unless it is given to the null device. -/
theorem overwrite_eq_ok_iff :
    overwrite content before = .ok node
      ↔ (before = none ∧ node = file content {})
        ∨ (∃ old mode, before = some (file old mode) ∧ mode.isWritable = true
          ∧ node = file content mode)
        ∨ (before = some null ∧ node = null) := by
  rcases before with _ | ⟨old, mode⟩ | _ | _
  · simp [overwrite, eq_comm (b := node)]
  · by_cases hmode : mode.isWritable = true
    · simp [overwrite, hmode, eq_comm (b := node)]
    · simp [overwrite, hmode]
  · simp [overwrite, eq_comm (b := node)]
  · simp [overwrite]

/-- The second of two contents is what counts. -/
theorem overwrite_of_overwrite (h : overwrite content before = .ok node)
    (h' : overwrite content' (some node) = .ok node') :
    overwrite content' before = .ok node' := by
  rcases overwrite_eq_ok_iff.1 h with ⟨rfl, rfl⟩ | ⟨old, mode, rfl, hmode, rfl⟩ | ⟨rfl, rfl⟩
  · exact h'
  · simpa [overwrite, hmode] using h'
  · exact h'

/-- To write a content again makes no difference. -/
theorem overwrite_again (h : overwrite content before = .ok node) :
    overwrite content (some node) = .ok node := by
  rcases overwrite_eq_ok_iff.1 h with ⟨rfl, rfl⟩ | ⟨old, mode, rfl, hmode, rfl⟩ | ⟨rfl, rfl⟩
  · rfl
  · simp [overwrite, hmode]
  · rfl

theorem content_eq_ok_iff :
    node.content = .ok content
      ↔ (node.stored? = some content ∧ node.isBlind = false) ∨ (node = null ∧ content = []) := by
  rcases node with ⟨stored, mode⟩ | _ | _
  · by_cases hmode : mode.isReadable = true
    · simp [FileNode.content, stored?, isBlind, hmode]
    · simp [FileNode.content, isBlind, hmode]
  · simp [FileNode.content, isBlind, eq_comm]
  · simp [FileNode.content, stored?]

theorem stored?_or_null_of_overwrite (h : overwrite content before = .ok node) :
    node.stored? = some content ∨ node = null := by
  rcases overwrite_eq_ok_iff.1 h with ⟨-, rfl⟩ | ⟨old, mode, -, -, rfl⟩ | ⟨-, rfl⟩
  · exact Or.inl rfl
  · exact Or.inl rfl
  · exact Or.inr rfl

theorem overwrite_directory : overwrite content (some directory) ≠ .ok node := by simp [overwrite]

end FileNode

namespace FileTree

variable {t t' t'' : FileTree}

/-! ## Locations -/

/-- The place of a path in a tree. -/
def place (t : FileTree) (p : Path) : List String := Path.location t.here p

/-- What the file stores that a path names. -/
def stored? (t : FileTree) (p : Path) : Option Bytes :=
  (t.nodeAt (t.place p)).bind FileNode.stored?

/-- Whether what is written to a path cannot be read from it. -/
def isBlind (t : FileTree) (p : Path) : Bool := (t.nodeAt (t.place p)).any FileNode.isBlind

/-- Whether a path names the null device. -/
def IsNull (t : FileTree) (p : Path) : Prop := t.nodeAt (t.place p) = some .null

theorem nodeAt_nil (t : FileTree) : t.nodeAt [] = some .directory := rfl

theorem nodeAt_of_ne_nil {l : List String} (h : l ≠ []) : t.nodeAt l = t.nodes.lookup l := if_neg h

/-- The root is always there. -/
theorem ne_nil_of_nodeAt_eq_none {l : List String} (h : t.nodeAt l = none) : l ≠ [] := by
  rintro rfl
  rw [nodeAt_nil] at h
  contradiction

theorem lookup_replace_self (l : List String) (node : FileNode)
    (nodes : List (List String × FileNode)) : (replace l node nodes).lookup l = some node := by
  induction nodes with
  | nil => rw [replace, List.lookup_cons_self]
  | cons entry nodes ih =>
    rw [replace]
    split
    · rw [List.lookup_cons_self]
    · rename_i hne
      rw [List.lookup_cons, beq_eq_false_iff_ne.2 (Ne.symm hne), ih]

theorem lookup_replace_of_ne {l l' : List String} (h : l' ≠ l) (node : FileNode)
    (nodes : List (List String × FileNode)) :
    (replace l node nodes).lookup l' = nodes.lookup l' := by
  induction nodes with
  | nil => rw [replace, List.lookup_cons, beq_eq_false_iff_ne.2 h]
  | cons entry nodes ih =>
    rw [replace]
    split
    · rename_i heq
      rw [List.lookup_cons, List.lookup_cons, heq, beq_eq_false_iff_ne.2 h]
    · rw [List.lookup_cons, List.lookup_cons, ih]

theorem replace_of_lookup {l : List String} {node : FileNode}
    {nodes : List (List String × FileNode)} (h : nodes.lookup l = some node) :
    replace l node nodes = nodes := by
  induction nodes with
  | nil => contradiction
  | cons entry nodes ih =>
    rw [replace]
    split
    · rename_i heq
      rw [← heq, List.lookup_cons_self, Option.some.injEq] at h
      rw [← heq, ← h]
    · rename_i hne
      rw [List.lookup_cons, beq_eq_false_iff_ne.2 (Ne.symm hne)] at h
      rw [ih h]

@[simp] theorem here_insert (t : FileTree) (l : List String) (node : FileNode) :
    (t.insert l node).here = t.here := rfl

theorem nodeAt_insert_self {l : List String} (h : l ≠ []) (t : FileTree) (node : FileNode) :
    (t.insert l node).nodeAt l = some node := by
  rw [nodeAt_of_ne_nil h]
  exact lookup_replace_self l node t.nodes

theorem nodeAt_insert_of_ne {l l' : List String} (h : l' ≠ l) (t : FileTree) (node : FileNode) :
    (t.insert l node).nodeAt l' = t.nodeAt l' := by
  by_cases hnil : l' = []
  · rw [hnil, nodeAt_nil, nodeAt_nil]
  · rw [nodeAt_of_ne_nil hnil, nodeAt_of_ne_nil hnil]
    exact lookup_replace_of_ne h node t.nodes

/-- To give a location what it holds changes nothing. -/
theorem insert_of_nodeAt {l : List String} {node : FileNode} (hl : l ≠ [])
    (h : t.nodeAt l = some node) : t.insert l node = t := by
  rw [nodeAt_of_ne_nil hl] at h
  rw [insert, replace_of_lookup h]

/-! ## Walking -/

/-- Whether a tree has the directories of another, and the same working directory. -/
structure Keeps (t t' : FileTree) : Prop where
  here_eq : t'.here = t.here
  directories : ∀ l, t.nodeAt l = some .directory → t'.nodeAt l = some .directory

theorem Keeps.refl (t : FileTree) : t.Keeps t := ⟨rfl, fun _ h => h⟩

theorem Keeps.place_eq (h : t.Keeps t') (p : Path) : t'.place p = t.place p := by
  rw [place, place, h.here_eq]

/-- **One step of a walk** asks for a directory to start from. -/
theorem walk_cons_eq_ok_iff {here : List String} {piece : String} {rest : List String}
    {r : List String × Option FileNode} :
    t.walk here (piece :: rest) = .ok r
      ↔ t.nodeAt here = some .directory ∧ t.walk (Path.step here piece) rest = .ok r := by
  rw [walk]
  rcases t.nodeAt here with _ | ⟨content, mode⟩ | _ | _
  · simp
  · simp
  · simp
  · simp

/-- **A walk that leads somewhere** leads to the location that the pieces name, and it does so in
every tree that keeps the directories; only what it finds there may be something else. -/
theorem walk_of_keeps (hkeeps : t.Keeps t') {here pieces location : List String}
    {node : Option FileNode} (h : t.walk here pieces = .ok (location, node)) :
    location = pieces.foldl Path.step here
      ∧ t'.walk here pieces = .ok (location, t'.nodeAt location) := by
  induction pieces generalizing here with
  | nil =>
    obtain ⟨rfl, -⟩ := Prod.mk.inj (Except.ok.inj h)
    exact ⟨rfl, rfl⟩
  | cons piece pieces ih =>
    -- each step asks for a directory only, and that one is kept
    obtain ⟨hdirectory, hrest⟩ := walk_cons_eq_ok_iff.1 h
    obtain ⟨hlocation, hwalk⟩ := ih hrest
    exact ⟨hlocation, walk_cons_eq_ok_iff.2 ⟨hkeeps.directories _ hdirectory, hwalk⟩⟩

/-- What a walk that leads somewhere finds. -/
theorem walk_eq_ok {here pieces location : List String} {node : Option FileNode}
    (h : t.walk here pieces = .ok (location, node)) :
    location = pieces.foldl Path.step here ∧ node = t.nodeAt location := by
  obtain ⟨hlocation, hwalk⟩ := walk_of_keeps (.refl t) h
  rw [h, Except.ok.injEq, Prod.mk.injEq] at hwalk
  exact ⟨hlocation, hwalk.2⟩

theorem locate_eq_ok {p : Path} {pieces location : List String} {node : Option FileNode}
    (h : t.locate p pieces = .ok (location, node)) :
    p ≠ "" ∧ location = pieces.foldl Path.step (Path.start t.here p)
      ∧ node = t.nodeAt location := by
  rw [locate] at h
  split at h
  · contradiction
  · rename_i hne
    exact ⟨hne, walk_eq_ok h⟩

theorem locate_of_keeps (hkeeps : t.Keeps t') {p : Path} {pieces location : List String}
    {node : Option FileNode} (h : t.locate p pieces = .ok (location, node)) :
    t'.locate p pieces = .ok (location, t'.nodeAt location) := by
  rw [locate] at h ⊢
  split at h
  · contradiction
  · rename_i hne
    rw [if_neg hne, hkeeps.here_eq]
    exact (walk_of_keeps hkeeps h).2

/-! ## The separators at the end of a path -/

/-- Only empty pieces are dropped with the separators at the end of a path. -/
theorem exists_pieces_eq (p : Path) :
    ∃ dropped, Path.pieces p = withoutSlash p ++ dropped
      ∧ ∀ piece ∈ dropped, Path.isIdle piece = true := by
  refine ⟨((Path.pieces p).reverse.takeWhile (· == "")).reverse, ?_, ?_⟩
  · rw [withoutSlash, ← List.reverse_append, List.takeWhile_append_dropWhile, List.reverse_reverse]
  · intro piece hpiece
    have hempty := List.mem_takeWhile_imp (List.mem_reverse.1 hpiece)
    rw [Path.isIdle, hempty, Bool.true_or]

theorem foldl_withoutSlash (t : FileTree) (p : Path) :
    (withoutSlash p).foldl Path.step (Path.start t.here p) = t.place p := by
  obtain ⟨dropped, hpieces, hdropped⟩ := exists_pieces_eq p
  rw [place, Path.location, hpieces, List.foldl_append, Path.foldl_step_of_idle hdropped]

theorem withoutSlash_eq_pieces {p : Path} (hne : p ≠ "") (h : p.toList.getLast? ≠ some '/') :
    withoutSlash p = Path.pieces p := by
  have hlast := Path.getLast?_pieces_ne hne h
  rw [withoutSlash]
  rcases hreverse : (Path.pieces p).reverse with _ | ⟨last, front⟩
  · exact (List.reverse_eq_nil_iff.1 hreverse).symm
  · -- an empty piece at the end would stand behind a separator
    rw [← List.head?_reverse, hreverse, List.head?_cons, ne_eq, Option.some.injEq] at hlast
    rw [List.dropWhile_cons_of_neg (by simpa using hlast), ← hreverse, List.reverse_reverse]

/-! ## Reading and writing -/

theorem read_eq_ok_iff {p : Path} {content : Bytes} :
    t.read p = .ok content
      ↔ ∃ node, t.locate p (Path.pieces p) = .ok (t.place p, some node)
        ∧ node.content = .ok content := by
  rw [read]
  rcases hlocate : t.locate p (Path.pieces p) with e | ⟨location, node⟩
  · simp
  · obtain ⟨-, hlocation, -⟩ := locate_eq_ok hlocate
    rw [← Path.location, ← place] at hlocation
    subst hlocation
    rcases node with _ | node
    · simp
    · simp

/-- What was read is what stands in the place of the path. -/
theorem exists_nodeAt_of_read {p : Path} {content : Bytes} (h : t.read p = .ok content) :
    ∃ node, t.nodeAt (t.place p) = some node ∧ node.content = .ok content := by
  obtain ⟨node, hlocate, hcontent⟩ := read_eq_ok_iff.1 h
  exact ⟨node, (locate_eq_ok hlocate).2.2.symm, hcontent⟩

/-- As long as directories are kept, a path that could be read leads to the same place. -/
theorem read_of_keeps (hkeeps : t.Keeps t') {p : Path} {content : Bytes} {node : FileNode}
    (h : t.read p = .ok content) (hnode : t'.nodeAt (t.place p) = some node) :
    t'.read p = node.content := by
  obtain ⟨before, hlocate, -⟩ := read_eq_ok_iff.1 h
  rw [read, locate_of_keeps hkeeps hlocate, hnode]

theorem ne_nil_of_overwrite {l : List String} {content : Bytes} {node : FileNode}
    (h : FileNode.overwrite content (t.nodeAt l) = .ok node) : l ≠ [] := by
  rintro rfl
  exact FileNode.overwrite_directory h

/-- **A path can be written** when it leads somewhere and what is there takes the content. The
separators at its end do not change the place, but behind a file's name they are refused. -/
theorem write_eq_ok_iff {p : Path} {content : Bytes} :
    t.write p content = .ok t'
      ↔ p.toList.getLast? ≠ some '/'
        ∧ t.locate p (Path.pieces p) = .ok (t.place p, t.nodeAt (t.place p))
        ∧ ∃ node, FileNode.overwrite content (t.nodeAt (t.place p)) = .ok node
          ∧ t' = t.insert (t.place p) node := by
  constructor
  · intro h
    rw [write] at h
    rcases hlocate : t.locate p (withoutSlash p) with e | ⟨location, before⟩
    · rw [hlocate] at h
      contradiction
    · obtain ⟨hne, hlocation, rfl⟩ := locate_eq_ok hlocate
      rw [foldl_withoutSlash] at hlocation
      subst hlocation
      rw [hlocate] at h
      simp only at h
      split at h
      · contradiction
      · rename_i hslash
        rw [withoutSlash_eq_pieces hne hslash] at hlocate
        rcases hnode : FileNode.overwrite content (t.nodeAt (t.place p)) with fault | node
        · rw [hnode] at h
          contradiction
        · rw [hnode] at h
          exact ⟨hslash, hlocate, node, rfl, (Except.ok.inj h).symm⟩
  · rintro ⟨hslash, hlocate, node, hnode, rfl⟩
    obtain ⟨hne, -, -⟩ := locate_eq_ok hlocate
    rw [write, withoutSlash_eq_pieces hne hslash, hlocate]
    simp only [if_neg hslash, hnode]

/-- What may become of a place: a directory appears where nothing was, or a content is written. -/
inductive Becomes (made : Prop) (written : Bytes → Prop) : Option FileNode → Option FileNode → Prop
  | same (node : Option FileNode) : Becomes made written node node
  | made (hmade : made) : Becomes made written none (some .directory)
  | written {before : Option FileNode} {node : FileNode} {content : Bytes}
      (hwritten : written content) (hnode : FileNode.overwrite content before = .ok node) :
      Becomes made written before (some node)

/-- How a tree may change: `made` tells the places where directories may appear, and `written` those
where contents may be written, and which. -/
structure Changes (t t' : FileTree) (made : List String → Prop)
    (written : List String → Bytes → Prop) : Prop where
  here_eq : t'.here = t.here
  becomes : ∀ l, Becomes (made l) (written l) (t.nodeAt l) (t'.nodeAt l)

section Changes

variable {made made' : List String → Prop} {written written' : List String → Bytes → Prop}

theorem Changes.refl (t : FileTree) : t.Changes t made written := ⟨rfl, fun l => .same (t.nodeAt l)⟩

/-- Directories stay, and so does a file unless another content takes the place of its own. -/
theorem Changes.trans (h : t.Changes t' made written) (h' : t'.Changes t'' made written) :
    t.Changes t'' made written := by
  refine ⟨h'.here_eq.trans h.here_eq, fun l => ?_⟩
  have hl := h.becomes l
  have hl' := h'.becomes l
  -- of the nine ways through a place, a directory never gives way to a file
  generalize t.nodeAt l = before at hl
  generalize t'.nodeAt l = between at hl hl'
  generalize t''.nodeAt l = after at hl'
  cases hl' with
  | same => exact hl
  | made hmade =>
    cases hl with
    | same => exact .made hmade
  | written hwritten hnode =>
    cases hl with
    | same => exact .written hwritten hnode
    | made => exact absurd hnode FileNode.overwrite_directory
    | written _ hbetween => exact .written hwritten (FileNode.overwrite_of_overwrite hbetween hnode)

theorem Changes.imp (h : t.Changes t' made written) (hmade : ∀ l, made l → made' l)
    (hwritten : ∀ l content, written l content → written' l content) :
    t.Changes t' made' written' := by
  refine ⟨h.here_eq, fun l => ?_⟩
  have hl := h.becomes l
  generalize t.nodeAt l = before at hl
  generalize t'.nodeAt l = after at hl
  cases hl with
  | same => exact .same _
  | made hl => exact .made (hmade l hl)
  | written hl hnode => exact .written (hwritten l _ hl) hnode

/-- What may have become of a place. -/
theorem Changes.cases_at (h : t.Changes t' made written) (l : List String) :
    t'.nodeAt l = t.nodeAt l
    ∨ (made l ∧ t.nodeAt l = none ∧ t'.nodeAt l = some .directory)
    ∨ ∃ content node, written l content ∧ FileNode.overwrite content (t.nodeAt l) = .ok node
      ∧ t'.nodeAt l = some node := by
  have hbecomes := h.becomes l
  generalize t.nodeAt l = before at hbecomes ⊢
  generalize t'.nodeAt l = after at hbecomes ⊢
  cases hbecomes with
  | same => exact Or.inl rfl
  | made hmade => exact Or.inr (Or.inl ⟨hmade, rfl, rfl⟩)
  | written hwritten hnode => exact Or.inr (Or.inr ⟨_, _, hwritten, hnode, rfl⟩)

theorem Changes.keeps (h : t.Changes t' made written) : t.Keeps t' := by
  refine ⟨h.here_eq, fun l hl => ?_⟩
  rcases h.cases_at l with hsame | ⟨-, -, hafter⟩ | ⟨content, node, -, hnode, -⟩
  · rw [hsame, hl]
  · exact hafter
  · rw [hl] at hnode
    exact absurd hnode FileNode.overwrite_directory

theorem Changes.nodeAt_eq (h : t.Changes t' made written) {l : List String} (hmade : ¬ made l)
    (hwritten : ∀ content, ¬ written l content) : t'.nodeAt l = t.nodeAt l := by
  rcases h.cases_at l with hsame | ⟨hl, -⟩ | ⟨content, _, hl, -⟩
  · exact hsame
  · exact absurd hl hmade
  · exact absurd hl (hwritten content)

/-- The null device stays, and no other appears. -/
theorem Changes.isNull_iff (h : t.Changes t' made written) (p : Path) :
    t'.IsNull p ↔ t.IsNull p := by
  rw [IsNull, IsNull, h.keeps.place_eq]
  rcases h.cases_at (t.place p) with hsame | ⟨-, hbefore, hafter⟩ | ⟨_, node, -, hnode, hafter⟩
  · rw [hsame]
  · rw [hbefore, hafter]
    simp
  · rw [hafter]
    rcases FileNode.overwrite_eq_ok_iff.1 hnode with ⟨hbefore, rfl⟩ | ⟨old, mode, hbefore, -, rfl⟩ |
      ⟨hbefore, rfl⟩
    · simp [hbefore]
    · simp [hbefore]
    · simp [hbefore]

end Changes

theorem changes_insert_directory {l : List String} (h : t.nodeAt l = none) :
    t.Changes (t.insert l .directory) (· = l) fun _ _ => False := by
  refine ⟨rfl, fun l' => ?_⟩
  by_cases heq : l' = l
  · subst heq
    rw [h, nodeAt_insert_self (ne_nil_of_nodeAt_eq_none h)]
    exact .made rfl
  · rw [nodeAt_insert_of_ne heq]
    exact .same _

/-- One file is written. -/
theorem changes_write {p : Path} {content : Bytes} (h : t.write p content = .ok t') :
    t.Changes t' (fun _ => False) fun l other => l = t.place p ∧ other = content := by
  obtain ⟨-, -, node, hnode, rfl⟩ := write_eq_ok_iff.1 h
  refine ⟨rfl, fun l => ?_⟩
  by_cases heq : l = t.place p
  · subst heq
    rw [nodeAt_insert_self (ne_nil_of_overwrite hnode)]
    exact .written ⟨rfl, rfl⟩ hnode
  · rw [nodeAt_insert_of_ne heq]
    exact .same _

/-- **To write a file again changes nothing.** -/
theorem write_again {p : Path} {content : Bytes} (h : t.write p content = .ok t') :
    t'.write p content = .ok t' := by
  have hkeeps := (changes_write h).keeps
  obtain ⟨hslash, hlocate, node, hnode, rfl⟩ := write_eq_ok_iff.1 h
  have hplace := ne_nil_of_overwrite hnode
  have hafter := nodeAt_insert_self hplace t node
  -- the way to the place is open as before, and what is there now takes the same content
  rw [write_eq_ok_iff, hkeeps.place_eq, hafter]
  refine ⟨hslash, ?_, node, FileNode.overwrite_again hnode, (insert_of_nodeAt hplace hafter).symm⟩
  rw [locate_of_keeps hkeeps hlocate, hafter]

/-- A file that holds what is written to it does so as long as its place stays as it is. -/
theorem write_of_keeps (hkeeps : t.Keeps t') {p : Path} {content : Bytes}
    (h : t.write p content = .ok t) (hnode : t'.nodeAt (t.place p) = t.nodeAt (t.place p)) :
    t'.write p content = .ok t' := by
  obtain ⟨hslash, hlocate, node, hwritten, hsame⟩ := write_eq_ok_iff.1 h
  have hplace := ne_nil_of_overwrite hwritten
  -- writing left `t` as it was, so it holds the node that would be written
  have hheld := nodeAt_insert_self hplace t node
  rw [← hsame] at hheld
  rw [write_eq_ok_iff, hkeeps.place_eq, hnode]
  refine ⟨hslash, by rw [locate_of_keeps hkeeps hlocate, hnode], node, hwritten, ?_⟩
  rw [insert_of_nodeAt hplace (hnode.trans hheld)]

/-! ## Making directories -/

/-- **A directory is made** in a place that a path leads to and that holds nothing. -/
theorem makeDirectory_eq_ok_iff {p : Path} :
    t.makeDirectory p = .ok t'
      ↔ t.locate p (withoutSlash p) = .ok (t.place p, none)
        ∧ t' = t.insert (t.place p) .directory := by
  rw [makeDirectory]
  rcases hlocate : t.locate p (withoutSlash p) with e | ⟨location, node⟩
  · simp
  · obtain ⟨-, hlocation, -⟩ := locate_eq_ok hlocate
    rw [foldl_withoutSlash] at hlocation
    subst hlocation
    rcases node with _ | node
    · simp [eq_comm]
    · simp

theorem changes_makeDirectory {p : Path} (h : t.makeDirectory p = .ok t') :
    t.Changes t' (· = t.place p) fun _ _ => False := by
  obtain ⟨hlocate, rfl⟩ := makeDirectory_eq_ok_iff.1 h
  obtain ⟨-, -, hnode⟩ := locate_eq_ok hlocate
  exact changes_insert_directory hnode.symm

theorem changes_makeDirectory_cons {p : Path} (h : t.makeDirectory p = .ok t') (above : List Path) :
    t.Changes t' (fun l => ∃ q ∈ p :: above, l = t.place q) fun _ _ => False :=
  (changes_makeDirectory h).imp (fun _ hl => ⟨p, List.mem_cons_self, hl⟩) fun _ _ h => h

theorem Changes.imp_cons {above : List Path} {written : List String → Bytes → Prop} (p : Path)
    (h : t.Changes t' (fun l => ∃ q ∈ above, l = t.place q) written) :
    t.Changes t' (fun l => ∃ q ∈ p :: above, l = t.place q) written :=
  h.imp (fun _ ⟨q, hq, hl⟩ => ⟨q, List.mem_cons_of_mem p hq, hl⟩) fun _ _ h => h

/-- Directories appear only in the places of the paths that are to be made. -/
theorem changes_makeChain (t : FileTree) (ps : List Path) :
    t.Changes (t.makeChain ps).1 (fun l => ∃ p ∈ ps, l = t.place p) fun _ _ => False := by
  -- a directory is made at once, or the chain above it first, which may go through or stop
  fun_induction makeChain t ps with
  | case1 => exact .refl t
  | case2 p above made hmade => exact changes_makeDirectory_cons hmade above
  | case3 p above hmissing t' e hchain ih =>
    rw [hchain] at ih
    exact ih.imp_cons p
  | case4 p above hmissing t' hchain made hmade ih =>
    rw [hchain] at ih
    have hlast := changes_makeDirectory_cons hmade above
    simp only [ih.keeps.place_eq] at hlast
    exact (ih.imp_cons p).trans hlast
  | case5 p above hmissing t' hchain e hfault ih =>
    rw [hchain] at ih
    exact ih.imp_cons p
  | case6 p above e hfault hother => exact .refl t

/-- **Only directories that a path leads through are made** for it. -/
theorem changes_makeDirectories (t : FileTree) (p : Path) :
    t.Changes (t.makeDirectories p).1 (Path.Passes t.here p) fun _ _ => False := by
  rw [makeDirectories]
  split
  · exact .refl t
  · refine (changes_makeChain t _).imp ?_ fun _ _ h => h
    rintro l ⟨q, hq, rfl⟩
    rcases List.mem_cons.1 hq with rfl | hq
    · exact Path.passes_location t.here q
    · exact Path.passes_of_mem_above hq

end FileTree

end NativeHeaders
