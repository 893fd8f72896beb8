import NativeHeaders.Header.Target
import NativeHeaders.Proofs.Files.Trees
import NativeHeaders.Proofs.Results

/-!
# What writing headers does to a file tree

Writing makes the directories that lead to the target, and gives contents to the files that the
target has for the headers; nothing else changes, whether it ends well or not (`changes_write`).

A file that was given its text is settled: to write the text again changes nothing. Headers in a
directory are written one after the other, and two of them may have one file name. When all of them
were written, a file is settled with the text of the last header of its name
(`settled_of_writeEach`): no later header touches it.
-/

set_option autoImplicit false

namespace NativeHeaders

namespace Target

/-- The directory that a target makes, if any: its own, or that of its file. -/
def folder? : Target → Option Path
  | directory path => some path
  | combined path => (Path.above path).head?

/-- The files that a target has for some headers, with their texts. -/
def files : Target → List Header → List (Path × String)
  | directory path, headers => headers.map fun h => (Path.join path h.fileName, h.text)
  | combined path, headers => [(path, Header.combinedText headers)]

/-- Whether a target may make a directory in a location, seen from a working directory. -/
def Makes (target : Target) (here l : List String) : Prop :=
  ∃ folder ∈ target.folder?, Path.Passes here folder l

/-- Whether a target may write a content to a location, seen from a working directory. -/
def Writes (target : Target) (headers : List Header) (here l : List String) (content : Bytes) :
    Prop :=
  ∃ file ∈ target.files headers, l = Path.location here file.1 ∧ content = bytesOf file.2

end Target

namespace FileTree

/-- Whether a file stores a text. -/
def Holds (t : FileTree) (file : Path × String) : Prop :=
  t.stored? file.1 = some (Target.bytesOf file.2)

instance (t : FileTree) (file : Path × String) : Decidable (t.Holds file) :=
  inferInstanceAs (Decidable (_ = _))

/-- Whether a text can be read from a path, or nothing changes when it is written there. -/
def Settled (t : FileTree) (file : Path × String) : Prop :=
  t.read file.1 = .ok (Target.bytesOf file.2) ∨ t.write file.1 (Target.bytesOf file.2) = .ok t

variable {t t' : FileTree} {file : Path × String}

/-- As long as its place stays as it is, so does a settled file. -/
theorem Settled.of_keeps (h : t.Settled file) (hkeeps : t.Keeps t')
    (hnode : t'.nodeAt (t.place file.1) = t.nodeAt (t.place file.1)) : t'.Settled file := by
  rcases h with h | h
  · obtain ⟨node, hbefore, hcontent⟩ := exists_nodeAt_of_read h
    exact Or.inl ((read_of_keeps hkeeps h (hnode.trans hbefore)).trans hcontent)
  · exact Or.inr (write_of_keeps hkeeps h hnode)

/-- **What is settled is stored**, unless the path names the null device. -/
theorem Settled.holds_or_isNull (h : t.Settled file) : t.Holds file ∨ t.IsNull file.1 := by
  rw [Holds, stored?, IsNull]
  rcases h with h | h
  · obtain ⟨node, hnode, hcontent⟩ := exists_nodeAt_of_read h
    rw [hnode]
    rcases FileNode.content_eq_ok_iff.1 hcontent with ⟨hstored, -⟩ | ⟨rfl, -⟩
    · exact Or.inl hstored
    · exact Or.inr rfl
  · obtain ⟨-, -, node, hnode, hsame⟩ := write_eq_ok_iff.1 h
    have hheld := nodeAt_insert_self (ne_nil_of_overwrite hnode) t node
    rw [← hsame] at hheld
    rw [hheld]
    rcases FileNode.stored?_or_null_of_overwrite hnode with hstored | rfl
    · exact Or.inl hstored
    · exact Or.inr rfl

end FileTree

namespace Target

variable {t t' : FileTree}

/-! ## One file -/

theorem writeIfChanged_access (p : Path) (text : String) (t : FileTree) :
    writeIfChanged FileTree.access p text t =
      if (t.read p).toOption = some (bytesOf text) then (.ok false, t)
      else
        match t.write p (bytesOf text) with
        | .ok t' => (.ok true, t')
        | .error fault => (.error (.fileNotWritten p fault), t) := by
  have hread : FileTree.access.read p t = (t.read p, t) := rfl
  rw [writeIfChanged, bind_of_run hread]
  split
  · rfl
  · rcases hwrite : t.write p (bytesOf text) with fault | t'
    · have hstep : FileTree.access.write p (bytesOf text) t = (.error fault, t) := by
        simp only [FileTree.access, hwrite]
      exact bind_of_run hstep _
    · have hstep : FileTree.access.write p (bytesOf text) t = (.ok (), t') := by
        simp only [FileTree.access, hwrite]
      exact bind_of_run hstep _

theorem changes_writeIfChanged (p : Path) (text : String) (t : FileTree) :
    t.Changes (writeIfChanged FileTree.access p text t).2 (fun _ => False)
      fun l content => l = t.place p ∧ content = bytesOf text := by
  rw [writeIfChanged_access]
  split
  · exact .refl t
  · rcases hwrite : t.write p (bytesOf text) with fault | t'
    · exact .refl t
    · exact FileTree.changes_write hwrite

/-- A file was either left alone or written. -/
theorem writeIfChanged_eq_ok_iff {p : Path} {text : String} {written : Bool} :
    writeIfChanged FileTree.access p text t = (.ok written, t')
      ↔ (t.read p = .ok (bytesOf text) ∧ written = false ∧ t' = t)
        ∨ (t.read p ≠ .ok (bytesOf text) ∧ written = true ∧ t.write p (bytesOf text) = .ok t') := by
  have hread : (t.read p).toOption = some (bytesOf text) ↔ t.read p = .ok (bytesOf text) := by
    rcases t.read p with fault | content
    · simp [Except.toOption]
    · simp [Except.toOption]
  rw [writeIfChanged_access]
  by_cases hsame : t.read p = .ok (bytesOf text)
  · rw [if_pos (hread.2 hsame)]
    constructor
    · intro h
      obtain ⟨hwritten, rfl⟩ := Prod.mk.inj h
      exact Or.inl ⟨hsame, (Except.ok.inj hwritten).symm, rfl⟩
    · rintro (⟨-, rfl, rfl⟩ | ⟨hdiffers, -⟩)
      · rfl
      · exact absurd hsame hdiffers
  · rw [if_neg (mt hread.1 hsame)]
    rcases t.write p (bytesOf text) with fault | t''
    · constructor
      · intro h
        exact absurd (Prod.mk.inj h).1 (by simp)
      · rintro (⟨h, -⟩ | ⟨-, -, h⟩)
        · exact absurd h hsame
        · contradiction
    · constructor
      · intro h
        obtain ⟨hwritten, rfl⟩ := Prod.mk.inj h
        exact Or.inr ⟨hsame, (Except.ok.inj hwritten).symm, rfl⟩
      · rintro (⟨h, -⟩ | ⟨-, rfl, h⟩)
        · exact absurd h hsame
        · rw [Except.ok.inj h]

/-- Afterwards the file is settled, also where it was before. -/
theorem settled_of_writeIfChanged {p : Path} {text : String} {written : Bool}
    (h : writeIfChanged FileTree.access p text t = (.ok written, t')) : t'.Settled (p, text) := by
  rcases writeIfChanged_eq_ok_iff.1 h with ⟨hread, -, rfl⟩ | ⟨-, -, hwrite⟩
  · exact Or.inl hread
  · exact Or.inr (FileTree.write_again hwrite)

/-! ## One header after the other -/

theorem writeEach_cons (directory : Path) (header : Header) (headers : List Header)
    (t : FileTree) :
    writeEach FileTree.access directory (header :: headers) t =
      match writeIfChanged FileTree.access (Path.join directory header.fileName) header.text t with
      | (.error e, t') => (.error e, t')
      | (.ok written, t') =>
        match writeEach FileTree.access directory headers t' with
        | (.error e, t'') => (.error e, t'')
        | (.ok paths, t'') =>
          (.ok (if written then Path.join directory header.fileName :: paths else paths), t'') := by
  rcases hwritten : writeIfChanged FileTree.access (Path.join directory header.fileName)
    header.text t with ⟨e | written, t'⟩
  · exact bind_of_run hwritten _
  · simp only
    rcases heach : writeEach FileTree.access directory headers t' with ⟨e | paths, t''⟩
    · exact (bind_of_run hwritten _).trans (bind_of_run heach _)
    · exact (bind_of_run hwritten _).trans (bind_of_run heach _)

theorem changes_writeEach (directory : Path) (headers : List Header) (t : FileTree) :
    t.Changes (writeEach FileTree.access directory headers t).2 (fun _ => False)
      ((Target.directory directory).Writes headers t.here) := by
  induction headers generalizing t with
  | nil => exact .refl t
  | cons header headers ih =>
    have hfirst : t.Changes
        (writeIfChanged FileTree.access (Path.join directory header.fileName) header.text t).2
        (fun _ => False) ((Target.directory directory).Writes (header :: headers) t.here) := by
      refine (changes_writeIfChanged _ _ t).imp (fun _ h => h) ?_
      intro l content hfile
      exact ⟨_, List.mem_cons_self, hfile⟩
    rw [writeEach_cons]
    rcases hwritten : writeIfChanged FileTree.access (Path.join directory header.fileName)
      header.text t with ⟨e | written, t'⟩
    · rw [hwritten] at hfirst
      exact hfirst
    · rw [hwritten] at hfirst
      have hrest : t'.Changes (writeEach FileTree.access directory headers t').2 (fun _ => False)
          ((Target.directory directory).Writes (header :: headers) t.here) := by
        refine (ih t').imp (fun _ h => h) ?_
        rintro l content ⟨file, hfile, hcontent⟩
        rw [hfirst.here_eq] at hcontent
        exact ⟨file, List.mem_cons_of_mem _ hfile, hcontent⟩
      simp only
      rcases heach : writeEach FileTree.access directory headers t' with ⟨e | paths, t''⟩
      · rw [heach] at hrest
        exact hfirst.trans hrest
      · rw [heach] at hrest
        exact hfirst.trans hrest

/-- The last of some headers that has a file name. -/
def lastNamed (headers : List Header) (name : String) : Option Header :=
  (headers.filter fun h => h.fileName = name).getLast?

theorem lastNamed_cons (header : Header) (headers : List Header) (name : String) :
    lastNamed (header :: headers) name
      = (lastNamed headers name).or (if header.fileName = name then some header else none) := by
  by_cases h : header.fileName = name
  · rw [lastNamed, List.filter_cons_of_pos (by simpa using h), if_pos h]
    rw [List.getLast?_cons, lastNamed]
    generalize (headers.filter fun h => h.fileName = name).getLast? = last
    cases last with
    | none => rfl
    | some last => rfl
  · rw [lastNamed, List.filter_cons_of_neg (by simpa using h), if_neg h, Option.or_none, lastNamed]

theorem lastNamed_eq_none_iff {headers : List Header} {name : String} :
    lastNamed headers name = none ↔ ∀ h ∈ headers, h.fileName ≠ name := by
  rw [lastNamed, List.getLast?_eq_none_iff, List.filter_eq_nil_iff]
  simp

/-- When headers were written, so were the first of them and then the others. -/
theorem exists_of_writeEach_cons {directory : Path} {header : Header} {headers : List Header}
    {paths : List Path}
    (h : writeEach FileTree.access directory (header :: headers) t = (.ok paths, t')) :
    ∃ written t₁ paths',
      writeIfChanged FileTree.access (Path.join directory header.fileName) header.text t
        = (.ok written, t₁)
      ∧ writeEach FileTree.access directory headers t₁ = (.ok paths', t')
      ∧ paths = if written then Path.join directory header.fileName :: paths' else paths' := by
  rw [writeEach_cons] at h
  rcases hwritten : writeIfChanged FileTree.access (Path.join directory header.fileName)
    header.text t with ⟨e | written, t₁⟩
  · rw [hwritten] at h
    exact absurd (Prod.mk.inj h).1 (by simp)
  · rw [hwritten] at h
    simp only at h
    rcases heach : writeEach FileTree.access directory headers t₁ with ⟨e | paths', t₂⟩
    · rw [heach] at h
      exact absurd (Prod.mk.inj h).1 (by simp)
    · rw [heach] at h
      obtain ⟨hpaths, rfl⟩ := Prod.mk.inj h
      exact ⟨written, t₁, paths', rfl, heach, (Except.ok.inj hpaths).symm⟩

/-- **The last header of a name is what its file holds**, once all headers were written. -/
theorem settled_of_writeEach {directory : Path} {headers : List Header} {paths : List Path}
    (hnames : ∀ h ∈ headers, Path.IsName h.fileName)
    (h : writeEach FileTree.access directory headers t = (.ok paths, t')) {name : String}
    {last : Header} (hlast : lastNamed headers name = some last) :
    t'.Settled (Path.join directory name, last.text) := by
  induction headers generalizing t paths with
  | nil => contradiction
  | cons header headers ih =>
    have hlater := fun h hmem => hnames h (List.mem_cons_of_mem header hmem)
    obtain ⟨written, t₁, paths', hwritten, heach, -⟩ := exists_of_writeEach_cons h
    rw [lastNamed_cons] at hlast
    -- a later header of the name counts, and the induction is about that one
    rcases hrest : lastNamed headers name with _ | later
    · -- no later header has the name, so none of them is written to the same place
      rw [hrest, Option.none_or] at hlast
      have hname : header.fileName = name := by
        by_contra hne
        rw [if_neg hne] at hlast
        contradiction
      rw [if_pos hname, Option.some.injEq] at hlast
      subst hlast
      have hsettled := settled_of_writeIfChanged hwritten
      rw [hname] at hsettled
      have hchanges := changes_writeEach directory headers t₁
      rw [heach] at hchanges
      refine hsettled.of_keeps hchanges.keeps (hchanges.nodeAt_eq id ?_)
      rintro other ⟨file, hfile, hplace, -⟩
      obtain ⟨g, hg, rfl⟩ := List.mem_map.1 hfile
      rw [FileTree.place, Path.location_join (hlater g hg),
        Path.location_join (hname ▸ hnames header List.mem_cons_self),
        List.append_cancel_left_eq, List.cons.injEq] at hplace
      exact lastNamed_eq_none_iff.1 hrest g hg hplace.1.symm
    · rw [hrest, Option.some_or, Option.some.injEq] at hlast
      exact ih hlater heach (hrest.trans (congrArg _ hlast))

/-! ## Targets -/

theorem within_access {α : Type} (p : Path) (next : StateM FileTree (Except WriteError α))
    (t : FileTree) :
    within FileTree.access p next t =
      match t.makeDirectories p with
      | (t', .error fault) => (.error (.directoryNotMade p fault), t')
      | (t', .ok ()) => next t' := by
  rw [within]
  rcases hmake : t.makeDirectories p with ⟨t', fault | ⟨⟩⟩
  · have hstep : FileTree.access.makeDirectories p t = (.error fault, t') := by
      simp only [FileTree.access, hmake]
    exact bind_of_run hstep _
  · have hstep : FileTree.access.makeDirectories p t = (.ok (), t') := by
      simp only [FileTree.access, hmake]
    exact bind_of_run hstep _

theorem changes_within {α : Type} {made : List String → Prop}
    {written : List String → Bytes → Prop} {p : Path}
    {next : StateM FileTree (Except WriteError α)} {t : FileTree}
    (hmade : ∀ l, Path.Passes t.here p l → made l)
    (hnext : ∀ t' : FileTree, t'.here = t.here → t'.Changes (next t').2 made written) :
    t.Changes (within FileTree.access p next t).2 made written := by
  -- also when the directory cannot be made, those on the way to it may have been
  have hmake : t.Changes (t.makeDirectories p).1 made written :=
    (FileTree.changes_makeDirectories t p).imp hmade fun _ _ h => False.elim h
  rw [within_access]
  rcases hdirectories : t.makeDirectories p with ⟨t', fault | ⟨⟩⟩
  · rw [hdirectories] at hmake
    exact hmake
  · rw [hdirectories] at hmake
    exact hmake.trans (hnext t' hmake.here_eq)

theorem changes_writeCombined (p : Path) (headers : List Header) (t : FileTree) :
    t.Changes (writeCombined FileTree.access p headers t).2 (fun _ => False)
      ((Target.combined p).Writes headers t.here) := by
  have hfile : t.Changes (writeIfChanged FileTree.access p (Header.combinedText headers) t).2
      (fun _ => False) ((Target.combined p).Writes headers t.here) := by
    refine (changes_writeIfChanged p _ t).imp (fun _ h => h) ?_
    intro l content hcontent
    exact ⟨_, List.mem_cons_self, hcontent⟩
  unfold writeCombined
  rcases hwritten : writeIfChanged FileTree.access p (Header.combinedText headers) t with
    ⟨e | written, t'⟩
  · rw [bind_of_run hwritten]
    rw [hwritten] at hfile
    exact hfile
  · rw [bind_of_run hwritten]
    rw [hwritten] at hfile
    exact hfile

/-- **Writing changes nothing else** than the directories on the way to the target, which it makes,
and the files of the headers, whether it ends well or not. -/
theorem changes_write (target : Target) (headers : List Header) (t : FileTree) :
    t.Changes (target.write FileTree.access headers t).2 (target.Makes t.here)
      (target.Writes headers t.here) := by
  cases target with
  | directory p =>
    refine changes_within (fun l hl => ⟨p, rfl, hl⟩) fun t' hhere => ?_
    rw [← hhere]
    exact (changes_writeEach p headers t').imp (fun _ h => False.elim h) fun _ _ h => h
  | combined p =>
    have hfile : ∀ t' : FileTree, t'.here = t.here →
        t'.Changes (writeCombined FileTree.access p headers t').2 ((combined p).Makes t.here)
          ((combined p).Writes headers t.here) := by
      intro t' hhere
      rw [← hhere]
      exact (changes_writeCombined p headers t').imp (fun _ h => False.elim h) fun _ _ h => h
    rw [write]
    rcases habove : Path.above p with _ | ⟨parent, others⟩
    · exact hfile t rfl
    · have hparent : parent ∈ (combined p).folder? := by
        rw [folder?, habove]
        rfl
      exact changes_within (fun l hl => ⟨parent, hparent, hl⟩) hfile

/-- When headers were written into a directory, each of them was. -/
theorem exists_writeEach_of_write {directory : Path} {headers : List Header} {paths : List Path}
    (h : (Target.directory directory).write FileTree.access headers t = (.ok paths, t')) :
    ∃ t₁, writeEach FileTree.access directory headers t₁ = (.ok paths, t') := by
  rw [write, within_access] at h
  rcases hmake : t.makeDirectories directory with ⟨t₁, fault | ⟨⟩⟩
  · rw [hmake] at h
    exact absurd (Prod.mk.inj h).1 (by simp)
  · rw [hmake] at h
    exact ⟨t₁, h⟩

end Target

end NativeHeaders
