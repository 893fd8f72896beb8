import NativeHeaders.ClassPath.Basic
import NativeHeaders.Files.Tree
import NativeHeaders.Proofs.Results

/-!
# What a lookup finds

A class path remembers the archives that it has opened, but what a lookup finds is a function of the
library, the files and the entries alone: the first answer, name after name and for each name entry
after entry (`lookUp`). What is remembered of an archive is what its file says, as long as the file
does not change (`IsSettled`), so it makes no difference whether the archive is opened once more. A
lookup changes nothing in a file tree, and it leaves a class path as good as it was
(`resolve_access`).
-/

set_option autoImplicit false

namespace NativeHeaders

namespace ClassPath

variable {α : Type} {library : ArchiveLibrary α}

/-! ## The answer -/

section Files

variable (library : ArchiveLibrary α) (read : Path → Except FileFault Bytes)

/-- The state that an archive gets when it is opened. -/
def archiveState (path : Path) : Except FileFault (ArchiveState α) :=
  match read path with
  | .error .notFound => .ok .missing
  | .error e => .error e
  | .ok bytes =>
    match library.ofBytes bytes with
    | .ok archive => .ok (.opened archive)
    | .error e => .error e.fileFault

/-- What an entry answers for a file. -/
def answerOf (name : String) : ClassPathEntry → Found
  | .directory path =>
    match read (fileBelow path name) with
    | .ok content => .ok (some content)
    | .error .notFound => .ok none
    | .error e => .error (.fault (.file e))
  | .archive path =>
    match archiveState library read path with
    | .error e => .error (.fault (.file e))
    | .ok state => findIn library state name

/-- The first answer that ends a lookup. -/
def firstAnswer : List Found → Found
  | [] => .ok none
  | .ok none :: others => firstAnswer others
  | found :: _ => found

/-- What is found for a class. -/
def lookUp (entries : List ClassPathEntry) (className : String) : Found :=
  firstAnswer ((candidates className).flatMap fun name =>
    entries.map (answerOf library read (name ++ ".class")))

/-- The class file that some entries give when a class is asked for. -/
def loadFrom (entries : List ClassPathEntry) (className : String) : Except Halt Bytes :=
  if Path.extension? className = some "class" then
    match read className with
    | .ok content => .ok content
    | .error e => .error (.fault (.file e))
  else
    match lookUp library read entries className with
    | .ok (some content) => .ok content
    | .ok none => .error (.fault (.notOnClassPath className))
    | .error e => .error e

/-- Whether what is known of an archive is what its file says. -/
def IsSettledSlot (slot : ClassPathSlot α) : Prop :=
  slot.state = .unopened
    ∨ ∃ path, slot.entry = .archive path ∧ archiveState library read path = .ok slot.state

/-- Whether all that is known of the archives of a class path is what their files say. -/
def IsSettled (cp : ClassPath α) : Prop := ∀ slot ∈ cp.slots, IsSettledSlot library read slot

end Files

theorem firstAnswer_append (founds founds' : List Found) :
    firstAnswer (founds ++ founds') =
      match firstAnswer founds with
      | .ok none => firstAnswer founds'
      | found => found := by
  fun_induction firstAnswer founds with
  | case1 => rfl
  | case2 others ih => exact ih
  | case3 found others hfound =>
    rcases found with e | _ | content
    · rfl
    · exact absurd rfl hfound
    · rfl

/-- A class path that has just been made knows nothing of its archives. -/
theorem isSettled_ofEntries (library : ArchiveLibrary α) (read : Path → Except FileFault Bytes)
    (entries : List ClassPathEntry) : (ofEntries entries).IsSettled library read := by
  intro slot hslot
  obtain ⟨entry, -, rfl⟩ := List.mem_map.1 hslot
  exact Or.inl rfl

@[simp] theorem entries_ofEntries (entries : List ClassPathEntry) :
    (ofEntries entries : ClassPath α).entries = entries := by
  rw [ClassPath.entries, ofEntries, List.map_map]
  exact List.map_id entries

/-- However it is asked for, a class path is made of entries alone. -/
theorem ofOption_eq_ofEntries (asked environment : Option String) :
    ∃ entries, ∀ α : Type, (ofOption asked environment : ClassPath α) = ofEntries entries := by
  unfold ofOption
  split
  · exact ⟨_, fun _ => rfl⟩
  · exact ⟨_, fun _ => rfl⟩
  · exact ⟨_, fun _ => rfl⟩

theorem isSettled_ofOption (library : ArchiveLibrary α) (read : Path → Except FileFault Bytes)
    (asked environment : Option String) :
    (ofOption asked environment).IsSettled library read := by
  obtain ⟨entries, hentries⟩ := ofOption_eq_ofEntries asked environment
  rw [hentries]
  exact isSettled_ofEntries library read entries

/-! ## Lookups in a tree -/

variable {t : FileTree}

theorem readDirectory_access (directory : Path) (name : String) (t : FileTree) :
    readDirectory FileTree.access.read directory name t
      = (answerOf library t.read name (.directory directory), t) := by
  have hstep : readDirectory FileTree.access.read directory name t
      = (match t.read (fileBelow directory name) with
        | .ok content => return .ok (some content)
        | .error .notFound => return .ok none
        | .error e => return .error (.fault (.file e)) : StateM FileTree Found) t := rfl
  rw [hstep, answerOf]
  rcases t.read (fileBelow directory name) with e | content
  · cases e <;> rfl
  · rfl

theorem openArchive_access {path : Path} {state : ArchiveState α}
    (h : state = .unopened ∨ archiveState library t.read path = .ok state) :
    openArchive library FileTree.access.read path state t
      = (archiveState library t.read path, t) := by
  have hopen : openArchive library FileTree.access.read path .unopened t
      = (archiveState library t.read path, t) := by
    have hstep : openArchive library FileTree.access.read path .unopened t
        = (match t.read path with
          | .error .notFound => return .ok .missing
          | .error e => return .error e
          | .ok bytes =>
            match library.ofBytes bytes with
            | .ok archive => return .ok (.opened archive)
            | .error e => return .error e.fileFault :
            StateM FileTree (Except FileFault (ArchiveState α))) t := rfl
    rw [hstep, archiveState]
    rcases t.read path with e | bytes
    · cases e <;> rfl
    · simp only
      cases library.ofBytes bytes <;> rfl
  -- an archive that was seen before is not read again, and its file still says the same
  cases state with
  | unopened => exact hopen
  | missing =>
    rcases h with h | h
    · contradiction
    · rw [h]
      rfl
  | opened archive =>
    rcases h with h | h
    · contradiction
    · rw [h]
      rfl

/-- An archive answers by what its file says, and what is known of it afterwards is that, unless it
cannot be opened. -/
theorem probe_archive (name : String) {path : Path} {state : ArchiveState α}
    (h : state = .unopened ∨ archiveState library t.read path = .ok state) :
    probe library FileTree.access.read name ⟨.archive path, state⟩ t =
      match archiveState library t.read path with
      | .error e => ((.error (.fault (.file e)), ⟨.archive path, state⟩), t)
      | .ok known => ((findIn library known name, ⟨.archive path, known⟩), t) := by
  have hopened := openArchive_access h
  rcases hopen : archiveState library t.read path with e | known
  · rw [hopen] at hopened
    exact bind_of_run hopened _
  · rw [hopen] at hopened
    exact bind_of_run hopened _

theorem IsSettledSlot.state_cases {path : Path} {state : ArchiveState α}
    (h : IsSettledSlot library t.read ⟨.archive path, state⟩) :
    state = .unopened ∨ archiveState library t.read path = .ok state := by
  rcases h with h | ⟨path', hpath, h⟩
  · exact Or.inl h
  · rw [← ClassPathEntry.archive.inj hpath] at h
    exact Or.inr h

theorem probe_access (name : String) {slot : ClassPathSlot α}
    (h : IsSettledSlot library t.read slot) :
    ∃ slot', probe library FileTree.access.read name slot t
        = ((answerOf library t.read name slot.entry, slot'), t)
      ∧ slot'.entry = slot.entry ∧ IsSettledSlot library t.read slot' := by
  obtain ⟨entry, state⟩ := slot
  cases entry with
  | directory path =>
    exact ⟨_, bind_of_run (readDirectory_access path name t) _, rfl, h⟩
  | archive path =>
    rw [probe_archive name h.state_cases, answerOf]
    rcases hopen : archiveState library t.read path with e | known
    · exact ⟨⟨.archive path, state⟩, rfl, rfl, h⟩
    · exact ⟨⟨.archive path, known⟩, rfl, rfl, Or.inr ⟨path, rfl, hopen⟩⟩

theorem probeAll_access (name : String) {slots : List (ClassPathSlot α)}
    (h : ∀ slot ∈ slots, IsSettledSlot library t.read slot) :
    ∃ slots', probeAll library FileTree.access.read name slots t
        = ((firstAnswer ((slots.map ClassPathSlot.entry).map (answerOf library t.read name)),
            slots'), t)
      ∧ slots'.map ClassPathSlot.entry = slots.map ClassPathSlot.entry
      ∧ ∀ slot ∈ slots', IsSettledSlot library t.read slot := by
  induction slots with
  | nil => exact ⟨[], rfl, rfl, h⟩
  | cons slot slots ih =>
    obtain ⟨slot', hprobe, hentry, hslot'⟩ :=
      probe_access name (h slot List.mem_cons_self)
    obtain ⟨slots', hprobes, hentries, hslots'⟩ :=
      ih fun other hother => h other (List.mem_cons_of_mem slot hother)
    have hsettled : ∀ others : List (ClassPathSlot α),
        (∀ other ∈ others, IsSettledSlot library t.read other) →
        ∀ other ∈ slot' :: others, IsSettledSlot library t.read other := by
      intro others hothers other hother
      rcases List.mem_cons.1 hother with rfl | hother
      · exact hslot'
      · exact hothers other hother
    have hslots := fun other hother => h other (List.mem_cons_of_mem slot hother)
    have hkept : (slot' :: slots).map ClassPathSlot.entry
        = (slot :: slots).map ClassPathSlot.entry := by
      rw [List.map_cons, List.map_cons, hentry]
    rw [List.map_cons, List.map_cons]
    generalize answerOf library t.read name slot.entry = found at hprobe
    rcases found with e | _ | content
    · exact ⟨slot' :: slots, bind_of_run hprobe _, hkept, hsettled slots hslots⟩
    · -- only here the entries behind are asked
      refine ⟨slot' :: slots', (bind_of_run hprobe _).trans (bind_of_run hprobes _), ?_,
        hsettled slots' hslots'⟩
      rw [List.map_cons, hentry, hentries]
    · exact ⟨slot' :: slots, bind_of_run hprobe _, hkept, hsettled slots hslots⟩

theorem search_access (names : List String) {slots : List (ClassPathSlot α)}
    (h : ∀ slot ∈ slots, IsSettledSlot library t.read slot) :
    ∃ slots', search library FileTree.access.read names slots t
        = ((firstAnswer (names.flatMap fun name =>
            (slots.map ClassPathSlot.entry).map (answerOf library t.read (name ++ ".class"))),
            slots'), t)
      ∧ slots'.map ClassPathSlot.entry = slots.map ClassPathSlot.entry
      ∧ ∀ slot ∈ slots', IsSettledSlot library t.read slot := by
  induction names generalizing slots with
  | nil => exact ⟨slots, rfl, rfl, h⟩
  | cons name names ih =>
    obtain ⟨slots', hprobe, hentries, hslots'⟩ := probeAll_access (name ++ ".class") h
    obtain ⟨slots'', hsearch, hentries', hslots''⟩ := ih hslots'
    rw [hentries] at hsearch
    rw [List.flatMap_cons, firstAnswer_append]
    generalize firstAnswer ((slots.map ClassPathSlot.entry).map
      (answerOf library t.read (name ++ ".class"))) = found at hprobe
    rcases found with e | _ | content
    · exact ⟨slots', bind_of_run hprobe _, hentries, hslots'⟩
    · exact ⟨slots'', (bind_of_run hprobe _).trans hsearch, hentries'.trans hentries, hslots''⟩
    · exact ⟨slots', bind_of_run hprobe _, hentries, hslots'⟩

/-- **What is found is a function of the files and the entries**: earlier lookups make no
difference, and nothing in the tree changes. -/
theorem find_access {cp : ClassPath α} (h : cp.IsSettled library t.read) (className : String) :
    ∃ cp', find library FileTree.access.read className cp t
        = ((lookUp library t.read cp.entries className, cp'), t)
      ∧ cp'.entries = cp.entries ∧ cp'.IsSettled library t.read := by
  obtain ⟨slots', hsearch, hentries, hslots'⟩ := search_access (candidates className) h
  exact ⟨⟨slots'⟩, bind_of_run hsearch _, hentries, hslots'⟩

/-- A class file is a function of the files and the entries, too. -/
theorem resolve_access {cp : ClassPath α} (h : cp.IsSettled library t.read) (className : String) :
    ∃ cp', resolve library FileTree.access.read className cp t
        = ((loadFrom library t.read cp.entries className, cp'), t)
      ∧ cp'.entries = cp.entries ∧ cp'.IsSettled library t.read := by
  by_cases hfile : Path.extension? className = some "class"
  · have hstep : resolve library FileTree.access.read className cp t
        = (match t.read className with
          | .ok content => return .ok content
          | .error e => return .error (.fault (.file e)) :
          StateT (ClassPath α) (StateM FileTree) (Except Halt Bytes)) cp t := by
      rw [resolve, if_pos hfile]
      rfl
    rw [hstep, loadFrom, if_pos hfile]
    cases t.read className with
    | ok content => exact ⟨cp, rfl, rfl, h⟩
    | error e => exact ⟨cp, rfl, rfl, h⟩
  · obtain ⟨cp', hfind, hentries, hsettled⟩ := find_access h className
    refine ⟨cp', ?_, hentries, hsettled⟩
    rw [resolve, if_neg hfile, loadFrom, if_neg hfile, bind_of_run₂ hfind]
    rcases lookUp library t.read cp.entries className with e | _ | content
    · rfl
    · rfl
    · rfl

end ClassPath

end NativeHeaders
