import NativeHeaders.Proofs.ClassPath.Candidates
import NativeHeaders.Proofs.ClassPath.Entries
import NativeHeaders.Proofs.ClassPath.Histories

/-!
# Where a class is looked for

A class has several file names and a class path several entries, and each name is tried in every
entry before the next name is (`attempts`). An attempt ends in one of four ways: the entry holds the
file (`Holds`), it does not have it (`Lacks`), something is wrong with it (`Fails`), or the file is
declared to be larger than memory can be, which ends the program (`Panics`). The first attempt that
does not end in the second way decides what is found, and where there is none, nothing is
(`found_in_search_order`).

What is looked at on the way is told by a log of the paths that are read (`probed`): the archives of
the class path, and files below its directories. The lemmas on the log go through the search as the
search goes through its programs, and need to know nothing of what the files hold.
-/

set_option autoImplicit false

namespace NativeHeaders

namespace ClassPath

/-! ## Attempts -/

/-- A file name that is tried in an entry. -/
structure Attempt where
  file : String
  entry : ClassPathEntry
deriving DecidableEq

/-- The attempts to find a class in some entries, in order: the entries are gone through for each of
its names. -/
def attempts (entries : List ClassPathEntry) (className : String) : List Attempt :=
  (candidates className).flatMap fun name => entries.map fun entry => ⟨name ++ ".class", entry⟩

variable {α : Type}

section Outcomes

variable (library : ArchiveLibrary α) (read : Path → Except FileFault Bytes)

/-- Whether an archive can be opened and lists a file. -/
def Lists (path : Path) (file : String) (f : ArchivedFile) : Prop :=
  ∃ bytes archive, read path = .ok bytes ∧ library.ofBytes bytes = .ok archive
    ∧ library.member archive file = .ok f

/-- Whether an entry holds the file that is tried in it, and with which content. -/
inductive Holds : Attempt → Bytes → Prop
  | file {path : Path} {file : String} {content : Bytes}
      (hread : read (fileBelow path file) = .ok content) : Holds ⟨file, .directory path⟩ content
  | member {path : Path} {file : String} {content : Bytes} {f : ArchivedFile}
      (hlists : Lists library read path file f) (hcontent : f.content = .ok content) :
      Holds ⟨file, .archive path⟩ content

/-- Whether an entry does not have the file that is tried in it. -/
inductive Lacks : Attempt → Prop
  | noFile {path : Path} {file : String} (hread : read (fileBelow path file) = .error .notFound) :
      Lacks ⟨file, .directory path⟩
  | noArchive {path : Path} {file : String} (hread : read path = .error .notFound) :
      Lacks ⟨file, .archive path⟩
  | noMember {path : Path} {file : String} {bytes : Bytes} {archive : α}
      (hread : read path = .ok bytes) (harchive : library.ofBytes bytes = .ok archive)
      (hmember : library.member archive file = .error .noMember) : Lacks ⟨file, .archive path⟩

/-- Whether something is wrong with an entry or with the file that is tried in it, and what. That a
file is not there is nothing wrong. -/
inductive Fails : Attempt → FileFault → Prop
  | file {path : Path} {file : String} {fault : FileFault}
      (hread : read (fileBelow path file) = .error fault) (hfault : fault ≠ .notFound) :
      Fails ⟨file, .directory path⟩ fault
  | archive {path : Path} {file : String} {fault : FileFault} (hread : read path = .error fault)
      (hfault : fault ≠ .notFound) : Fails ⟨file, .archive path⟩ fault
  | damaged {path : Path} {file : String} {bytes : Bytes} {fault : ArchiveFault}
      (hread : read path = .ok bytes) (harchive : library.ofBytes bytes = .error fault) :
      Fails ⟨file, .archive path⟩ fault.fileFault
  | member {path : Path} {file : String} {bytes : Bytes} {archive : α} {fault : ArchiveFault}
      (hread : read path = .ok bytes) (harchive : library.ofBytes bytes = .ok archive)
      (hmember : library.member archive file = .error fault) (hfault : fault ≠ .noMember) :
      Fails ⟨file, .archive path⟩ fault.fileFault
  | content {path : Path} {file : String} {f : ArchivedFile} {fault : FileFault}
      (hlists : Lists library read path file f) (hcontent : f.content = .error fault) :
      Fails ⟨file, .archive path⟩ fault

/-- Whether an archive declares the file that is tried in it to be larger than memory can be. -/
inductive Panics : Attempt → Prop
  | oversized {path : Path} {file : String} {f : ArchivedFile}
      (hlists : Lists library read path file f) (hsize : maxCapacity < f.size) :
      Panics ⟨file, .archive path⟩

/-- The answer to an attempt. -/
def Attempt.answer (a : Attempt) : Found := answerOf library read a.file a.entry

/-- How an attempt may end, and what is answered to it. -/
inductive Attempt.Ends (a : Attempt) : Found → Prop
  | holds {content : Bytes} (h : Holds library read a content) (hsize : ¬ Panics library read a) :
      Ends a (.ok (some content))
  | lacks (h : Lacks library read a) : Ends a (.ok none)
  | fails {fault : FileFault} (h : Fails library read a fault) (hsize : ¬ Panics library read a) :
      Ends a (.error (.fault (.file fault)))
  | panics (h : Panics library read a) : Ends a (.error .panic)

end Outcomes

section Answers

variable {library : ArchiveLibrary α} {read : Path → Except FileFault Bytes} {a : Attempt}
  {path : Path} {file : String} {f : ArchivedFile}

theorem answerOf_of_lists (h : Lists library read path file f) :
    answerOf library read file (.archive path) = f.load.map some := by
  obtain ⟨bytes, archive, hread, harchive, hmember⟩ := h
  simp only [answerOf, archiveState, hread, harchive, findIn, hmember]

/-- An archive lists a file once. -/
theorem panics_iff (h : Lists library read path file f) :
    Panics library read ⟨file, .archive path⟩ ↔ maxCapacity < f.size := by
  refine ⟨?_, .oversized h⟩
  rintro ⟨h', hsize⟩
  obtain ⟨bytes, archive, hread, harchive, hmember⟩ := h
  obtain ⟨bytes', archive', hread', harchive', hmember'⟩ := h'
  obtain rfl := Except.ok.inj (hread.symm.trans hread')
  obtain rfl := Except.ok.inj (harchive.symm.trans harchive')
  obtain rfl := Except.ok.inj (hmember.symm.trans hmember')
  exact hsize

theorem not_panics_directory : ¬ Panics library read ⟨file, .directory path⟩ := nofun

theorem not_panics_archive (h : ∀ f, ¬ Lists library read path file f) :
    ¬ Panics library read ⟨file, .archive path⟩ := by
  rintro ⟨hlists, -⟩
  exact h _ hlists

theorem ends_of_lists (h : Lists library read path file f) :
    Attempt.Ends library read ⟨file, .archive path⟩ (f.load.map some) := by
  by_cases hsize : maxCapacity < f.size
  · rw [ArchivedFile.load, if_pos hsize]
    exact .panics (.oversized h hsize)
  · have hnot : ¬ Panics library read ⟨file, .archive path⟩ := mt (panics_iff h).1 hsize
    rw [ArchivedFile.load, if_neg hsize]
    cases hcontent : f.content with
    | ok content => exact .holds (.member h hcontent) hnot
    | error fault => exact .fails (.content h hcontent) hnot

/-- **How an attempt ends.** The cases are those of the answer, one read or one call of the library
after the other. -/
theorem ends_answer (a : Attempt) : a.Ends library read (a.answer library read) := by
  obtain ⟨file, entry⟩ := a
  cases entry with
  | directory path =>
    rw [Attempt.answer, answerOf]
    cases hread : read (fileBelow path file) with
    | ok content => exact .holds (.file hread) not_panics_directory
    | error fault =>
      by_cases hfault : fault = .notFound
      · subst hfault
        exact .lacks (.noFile hread)
      · simp only
        exact .fails (.file hread hfault) not_panics_directory
  | archive path =>
    -- the file is read, the archive is opened and the member is asked for, and each may fail
    rw [Attempt.answer]
    cases hread : read path with
    | error fault =>
      by_cases hfault : fault = .notFound
      · subst hfault
        simp only [answerOf, archiveState, hread, findIn]
        exact .lacks (.noArchive hread)
      · simp only [answerOf, archiveState, hread]
        exact .fails (.archive hread hfault) (not_panics_archive (by simp [Lists, hread]))
    | ok bytes =>
      cases harchive : library.ofBytes bytes with
      | error fault =>
        simp only [answerOf, archiveState, hread, harchive]
        exact .fails (.damaged hread harchive)
          (not_panics_archive (by simp [Lists, hread, harchive]))
      | ok archive =>
        cases hmember : library.member archive file with
        | ok f =>
          have hlists : Lists library read path file f := ⟨bytes, archive, hread, harchive, hmember⟩
          rw [answerOf_of_lists hlists]
          exact ends_of_lists hlists
        | error fault =>
          by_cases hfault : fault = .noMember
          · subst hfault
            simp only [answerOf, archiveState, hread, harchive, findIn, hmember]
            exact .lacks (.noMember hread harchive hmember)
          · simp only [answerOf, archiveState, hread, harchive, findIn, hmember]
            exact .fails (.member hread harchive hmember hfault)
              (not_panics_archive (by simp [Lists, hread, harchive, hmember]))

/-- An attempt ends in one way only. -/
theorem answer_eq_of_ends {found : Found} (h : a.Ends library read found) :
    a.answer library read = found := by
  have hlists : ∀ {path : Path} {file : String} {f : ArchivedFile},
      Lists library read path file f → ¬ Panics library read ⟨file, .archive path⟩ →
      answerOf library read file (.archive path)
        = (f.content.mapError fun e => Halt.fault (.file e)).map some := by
    intro path file f hlists hsize
    rw [answerOf_of_lists hlists, ArchivedFile.load, if_neg (mt (panics_iff hlists).2 hsize)]
    cases f.content <;> rfl
  rw [Attempt.answer]
  cases h with
  | holds h hsize =>
    cases h with
    | file hread => simp only [answerOf, hread]
    | member h hcontent =>
      rw [hlists h hsize, hcontent]
      rfl
  | lacks h =>
    cases h with
    | noFile hread => simp only [answerOf, hread]
    | noArchive hread => simp only [answerOf, archiveState, hread, findIn]
    | noMember hread harchive hmember =>
      simp only [answerOf, archiveState, hread, harchive, findIn, hmember]
  | fails h hsize =>
    cases h with
    | file hread hfault => simp only [answerOf, hread]
    | archive hread hfault => simp only [answerOf, archiveState, hread]
    | damaged hread harchive => simp only [answerOf, archiveState, hread, harchive]
    | member hread harchive hmember hfault =>
      simp only [answerOf, archiveState, hread, harchive, findIn, hmember]
    | content h hcontent =>
      rw [hlists h hsize, hcontent]
      rfl
  | panics h =>
    obtain ⟨h, hsize⟩ := h
    rw [answerOf_of_lists h, ArchivedFile.load, if_pos hsize]
    rfl

theorem answer_eq_iff {found : Found} : a.answer library read = found ↔ a.Ends library read found :=
  ⟨fun h => h ▸ ends_answer a, answer_eq_of_ends⟩

theorem answer_eq_content_iff {content : Bytes} :
    a.answer library read = .ok (some content)
      ↔ Holds library read a content ∧ ¬ Panics library read a := by
  rw [answer_eq_iff]
  constructor
  · rintro ⟨⟩
    exact ⟨‹_›, ‹_›⟩
  · rintro ⟨h, hsize⟩
    exact .holds h hsize

theorem answer_eq_none_iff : a.answer library read = .ok none ↔ Lacks library read a := by
  rw [answer_eq_iff]
  constructor
  · rintro ⟨⟩
    assumption
  · exact .lacks

theorem answer_eq_fault_iff {e : LoadFault} :
    a.answer library read = .error (.fault e)
      ↔ ∃ fault, e = .file fault ∧ Fails library read a fault ∧ ¬ Panics library read a := by
  rw [answer_eq_iff]
  constructor
  · rintro ⟨⟩
    exact ⟨_, rfl, ‹_›, ‹_›⟩
  · rintro ⟨fault, rfl, h, hsize⟩
    exact .fails h hsize

theorem answer_eq_panic_iff : a.answer library read = .error .panic ↔ Panics library read a := by
  rw [answer_eq_iff]
  constructor
  · rintro ⟨⟩
    assumption
  · exact .panics

end Answers

/-! ## The first attempt that counts -/

/-- Whether all items before an item of a list are passed over. -/
def IsFirst {β : Type} (passed : β → Prop) (as : List β) (a : β) : Prop :=
  ∃ front back, as = front ++ a :: back ∧ ∀ earlier ∈ front, passed earlier

section First

variable {β : Type} {f : β → Found} {as : List β}

theorem firstAnswer_cons_of_ne {found : Found} (h : found ≠ .ok none) (others : List Found) :
    firstAnswer (found :: others) = found := by
  rcases found with e | _ | content
  · rfl
  · exact absurd rfl h
  · rfl

theorem firstAnswer_map_eq_none_iff :
    firstAnswer (as.map f) = .ok none ↔ ∀ a ∈ as, f a = .ok none := by
  induction as with
  | nil => simp [firstAnswer]
  | cons a as ih =>
    rw [List.map_cons, List.forall_mem_cons]
    rcases f a with e | _ | content
    · simp [firstAnswer]
    · simp [firstAnswer, ih]
    · simp [firstAnswer]

/-- What ends a lookup is the answer of an item, and all items before it were passed over. -/
theorem firstAnswer_map_eq_iff {found : Found} (h : found ≠ .ok none) :
    firstAnswer (as.map f) = found
      ↔ ∃ a, IsFirst (fun earlier => f earlier = .ok none) as a ∧ f a = found := by
  constructor
  · induction as with
    | nil => exact fun hfound => absurd hfound.symm h
    | cons a as ih =>
      intro hfound
      -- an item that is passed over comes before the one that counts among the others
      by_cases ha : f a = .ok none
      · rw [List.map_cons, ha, firstAnswer] at hfound
        obtain ⟨b, ⟨front, back, rfl, hfront⟩, hb⟩ := ih hfound
        exact ⟨b, ⟨a :: front, back, rfl, List.forall_mem_cons.2 ⟨ha, hfront⟩⟩, hb⟩
      · refine ⟨a, ⟨[], as, rfl, by simp⟩, ?_⟩
        rw [← hfound, List.map_cons]
        exact (firstAnswer_cons_of_ne ha _).symm
  · rintro ⟨a, ⟨front, back, rfl, hfront⟩, rfl⟩
    rw [List.map_append, firstAnswer_append, firstAnswer_map_eq_none_iff.2 hfront, List.map_cons]
    exact firstAnswer_cons_of_ne h _

end First

theorem lookUp_eq (library : ArchiveLibrary α) (read : Path → Except FileFault Bytes)
    (entries : List ClassPathEntry) (className : String) :
    lookUp library read entries className
      = firstAnswer ((attempts entries className).map (Attempt.answer library read)) := by
  rw [lookUp, attempts, List.map_flatMap]
  simp only [List.map_map]
  rfl

/-! ## What is read on the way -/

/-- Reading that keeps a log of the paths that were read. -/
def logged (read : Path → Except FileFault Bytes) (path : Path) :
    StateM (List Path) (Except FileFault Bytes) := fun log => (read path, log ++ [path])

/-- The paths that a class path reads when it looks for a class. -/
def probed (library : ArchiveLibrary α) (read : Path → Except FileFault Bytes) (cp : ClassPath α)
    (className : String) : List Path :=
  (find library (logged read) className cp []).2

/-- The path that is read for an attempt. -/
def Attempt.path (a : Attempt) : Path :=
  match a.entry with
  | .directory directory => fileBelow directory a.file
  | .archive path => path

/-- Whether a program adds nothing to the log but paths of some kind, and what its result is
like. -/
def Visits {β : Type} (P : Path → Prop) (Q : β → Prop) (x : StateM (List Path) β) : Prop :=
  ∀ log, Q (x log).1 ∧ ∃ more, (x log).2 = log ++ more ∧ ∀ p ∈ more, P p

section Visits

variable {β γ : Type} {P : Path → Prop} {library : ArchiveLibrary α}
  {read : Path → Except FileFault Bytes}

theorem Visits.pure {Q : β → Prop} {a : β} (h : Q a) : Visits P Q (Pure.pure a) :=
  fun log => ⟨h, [], (List.append_nil log).symm, by simp⟩

theorem Visits.bind {Q : β → Prop} {R : γ → Prop} {x : StateM (List Path) β}
    {f : β → StateM (List Path) γ} (hx : Visits P Q x) (hf : ∀ a, Q a → Visits P R (f a)) :
    Visits P R (x >>= f) := by
  intro log
  obtain ⟨hQ, more, hmore, hP⟩ := hx log
  obtain ⟨hR, others, hothers, hP'⟩ := hf (x log).1 hQ (x log).2
  refine ⟨hR, more ++ others, ?_, ?_⟩
  · have hrun : ((x >>= f) log).2 = (f (x log).1 (x log).2).2 := rfl
    rw [hrun, hothers, hmore, List.append_assoc]
  · intro p hp
    rcases List.mem_append.1 hp with hp | hp
    · exact hP p hp
    · exact hP' p hp

theorem visits_logged {path : Path} (h : P path) : Visits P (fun _ => True) (logged read path) :=
  fun _ => ⟨trivial, [path], rfl, by simpa using h⟩

theorem visits_readDirectory {directory : Path} {file : String}
    (h : P (fileBelow directory file)) :
    Visits P (fun _ => True) (readDirectory (logged read) directory file) := by
  refine Visits.bind (visits_logged h) fun content _ => ?_
  split
  · exact Visits.pure trivial
  · exact Visits.pure trivial
  · exact Visits.pure trivial

theorem visits_openArchive {path : Path} (h : P path) (state : ArchiveState α) :
    Visits P (fun _ => True) (openArchive library (logged read) path state) := by
  unfold openArchive
  split
  · refine Visits.bind (visits_logged h) fun content _ => ?_
    split
    · exact Visits.pure trivial
    · exact Visits.pure trivial
    · split
      · exact Visits.pure trivial
      · exact Visits.pure trivial
  · exact Visits.pure trivial

/-- An entry stays what it is, whatever is learned of it. -/
theorem visits_probe {file : String} {slot : ClassPathSlot α}
    (h : P (Attempt.path ⟨file, slot.entry⟩)) :
    Visits P (fun result => result.2.entry = slot.entry)
      (probe library (logged read) file slot) := by
  obtain ⟨entry, state⟩ := slot
  cases entry with
  | directory directory =>
    exact Visits.bind (visits_readDirectory h) fun found _ => Visits.pure rfl
  | archive path =>
    refine Visits.bind (visits_openArchive h state) fun opened _ => ?_
    split
    · exact Visits.pure rfl
    · exact Visits.pure rfl

theorem visits_probeAll {file : String} {slots : List (ClassPathSlot α)}
    (h : ∀ entry ∈ slots.map ClassPathSlot.entry, P (Attempt.path ⟨file, entry⟩)) :
    Visits P (fun result => result.2.map ClassPathSlot.entry = slots.map ClassPathSlot.entry)
      (probeAll library (logged read) file slots) := by
  induction slots with
  | nil => exact Visits.pure rfl
  | cons slot slots ih =>
    rw [List.map_cons, List.forall_mem_cons] at h
    refine Visits.bind (visits_probe h.1) ?_
    -- only behind an entry that lacks the file the others are looked at
    rintro ⟨e | _ | content, slot'⟩ hentry
    · exact Visits.pure (by rw [List.map_cons, List.map_cons, hentry])
    · refine Visits.bind (ih h.2) ?_
      rintro ⟨found, slots'⟩ hentries
      exact Visits.pure (by rw [List.map_cons, List.map_cons, hentry, hentries])
    · exact Visits.pure (by rw [List.map_cons, List.map_cons, hentry])

/-- For each name the entries are the same, so all that is read belongs to an attempt. -/
theorem visits_search {names : List String} {slots : List (ClassPathSlot α)}
    (h : ∀ name ∈ names, ∀ entry ∈ slots.map ClassPathSlot.entry,
      P (Attempt.path ⟨name ++ ".class", entry⟩)) :
    Visits P (fun _ => True) (search library (logged read) names slots) := by
  induction names generalizing slots with
  | nil => exact Visits.pure trivial
  | cons name names ih =>
    rw [List.forall_mem_cons] at h
    refine Visits.bind (visits_probeAll h.1) ?_
    rintro ⟨e | _ | content, slots'⟩ hentries
    · exact Visits.pure trivial
    · refine ih ?_
      rw [hentries]
      exact h.2
    · exact Visits.pure trivial

/-- **Nothing is read but for an attempt.** -/
theorem exists_attempt_of_mem_probed {cp : ClassPath α} {className : String} {p : Path}
    (h : p ∈ probed library read cp className) :
    ∃ a ∈ attempts cp.entries className, p = a.path := by
  have hvisits : Visits (fun p => ∃ a ∈ attempts cp.entries className, p = a.path)
      (fun _ => True) (find library (logged read) className cp) := by
    refine Visits.bind (visits_search ?_) fun result _ => Visits.pure trivial
    intro name hname entry hentry
    exact ⟨_, List.mem_flatMap.2 ⟨name, hname, List.mem_map.2 ⟨entry, hentry, rfl⟩⟩, rfl⟩
  obtain ⟨-, more, hmore, hP⟩ := hvisits []
  rw [probed, hmore, List.nil_append] at h
  exact hP p h

end Visits

/-! ## The order of a search -/

/-- The class path that a history leaves behind in a tree. -/
def after (library : ArchiveLibrary α) (t : FileTree) (requests : List Request)
    (cp : ClassPath α) : ClassPath α :=
  (answers library FileTree.access.read requests cp t).1.2

/-- **A class is found at the first place that has it.** A class with `k` separators has `k + 1`
names, all different: in the name number `i` the last `i` separators are those of nested classes.
The names are tried one after the other, each in all entries in their order. The first attempt that
does not lack its file decides: what is found is the content that it gives or what is wrong at it,
and where the file is declared to be larger than memory can be, the program is ended. Nothing is
found just when all attempts lack the file. The tree stays as it is. All this holds for any library
for archives and any entries, of a class path that has just been made as well as of one with a
history. What is read on the way are archives of the class path and files of the class below its
directories: no piece of the file of a class leads upwards or to the root, so that names lead down
to it from the place of the directory. The entries of a class path that is written as text are its
paths that are not empty, and the last name of each tells whether it is an archive. -/
theorem found_in_search_order (library : ArchiveLibrary α) (entries : List ClassPathEntry)
    (className : String) (t : FileTree) (history : List Request) :
    ((candidates className).length = separators className + 1 ∧ (candidates className).Nodup
      ∧ ∀ i ≤ separators className,
        (candidates className)[i]? = some (String.ofList (spelled i className.toList)))
    ∧ candidates className = (rewritings (slashed className.toList)).map String.ofList
    ∧ (∃ found cp', find library FileTree.access.read className
          (after library t history (ofEntries entries)) t = ((found, cp'), t)
      ∧ (∀ content, found = .ok (some content) ↔
          ∃ a, IsFirst (Lacks library t.read) (attempts entries className) a
            ∧ Holds library t.read a content ∧ ¬ Panics library t.read a)
      ∧ (∀ e, found = .error (.fault e) ↔
          ∃ a, IsFirst (Lacks library t.read) (attempts entries className) a
            ∧ ∃ fault, e = .file fault ∧ Fails library t.read a fault ∧ ¬ Panics library t.read a)
      ∧ (found = .error .panic ↔
          ∃ a, IsFirst (Lacks library t.read) (attempts entries className) a
            ∧ Panics library t.read a)
      ∧ (found = .ok none ↔ ∀ a ∈ attempts entries className, Lacks library t.read a))
    ∧ (∀ p ∈ probed library t.read (after library t history (ofEntries entries)) className,
      .archive p ∈ entries
        ∨ ∃ directory name, .directory directory ∈ entries
          ∧ name ∈ candidates className ∧ p = fileBelow directory (name ++ ".class"))
    ∧ (∀ name ∈ candidates className,
      (∀ piece ∈ Path.pieces (name ++ ".class"), IsDownward piece)
      ∧ ∀ here directory, Path.location here (fileBelow directory (name ++ ".class"))
            = Path.location here directory ++ namesBelow (name ++ ".class")
          ∧ (directory ≠ "" →
            directory.toList <+: (fileBelow directory (name ++ ".class")).toList))
    ∧ ∀ paths, ∃ parts, Text.joinWith ':' parts = paths.toList ∧ (∀ part ∈ parts, ':' ∉ part)
      ∧ (parse paths : ClassPath α) = ofEntries ((parts.filter fun part => part ≠ []).map
          fun part => .ofPath (String.ofList part))
      ∧ ∀ p, (ClassPathEntry.IsArchive p ∧ ClassPathEntry.ofPath p = .archive p)
          ∨ (¬ ClassPathEntry.IsArchive p ∧ ClassPathEntry.ofPath p = .directory p) := by
  -- whatever was asked before, the class path is settled and has the same entries
  obtain ⟨cp, hanswers, hentries, hsettled⟩ :=
    answers_access (isSettled_ofEntries library t.read entries) history
  rw [entries_ofEntries] at hentries
  have hafter : after library t history (ofEntries entries) = cp := by rw [after, hanswers]
  rw [hafter]
  refine ⟨⟨?_, candidates_nodup className, ?_⟩, rewritings_slashed className, ?_, ?_, ?_, ?_⟩
  · rw [candidates_eq, List.length_map, List.length_range]
  · intro i hi
    rw [candidates_eq, List.getElem?_map, List.getElem?_range (by omega)]
    rfl
  · obtain ⟨cp', hfind, -, -⟩ := find_access hsettled className
    rw [hentries, lookUp_eq] at hfind
    refine ⟨_, cp', hfind, ?_, ?_, ?_, ?_⟩
    · intro content
      rw [firstAnswer_map_eq_iff (by simp)]
      simp only [answer_eq_none_iff, answer_eq_content_iff]
    · intro e
      rw [firstAnswer_map_eq_iff (by simp)]
      simp only [answer_eq_none_iff, answer_eq_fault_iff]
    · rw [firstAnswer_map_eq_iff (by simp)]
      simp only [answer_eq_none_iff, answer_eq_panic_iff]
    · rw [firstAnswer_map_eq_none_iff]
      simp only [answer_eq_none_iff]
  · intro p hp
    obtain ⟨a, ha, rfl⟩ := exists_attempt_of_mem_probed hp
    rw [hentries] at ha
    obtain ⟨name, hname, ha⟩ := List.mem_flatMap.1 ha
    obtain ⟨entry, hentry, rfl⟩ := List.mem_map.1 ha
    cases entry with
    | directory directory => exact Or.inr ⟨directory, name, hentry, hname, rfl⟩
    | archive path => exact Or.inl hentry
  · intro name hname
    exact ⟨fun piece hpiece => isDownward_of_mem_pieces hname hpiece, fun here directory =>
      ⟨location_fileBelow hname here directory, prefix_fileBelow hname⟩⟩
  · intro paths
    obtain ⟨parts, hjoin, hparts, hparse⟩ := exists_parts_of_parse paths
    exact ⟨parts, hjoin, hparts, hparse α, ClassPathEntry.ofPath_cases⟩

/-- The files of a tree with a class file for a nested class. -/
def nestedTree : FileTree where
  nodes := [(["out"], .directory), (["out", "a$B.class"], .file [1, 2] {})]

/-- A nested class that is asked for with a dot is found under its second name in the second entry,
also by a class path that has looked for it before. -/
theorem found_in_search_order_of_nested :
    ∃ a, IsFirst (Lacks Archive.library nestedTree.read)
        (attempts [.archive "lib.jar", .directory "out"] "a.B") a
      ∧ Holds Archive.library nestedTree.read a [1, 2] := by
  obtain ⟨-, -, ⟨found, cp', hfind, hcontent, -, -, -⟩, -, -, -⟩ :=
    found_in_search_order Archive.library [.archive "lib.jar", .directory "out"] "a.B" nestedTree
      [.resolve "a.B"]
  have hfound : (find Archive.library FileTree.access.read "a.B"
      (after Archive.library nestedTree [.resolve "a.B"]
        (ofEntries [.archive "lib.jar", .directory "out"])) nestedTree).1.1
      = .ok (some [1, 2]) := by decide +kernel
  rw [hfind] at hfound
  obtain ⟨a, hfirst, hholds, -⟩ := (hcontent [1, 2]).1 hfound
  exact ⟨a, hfirst, hholds⟩

/-- An archive with a file of two bytes, which is declared to have more of them than memory can. -/
def oversizedArchive : Bytes := [
  80, 75, 3, 4, 45, 0, 0, 0, 0, 0, 0, 0, 33, 0, 32, 242, 201, 42, 2, 0, 0, 0, 2, 0, 0, 0, 7, 0, 0,
  0, 65, 46, 99, 108, 97, 115, 115, 202, 254, 80, 75, 1, 2, 45, 0, 45, 0, 0, 0, 0, 0, 0, 0, 33, 0,
  32, 242, 201, 42, 2, 0, 0, 0, 255, 255, 255, 255, 7, 0, 12, 0, 0, 0, 0, 0, 0, 0, 0, 0, 0, 0, 0,
  0, 0, 0, 65, 46, 99, 108, 97, 115, 115, 1, 0, 8, 0, 0, 0, 0, 0, 0, 0, 0, 128, 80, 75, 5, 6, 0,
  0, 0, 0, 1, 0, 1, 0, 65, 0, 0, 0, 39, 0, 0, 0, 0, 0]

/-- A tree with that archive. -/
def oversizedTree : FileTree where
  nodes := [(["lib.jar"], .file oversizedArchive {})]

/-- The program is ended although an archive holds the file that it asks for, and no place comes
before it. -/
theorem not_found_of_oversized :
    Holds Archive.library oversizedTree.read ⟨"A.class", .archive "lib.jar"⟩ [0xca, 0xfe]
    ∧ IsFirst (Lacks Archive.library oversizedTree.read) (attempts [.archive "lib.jar"] "A")
        ⟨"A.class", .archive "lib.jar"⟩
    ∧ (find Archive.library FileTree.access.read "A" (ofEntries [.archive "lib.jar"])
        oversizedTree).1.1 = .error .panic := by
  have hread : oversizedTree.read "lib.jar" = .ok oversizedArchive := by decide +kernel
  have hlisted : ((Archive.library.ofBytes oversizedArchive).bind fun archive =>
      (Archive.library.member archive "A.class").map ArchivedFile.content)
      = .ok (.ok [0xca, 0xfe]) := by decide +kernel
  refine ⟨?_, ⟨[], [], by decide, by simp⟩, by decide +kernel⟩
  rcases harchive : Archive.library.ofBytes oversizedArchive with e | archive
  · rw [harchive] at hlisted
    contradiction
  · rw [harchive] at hlisted
    rcases hmember : Archive.library.member archive "A.class" with e | f
    · rw [Except.bind, hmember] at hlisted
      contradiction
    · rw [Except.bind, hmember] at hlisted
      exact .member ⟨_, archive, hread, harchive, hmember⟩ (Except.ok.inj hlisted)

end ClassPath

end NativeHeaders
