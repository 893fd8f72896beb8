import NativeHeaders.Archive.Basic
import NativeHeaders.Proofs.ClassPath.Lookups

/-!
# Archives that are kept open

A class path is asked again and again, and what it remembers of an archive changes with every
request. Here a history is a list of requests, answered one after the other by one class path. As
long as no file changes, what is remembered does not show: every request is answered as by a class
path that has just been made (`answers_as_if_fresh`). All that is asked of the library for archives
is that it is a function of the bytes of an archive and the name of a member.

One request keeps the class path settled, and the answer of a settled class path is that of the
files alone; the induction over the history carries both. So an archive that could not be opened is
still unopened afterwards and fails again in the same way, and one that was missing finds nothing.
-/

set_option autoImplicit false

namespace NativeHeaders

namespace ClassPath

/-! ## Requests -/

/-- What a class path is asked for. -/
inductive Request where
  | find (className : String)
  | resolve (className : String)
deriving DecidableEq

/-- What a class path answers. -/
inductive Answer where
  | found (found : Found)
  | resolved (loaded : Except Halt Bytes)
deriving DecidableEq

variable {α : Type}

section Requests

variable {m : Type → Type} [Monad m] (library : ArchiveLibrary α)
  (read : Path → m (Except FileFault Bytes))

/-- The answer of a class path to a request. -/
def Request.answer : Request → StateT (ClassPath α) m Answer
  | find className => return .found (← ClassPath.find library read className)
  | resolve className => return .resolved (← ClassPath.resolve library read className)

/-- The answers of one class path to a history. -/
def answers : List Request → StateT (ClassPath α) m (List Answer)
  | [] => return []
  | request :: requests => do
    let first ← request.answer library read
    let others ← answers requests
    return first :: others

end Requests

/-- The answer that the library, the files and the entries give to a request. -/
def Request.answerFrom (library : ArchiveLibrary α) (read : Path → Except FileFault Bytes)
    (entries : List ClassPathEntry) : Request → Answer
  | find className => .found (lookUp library read entries className)
  | resolve className => .resolved (loadFrom library read entries className)

/-! ## Histories in a tree -/

variable {library : ArchiveLibrary α} {t : FileTree} {cp : ClassPath α}

/-- A settled class path answers by the files and the entries alone, and stays settled. -/
theorem answer_access (h : cp.IsSettled library t.read) (request : Request) :
    ∃ cp', request.answer library FileTree.access.read cp t
        = ((request.answerFrom library t.read cp.entries, cp'), t)
      ∧ cp'.entries = cp.entries ∧ cp'.IsSettled library t.read := by
  cases request with
  | find className =>
    obtain ⟨cp', hfind, hentries, hsettled⟩ := find_access h className
    exact ⟨cp', bind_of_run₂ hfind _, hentries, hsettled⟩
  | resolve className =>
    obtain ⟨cp', hresolve, hentries, hsettled⟩ := resolve_access h className
    exact ⟨cp', bind_of_run₂ hresolve _, hentries, hsettled⟩

theorem answers_access (h : cp.IsSettled library t.read) (requests : List Request) :
    ∃ cp', answers library FileTree.access.read requests cp t
        = ((requests.map (Request.answerFrom library t.read cp.entries), cp'), t)
      ∧ cp'.entries = cp.entries ∧ cp'.IsSettled library t.read := by
  induction requests generalizing cp with
  | nil => exact ⟨cp, rfl, rfl, h⟩
  | cons request requests ih =>
    obtain ⟨cp₁, hanswer, hentries, hsettled⟩ := answer_access h request
    obtain ⟨cp', hanswers, hentries', hsettled'⟩ := ih hsettled
    rw [hentries] at hanswers
    exact ⟨cp', (bind_of_run₂ hanswer _).trans (bind_of_run₂ hanswers _),
      hentries'.trans hentries, hsettled'⟩

/-- **Keeping archives open does not show.** As long as the tree stays as it is, one class path
answers every request of a history as a class path does that has just been made, whatever came
before. Of an archive that cannot be opened, because it cannot be read or is damaged, nothing is
known afterwards, and it fails in the same way whenever it is needed; one that is missing finds
nothing; and of one that can be opened nothing else is ever known than what its file says. -/
theorem answers_as_if_fresh (library : ArchiveLibrary α) (entries : List ClassPathEntry)
    (t : FileTree) (requests : List Request) :
    ∃ cp' : ClassPath α, answers library FileTree.access.read requests (ofEntries entries) t
        = ((requests.map fun request =>
            (request.answer library FileTree.access.read (ofEntries entries) t).1.1, cp'), t)
      ∧ cp'.entries = entries
      ∧ ∀ slot ∈ cp'.slots, ∀ path, slot.entry = .archive path →
        (∀ e, archiveState library t.read path = .error e → slot.state = .unopened
          ∧ ∀ name, probe library FileTree.access.read name slot t
              = ((.error (.fault (.file e)), slot), t))
        ∧ (∀ known, archiveState library t.read path = .ok known →
          (slot.state = .unopened ∨ slot.state = known)
          ∧ ∀ name, probe library FileTree.access.read name slot t
              = ((findIn library known name, ⟨slot.entry, known⟩), t))
        ∧ (t.read path = .error .notFound →
          ∀ name, (probe library FileTree.access.read name slot t).1.1 = .ok none) := by
  have hfresh := isSettled_ofEntries library t.read entries
  obtain ⟨cp', hanswers, hentries, hsettled⟩ := answers_access hfresh requests
  rw [entries_ofEntries] at hanswers hentries
  refine ⟨cp', ?_, hentries, ?_⟩
  · -- a class path that has just been made is settled too, so both answer by the files alone
    have heach : ∀ request : Request,
        (request.answer library FileTree.access.read (ofEntries entries) t).1.1
        = request.answerFrom library t.read entries := by
      intro request
      obtain ⟨cp₁, hanswer, -, -⟩ := answer_access hfresh request
      rw [hanswer, entries_ofEntries]
    simp only [heach]
    exact hanswers
  · rintro ⟨entry, state⟩ hslot path rfl
    have hstate := (hsettled _ hslot).state_cases
    have hprobe := fun name => probe_archive name hstate
    refine ⟨?_, ?_, ?_⟩
    · intro e he
      rw [he] at hstate hprobe
      refine ⟨?_, hprobe⟩
      rcases hstate with hstate | hstate
      · exact hstate
      · contradiction
    · intro known hknown
      rw [hknown] at hstate hprobe
      refine ⟨?_, hprobe⟩
      rcases hstate with hstate | hstate
      · exact Or.inl hstate
      · exact Or.inr (Except.ok.inj hstate).symm
    · intro hmissing name
      have hknown : archiveState library t.read path = .ok .missing := by
        rw [archiveState, hmissing]
      rw [hprobe name, hknown]
      rfl

/-- A tree with an archive that is cut off. -/
def damagedTree : FileTree where
  nodes := [(["d.jar"], .file [0x50, 0x4b] {})]

/-- What is said of it. -/
def damagedHalt : Halt := .fault (.file (.invalidData "invalid Zip archive"))

/-- A damaged archive behind a missing one fails every time that it is needed. -/
theorem answers_as_if_fresh_of_damaged :
    ∃ cp', answers Archive.library FileTree.access.read [.find "A", .resolve "A", .find "B"]
        (parse "m.jar:d.jar") damagedTree
      = (([.found (.error damagedHalt), .resolved (.error damagedHalt),
          .found (.error damagedHalt)], cp'), damagedTree)
      ∧ ∀ slot ∈ cp'.slots, slot.entry = .archive "d.jar" → slot.state = .unopened := by
  obtain ⟨cp', hanswers, -, harchives⟩ := answers_as_if_fresh Archive.library
    [.archive "m.jar", .archive "d.jar"] damagedTree [.find "A", .resolve "A", .find "B"]
  have hdamaged : archiveState Archive.library damagedTree.read "d.jar"
      = .error (.invalidData "invalid Zip archive") := by decide +kernel
  have hparse : (parse "m.jar:d.jar" : ClassPath Archive)
      = ofEntries [.archive "m.jar", .archive "d.jar"] := by decide +kernel
  refine ⟨cp', ?_, fun slot hslot hentry => ((harchives slot hslot _ hentry).1 _ hdamaged).1⟩
  rw [hparse, hanswers]
  have hfresh : ([.find "A", .resolve "A", .find "B"] : List Request).map
      (fun request => (request.answer Archive.library FileTree.access.read
        (ofEntries [.archive "m.jar", .archive "d.jar"]) damagedTree).1.1)
      = [.found (.error damagedHalt), .resolved (.error damagedHalt),
        .found (.error damagedHalt)] := by decide +kernel
  rw [hfresh]

end ClassPath

end NativeHeaders
