import NativeHeaders.ClassFile.Builder
import NativeHeaders.CommandLine.Standard
import NativeHeaders.Proofs.Batch.Schedules
import NativeHeaders.Proofs.ClassPath.Lookups
import NativeHeaders.Proofs.Header.Writing

/-!
# What a run does to a file tree

A run only reads until it has a report, so when there is none the tree is as it was. Then it writes
the headers of the report and nothing else (`run_in_two_phases`). Each class is answered for as if
it had been asked for alone: what a lookup leaves behind in the class path makes no difference to
the next one (`generate_cases`).

All this holds for any libraries for archives and settings. A lookup may end the program, and then
nothing was written either.
-/

set_option autoImplicit false

namespace NativeHeaders

namespace CommandLine

variable {α : Type} {libraries : Libraries α} {t : FileTree} {classPath : Option String}
  {i : Invocation} {settings : Settings}

/-! ## Settings -/

theorem loadSettings_snd (libraries : Libraries α) (path : Path) (t : FileTree) :
    (loadSettings libraries FileTree.access path t).2 = t := by
  have hread : FileTree.access.read path t = (t.read path, t) := rfl
  rw [loadSettings, bind_of_run hread]
  cases t.read path with
  | error fault => rfl
  | ok content =>
    simp only
    cases String.fromUTF8? ⟨content.toArray⟩ with
    | none => rfl
    | some text =>
      simp only
      cases libraries.settings text <;> rfl

/-- The settings are had by reading alone. -/
theorem settingsOf_snd (libraries : Libraries α) (i : Invocation) (t : FileTree) :
    (settingsOf libraries FileTree.access i t).2 = t := by
  unfold settingsOf
  cases i.config with
  | none => rfl
  | some path =>
    have hload := loadSettings_snd libraries path t
    simp only
    rcases hloaded : loadSettings libraries FileTree.access path t with ⟨e | settings, t'⟩
    · rw [hloaded] at hload
      rw [bind_of_run hloaded]
      exact hload
    · rw [hloaded] at hload
      rw [bind_of_run hloaded]
      exact hload

/-- The load fault of a lookup. A program that is ended reports none, so that any will do for it. -/
def faultOf : Halt → LoadFault
  | .fault e => e
  | .panic => .other "capacity overflow"

/-- The bytes of a class are a function of the files and the entries, unless the program is
ended. -/
theorem load_access {cp : ClassPath α} (h : cp.IsSettled libraries.archives t.read)
    (className : String) :
    (ClassPath.loadFrom libraries.archives t.read cp.entries className = .error .panic
      ∧ (load libraries FileTree.access className cp).run t = (none, t))
    ∨ (ClassPath.loadFrom libraries.archives t.read cp.entries className ≠ .error .panic
      ∧ ∃ cp', (load libraries FileTree.access className cp).run t
          = (some ((ClassPath.loadFrom libraries.archives t.read cp.entries className).mapError
              faultOf, cp'), t)
        ∧ cp'.entries = cp.entries ∧ cp'.IsSettled libraries.archives t.read) := by
  obtain ⟨cp', hresolve, hentries, hsettled⟩ := ClassPath.resolve_access h className
  generalize ClassPath.loadFrom libraries.archives t.read cp.entries className = loaded
    at hresolve ⊢
  rcases loaded with (e | _) | content
  · exact Or.inr ⟨by simp, cp', bind_of_run hresolve _, hentries, hsettled⟩
  · exact Or.inl ⟨rfl, bind_of_run hresolve _⟩
  · exact Or.inr ⟨by simp, cp', bind_of_run hresolve _, hentries, hsettled⟩

/-- The answers of a batch that looks its classes up in a tree: the memory of the class path does
not show in them. If failures do not end the batch, it gets to every class. -/
theorem outcomes_load (settings : Settings) {cp : ClassPath α}
    (h : cp.IsSettled libraries.archives t.read) (failed : Bool) (classNames : List String) :
    ((∃ className ∈ classNames,
        ClassPath.loadFrom libraries.archives t.read cp.entries className = .error .panic)
      ∧ (Batch.outcomes settings (.ofLoad (load libraries FileTree.access)) failed classNames
          cp).run t = (none, t))
    ∨ ((failed = false → settings.errorPolicy = .skipAndReport → ∀ className ∈ classNames,
        ClassPath.loadFrom libraries.archives t.read cp.entries className ≠ .error .panic)
      ∧ ∃ cp', (Batch.outcomes settings (.ofLoad (load libraries FileTree.access)) failed
          classNames cp).run t
        = (some (Id.run (Batch.outcomes settings (.ofLoad fun className =>
            (ClassPath.loadFrom libraries.archives t.read cp.entries className).mapError faultOf)
            failed classNames), cp'), t)) := by
  -- the class path changes from class to class, but it stays settled with the same entries
  induction classNames generalizing cp failed with
  | nil => exact Or.inr ⟨by simp, cp, rfl⟩
  | cons className classNames ih =>
    have hgoing : ((Batch.Source.ofLoad (load libraries FileTree.access)).isCancelled cp).run t
        = (some (false, cp), t) := rfl
    cases failed with
    | true =>
      -- nothing is asked for any more, and the class path stays as it is
      rcases ih h true with ⟨⟨other, hmem, hpanic⟩, hended⟩ | ⟨-, cp', hrest⟩
      · exact Or.inl ⟨⟨other, List.mem_cons_of_mem _ hmem, hpanic⟩,
          (bind_of_run_some hgoing _).trans (bind_of_run_none hended _)⟩
      · exact Or.inr ⟨by simp, cp',
          (bind_of_run_some hgoing _).trans (bind_of_run_some hrest _)⟩
    | false =>
      rcases load_access h className with
        ⟨hpanic, hended⟩ | ⟨hfine, cp₁, hload, hentries, hsettled⟩
      · exact Or.inl ⟨⟨className, List.mem_cons_self, hpanic⟩,
          (bind_of_run_some hgoing _).trans (bind_of_run_none hended _)⟩
      · have hrest := ih hsettled (settings.errorPolicy == .failFast
          && (Outcome.ofLoaded settings className
            ((ClassPath.loadFrom libraries.archives t.read cp.entries className).mapError
              faultOf)).isFailure)
        rw [hentries] at hrest
        rcases hrest with ⟨⟨other, hmem, hpanic⟩, hended⟩ | ⟨hall, cp', hrest⟩
        · exact Or.inl ⟨⟨other, List.mem_cons_of_mem _ hmem, hpanic⟩,
            (bind_of_run_some hgoing _).trans
              ((bind_of_run_some hload _).trans (bind_of_run_none hended _))⟩
        · refine Or.inr ⟨fun _ hpolicy => ?_, cp', (bind_of_run_some hgoing _).trans
            ((bind_of_run_some hload _).trans (bind_of_run_some hrest _))⟩
          refine List.forall_mem_cons.2 ⟨hfine, hall ?_ hpolicy⟩
          rw [hpolicy]
          rfl

/-- What the class path of a run gives for a class that is asked for alone. -/
def loadOf (libraries : Libraries α) (t : FileTree) (classPath : Option String) (i : Invocation)
    (className : String) : Except Halt Bytes :=
  (ClassPath.resolve libraries.archives FileTree.access.read className
    (ClassPath.ofOption i.classPath classPath) t).1.1

/-- The batch of a run: each class is looked for as if no other had been before. -/
def batchOf (libraries : Libraries α) (t : FileTree) (classPath : Option String) (i : Invocation)
    (settings : Settings) : Batch.Plan where
  settings := settings
  load := fun className => (loadOf libraries t classPath i className).mapError faultOf
  classNames := i.classes

/-- The headers of a run, or what ended it. -/
def generated (libraries : Libraries α) (t : FileTree) (classPath : Option String) (i : Invocation)
    (settings : Settings) : Option (Generated Report) :=
  (generate libraries FileTree.access (ClassPath.ofOption i.classPath classPath) settings i.classes
    t).1

/-- **Headers are generated by reading alone**, and each class on its own, unless one of them ends
the program. -/
theorem generate_cases (libraries : Libraries α) (t : FileTree) (classPath : Option String)
    (i : Invocation) (settings : Settings) :
    ((∃ className ∈ i.classes, loadOf libraries t classPath i className = .error .panic)
      ∧ generate libraries FileTree.access (ClassPath.ofOption i.classPath classPath) settings
          i.classes t = (none, t))
    ∨ ((settings.errorPolicy = .skipAndReport → ∀ className ∈ i.classes,
          loadOf libraries t classPath i className ≠ .error .panic)
      ∧ generate libraries FileTree.access (ClassPath.ofOption i.classPath classPath) settings
          i.classes t
        = (some (Report.ofOutcomes settings.errorPolicy
            (batchOf libraries t classPath i settings).isolated), t)) := by
  have hsettled := ClassPath.isSettled_ofOption libraries.archives t.read i.classPath classPath
  have hload : loadOf libraries t classPath i = ClassPath.loadFrom libraries.archives t.read
      (ClassPath.ofOption i.classPath classPath : ClassPath α).entries := by
    funext className
    obtain ⟨cp', hresolve, -⟩ := ClassPath.resolve_access hsettled className
    exact congrArg (fun result => result.1.1) hresolve
  -- the batch of a function from classes to files, which has no class path
  have hreport := (batchOf libraries t classPath i settings).run_ofLoad
  have hsource : (batchOf libraries t classPath i settings).load = fun className =>
      (ClassPath.loadFrom libraries.archives t.read
        (ClassPath.ofOption i.classPath classPath : ClassPath α).entries className).mapError
          faultOf := by
    rw [batchOf, hload]
  rw [hload]
  rw [hsource] at hreport
  rcases outcomes_load settings hsettled false i.classes with
    ⟨hpanic, hended⟩ | ⟨hall, cp', houtcomes⟩
  · have hrun : (Batch.run settings (.ofLoad (load libraries FileTree.access)) i.classes
        (ClassPath.ofOption i.classPath classPath)).run t = (none, t) := bind_of_run_none hended _
    exact Or.inl ⟨hpanic, bind_of_run hrun _⟩
  · have hrun : (Batch.run settings (.ofLoad (load libraries FileTree.access)) i.classes
        (ClassPath.ofOption i.classPath classPath)).run t
        = (some (Report.ofOutcomes settings.errorPolicy
            (batchOf libraries t classPath i settings).isolated, cp'), t) :=
      (bind_of_run_some houtcomes _).trans
        (congrArg (fun report => (some (report, cp'), t)) hreport)
    exact Or.inr ⟨hall rfl, bind_of_run hrun _⟩

/-- A class that ends the program would be a failure. -/
theorem isFailure_of_panic {className : String}
    (h : loadOf libraries t classPath i className = .error .panic) :
    ((batchOf libraries t classPath i settings).alone className).isFailure = true := by
  have hload : (batchOf libraries t classPath i settings).load className
      = (loadOf libraries t classPath i className).mapError faultOf := rfl
  rw [Batch.Plan.alone, Batch.answerFor, hload, h]
  rfl

/-- Where the first failure ends a batch, it has an error when a class fails. -/
theorem exists_firstError (hpolicy : settings.errorPolicy = .failFast) {className : String}
    (hname : className ∈ i.classes)
    (hfailed : ((batchOf libraries t classPath i settings).alone className).isFailure = true) :
    ∃ e, Report.ofOutcomes settings.errorPolicy (batchOf libraries t classPath i settings).isolated
      = .error e := by
  simp only [Report.ofOutcomes_eq_error_iff]
  -- some class is the first that fails
  rw [hpolicy, Batch.Plan.firstError?_isolated, ← Option.isSome_iff_exists,
    List.findSome?_isSome_iff]
  obtain ⟨e, he⟩ := Outcome.isFailure_eq_true_iff.1 hfailed
  exact ⟨className, hname, by rw [he]; rfl⟩

/-- A report is that of classes none of which ends the program. -/
theorem generated_eq_ok {report : Report}
    (h : generated libraries t classPath i settings = some (.ok report)) :
    (∀ className ∈ i.classes, loadOf libraries t classPath i className ≠ .error .panic)
      ∧ report = Report.sorted (batchOf libraries t classPath i settings).isolated := by
  rcases generate_cases libraries t classPath i settings with ⟨-, hended⟩ | ⟨hall, hends⟩
  · rw [generated, hended] at h
    contradiction
  · rw [generated, hends] at h
    have hreport := Option.some.inj h
    refine ⟨fun className hname hpanic => ?_, (Report.ofOutcomes_eq_ok_iff.1 hreport).2⟩
    cases hpolicy : settings.errorPolicy with
    | failFast =>
      -- a class that ends the program would be a failure, and then there is no report
      obtain ⟨e, he⟩ := exists_firstError hpolicy hname (isFailure_of_panic hpanic)
      rw [he] at hreport
      contradiction
    | skipAndReport => exact hall hpolicy className hname hpanic

/-! ## The run -/

/-- What becomes of a tree, phase by phase. -/
theorem run_access (libraries : Libraries α) (t : FileTree) (classPath : Option String)
    (i : Invocation) :
    run libraries FileTree.access classPath i t =
      match (settingsOf libraries FileTree.access i t).1 with
      | .error e => (.error (.config e), t)
      | .ok settings =>
        match generated libraries t classPath i settings with
        | none => (.error .panicked, t)
        | some (.error e) => (.error (.generation e), t)
        | some (.ok report) =>
          match i.target.write FileTree.access report.headers t with
          | (.error e, t') => (.error (.write e), t')
          | (.ok written, t') => (.ok ⟨written, report.failures⟩, t') := by
  have hsettings := settingsOf_snd libraries i t
  rcases hloaded : settingsOf libraries FileTree.access i t with ⟨e | settings, t₁⟩
  · rw [hloaded] at hsettings
    have hsame : t₁ = t := hsettings
    rw [run, bind_of_run hloaded, hsame]
    rfl
  · rw [hloaded] at hsettings
    have hsame : t₁ = t := hsettings
    rw [run, bind_of_run hloaded, hsame]
    simp only
    have hgenerate : generate libraries FileTree.access (ClassPath.ofOption i.classPath classPath)
        settings i.classes t = (generated libraries t classPath i settings, t) := by
      rcases generate_cases libraries t classPath i settings with ⟨-, hended⟩ | ⟨-, hends⟩
      · rw [generated, hended]
      · rw [generated, hends]
    rw [bind_of_run hgenerate]
    rcases generated libraries t classPath i settings with _ | e | report
    · rfl
    · rfl
    · simp only
      rcases hwritten : i.target.write FileTree.access report.headers t with ⟨e | written, t'⟩
      · rw [bind_of_run hwritten]
        rfl
      · rw [bind_of_run hwritten]
        rfl

/-- A run ends well when all of its phases do. -/
theorem run_of_phases {report : Report} {written : List Path} {t' : FileTree}
    (hsettings : (settingsOf libraries FileTree.access i t).1 = .ok settings)
    (hreport : generated libraries t classPath i settings = some (.ok report))
    (hwritten : i.target.write FileTree.access report.headers t = (.ok written, t')) :
    run libraries FileTree.access classPath i t = (.ok ⟨written, report.failures⟩, t') := by
  rw [run_access, hsettings]
  simp only [hreport, hwritten]

/-- A tree with the file of one class. -/
def oneClass : FileTree where
  nodes := [(["p"], .directory), (["p", "Q.class"],
    .file (ClassBuilder.addNativeMethod "f" "()V" (ClassBuilder.ofName "p/Q")).2.build {})]

/-- The header of that class. -/
def oneHeader : Header :=
  { Header.empty "p/Q" "p_Q" with
    prototypes := [{
      method := "f"
      descriptor := "()V"
      symbol := .link "p/Q" "f" "()V" false
      signature := ⟨.object, [], .void⟩ }] }

end CommandLine

end NativeHeaders
