import NativeHeaders.Proofs.CommandLine.Runs
import NativeHeaders.Proofs.Header.Names

/-!
# What a run leaves in a directory

A header is named for its class: the name that stands in the class file, whatever the class was
asked for as. Nothing keeps two class files from having one class name, and then the header that is
written last takes the place of the others (`headers_on_disk`).
-/

set_option autoImplicit false

namespace NativeHeaders

/-- A header is named for the class that stands in the class file. -/
theorem Header.fileName_of_ofLoaded {settings : Settings} {className : String}
    {loaded : Except LoadFault Bytes} {header : Header}
    (h : Outcome.ofLoaded settings className loaded = .header header) :
    header.fileName = Symbol.escapeName header.className ++ ".h" := by
  unfold Outcome.ofLoaded at h
  split at h
  · contradiction
  · split at h
    · contradiction
    · split at h
      · contradiction
      · contradiction
      · rename_i file _ header' hfile
        rw [← Outcome.header.inj h]
        exact fileName_of_ofClassFile hfile

/-! ## A run with a directory -/

namespace CommandLine

variable {α : Type} {libraries : Libraries α} {t t' : FileTree} {classPath : Option String}
  {i : Invocation}

/-- A run that ends well has gone through all of its phases. -/
theorem exists_of_run_eq_ok {ended : Ended}
    (h : run libraries FileTree.access classPath i t = (.ok ended, t')) :
    ∃ settings report, (settingsOf libraries FileTree.access i t).1 = .ok settings
      ∧ generated libraries t classPath i settings = some (.ok report)
      ∧ i.target.write FileTree.access report.headers t = (.ok ended.written, t') := by
  rw [run_access] at h
  split at h
  · exact absurd (Prod.mk.inj h).1 (by simp)
  · rename_i settings hsettings
    split at h
    · exact absurd (Prod.mk.inj h).1 (by simp)
    · exact absurd (Prod.mk.inj h).1 (by simp)
    · rename_i report hreport
      split at h
      · exact absurd (Prod.mk.inj h).1 (by simp)
      · rename_i written t'' hwritten
        obtain ⟨hended, htree⟩ := Prod.mk.inj h
        refine ⟨settings, report, hsettings, hreport, ?_⟩
        rw [hwritten, htree, ← Except.ok.inj hended]

/-- Every header of a report is named for its class. -/
theorem fileName_of_mem {settings : Settings} {report : Report} {header : Header}
    (h : generated libraries t classPath i settings = some (.ok report))
    (hmem : header ∈ report.headers) :
    header.fileName = Symbol.escapeName header.className ++ ".h" := by
  rw [(generated_eq_ok h).2, Batch.Plan.sorted_isolated] at hmem
  obtain ⟨className, -, hheader⟩ := List.mem_filterMap.1 hmem
  exact Header.fileName_of_ofLoaded (Outcome.header?_eq_some_iff.1 hheader)

/-- **The last header of a class stays.** After a run that writes into a directory, the file of each
header of its report holds the text of the last header in the report that has the file, unless the
file is the null device. Nothing is lost if and only if no file is the null device and headers of
one class, up to the shape of the separators in its name, have one text. -/
theorem headers_on_disk {directory : Path} {ended : Ended}
    (htarget : i.target = .directory directory)
    (hrun : run libraries FileTree.access classPath i t = (.ok ended, t')) :
    ∃ settings report, (settingsOf libraries FileTree.access i t).1 = .ok settings
      ∧ generated libraries t classPath i settings = some (.ok report)
      ∧ (∀ header ∈ report.headers, ∃ last,
          Target.lastNamed report.headers header.fileName = some last
          ∧ (t'.Holds (Path.join directory header.fileName, last.text)
            ∨ t.IsNull (Path.join directory header.fileName)))
      ∧ ((∀ header ∈ report.headers,
            t'.Holds (Path.join directory header.fileName, header.text))
          ↔ (∀ header ∈ report.headers, ¬ t.IsNull (Path.join directory header.fileName))
            ∧ ∀ header ∈ report.headers, ∀ other ∈ report.headers,
              ClassModel.internalName header.className = ClassModel.internalName other.className →
              header.text = other.text) := by
  obtain ⟨settings, report, hsettings, hreport, hwritten⟩ := exists_of_run_eq_ok hrun
  have hchanges := Target.changes_write i.target report.headers t
  rw [hwritten] at hchanges
  rw [htarget] at hwritten
  obtain ⟨t₁, heach⟩ := Target.exists_writeEach_of_write hwritten
  have hnames : ∀ header ∈ report.headers, Path.IsName header.fileName := by
    intro header hheader
    rw [fileName_of_mem hreport hheader]
    exact Header.isName_escapeName header.className
  have hlast : ∀ header ∈ report.headers, ∀ last,
      Target.lastNamed report.headers header.fileName = some last →
      t'.Settled (Path.join directory header.fileName, last.text) := by
    intro header _ last hlast
    exact Target.settled_of_writeEach hnames heach hlast
  refine ⟨settings, report, hsettings, hreport, ?_, ?_⟩
  · intro header hheader
    obtain ⟨last, hnamed⟩ := Target.exists_lastNamed hheader
    refine ⟨last, hnamed, ?_⟩
    rw [← hchanges.isNull_iff]
    exact (hlast header hheader last hnamed).holds_or_isNull
  · -- headers have one file just when their classes have one name
    rw [Target.holds_all_iff hlast]
    simp only [hchanges.isNull_iff]
    refine and_congr_right fun _ => ?_
    constructor
    · intro hagree header hheader other hother hname
      exact hagree header hheader other hother ((Header.fileName_eq_iff
        (fileName_of_mem hreport hheader) (fileName_of_mem hreport hother)).2 hname)
    · intro hagree header hheader other hother hname
      exact hagree header hheader other hother ((Header.fileName_eq_iff
        (fileName_of_mem hreport hheader) (fileName_of_mem hreport hother)).1 hname)

/-- A run with one class, in the working directory. -/
theorem headers_on_disk_of_oneClass :
    Invocation.target { classes := ["p/Q"] } = .directory "."
      ∧ ∃ ended t', run .standard FileTree.access none { classes := ["p/Q"] } oneClass
          = (.ok ended, t')
        ∧ t'.Holds (Path.join "." oneHeader.fileName, oneHeader.text) := by
  have hends : (run .standard FileTree.access none { classes := ["p/Q"] }
      oneClass).1.toOption.isSome = true := by decide +kernel
  rcases hrun : run .standard FileTree.access none { classes := ["p/Q"] } oneClass with
    ⟨e | ended, t'⟩
  · rw [hrun] at hends
    contradiction
  · obtain ⟨settings, report, hsettings, hreport, -, hkept⟩ := headers_on_disk rfl hrun
    have hdefault : (settingsOf .standard FileTree.access { classes := ["p/Q"] } oneClass).1
        = .ok {} := by decide +kernel
    rw [hdefault, Except.ok.injEq] at hsettings
    subst hsettings
    have hone : generated .standard oneClass none { classes := ["p/Q"] } {}
        = some (.ok ⟨[oneHeader], [], [], []⟩) := by decide +kernel
    rw [hone, Option.some.injEq, Except.ok.injEq] at hreport
    subst hreport
    have hdevice : ∀ header ∈ [oneHeader], ¬ oneClass.IsNull (Path.join "." header.fileName) := by
      simp only [FileTree.IsNull]
      decide +kernel
    have hagree : ∀ header ∈ [oneHeader], ∀ other ∈ [oneHeader],
        ClassModel.internalName header.className = ClassModel.internalName other.className →
        header.text = other.text := by
      intro header hheader other hother _
      rw [List.mem_singleton.1 hheader, List.mem_singleton.1 hother]
    exact ⟨rfl, ended, t', rfl, hkept.2 ⟨hdevice, hagree⟩ oneHeader List.mem_cons_self⟩

/-- A tree with two files of one class. -/
def twoFiles : FileTree where
  nodes := [
    (["x"], .directory), (["x", "Q.class"],
      .file (ClassBuilder.addNativeMethod "f" "()V" (ClassBuilder.ofName "p/Q")).2.build {}),
    (["y"], .directory), (["y", "Q.class"],
      .file (ClassBuilder.addNativeMethod "g" "()V" (ClassBuilder.ofName "p/Q")).2.build {})]

/-- The header that the second of them has. -/
def otherHeader : Header :=
  { oneHeader with
    prototypes := [{
      method := "g"
      descriptor := "()V"
      symbol := .link "p/Q" "g" "()V" false
      signature := ⟨.object, [], .void⟩ }] }

/-- When both are asked for, the run ends well although the header of the first is lost. -/
theorem first_header_lost :
    ∃ i : Invocation, i.target = .directory "out" ∧ ∃ ended t' report header,
      run .standard FileTree.access none i twoFiles = (.ok ended, t')
      ∧ (settingsOf .standard FileTree.access i twoFiles).1 = .ok {}
      ∧ generated .standard twoFiles none i {} = some (.ok report)
      ∧ header ∈ report.headers
      ∧ ¬ t'.Holds (Path.join "out" header.fileName, header.text) := by
  have hsettings : (settingsOf .standard FileTree.access
      { directory := some "out", classes := ["x/Q.class", "y/Q.class"] } twoFiles).1
      = .ok {} := by decide +kernel
  have hreport : generated .standard twoFiles none
      { directory := some "out", classes := ["x/Q.class", "y/Q.class"] } {}
      = some (.ok ⟨[oneHeader, otherHeader], [], [], []⟩) := by decide +kernel
  have hends : ((Target.directory "out").write FileTree.access [oneHeader, otherHeader]
      twoFiles).1.toOption.isSome = true := by
    simp only [Target.write, Target.within_access, Target.writeEach_cons,
      Target.writeIfChanged_access, Target.bytesOf_eq]
    decide +kernel
  rcases hwrite : (Target.directory "out").write FileTree.access [oneHeader, otherHeader] twoFiles
    with ⟨e | written, t'⟩
  · rw [hwrite] at hends
    exact absurd hends Bool.false_ne_true
  · refine ⟨{ directory := some "out", classes := ["x/Q.class", "y/Q.class"] }, rfl,
      ⟨written, []⟩, t', ⟨[oneHeader, otherHeader], [], [], []⟩, oneHeader,
      run_of_phases hsettings hreport hwrite, hsettings, hreport, List.mem_cons_self, ?_⟩
    obtain ⟨t₁, heach⟩ := Target.exists_writeEach_of_write hwrite
    have hnames : ∀ header ∈ [oneHeader, otherHeader], Path.IsName header.fileName := by
      intro header hheader
      have hname : header.fileName = Symbol.escapeName "p/Q" ++ ".h" := by
        rcases List.mem_pair.1 hheader with rfl | rfl <;> decide +kernel
      rw [hname]
      exact Header.isName_escapeName "p/Q"
    have hlast : Target.lastNamed [oneHeader, otherHeader] oneHeader.fileName
        = some otherHeader := by decide +kernel
    have htexts : otherHeader.text ≠ oneHeader.text := by decide +kernel
    -- the file holds the other text, or nothing at all
    intro hholds
    rcases (Target.settled_of_writeEach hnames heach hlast).holds_or_isNull with hother | hnull
    · exact htexts (hother.text_eq hholds)
    · exact hholds.not_isNull hnull

end CommandLine

end NativeHeaders
