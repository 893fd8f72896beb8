import Mathlib.Data.List.Forall2
import NativeHeaders.Proofs.Batch.Schedules
import NativeHeaders.Proofs.Header.Validity

/-!
# The class that an error names

An error is made wherever something goes wrong, and each place has its own notion of the class. The
batch knows what was asked for, and that is what it names until the bytes are decoded. From then on
the name is the one that stands in the class file, so it may be any name, and when none can be read
there a placeholder stands for it (`Outcome.blamed`). Whatever a batch gets its classes from and
however it is shared, this says which name each error of its result has (`failures_name_classes`).
-/

set_option autoImplicit false

namespace NativeHeaders

/-! ## Results whose errors name one class -/

namespace Generated

variable {α β : Type} {className : String}

/-- Whether an error of a result would name a class. -/
def Blames (className : String) (result : Generated α) : Prop :=
  ∀ e, result = .error e → e.className = className

theorem blames_ok (a : α) : Blames className (.ok a : Generated α) := by
  intro e h
  contradiction

theorem blames_error {e : GenerationError} (h : e.className = className) :
    Blames className (.error e : Generated α) := by
  intro e' he'
  rw [← Except.error.inj he', h]

theorem Blames.bind {x : Generated α} {f : α → Generated β} (hx : Blames className x)
    (hf : ∀ a, x = .ok a → Blames className (f a)) : Blames className (x >>= f) := by
  rcases x with e | a
  · exact blames_error (hx e rfl)
  · exact hf a rfl

theorem blames_mapM {f : α → Generated β} (h : ∀ a, Blames className (f a)) (as : List α) :
    Blames className (as.mapM f) := by
  intro e he
  obtain ⟨a, -, ha⟩ := List.exists_of_findSome?_eq_some (mapM_eq_error_iff.1 he)
  exact h a e (failure?_eq_some_iff.1 ha)

theorem blames_lookup (found : Except ClassFileError α) :
    Blames className (lookup className found) := by
  cases found with
  | ok a => exact blames_ok a
  | error e => exact blames_error rfl

end Generated

open Generated (Blames blames_ok blames_error blames_mapM blames_lookup)

theorem GenerationError.className_ofDescriptor (className method descriptor : String)
    (e : DescriptorError) : (ofDescriptor className method descriptor e).className = className := by
  cases e <;> rfl

/-! ## Reading -/

namespace ClassFile

theorem blames_enclosing (file : ClassFile) (name : String) :
    Blames name (file.enclosing name) := by
  refine (blames_lookup _).bind fun links _ => (blames_lookup _).bind fun first? _ => ?_
  cases first? with
  | none => exact blames_ok []
  | some first =>
    simp only
    cases Nesting.walk links [name] first with
    | ok outward => exact blames_ok _
    | error through => exact blames_error rfl

theorem blames_readMethod (pool : ConstantPool) (className : String) (method : Method) :
    Blames className (readMethod pool className method) := by
  refine (blames_lookup _).bind fun name _ => (blames_lookup _).bind fun descriptor _ => ?_
  cases MethodDescriptor.parse descriptor with
  | ok parsed => exact blames_ok _
  | error e => exact blames_error (GenerationError.className_ofDescriptor _ _ _ e)

/-- The name of the class of a file, for its errors. -/
def blamed (file : ClassFile) : String :=
  match file.name with
  | .ok name => name
  | .error _ => unknownName

theorem blamed_of_lookup {file : ClassFile} {name : String}
    (h : Generated.lookup unknownName file.name = .ok name) : file.blamed = name := by
  unfold blamed
  generalize file.name = found at h ⊢
  cases found with
  | error e => contradiction
  | ok name' => exact Except.ok.inj h

/-- Errors of reading name the class that stands in the file. -/
theorem blames_model (file : ClassFile) : Blames file.blamed file.model := by
  have hname : Blames file.blamed (Generated.lookup unknownName file.name) := by
    unfold blamed
    rcases file.name with e | name
    · exact blames_error rfl
    · exact blames_ok name
  refine hname.bind fun name hlookup => ?_
  rw [blamed_of_lookup hlookup]
  -- from here on every error is made with the name that was read
  refine (blames_enclosing file name).bind fun enclosing _ =>
    (blames_mapM (blames_readMethod file.pool name) file.methods).bind fun methods _ => ?_
  cases readConstants file.pool file.fields with
  | ok constants => exact blames_ok _
  | error flaw => exact blames_error rfl

/-- A class that was read has the name that stands in the file. -/
theorem name_of_model {file : ClassFile} {c : ClassModel} (h : file.model = .ok c) :
    c.name = file.blamed := by
  obtain ⟨hname, -⟩ := model_eq_ok_iff.1 h
  have hlookup : Generated.lookup unknownName file.name = .ok c.name := by
    rw [hname, Generated.lookup]
  rw [blamed_of_lookup hlookup]

end ClassFile

/-! ## Making headers -/

namespace Header

theorem blames_prototypesOf (c : ClassModel) : Blames c.name (prototypesOf c) := by
  have hone : ∀ member : Bool × NativeMethod,
      Blames c.name (prototypeOf c.name member.1 member.2) := by
    intro member
    unfold prototypeOf
    split
    · exact blames_error (GenerationError.className_ofDescriptor _ _ _ _)
    · exact blames_ok _
  exact (blames_mapM hone _).bind fun placed _ => blames_ok _

theorem className_of_clash? {className : String} {linked : List (String × String)}
    {prototypes : List Prototype} {e : GenerationError}
    (h : clash? className linked prototypes = some e) : e.className = className := by
  induction prototypes generalizing linked with
  | nil => contradiction
  | cons p prototypes ih =>
    rw [clash?] at h
    split at h
    · rw [← Option.some.inj h]
      rfl
    · exact ih h

theorem blames_ofClass (settings : Settings) (c : ClassModel) :
    Blames c.name (ofClass settings c) := by
  unfold ofClass
  split
  · exact blames_ok none
  · refine (blames_prototypesOf c).bind fun prototypes _ => ?_
    rcases hclash : clash? c.name [] prototypes with _ | e
    · exact blames_ok _
    · exact blames_error (className_of_clash? hclash)

theorem blames_ofClassFile (settings : Settings) (file : ClassFile) :
    Blames file.blamed (ofClassFile settings file) := by
  refine file.blames_model.bind fun c hc => ?_
  rw [← ClassFile.name_of_model hc]
  exact blames_ofClass settings c

end Header

/-! ## Answers -/

namespace Outcome

/-- The class that an error names: what was asked for, until the bytes are decoded, and from then on
what stands in the class file. -/
def blamed (className : String) (loaded : Except LoadFault Bytes) : String :=
  match loaded with
  | .error _ => className
  | .ok bytes =>
    match ClassFile.ofBytes bytes with
    | .error _ => className
    | .ok file => file.blamed

theorem className_of_ofLoaded {settings : Settings} {className : String}
    {loaded : Except LoadFault Bytes} {e : GenerationError}
    (h : ofLoaded settings className loaded = .failed e) :
    e.className = blamed className loaded := by
  unfold blamed
  rcases loaded with fault | bytes
  · rw [← Outcome.failed.inj h]
    rfl
  · simp only [ofLoaded] at h ⊢
    generalize ClassFile.ofBytes bytes = decoded at h ⊢
    rcases decoded with fault | file
    · rw [← Outcome.failed.inj h]
      rfl
    · simp only at h ⊢
      have hblames := Header.blames_ofClassFile settings file
      generalize Header.ofClassFile settings file = result at h hblames
      rcases result with e' | _ | header
      · rw [← Outcome.failed.inj h]
        exact hblames e' rfl
      · contradiction
      · contradiction

end Outcome

namespace Batch

variable {σ : Type}

/-- A source that notes the classes that it is asked for, with what it gives. -/
def Source.logged (source : Source (StateM σ)) :
    Source (StateM (σ × List (String × Except LoadFault Bytes))) where
  load := fun className state =>
    ((source.load className state.1).1, ((source.load className state.1).2,
      state.2 ++ [(className, (source.load className state.1).1)]))
  isCancelled := fun state =>
    ((source.isCancelled state.1).1, ((source.isCancelled state.1).2, state.2))

/-- The error of a class that was asked for. -/
def errorFor (settings : Settings) (asked : String × Except LoadFault Bytes) :
    Option GenerationError :=
  (Outcome.ofLoaded settings asked.1 asked.2).error?

/-- Noting changes no answer, and the answers that are errors are those for what was noted. -/
theorem outcomes_logged (settings : Settings) (source : Source (StateM σ)) (failed : Bool)
    (classNames : List String) (s : σ) (log : List (String × Except LoadFault Bytes)) :
    ∃ s' asked, outcomes settings source.logged failed classNames (s, log)
        = ((outcomes settings source failed classNames s).1, (s', log ++ asked))
      ∧ (asked.map Prod.fst).Sublist classNames
      ∧ (Report.sorted (classNames.zip (outcomes settings source failed classNames s).1)).failures
        = asked.filterMap (errorFor settings) := by
  -- what was noted before stays in front, so the log is as general as the state
  induction classNames generalizing failed s log with
  | nil => exact ⟨s, [], by rw [List.append_nil]; rfl, .slnil, rfl⟩
  | cons className classNames ih =>
    rcases hstopped : source.isCancelled s with ⟨stopped, s₁⟩
    have hlogged : source.logged.isCancelled (s, log) = (stopped, (s₁, log)) := by
      simp only [Source.logged, hstopped]
    by_cases hends : (failed || stopped) = true
    · -- a class that is passed over is not asked for
      obtain ⟨s', asked, hrest, hsublist, herrors⟩ := ih failed s₁ log
      rcases houtcomes : outcomes settings source failed classNames s₁ with ⟨rest, s₂⟩
      rw [houtcomes] at hrest herrors
      have hplain : outcomes settings source failed (className :: classNames) s
          = (.notStarted :: rest, s₂) := by
        rw [outcomes, bind_of_run hstopped, if_pos hends, bind_of_run houtcomes]
        rfl
      refine ⟨s', asked, ?_, hsublist.cons className, ?_⟩
      · rw [hplain, outcomes, bind_of_run hlogged, if_pos hends, bind_of_run hrest]
        rfl
      · rw [hplain, List.zip_cons_cons, Report.sorted_cons]
        exact herrors
    · rcases hloaded : source.load className s₁ with ⟨loaded, s₂⟩
      have hnoted : source.logged.load className (s₁, log)
          = (loaded, (s₂, log ++ [(className, loaded)])) := by
        simp only [Source.logged, hloaded]
      obtain ⟨s', asked, hrest, hsublist, herrors⟩ := ih (settings.errorPolicy == .failFast
        && (Outcome.ofLoaded settings className loaded).isFailure) s₂
        (log ++ [(className, loaded)])
      rcases houtcomes : outcomes settings source (settings.errorPolicy == .failFast
        && (Outcome.ofLoaded settings className loaded).isFailure) classNames s₂ with ⟨rest, s₃⟩
      rw [houtcomes] at hrest herrors
      have hplain : outcomes settings source failed (className :: classNames) s
          = (.ofLoaded settings className loaded :: rest, s₃) := by
        rw [outcomes, bind_of_run hstopped, if_neg hends, bind_of_run hloaded,
          bind_of_run houtcomes]
        rfl
      refine ⟨s', (className, loaded) :: asked, ?_, hsublist.cons_cons className, ?_⟩
      · rw [hplain, outcomes, bind_of_run hlogged, if_neg hends, bind_of_run hnoted,
          bind_of_run hrest, List.append_assoc]
        rfl
      · rw [hplain, List.zip_cons_cons, List.filterMap_cons, ← herrors]
        simp only [Report.failures_sorted, List.filterMap_cons, errorFor]

/-- Where a class was answered for or passed over, the failures are those of the classes that were
answered for. -/
theorem exists_asked {alone : String → Outcome} {classNames : List String}
    {answers : List Outcome}
    (h : List.Forall₂ (fun className outcome => outcome = alone className ∨ outcome = .notStarted)
      classNames answers) :
    ∃ asked : List String, asked.Sublist classNames
      ∧ (Report.sorted (classNames.zip answers)).failures
        = asked.filterMap fun className => (alone className).error? := by
  induction h with
  | nil => exact ⟨[], .slnil, rfl⟩
  | @cons className outcome classNames answers hanswer _ ih =>
    obtain ⟨asked, hsublist, hfailures⟩ := ih
    rcases hanswer with rfl | rfl
    · refine ⟨className :: asked, hsublist.cons_cons className, ?_⟩
      simp only [List.zip_cons_cons, List.filterMap_cons, ← hfailures, Report.failures_sorted]
    · refine ⟨asked, hsublist.cons className, ?_⟩
      rw [List.zip_cons_cons, Report.sorted_cons]
      exact hfailures

/-- The answers of a finished schedule, also of one that was told to stop. -/
theorem answers_of_finished {p : Plan} {workers n : Nat} {s : State workers}
    {answers : List Outcome} (h : After p n s) (hfinished : s.Finished answers) :
    List.Forall₂ (fun className outcome => outcome = p.alone className ∨ outcome = .notStarted)
      p.classNames answers := by
  have hsound := h.sound
  rw [List.forall₂_iff_get]
  refine ⟨by rw [← hsound.length_eq, hfinished, List.length_map], fun i hname hanswer => ?_⟩
  have hclass : s.classes[i]? = some (.answered answers[i]) := by
    rw [hfinished, List.getElem?_map, List.getElem?_eq_getElem hanswer, Option.map_some]
  exact (hsound.answer i _ _ (List.getElem?_eq_getElem hname) hclass).imp id And.left

/-- **The class that an error names** is what was asked for as long as nothing was decoded, and then
the class that stands in the file, whatever the batch gets its classes from and whether the first
failure ends it or not. The errors are those for what the batch has asked for, in the order of the
requests. The same holds of the answers that workers give who share a batch, whatever the schedule
and also if they are told to stop. -/
theorem failures_name_classes {σ : Type} (settings : Settings) (source : Source (StateM σ))
    (classNames : List String) (s : σ) :
    ∃ s' asked, run settings source.logged classNames (s, [])
        = ((run settings source classNames s).1, (s', asked))
      ∧ (asked.map Prod.fst).Sublist classNames
      ∧ (∀ e, (run settings source classNames s).1 = .error e →
          asked.findSome? (errorFor settings) = some e)
      ∧ (∀ report, (run settings source classNames s).1 = .ok report →
          report.failures = asked.filterMap (errorFor settings))
      ∧ (∀ a ∈ asked, ∀ e, errorFor settings a = some e →
          e.className = Outcome.blamed a.1 a.2)
      ∧ ∀ (p : Plan) (workers n : Nat) (state : State workers) (answers : List Outcome),
          After p n state → state.Finished answers →
          ∃ loaded : List (String × Except LoadFault Bytes),
            (loaded.map Prod.fst).Sublist p.classNames ∧ (∀ a ∈ loaded, a.2 = p.load a.1)
            ∧ (∀ e, p.result answers = .error e →
              loaded.findSome? (errorFor p.settings) = some e)
            ∧ (∀ report, p.result answers = .ok report →
              report.failures = loaded.filterMap (errorFor p.settings))
            ∧ ∀ a ∈ loaded, ∀ e, errorFor p.settings a = some e →
              e.className = Outcome.blamed a.1 a.2 := by
  obtain ⟨s', asked, hlogged, hsublist, herrors⟩ :=
    outcomes_logged settings source false classNames s []
  have hnames : ∀ (settings : Settings) (a : String × Except LoadFault Bytes) (e),
      errorFor settings a = some e → e.className = Outcome.blamed a.1 a.2 :=
    fun settings a e he => Outcome.className_of_ofLoaded (Outcome.error?_eq_some_iff.1 he)
  have hrun : (run settings source classNames s).1 = Report.ofOutcomes settings.errorPolicy
      (classNames.zip (outcomes settings source false classNames s).1) := rfl
  refine ⟨s', asked, bind_of_run hlogged _, hsublist, ?_, ?_, fun a _ => hnames settings a, ?_⟩
  · intro e he
    rw [hrun, Report.ofOutcomes_eq_error_iff] at he
    rw [← List.head?_filterMap, ← herrors]
    exact Report.head?_failures_of_firstError? he
  · intro report hreport
    rw [hrun, Report.ofOutcomes_eq_ok_iff] at hreport
    rw [hreport.2, herrors]
  · intro p workers n state answers hafter hfinished
    obtain ⟨shared, hshared, hfailures⟩ := exists_asked (answers_of_finished hafter hfinished)
    have herrors' : (shared.map fun className => (className, p.load className)).filterMap
        (errorFor p.settings) = (Report.sorted (p.classNames.zip answers)).failures := by
      rw [hfailures, List.filterMap_map]
      rfl
    refine ⟨shared.map fun className => (className, p.load className), ?_, ?_, ?_, ?_,
      fun a _ => hnames p.settings a⟩
    · rw [List.map_map]
      simpa [Function.comp_def] using hshared
    · intro a ha
      obtain ⟨className, -, rfl⟩ := List.mem_map.1 ha
      rfl
    · intro e he
      rw [Plan.result, Report.ofOutcomes_eq_error_iff] at he
      rw [← List.head?_filterMap, herrors']
      exact Report.head?_failures_of_firstError? he
    · intro report hreport
      rw [Plan.result, Report.ofOutcomes_eq_ok_iff] at hreport
      rw [hreport.2, herrors']

/-- A file that does not name its class. -/
def nameless : ClassFile := { ClassFile.specimen with thisClass := 0 }

/-- Two files of one class that cannot be read, and a file that does not name its class. -/
def misnamed : String → Except LoadFault Bytes
  | "x/Q" => .ok (ClassBuilder.addNativeMethod "f" "(" (ClassBuilder.ofName "p/Q")).2.build
  | "y/Q" => .ok (ClassBuilder.addNativeMethod "f" "(" (ClassBuilder.ofName "p/Q")).2.build
  | "a/A" => .ok nameless.layout
  | className => .error (.notOnClassPath className)

/-- A batch of these files that the first failure ends, and one that reports two failures. -/
theorem failures_name_classes_of_misnamed :
    let source : Source (StateM Unit) := .ofLoad fun className => pure (misnamed className)
    (∃ e, (run {} source ["x/Q", "a/A"] ()).1 = .error e
      ∧ e.className = Outcome.blamed "x/Q" (misnamed "x/Q"))
    ∧ ∃ report, (run { errorPolicy := .skipAndReport } source ["z/Z", "a/A"] ()).1 = .ok report
      ∧ report.failures = [("z/Z", misnamed "z/Z"), ("a/A", misnamed "a/A")].filterMap
        (errorFor { errorPolicy := .skipAndReport }) := by
  intro source
  refine ⟨?_, ?_⟩
  · obtain ⟨s', asked, hlogged, -, hfirst, -, hnames, -⟩ :=
      failures_name_classes {} source ["x/Q", "a/A"] ()
    have hasked : (run {} source.logged ["x/Q", "a/A"] ((), [])).2.2
        = [("x/Q", misnamed "x/Q")] := by decide +kernel
    have hfails : (run {} source ["x/Q", "a/A"] ()).1.toOption.isNone = true := by decide +kernel
    rw [hlogged] at hasked
    replace hasked : asked = [("x/Q", misnamed "x/Q")] := hasked
    rcases hresult : (run {} source ["x/Q", "a/A"] ()).1 with e | report
    · have he := hfirst e hresult
      rw [hasked, List.findSome?_cons] at he
      have hmem : ("x/Q", misnamed "x/Q") ∈ asked := by
        rw [hasked]
        exact List.mem_cons_self
      refine ⟨e, rfl, hnames ("x/Q", misnamed "x/Q") hmem e ?_⟩
      rcases herror : errorFor {} ("x/Q", misnamed "x/Q") with _ | e'
      · rw [herror] at he
        exact absurd he (by simp)
      · rw [herror] at he
        exact he
    · rw [hresult] at hfails
      exact absurd hfails Bool.false_ne_true
  · obtain ⟨s', asked, hlogged, -, -, hfailures, -, -⟩ :=
      failures_name_classes { errorPolicy := .skipAndReport } source ["z/Z", "a/A"] ()
    have hasked : (run { errorPolicy := .skipAndReport } source.logged ["z/Z", "a/A"]
        ((), [])).2.2 = [("z/Z", misnamed "z/Z"), ("a/A", misnamed "a/A")] := by decide +kernel
    have hends : (run { errorPolicy := .skipAndReport } source ["z/Z", "a/A"]
        ()).1.toOption.isSome = true := by decide +kernel
    rw [hlogged] at hasked
    replace hasked : asked = [("z/Z", misnamed "z/Z"), ("a/A", misnamed "a/A")] := hasked
    rcases hresult : (run { errorPolicy := .skipAndReport } source ["z/Z", "a/A"] ()).1 with
      e | report
    · rw [hresult] at hends
      exact absurd hends Bool.false_ne_true
    · exact ⟨report, rfl, by rw [hfailures report hresult, hasked]⟩

/-- What was asked for cannot be told from these errors, and the last of them names no class. -/
theorem failures_share_names :
    ((run { errorPolicy := .skipAndReport } (.ofLoad fun className => pure (misnamed className))
        ["x/Q", "y/Q", "a/A"] : StateM Unit (Generated Report)) ()).1.toOption.map
      (fun report => report.failures.map GenerationError.className)
      = some ["p/Q", "p/Q", "<unknown>"]
    ∧ misnamed "a/A" = .ok nameless.layout
    ∧ ClassFile.ofBytes nameless.layout = .ok nameless
    ∧ ∀ name, nameless.name ≠ .ok name := by
  refine ⟨by decide +kernel, rfl, by decide +kernel, ?_⟩
  intro name hname
  have hnone : nameless.name.toOption = none := by decide +kernel
  rw [hname] at hnone
  contradiction

end Batch

end NativeHeaders
