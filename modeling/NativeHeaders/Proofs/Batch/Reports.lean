import NativeHeaders.Batch

/-!
# What a report says of the answers

A report holds the answers of one kind in each of its lists, in the order of the requests. There is
always one, except that a batch which the first failure ends has the error of the first answer that
failed instead (`ofOutcomes_eq_error_iff`). Nothing is lost on the way and nothing is repeated: the
four lists together are as long as the answers (`length_sorted`).
-/

set_option autoImplicit false

namespace NativeHeaders

namespace Outcome

/-- The header of an answer. -/
def header? : Outcome → Option Header
  | header h => some h
  | _ => none

/-- The error of an answer. -/
def error? : Outcome → Option GenerationError
  | failed e => some e
  | _ => none

theorem error?_eq_none_iff {o : Outcome} : o.error? = none ↔ o.isFailure = false := by
  cases o <;> simp [error?, isFailure]

theorem error?_eq_some_iff {o : Outcome} {e : GenerationError} :
    o.error? = some e ↔ o = .failed e := by
  cases o <;> simp [error?]

theorem header?_eq_some_iff {o : Outcome} {h : Header} : o.header? = some h ↔ o = .header h := by
  cases o <;> simp [header?]

theorem isFailure_eq_true_iff {o : Outcome} : o.isFailure = true ↔ ∃ e, o = .failed e := by
  cases o <;> simp [isFailure]

/-- A class that was started is answered for. -/
theorem ofLoaded_ne_notStarted (settings : Settings) (className : String)
    (loaded : Except LoadFault Bytes) : ofLoaded settings className loaded ≠ .notStarted := by
  intro h
  unfold ofLoaded at h
  split at h
  · contradiction
  · split at h
    · contradiction
    · split at h <;> contradiction

end Outcome

namespace Report

/-- The answers of each kind, in the order of the requests. -/
def sorted (answers : List (String × Outcome)) : Report where
  headers := answers.filterMap fun answer => answer.2.header?
  skipped := (answers.filter fun answer => answer.2 = .noHeader).map Prod.fst
  failures := answers.filterMap fun answer => answer.2.error?
  cancelled := (answers.filter fun answer => answer.2 = .notStarted).map Prod.fst

@[simp] theorem sorted_nil : sorted [] = empty := rfl

theorem sorted_cons (className : String) (outcome : Outcome) (answers : List (String × Outcome)) :
    sorted ((className, outcome) :: answers) = (sorted answers).add className outcome := by
  cases outcome <;> rfl

theorem failures_sorted (answers : List (String × Outcome)) :
    (sorted answers).failures = answers.filterMap fun answer => answer.2.error? := rfl

/-- Each answer lands in one list, once. -/
theorem length_sorted (answers : List (String × Outcome)) :
    (sorted answers).headers.length + (sorted answers).skipped.length
        + (sorted answers).failures.length + (sorted answers).cancelled.length
      = answers.length := by
  induction answers with
  | nil => rfl
  | cons answer answers ih =>
    obtain ⟨className, outcome⟩ := answer
    rw [sorted_cons]
    cases outcome <;> simp only [add, List.length_cons] <;> omega

theorem sorted_append (answers answers' : List (String × Outcome)) :
    sorted (answers ++ answers') = {
      headers := (sorted answers).headers ++ (sorted answers').headers
      skipped := (sorted answers).skipped ++ (sorted answers').skipped
      failures := (sorted answers).failures ++ (sorted answers').failures
      cancelled := (sorted answers).cancelled ++ (sorted answers').cancelled } := by
  simp only [sorted, List.filterMap_append, List.filter_append, List.map_append]

/-- The report of classes that were started. -/
theorem sorted_started {answer : String → Outcome} (h : ∀ className, answer className ≠ .notStarted)
    (classNames : List String) :
    sorted (classNames.map fun className => (className, answer className)) = {
      headers := classNames.filterMap fun className => (answer className).header?
      skipped := classNames.filter fun className => answer className = .noHeader
      failures := classNames.filterMap fun className => (answer className).error?
      cancelled := [] } := by
  have hcancelled : classNames.filter (fun className => answer className = .notStarted) = [] := by
    rw [List.filter_eq_nil_iff]
    intro className _
    rw [decide_eq_true_eq]
    exact h className
  simp only [sorted, List.filterMap_map, List.filter_map, List.map_map, Function.comp_def,
    List.map_id', hcancelled]

/-- The report of classes that were not started. -/
theorem sorted_notStarted (classNames : List String) :
    sorted (classNames.map fun className => (className, .notStarted))
      = ⟨[], [], [], classNames⟩ := by
  simp [sorted, List.filterMap_map, List.filter_map, Function.comp_def, Outcome.header?,
    Outcome.error?]

/-- The error that stands instead of a report. -/
def firstError? (policy : ErrorPolicy) (answers : List (String × Outcome)) :
    Option GenerationError :=
  match policy with
  | .failFast => answers.findSome? fun answer => answer.2.error?
  | .skipAndReport => none

/-- The error that stands instead of a report would be the first of its failures. -/
theorem head?_failures_of_firstError? {policy : ErrorPolicy} {answers : List (String × Outcome)}
    {e : GenerationError} (h : firstError? policy answers = some e) :
    (sorted answers).failures.head? = some e := by
  cases policy with
  | failFast => rw [sorted, List.head?_filterMap, ← h, firstError?]
  | skipAndReport => contradiction

/-- **A report sorts the answers**, unless the first failure ends the batch. -/
theorem ofOutcomes_eq (policy : ErrorPolicy) (answers : List (String × Outcome)) :
    ofOutcomes policy answers =
      match firstError? policy answers with
      | some e => .error e
      | none => .ok (sorted answers) := by
  induction answers with
  | nil => cases policy <;> rfl
  | cons answer answers ih =>
    obtain ⟨className, outcome⟩ := answer
    rw [sorted_cons]
    unfold ofOutcomes
    cases policy with
    | skipAndReport =>
      rw [ih]
      rfl
    | failFast =>
      -- only an answer that failed is told apart from the others
      have hrest : ∀ o : Outcome, o.error? = none →
          (do
            let report ← ofOutcomes .failFast answers
            return report.add className o)
          = match firstError? .failFast ((className, o) :: answers) with
            | some e => .error e
            | none => .ok ((sorted answers).add className o) := by
        intro o ho
        have hfirst : firstError? .failFast ((className, o) :: answers)
            = firstError? .failFast answers := by
          simp only [firstError?, List.findSome?_cons, ho]
        rw [ih, hfirst]
        cases firstError? .failFast answers <;> rfl
      cases outcome with
      | failed e => rfl
      | header h => exact hrest _ rfl
      | noHeader => exact hrest _ rfl
      | notStarted => exact hrest _ rfl

theorem ofOutcomes_cons_congr {policy : ErrorPolicy} {answers answers' : List (String × Outcome)}
    (h : ofOutcomes policy answers = ofOutcomes policy answers') (answer : String × Outcome) :
    ofOutcomes policy (answer :: answers) = ofOutcomes policy (answer :: answers') := by
  obtain ⟨className, outcome⟩ := answer
  unfold ofOutcomes
  rw [h]

theorem ofOutcomes_eq_error_iff {policy : ErrorPolicy} {answers : List (String × Outcome)}
    {e : GenerationError} :
    ofOutcomes policy answers = .error e ↔ firstError? policy answers = some e := by
  rw [ofOutcomes_eq]
  rcases firstError? policy answers with _ | e' <;> simp

theorem ofOutcomes_eq_ok_iff {policy : ErrorPolicy} {answers : List (String × Outcome)}
    {report : Report} :
    ofOutcomes policy answers = .ok report ↔
      firstError? policy answers = none ∧ report = sorted answers := by
  rw [ofOutcomes_eq]
  rcases firstError? policy answers with _ | e' <;> simp [eq_comm]

end Report

namespace Batch

/-- The answer for a class that is asked for on its own. -/
def answerFor (settings : Settings) (load : String → Except LoadFault Bytes) (className : String) :
    Outcome :=
  .ofLoaded settings className (load className)

theorem answerFor_ne_notStarted (settings : Settings) (load : String → Except LoadFault Bytes)
    (className : String) : answerFor settings load className ≠ .notStarted :=
  Outcome.ofLoaded_ne_notStarted settings className (load className)

end Batch

end NativeHeaders
