import NativeHeaders.Proofs.Batch.Reports

/-!
# Batches one after the other

Batches that share a token are stopped together. Here a single worker takes the classes of each
batch in their order, and the token is given before the first batch, or while some class is asked
for, or never.

A batch asks for the classes in front of a certain place and for no others (`Course`). The place is
the end, unless the token is given before, or a failure ends the batch: then it is right behind the
class that was asked for when that happened, whose answer is the one that it has on its own. From
there on nothing is asked for, by this batch or by a later one if the token was given. Apart from
the token nothing is left of a batch (`outcomes_shift`).
-/

set_option autoImplicit false

namespace NativeHeaders

namespace Batch

/-- What batches share. -/
structure Session where
  /-- Whether the token was given. -/
  stopped : Bool
  /-- The classes that were asked for, in turn. Only `cancels` below depends on them. -/
  asked : List String

/-- A source whose token may be given while a class is asked for. `cancels` decides that from the
classes that were asked for, up to that class. -/
def Source.cancelling (load : String → Except LoadFault Bytes) (cancels : List String → Bool) :
    Source (StateM Session) where
  load := fun className => do
    modify fun s => ⟨s.stopped || cancels (s.asked ++ [className]), s.asked ++ [className]⟩
    return load className
  isCancelled := return (← get).stopped

/-- Batches one after the other. -/
def inTurn {m : Type → Type} [Monad m] (settings : Settings) (source : Source m)
    (batches : List (List String)) : m (List (Generated Report)) :=
  batches.mapM (run settings source)

/-- A place in a list is in front or behind. -/
theorem exists_split_append_iff {α : Type} (front back : List α) (P : List α → Prop) :
    (∃ before a after, front ++ back = before ++ a :: after ∧ P (before ++ [a]))
      ↔ (∃ before a after, front = before ++ a :: after ∧ P (before ++ [a]))
        ∨ ∃ before a after, back = before ++ a :: after ∧ P (front ++ (before ++ [a])) := by
  constructor
  · rintro ⟨before, a, after, hsplit, h⟩
    rcases List.append_eq_append_iff.1 hsplit with ⟨middle, rfl, hback⟩ | ⟨middle, hfront, hafter⟩
    · right
      refine ⟨middle, a, after, hback, ?_⟩
      rwa [← List.append_assoc]
    · cases middle with
      | nil =>
        right
        refine ⟨[], a, after, hafter.symm, ?_⟩
        rw [List.append_nil] at hfront
        rwa [hfront]
      | cons first middle =>
        obtain ⟨rfl, -⟩ := List.cons.inj hafter
        exact Or.inl ⟨before, a, middle, hfront, h⟩
  · rintro (⟨before, a, after, rfl, h⟩ | ⟨before, a, after, rfl, h⟩)
    · exact ⟨before, a, after ++ back, by simp, h⟩
    · exact ⟨front ++ before, a, after, by simp, by rwa [List.append_assoc]⟩

section Course

variable {settings : Settings} {load : String → Except LoadFault Bytes}
  {cancels : List String → Bool}

/-- Whether the answer for a class ends a batch. -/
def endsWith (settings : Settings) (outcome : Outcome) : Bool :=
  settings.errorPolicy == .failFast && outcome.isFailure

/-! ## One step -/

/-- A class in front of which the batch has ended is passed over. -/
theorem outcomes_cons_of_ended {failed : Bool} {s : Session} (h : (failed || s.stopped) = true)
    (className : String) (classNames : List String) :
    outcomes settings (.cancelling load cancels) failed (className :: classNames) s
      = ((.notStarted :: (outcomes settings (.cancelling load cancels) failed classNames s).1),
        (outcomes settings (.cancelling load cancels) failed classNames s).2) := by
  have hstep : outcomes settings (.cancelling load cancels) failed (className :: classNames) s
      = (if failed || s.stopped then (do
          let rest ← outcomes settings (.cancelling load cancels) failed classNames
          return .notStarted :: rest : StateM Session (List Outcome)) else (do
          let loaded ← (Source.cancelling load cancels).load className
          let outcome := Outcome.ofLoaded settings className loaded
          let ends := settings.errorPolicy == .failFast && outcome.isFailure
          let rest ← outcomes settings (.cancelling load cancels) ends classNames
          return outcome :: rest)) s := rfl
  rw [hstep, if_pos h]
  rfl

/-- Any other class is asked for. -/
theorem outcomes_cons_of_going {s : Session} (h : s.stopped = false)
    (className : String) (classNames : List String) :
    outcomes settings (.cancelling load cancels) false (className :: classNames) s
      = (answerFor settings load className
          :: (outcomes settings (.cancelling load cancels)
              (endsWith settings (answerFor settings load className)) classNames
              ⟨cancels (s.asked ++ [className]), s.asked ++ [className]⟩).1,
        (outcomes settings (.cancelling load cancels)
          (endsWith settings (answerFor settings load className)) classNames
          ⟨cancels (s.asked ++ [className]), s.asked ++ [className]⟩).2) := by
  obtain ⟨stopped, asked⟩ := s
  subst h
  rfl

/-! ## One batch -/

/-- The course of a batch: the classes in `front` are asked for and those in `rest` are passed over.
`ended` says that the batch has ended before it begins. -/
structure Course (settings : Settings) (load : String → Except LoadFault Bytes)
    (cancels : List String → Bool) (ended : Bool) (s : Session) (front rest : List String)
    (answers : List Outcome) (s' : Session) : Prop where
  answers_eq : answers = front.map (answerFor settings load) ++ rest.map fun _ => .notStarted
  asked_eq : s'.asked = s.asked ++ front
  stopped_iff : s'.stopped = true ↔ s.stopped = true ∨ ∃ before className after,
    front = before ++ className :: after ∧ cancels (s.asked ++ (before ++ [className])) = true
  /-- Nothing is asked for behind an end. -/
  last : ∀ before className after, front = before ++ className :: after →
    cancels (s.asked ++ (before ++ [className])) = true
      ∨ endsWith settings (answerFor settings load className) = true → after = []
  front_eq_nil : ended = true → front = []
  /-- Nothing is passed over without an end. -/
  ends : rest ≠ [] → ended = true ∨ ∃ before className, front = before ++ [className]
    ∧ (cancels (s.asked ++ (before ++ [className])) = true
      ∨ endsWith settings (answerFor settings load className) = true)

/-- A batch that has ended asks for nothing. -/
theorem outcomes_of_ended {failed : Bool} {s : Session} (h : (failed || s.stopped) = true)
    (classNames : List String) :
    outcomes settings (.cancelling load cancels) failed classNames s
      = (classNames.map fun _ => .notStarted, s) := by
  induction classNames with
  | nil => rfl
  | cons className classNames ih =>
    rw [outcomes_cons_of_ended h, ih]
    rfl

/-- A batch that asks for nothing. -/
theorem Course.nil {ended : Bool} (s : Session) {rest : List String}
    (h : rest ≠ [] → ended = true) :
    Course settings load cancels ended s [] rest (rest.map fun _ => .notStarted) s where
  answers_eq := rfl
  asked_eq := (List.append_nil _).symm
  stopped_iff := by simp
  last := by simp
  front_eq_nil := fun _ => rfl
  ends := fun hrest => Or.inl (h hrest)

/-- One more class in front. -/
theorem Course.cons {s s' : Session} {className : String} {front rest : List String}
    {answers : List Outcome}
    (h : Course settings load cancels
      (endsWith settings (answerFor settings load className) || cancels (s.asked ++ [className]))
      ⟨cancels (s.asked ++ [className]), s.asked ++ [className]⟩ front rest answers s')
    (hgoing : s.stopped = false) :
    Course settings load cancels false s (className :: front) rest
      (answerFor settings load className :: answers) s' where
  answers_eq := by
    rw [h.answers_eq]
    rfl
  asked_eq := by
    rw [h.asked_eq, List.append_assoc]
    rfl
  stopped_iff := by
    have hstopped := h.stopped_iff
    simp only [List.append_assoc] at hstopped
    have hsplit := exists_split_append_iff [className] front
      fun later => cancels (s.asked ++ later) = true
    have hfirst : (∃ before other after, [className] = before ++ other :: after
        ∧ cancels (s.asked ++ (before ++ [other])) = true)
        ↔ cancels (s.asked ++ [className]) = true := by
      constructor
      · rintro ⟨before, other, after, hsplit, hcancels⟩
        rcases List.append_eq_singleton_iff.1 hsplit.symm with ⟨rfl, hother⟩ | ⟨-, hother⟩
        · obtain ⟨rfl, -⟩ := List.cons.inj hother
          exact hcancels
        · contradiction
      · intro hcancels
        exact ⟨[], className, [], rfl, hcancels⟩
    rw [hfirst, List.singleton_append] at hsplit
    rw [hstopped, hgoing, hsplit]
    simp only [Bool.false_eq_true, false_or]
  last := by
    intro before other after hfront hends
    cases before with
    | nil =>
      obtain ⟨rfl, hafter⟩ := List.cons.inj hfront
      rw [← hafter]
      apply h.front_eq_nil
      rw [Bool.or_eq_true]
      exact hends.symm
    | cons first before =>
      obtain ⟨rfl, htail⟩ := List.cons.inj hfront
      apply h.last before other after htail
      simpa only [List.append_assoc, List.cons_append, List.nil_append] using hends
  front_eq_nil := by
    intro hfalse
    contradiction
  ends := by
    intro hrest
    right
    rcases h.ends hrest with hended | ⟨before, other, hfront, hends⟩
    · refine ⟨[], className, ?_, ?_⟩
      · rw [h.front_eq_nil hended]
        rfl
      · rw [Bool.or_eq_true] at hended
        exact hended.symm
    · refine ⟨className :: before, other, ?_, ?_⟩
      · rw [hfront]
        rfl
      · simpa only [List.append_assoc, List.cons_append, List.nil_append] using hends

variable (settings load cancels) in
/-- Every batch has a course. -/
theorem exists_course (failed : Bool) (s : Session) (classNames : List String) :
    ∃ front rest, classNames = front ++ rest
      ∧ Course settings load cancels (failed || s.stopped) s front rest
        (outcomes settings (.cancelling load cancels) failed classNames s).1
        (outcomes settings (.cancelling load cancels) failed classNames s).2 := by
  induction classNames generalizing failed s with
  | nil => exact ⟨[], [], rfl, Course.nil s fun hrest => absurd rfl hrest⟩
  | cons className classNames ih =>
    by_cases hended : (failed || s.stopped) = true
    · refine ⟨[], className :: classNames, rfl, ?_⟩
      rw [outcomes_of_ended hended, hended]
      exact Course.nil s fun _ => rfl
    · rw [Bool.not_eq_true, Bool.or_eq_false_iff] at hended
      obtain ⟨rfl, hgoing⟩ := hended
      obtain ⟨front, rest, hsplit, hcourse⟩ := ih
        (endsWith settings (answerFor settings load className))
        ⟨cancels (s.asked ++ [className]), s.asked ++ [className]⟩
      refine ⟨className :: front, rest, congrArg _ hsplit, ?_⟩
      rw [outcomes_cons_of_going hgoing, hgoing]
      exact hcourse.cons hgoing

/-! ## Its result -/

theorem endsWith_eq_true_iff {outcome : Outcome} :
    endsWith settings outcome = true
      ↔ settings.errorPolicy = .failFast ∧ ∃ e, outcome = .failed e := by
  rw [endsWith, Bool.and_eq_true, beq_iff_eq, Outcome.isFailure_eq_true_iff]

theorem run_fst (classNames : List String) (s : Session) :
    (run settings (.cancelling load cancels) classNames s).1
      = Report.ofOutcomes settings.errorPolicy (classNames.zip
        (outcomes settings (.cancelling load cancels) false classNames s).1) := rfl

theorem run_snd (classNames : List String) (s : Session) :
    (run settings (.cancelling load cancels) classNames s).2
      = (outcomes settings (.cancelling load cancels) false classNames s).2 := rfl

section Result

variable {ended : Bool} {s s' : Session} {front rest : List String} {answers : List Outcome}

theorem Course.zip_eq (h : Course settings load cancels ended s front rest answers s') :
    (front ++ rest).zip answers
      = front.map (fun className => (className, answerFor settings load className))
        ++ rest.map fun className => (className, .notStarted) := by
  symm
  apply List.zip_of_prod
  · simp only [List.map_append, List.map_map, Function.comp_def, List.map_id']
  · rw [h.answers_eq]
    simp only [List.map_append, List.map_map, Function.comp_def]

theorem Course.length_zip (h : Course settings load cancels ended s front rest answers s') :
    ((front ++ rest).zip answers).length = (front ++ rest).length := by
  rw [h.zip_eq, List.length_append, List.length_append, List.length_map, List.length_map]

/-- The report of a batch, if there is one. -/
theorem Course.sorted_eq (h : Course settings load cancels ended s front rest answers s') :
    Report.sorted ((front ++ rest).zip answers) = {
      headers := front.filterMap fun className => (answerFor settings load className).header?
      skipped := front.filter fun className => answerFor settings load className = .noHeader
      failures := front.filterMap fun className => (answerFor settings load className).error?
      cancelled := rest } := by
  rw [h.zip_eq, Report.sorted_append, Report.sorted_notStarted,
    Report.sorted_started (answerFor_ne_notStarted settings load)]
  simp only [List.append_nil, List.nil_append]

/-- What was passed over has no error. -/
theorem findSome?_error?_notStarted (classNames : List String) :
    (classNames.map fun className => (className, Outcome.notStarted)).findSome?
      (fun answer => answer.2.error?) = none := by
  rw [List.findSome?_eq_none_iff]
  intro answer hanswer
  obtain ⟨className, -, rfl⟩ := List.mem_map.1 hanswer
  rfl

/-- The error of a batch is that of the last class that was asked for. -/
theorem Course.firstError?_eq_some_iff
    (h : Course settings load cancels ended s front rest answers s') {e : GenerationError} :
    Report.firstError? settings.errorPolicy ((front ++ rest).zip answers) = some e
      ↔ settings.errorPolicy = .failFast ∧ ∃ before className, front = before ++ [className]
        ∧ answerFor settings load className = .failed e := by
  rcases hpolicy : settings.errorPolicy with _ | _
  · rw [Report.firstError?, h.zip_eq, List.findSome?_append, findSome?_error?_notStarted,
      Option.or_none, List.findSome?_map, List.findSome?_eq_some_iff]
    constructor
    · rintro ⟨before, className, after, hfront, herror, -⟩
      have hfailed : answerFor settings load className = .failed e :=
        Outcome.error?_eq_some_iff.1 herror
      have hafter : after = [] :=
        h.last before className after hfront
          (Or.inr (endsWith_eq_true_iff.2 ⟨hpolicy, e, hfailed⟩))
      subst hafter
      exact ⟨rfl, before, className, hfront, hfailed⟩
    · rintro ⟨-, before, className, hfront, hfailed⟩
      refine ⟨before, className, [], hfront, Outcome.error?_eq_some_iff.2 hfailed, ?_⟩
      -- an error in front of the last class would have ended the batch there
      intro earlier hearlier
      obtain ⟨front₁, front₂, rfl⟩ := List.append_of_mem hearlier
      rw [Function.comp_apply, Outcome.error?_eq_none_iff, ← Bool.not_eq_true]
      intro hfailure
      rw [List.append_assoc, List.cons_append] at hfront
      have hafter := h.last _ _ _ hfront
        (Or.inr (endsWith_eq_true_iff.2 ⟨hpolicy, Outcome.isFailure_eq_true_iff.1 hfailure⟩))
      simp at hafter
  · simp [Report.firstError?]

end Result

/-! ## What carries over -/

variable (settings load cancels) in
/-- Whether the token was given is all that a batch takes from those before it. -/
theorem outcomes_shift (failed stopped : Bool) (before asked classNames : List String) :
    (outcomes settings (.cancelling load cancels) failed classNames ⟨stopped, before ++ asked⟩).1
      = (outcomes settings (.cancelling load fun later => cancels (before ++ later)) failed
          classNames ⟨stopped, asked⟩).1 := by
  induction classNames generalizing failed stopped asked with
  | nil => rfl
  | cons className classNames ih =>
    by_cases hended : (failed || stopped) = true
    · rw [outcomes_cons_of_ended hended, outcomes_cons_of_ended hended, ih]
    · rw [Bool.not_eq_true, Bool.or_eq_false_iff] at hended
      obtain ⟨rfl, rfl⟩ := hended
      rw [outcomes_cons_of_going rfl, outcomes_cons_of_going rfl]
      simp only [List.append_assoc]
      rw [ih]

/-- A batch that is stopped before it begins. -/
theorem run_of_stopped {s : Session} (h : s.stopped = true) (classNames : List String) :
    run settings (.cancelling load cancels) classNames s
      = (.ok ⟨[], [], [], classNames⟩, s) := by
  have hended : (false || s.stopped) = true := h
  have hcourse : Course settings load cancels true s [] classNames
      (classNames.map fun _ => .notStarted) s := Course.nil s fun _ => rfl
  apply Prod.ext
  · rw [run_fst, outcomes_of_ended hended, Report.ofOutcomes_eq_ok_iff]
    refine ⟨?_, hcourse.sorted_eq.symm⟩
    rw [Option.eq_none_iff_forall_ne_some]
    intro e he
    obtain ⟨-, before, className, hfront, -⟩ := hcourse.firstError?_eq_some_iff.1 he
    simp at hfront
  · rw [run_snd, outcomes_of_ended hended]

theorem inTurn_cons (classNames : List String) (batches : List (List String)) (s : Session) :
    inTurn settings (.cancelling load cancels) (classNames :: batches) s
      = ((run settings (.cancelling load cancels) classNames s).1
          :: (inTurn settings (.cancelling load cancels) batches
            (run settings (.cancelling load cancels) classNames s).2).1,
        (inTurn settings (.cancelling load cancels) batches
          (run settings (.cancelling load cancels) classNames s).2).2) := by
  rw [inTurn, List.mapM_cons]
  rfl

variable (settings load cancels) in
/-- The token was given while some class was asked for, unless it was given before. -/
theorem inTurn_snd (batches : List (List String)) (s : Session) :
    ∃ asked, (inTurn settings (.cancelling load cancels) batches s).2.asked = s.asked ++ asked
      ∧ ((inTurn settings (.cancelling load cancels) batches s).2.stopped = true
        ↔ s.stopped = true ∨ ∃ before className after,
          asked = before ++ className :: after
            ∧ cancels (s.asked ++ (before ++ [className])) = true) := by
  induction batches generalizing s with
  | nil =>
    have hnil : (inTurn settings (.cancelling load cancels) [] s).2 = s := rfl
    rw [hnil]
    exact ⟨[], (List.append_nil _).symm, by simp⟩
  | cons classNames batches ih =>
    obtain ⟨front, rest, -, hcourse⟩ := exists_course settings load cancels false s classNames
    obtain ⟨asked, hasked, hstopped⟩ :=
      ih (run settings (.cancelling load cancels) classNames s).2
    rw [run_snd] at hasked hstopped
    rw [inTurn_cons, run_snd]
    refine ⟨front ++ asked, ?_, ?_⟩
    · rw [hasked, hcourse.asked_eq, List.append_assoc]
    · rw [hstopped, hcourse.stopped_iff, hcourse.asked_eq, exists_split_append_iff
        _ _ fun later => cancels (s.asked ++ later) = true]
      simp only [List.append_assoc, or_assoc]

/-- Batches that are stopped before they begin. -/
theorem inTurn_of_stopped {s : Session} (h : s.stopped = true) (batches : List (List String)) :
    inTurn settings (.cancelling load cancels) batches s
      = (batches.map fun classNames => .ok ⟨[], [], [], classNames⟩, s) := by
  induction batches with
  | nil => rfl
  | cons classNames batches ih =>
    rw [inTurn_cons, run_of_stopped h, ih, List.map_cons]

end Course

/-- **Batches one after the other.** Whatever came before it, a batch asks for the classes in front
of some place and for no others: the token stops it right behind the class that was asked for when
the token was given, and the first failure too if the settings say so. Its error is that of the
failure that ended it. Its report sorts the answers that the classes have on their own and lists the
classes that were passed over, each class once. Of the batches before it only the token is left, and
once that was given nothing is asked for any more. -/
theorem batches_in_turn (settings : Settings) (load : String → Except LoadFault Bytes)
    (cancels : List String → Bool) (stopped : Bool) (earlier : List (List String))
    (classNames : List String) :
    ∃ results s result s' front rest answers,
      inTurn settings (.cancelling load cancels) earlier ⟨stopped, []⟩ = (results, s)
      ∧ run settings (.cancelling load cancels) classNames s = (result, s')
      ∧ (s.stopped = true ↔ stopped = true ∨ ∃ before className after,
          s.asked = before ++ className :: after ∧ cancels (before ++ [className]) = true)
      ∧ classNames = front ++ rest
      ∧ Course settings load cancels s.stopped s front rest answers s'
      ∧ (∀ e, result = .error e ↔ settings.errorPolicy = .failFast
          ∧ ∃ before className, front = before ++ [className]
            ∧ answerFor settings load className = .failed e)
      ∧ (∀ report, result = .ok report →
          report.headers = front.filterMap (fun className =>
            (answerFor settings load className).header?)
          ∧ report.skipped = front.filter (fun className =>
            answerFor settings load className = .noHeader)
          ∧ report.failures = front.filterMap (fun className =>
            (answerFor settings load className).error?)
          ∧ report.cancelled = rest
          ∧ report.headers.length + report.skipped.length + report.failures.length
            + report.cancelled.length = classNames.length)
      ∧ result = (run settings (.cancelling load fun later => cancels (s.asked ++ later))
          classNames ⟨s.stopped, []⟩).1
      ∧ (s'.stopped = true → ∀ later, inTurn settings (.cancelling load cancels) later s'
          = (later.map fun passedOver => .ok ⟨[], [], [], passedOver⟩, s')) := by
  have hearlier := inTurn_snd settings load cancels earlier ⟨stopped, []⟩
  generalize inTurn settings (.cancelling load cancels) earlier ⟨stopped, []⟩ = x at hearlier ⊢
  obtain ⟨results, s⟩ := x
  obtain ⟨asked, hasked, hstopped⟩ := hearlier
  rw [List.nil_append] at hasked
  subst hasked
  obtain ⟨front, rest, rfl, hcourse⟩ := exists_course settings load cancels false s classNames
  rw [Bool.false_or] at hcourse
  refine ⟨results, s, (run settings (.cancelling load cancels) (front ++ rest) s).1, _, front, rest,
    _, rfl, rfl, hstopped, rfl, hcourse, ?_, ?_, ?_, ?_⟩
  · intro e
    rw [run_fst, Report.ofOutcomes_eq_error_iff, hcourse.firstError?_eq_some_iff]
  · intro report hreport
    rw [run_fst, Report.ofOutcomes_eq_ok_iff] at hreport
    obtain ⟨-, rfl⟩ := hreport
    rw [Report.length_sorted, hcourse.length_zip, hcourse.sorted_eq]
    exact ⟨rfl, rfl, rfl, rfl, rfl⟩
  · have hshift := outcomes_shift settings load cancels false s.stopped s.asked [] (front ++ rest)
    rw [List.append_nil] at hshift
    rw [run_fst, run_fst, ← hshift]
  · intro hstopped later
    exact inTurn_of_stopped hstopped later

/-- The token is given while the second class is asked for: that class still has its answer. -/
example :
    (inTurn { errorPolicy := .skipAndReport }
      (.cancelling (fun className => .error (.notOnClassPath className))
        fun asked => asked.length == 2)
      [["a/A", "a/B", "a/C"], ["a/D"]] ⟨false, []⟩).1
    = [.ok ⟨[], [], [.unresolved "a/A" (.notOnClassPath "a/A"),
          .unresolved "a/B" (.notOnClassPath "a/B")], ["a/C"]⟩,
        .ok ⟨[], [], [], ["a/D"]⟩] := rfl

end Batch

end NativeHeaders
