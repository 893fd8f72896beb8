import Mathlib.Data.Set.List
import NativeHeaders.Proofs.Batch.Reports

/-!
# Batches on several workers

A batch may be shared among workers. Each takes a class that nobody has taken, looks whether the
batch is still to go on for it, and if so works on its own until it has the answer. The workers
share two things only: whether the batch is told to stop, and, when the first failure ends the
batch, the least position that is known to have failed. They may take the classes in any order, and
between a look and an answer the others may do anything.

`Step` is what one worker does next, so that a chain of steps is one way in which the workers can
interleave, and `After` counts its steps. The schedule cannot be seen in the report
(`run_schedule_independent`). A later class may fail first, and then classes are passed over while
earlier ones are still at work; but the least position that is known to have failed is one that does
fail, so that nothing up to the first failure is ever passed over, and what stands behind it has no
part in the result. That is the invariant `Sound`, kept by each step.
-/

set_option autoImplicit false

namespace NativeHeaders

namespace Batch

/-- A batch as it is asked for. -/
structure Plan where
  settings : Settings
  load : String → Except LoadFault Bytes
  classNames : List String

namespace Plan

/-- The answer for a class that is asked for on its own. -/
def alone (p : Plan) : String → Outcome := answerFor p.settings p.load

/-- The result of a batch with some answers, in the order of the requests. -/
def result (p : Plan) (answers : List Outcome) : Generated Report :=
  Report.ofOutcomes p.settings.errorPolicy (p.classNames.zip answers)

/-- Whether the class in a position ends the batch for the classes behind it. -/
def EndsAt (p : Plan) (i : Nat) : Prop :=
  p.settings.errorPolicy = .failFast
    ∧ ∃ className, p.classNames[i]? = some className ∧ (p.alone className).isFailure = true

end Plan

/-! ## What workers do -/

/-- How far a class is. -/
inductive Progress (workers : Nat) where
  | waiting
  | taken (worker : Fin workers)
  | answered (outcome : Outcome)

/-- What workers share, and how far each class is. -/
structure State (workers : Nat) where
  /-- Whether the batch is told to stop. -/
  stopped : Bool
  /-- The least position that is known to have failed. -/
  firstFailure : Option Nat
  classes : List (Progress workers)

namespace State

variable {workers : Nat}

/-- Nothing is taken yet. -/
def initial (workers count : Nat) : State workers :=
  ⟨false, none, List.replicate count .waiting⟩

/-- Whether a class is passed over when a worker looks at it. -/
def isPassedOver (s : State workers) (i : Nat) : Bool :=
  s.stopped || s.firstFailure.any fun first => decide (first < i)

/-- A worker looks at a class, and takes it unless it is to be passed over. -/
def start (s : State workers) (worker : Fin workers) (i : Nat) : State workers :=
  let progress := if s.isPassedOver i then .answered .notStarted else .taken worker
  { s with classes := s.classes.set i progress }

/-- The least of a position and those that are known to have failed. -/
def leastFailure (s : State workers) (i : Nat) : Nat := (s.firstFailure.map (min i)).getD i

/-- A worker has the answer for a class, and notes its position if it ends the batch. -/
def finish (s : State workers) (p : Plan) (i : Nat) (className : String) : State workers where
  stopped := s.stopped
  firstFailure :=
    if p.settings.errorPolicy = .failFast ∧ (p.alone className).isFailure = true then
      some (s.leastFailure i)
    else s.firstFailure
  classes := s.classes.set i (.answered (p.alone className))

/-- Whether all classes have their answers. -/
def Finished (s : State workers) (answers : List Outcome) : Prop :=
  s.classes = answers.map .answered

end State

/-- What can happen next. -/
inductive Step (p : Plan) {workers : Nat} : State workers → State workers → Prop where
  /-- The batch is told to stop. -/
  | cancel {s : State workers} (hgoing : s.stopped = false) : Step p s { s with stopped := true }
  /-- A worker that is idle looks at a class that nobody has taken. -/
  | start {s : State workers} (worker : Fin workers) (i : Nat)
      (hidle : .taken worker ∉ s.classes) (hwaiting : s.classes[i]? = some .waiting) :
      Step p s (s.start worker i)
  /-- A worker comes to the end of its class. -/
  | finish {s : State workers} (worker : Fin workers) (i : Nat) (className : String)
      (htaken : s.classes[i]? = some (.taken worker))
      (hname : p.classNames[i]? = some className) : Step p s (s.finish p i className)

/-- The states after a number of steps. -/
inductive After (p : Plan) {workers : Nat} : Nat → State workers → Prop where
  | initial : After p 0 (.initial workers p.classNames.length)
  | step {n : Nat} {s s' : State workers} (hafter : After p n s) (hstep : Step p s s') :
      After p (n + 1) s'

/-! ## The invariant -/

/-- What holds whatever the workers do: the position that is known to have failed does fail, and a
class that was passed over stands behind one that fails, as long as the batch is not told to
stop. -/
structure Sound (p : Plan) {workers : Nat} (s : State workers) : Prop where
  length_eq : s.classes.length = p.classNames.length
  endsAt_firstFailure : ∀ i, s.firstFailure = some i → p.EndsAt i
  answer : ∀ i className outcome, p.classNames[i]? = some className →
    s.classes[i]? = some (.answered outcome) →
      outcome = p.alone className
        ∨ outcome = .notStarted ∧ (s.stopped = true ∨ ∃ j < i, p.EndsAt j)

variable {p : Plan} {workers : Nat} {s s' : State workers}

theorem sound_initial : Sound p (State.initial workers p.classNames.length) where
  length_eq := List.length_replicate
  endsAt_firstFailure := by
    intro i h
    contradiction
  answer := by
    intro i className outcome _ h
    have hmem := List.mem_of_getElem? h
    have hwaiting := List.eq_of_mem_replicate hmem
    contradiction

theorem Sound.start (h : Sound p s) (worker : Fin workers) (i : Nat) :
    Sound p (s.start worker i) where
  length_eq := by
    rw [State.start, List.length_set]
    exact h.length_eq
  endsAt_firstFailure := h.endsAt_firstFailure
  answer := by
    intro j className outcome hname hj
    simp only [State.start] at hj ⊢
    by_cases hij : i = j
    · subst hij
      rw [List.getElem?_set_self'] at hj
      by_cases hpassed : s.isPassedOver i = true
      · -- what is passed over is so because of the token or of a failure in front of it
        rw [if_pos hpassed] at hj
        obtain ⟨_, -, hcase⟩ := Option.map_eq_some_iff.1 hj
        right
        refine ⟨(Progress.answered.inj hcase).symm, ?_⟩
        simp only [State.isPassedOver, Bool.or_eq_true, Option.any_eq_true,
          decide_eq_true_eq] at hpassed
        rcases hpassed with hstopped | ⟨first, hfirst, hlt⟩
        · exact Or.inl hstopped
        · exact Or.inr ⟨first, hlt, h.endsAt_firstFailure first hfirst⟩
      · rw [if_neg hpassed] at hj
        obtain ⟨_, -, hcase⟩ := Option.map_eq_some_iff.1 hj
        contradiction
    · rw [List.getElem?_set_ne hij] at hj
      exact h.answer j className outcome hname hj

theorem Sound.finish (h : Sound p s) {i : Nat} {className : String}
    (hname : p.classNames[i]? = some className) : Sound p (s.finish p i className) where
  length_eq := by
    rw [State.finish, List.length_set]
    exact h.length_eq
  endsAt_firstFailure := by
    intro j hj
    simp only [State.finish] at hj
    by_cases hends : p.settings.errorPolicy = .failFast ∧ (p.alone className).isFailure = true
    · -- the least position is the one before or the one that has just failed
      have hi : p.EndsAt i := ⟨hends.1, className, hname, hends.2⟩
      rw [if_pos hends, Option.some.injEq, State.leastFailure] at hj
      rcases hfirst : s.firstFailure with _ | first
      · simp only [hfirst, Option.map_none, Option.getD_none] at hj
        exact hj ▸ hi
      · simp only [hfirst, Option.map_some, Option.getD_some] at hj
        rcases Nat.le_total i first with hle | hle
        · rw [Nat.min_eq_left hle] at hj
          exact hj ▸ hi
        · rw [Nat.min_eq_right hle] at hj
          exact hj ▸ h.endsAt_firstFailure first hfirst
    · rw [if_neg hends] at hj
      exact h.endsAt_firstFailure j hj
  answer := by
    intro j other outcome hother hj
    simp only [State.finish] at hj ⊢
    by_cases hij : i = j
    · subst hij
      rw [List.getElem?_set_self'] at hj
      obtain ⟨_, -, hcase⟩ := Option.map_eq_some_iff.1 hj
      rw [hname, Option.some.injEq] at hother
      left
      rw [← hother]
      exact (Progress.answered.inj hcase).symm
    · rw [List.getElem?_set_ne hij] at hj
      exact h.answer j other outcome hother hj

theorem Sound.step (h : Sound p s) (hstep : Step p s s') : Sound p s' := by
  cases hstep with
  | cancel hgoing =>
    refine ⟨h.length_eq, h.endsAt_firstFailure, ?_⟩
    intro i className outcome hname hi
    rcases h.answer i className outcome hname hi with halone | ⟨hnot, -⟩
    · exact Or.inl halone
    · exact Or.inr ⟨hnot, Or.inl rfl⟩
  | start worker i hidle hwaiting => exact h.start worker i
  | finish worker i className htaken hname => exact h.finish hname

/-- The invariant holds under every schedule. -/
theorem After.sound {n : Nat} (h : After p n s) : Sound p s := by
  induction h with
  | initial => exact sound_initial
  | step _ hstep ih => exact ih.step hstep

/-! ## Every schedule comes to an end -/

/-- The number of steps that a class still takes, at most. -/
def Progress.steps : Progress workers → Nat
  | waiting => 2
  | taken _ => 1
  | answered _ => 0

/-- The number of steps that some classes still take, at most. -/
def totalSteps : List (Progress workers) → Nat
  | [] => 0
  | c :: classes => c.steps + totalSteps classes

/-- The number of steps that are left, at most. -/
def State.steps (s : State workers) : Nat := totalSteps s.classes + (!s.stopped).toNat

theorem totalSteps_replicate (count : Nat) :
    totalSteps (List.replicate count (.waiting : Progress workers)) = 2 * count := by
  induction count with
  | zero => rfl
  | succ count ih =>
    simp only [List.replicate_succ, totalSteps, ih, Progress.steps]
    omega

/-- A class that comes on takes away from the steps that are left. -/
theorem totalSteps_set {classes : List (Progress workers)} {i : Nat} {before : Progress workers}
    (hi : classes[i]? = some before) (after : Progress workers) :
    totalSteps (classes.set i after) + before.steps = totalSteps classes + after.steps := by
  induction classes generalizing i with
  | nil => simp at hi
  | cons c classes ih =>
    cases i with
    | zero =>
      rw [List.getElem?_cons_zero, Option.some.injEq] at hi
      subst hi
      simp only [List.set_cons_zero, totalSteps]
      omega
    | succ i =>
      rw [List.getElem?_cons_succ] at hi
      have hrest := ih hi
      simp only [List.set_cons_succ, totalSteps]
      omega

theorem Step.steps_lt (h : Step p s s') : s'.steps < s.steps := by
  cases h with
  | cancel hgoing => simp [State.steps, hgoing]
  | start worker i hidle hwaiting =>
    have hsum := totalSteps_set hwaiting
      (if s.isPassedOver i then .answered .notStarted else .taken worker)
    have hless : (if s.isPassedOver i then .answered .notStarted else .taken worker :
        Progress workers).steps < (.waiting : Progress workers).steps := by
      split <;> simp only [Progress.steps] <;> decide
    simp only [State.steps, State.start]
    omega
  | finish worker i className htaken hname =>
    have hsum := totalSteps_set htaken (.answered (p.alone className))
    simp only [Progress.steps] at hsum
    simp only [State.steps, State.finish]
    omega

theorem After.count_le {n : Nat} (h : After p n s) :
    n + s.steps ≤ 2 * p.classNames.length + 1 := by
  induction h with
  | initial =>
    simp only [State.steps, State.initial, totalSteps_replicate, Bool.not_false, Bool.toNat_true]
    omega
  | step _ hstep ih =>
    have hless := hstep.steps_lt
    omega

/-- As long as a class has no answer, some worker can go on. -/
theorem finished_or_step (hworkers : 0 < workers) (h : Sound p s) :
    (∃ answers, s.Finished answers) ∨ ∃ s', Step p s s' ∧ s'.stopped = s.stopped := by
  by_cases htaken : ∃ worker, .taken worker ∈ s.classes
  · obtain ⟨worker, hmem⟩ := htaken
    obtain ⟨i, hi⟩ := List.mem_iff_getElem?.1 hmem
    have hlt : i < p.classNames.length := h.length_eq ▸ (List.getElem?_eq_some_iff.1 hi).1
    right
    exact ⟨_, .finish worker i _ hi (List.getElem?_eq_getElem hlt), rfl⟩
  · by_cases hwaiting : .waiting ∈ s.classes
    · -- nobody is at work, so any worker is idle
      obtain ⟨i, hi⟩ := List.mem_iff_getElem?.1 hwaiting
      right
      exact ⟨_, .start ⟨0, hworkers⟩ i (fun hmem => htaken ⟨_, hmem⟩) hi, rfl⟩
    · left
      have hanswered : ∀ c ∈ s.classes, c ∈ Set.range Progress.answered := by
        intro c hc
        cases c with
        | waiting => exact absurd hc hwaiting
        | taken worker => exact absurd ⟨worker, hc⟩ htaken
        | answered outcome => exact ⟨outcome, rfl⟩
      have hrange : s.classes ∈ Set.range (List.map Progress.answered) := by
        rw [Set.range_list_map]
        exact hanswered
      obtain ⟨answers, hanswers⟩ := hrange
      exact ⟨answers, hanswers.symm⟩

/-! ## The result -/

/-- **What stands behind the end of a batch has no part in the result.** The induction is on the
classes: if the first one ends the batch, its error is the result, and if not, no class can stand
behind the end because of it. -/
theorem ofOutcomes_zip_eq_alone {policy : ErrorPolicy} {alone : String → Outcome}
    {classNames : List String} {answers : List Outcome}
    (hlength : answers.length = classNames.length)
    (h : ∀ (i : Nat) className outcome, classNames[i]? = some className →
      answers[i]? = some outcome → outcome = alone className ∨ policy = .failFast
        ∧ ∃ j < i, ∃ earlier, classNames[j]? = some earlier ∧ (alone earlier).isFailure = true) :
    Report.ofOutcomes policy (classNames.zip answers)
      = Report.ofOutcomes policy
          (classNames.map fun className => (className, alone className)) := by
  induction classNames generalizing answers with
  | nil => rfl
  | cons className classNames ih =>
    obtain ⟨answer, answers, rfl⟩ := List.exists_cons_of_length_eq_add_one hlength
    have hfirst : answer = alone className := by
      rcases h 0 className answer rfl rfl with halone | ⟨-, j, hj, -⟩
      · exact halone
      · exact absurd hj (Nat.not_lt_zero j)
    subst hfirst
    rw [List.zip_cons_cons, List.map_cons]
    by_cases hends : policy = .failFast ∧ (alone className).isFailure = true
    · obtain ⟨rfl, hfailure⟩ := hends
      obtain ⟨e, hfailed⟩ := Outcome.isFailure_eq_true_iff.1 hfailure
      rw [hfailed]
      rfl
    · apply Report.ofOutcomes_cons_congr
      apply ih
      · exact Nat.succ.inj hlength
      · intro i other outcome hother houtcome
        rcases h (i + 1) other outcome hother houtcome with
          halone | ⟨hpolicy, j, hj, earlier, hearlier, hfailure⟩
        · exact Or.inl halone
        · right
          refine ⟨hpolicy, ?_⟩
          cases j with
          | zero =>
            rw [List.getElem?_cons_zero, Option.some.injEq] at hearlier
            exact absurd ⟨hpolicy, hearlier ▸ hfailure⟩ hends
          | succ j =>
            exact ⟨j, Nat.lt_of_succ_lt_succ hj, earlier, hearlier, hfailure⟩

namespace Plan

/-- The answers for the classes, each asked for on its own. -/
def isolated (p : Plan) : List (String × Outcome) :=
  p.classNames.map fun className => (className, p.alone className)

/-- The result does not depend on the schedule. -/
theorem result_eq_of_finished {n : Nat} {answers : List Outcome} (h : After p n s)
    (hgoing : s.stopped = false) (hfinished : s.Finished answers) :
    p.result answers = Report.ofOutcomes p.settings.errorPolicy p.isolated := by
  have hsound := h.sound
  have hlength : answers.length = p.classNames.length := by
    rw [← hsound.length_eq, hfinished, List.length_map]
  apply ofOutcomes_zip_eq_alone hlength
  intro i className outcome hname houtcome
  have hclass : s.classes[i]? = some (.answered outcome) := by
    rw [hfinished, List.getElem?_map, houtcome, Option.map_some]
  rcases hsound.answer i className outcome hname hclass with halone | ⟨-, hstopped | ⟨j, hj, hends⟩⟩
  · exact Or.inl halone
  · rw [hgoing] at hstopped
    contradiction
  · exact Or.inr ⟨hends.1, j, hj, hends.2⟩

/-- One class after the other. -/
theorem outcomes_ofLoad_cons (p : Plan) (failed : Bool) (className : String)
    (classNames : List String) :
    Id.run (outcomes p.settings (.ofLoad p.load) failed (className :: classNames))
      = if failed then
          .notStarted :: Id.run (outcomes p.settings (.ofLoad p.load) failed classNames)
        else
          p.alone className :: Id.run (outcomes p.settings (.ofLoad p.load)
            (p.settings.errorPolicy == .failFast && (p.alone className).isFailure) classNames) := by
  cases failed <;> rfl

theorem length_outcomes_ofLoad (p : Plan) (failed : Bool) (classNames : List String) :
    (Id.run (outcomes p.settings (.ofLoad p.load) failed classNames)).length
      = classNames.length := by
  induction classNames generalizing failed with
  | nil => rfl
  | cons className classNames ih =>
    rw [outcomes_ofLoad_cons]
    split <;> simp only [List.length_cons, ih]

/-- One class after the other, a class is passed over only behind one that ends the batch. -/
theorem getElem?_outcomes_ofLoad (p : Plan) {failed : Bool} {classNames : List String} {i : Nat}
    {className : String} {outcome : Outcome} (hname : classNames[i]? = some className)
    (houtcome : (Id.run (outcomes p.settings (.ofLoad p.load) failed classNames))[i]?
      = some outcome) :
    outcome = p.alone className ∨ failed = true ∨ p.settings.errorPolicy = .failFast
      ∧ ∃ j < i, ∃ earlier, classNames[j]? = some earlier
        ∧ (p.alone earlier).isFailure = true := by
  induction classNames generalizing failed i with
  | nil => simp at hname
  | cons first classNames ih =>
    rw [outcomes_ofLoad_cons] at houtcome
    by_cases hfailed : failed = true
    · exact Or.inr (Or.inl hfailed)
    · rw [if_neg hfailed] at houtcome
      cases i with
      | zero =>
        rw [List.getElem?_cons_zero, Option.some.injEq] at hname houtcome
        exact Or.inl (hname ▸ houtcome.symm)
      | succ i =>
        rw [List.getElem?_cons_succ] at hname houtcome
        rcases ih hname houtcome with halone | hends | ⟨hpolicy, j, hj, earlier, hearlier, hfailure⟩
        · exact Or.inl halone
        · rw [Bool.and_eq_true, beq_iff_eq] at hends
          exact Or.inr (Or.inr ⟨hends.1, 0, Nat.succ_pos i, first, rfl, hends.2⟩)
        · exact Or.inr (Or.inr ⟨hpolicy, j + 1, Nat.succ_lt_succ hj, earlier, hearlier, hfailure⟩)

/-- A batch that is not shared has the same result. -/
theorem run_ofLoad (p : Plan) :
    Id.run (run p.settings (.ofLoad p.load) p.classNames)
      = Report.ofOutcomes p.settings.errorPolicy p.isolated := by
  apply ofOutcomes_zip_eq_alone (length_outcomes_ofLoad p false p.classNames)
  intro i className outcome hname houtcome
  rcases getElem?_outcomes_ofLoad p hname houtcome with halone | hfailed | hends
  · exact Or.inl halone
  · contradiction
  · exact Or.inr hends

/-! ## The report of isolated answers -/

theorem firstError?_isolated (p : Plan) :
    Report.firstError? .failFast p.isolated
      = p.classNames.findSome? fun className => (p.alone className).error? := by
  rw [Report.firstError?, isolated, List.findSome?_map]
  rfl

theorem sorted_isolated (p : Plan) :
    Report.sorted p.isolated = {
      headers := p.classNames.filterMap fun className => (p.alone className).header?
      skipped := p.classNames.filter fun className => p.alone className = .noHeader
      failures := p.classNames.filterMap fun className => (p.alone className).error?
      cancelled := [] } :=
  Report.sorted_started (answerFor_ne_notStarted p.settings p.load) p.classNames

end Plan

/-- **The schedule cannot be seen in the report.** However many workers share a batch, they take at
most two steps for each class, besides the one that tells the batch to stop, and as long as a class
has no answer somebody can go on. When all classes have theirs and the batch was not told to stop,
the result is that of the batch that is not shared. If the first failure ends the batch, that is the
error of the first class that fails on its own, and if none does, nothing is passed over. If
failures are reported, nothing is passed over either. Every report lists the answers that the
classes have on their own, in the order of the requests. -/
theorem run_schedule_independent (p : Plan) (workers : Nat) :
    (∀ n (s : State workers), After p n s → n ≤ 2 * p.classNames.length + 1)
    ∧ (∀ n (s : State workers), 0 < workers → After p n s →
        (∃ answers, s.Finished answers) ∨ ∃ s', Step p s s' ∧ s'.stopped = s.stopped)
    ∧ ∀ n (s : State workers) answers, After p n s → s.stopped = false → s.Finished answers →
        p.result answers = Id.run (run p.settings (.ofLoad p.load) p.classNames)
        ∧ (p.settings.errorPolicy = .failFast →
            (∀ front className back e, p.classNames = front ++ className :: back →
              (∀ earlier ∈ front, (p.alone earlier).isFailure = false) →
              p.alone className = .failed e → p.result answers = .error e)
            ∧ ((∀ className ∈ p.classNames, (p.alone className).isFailure = false) →
              ∃ report, p.result answers = .ok report
                ∧ report.cancelled = [] ∧ report.failures = []))
        ∧ (p.settings.errorPolicy = .skipAndReport →
            ∃ report, p.result answers = .ok report ∧ report.cancelled = [])
        ∧ ∀ report, p.result answers = .ok report →
            report.headers = p.classNames.filterMap (fun className => (p.alone className).header?)
            ∧ report.skipped = p.classNames.filter (fun className => p.alone className = .noHeader)
            ∧ report.failures
              = p.classNames.filterMap (fun className => (p.alone className).error?) := by
  refine ⟨?_, ?_, ?_⟩
  · intro n s h
    have hcount := h.count_le
    omega
  · intro n s hworkers h
    exact finished_or_step hworkers h.sound
  · intro n s answers h hgoing hfinished
    have hresult := Plan.result_eq_of_finished h hgoing hfinished
    refine ⟨?_, ?_, ?_, ?_⟩
    · rw [hresult, Plan.run_ofLoad]
    · intro hpolicy
      refine ⟨?_, ?_⟩
      · intro front className back e hsplit hfront hfailed
        have hnone : front.findSome? (fun className => (p.alone className).error?) = none := by
          rw [List.findSome?_eq_none_iff]
          intro earlier hearlier
          exact Outcome.error?_eq_none_iff.2 (hfront earlier hearlier)
        rw [hresult, Report.ofOutcomes_eq_error_iff, hpolicy, Plan.firstError?_isolated, hsplit,
          List.findSome?_append, hnone, Option.none_or, List.findSome?_cons, hfailed]
        rfl
      · intro hnofailure
        have hnone : ∀ className ∈ p.classNames, (p.alone className).error? = none := by
          intro className hname
          exact Outcome.error?_eq_none_iff.2 (hnofailure className hname)
        refine ⟨Report.sorted p.isolated, ?_, ?_, ?_⟩
        · rw [hresult, Report.ofOutcomes_eq_ok_iff, hpolicy, Plan.firstError?_isolated,
            List.findSome?_eq_none_iff]
          exact ⟨hnone, rfl⟩
        · rw [Plan.sorted_isolated]
        · rw [Plan.sorted_isolated]
          exact List.filterMap_eq_nil_iff.2 hnone
    · intro hpolicy
      refine ⟨Report.sorted p.isolated, ?_, ?_⟩
      · rw [hresult, Report.ofOutcomes_eq_ok_iff, hpolicy]
        exact ⟨rfl, rfl⟩
      · rw [Plan.sorted_isolated]
    · intro report hreport
      rw [hresult, Report.ofOutcomes_eq_ok_iff, Plan.sorted_isolated] at hreport
      rw [hreport.2]
      exact ⟨rfl, rfl, rfl⟩

/-- Three classes none of which can be found. -/
def Plan.missing : Plan where
  settings := {}
  load := fun className => .error (.notOnClassPath className)
  classNames := ["a/A", "a/B", "a/C"]

/-- What the second of two workers has done while the first is still busy with the first class: its
own class has failed, and it has passed over the last one. -/
theorem after_four_missing : After Plan.missing 4
    (⟨false, some 1, [.taken 0, .answered (Plan.missing.alone "a/B"), .answered .notStarted]⟩ :
      State 2) := by
  have hfirst : After Plan.missing 1 (⟨false, none, [.taken 0, .waiting, .waiting]⟩ : State 2) :=
    .step .initial (.start 0 0 (by simp [State.initial, Plan.missing]) rfl)
  have hsecond : After Plan.missing 2 (⟨false, none, [.taken 0, .taken 1, .waiting]⟩ : State 2) :=
    .step hfirst (.start 1 1 (by simp) rfl)
  have hthird : After Plan.missing 3 (⟨false, some 1,
      [.taken 0, .answered (Plan.missing.alone "a/B"), .waiting]⟩ : State 2) :=
    .step hsecond (.finish 1 1 "a/B" rfl rfl)
  exact .step hthird (.start 1 2 (by simp) rfl)

/-- A later class fails first, but the error is that of the first class. -/
theorem run_schedule_independent_of_missing :
    0 < 2 ∧ ∃ (s : State 2) (answers : List Outcome), After Plan.missing 5 s
      ∧ s.stopped = false ∧ s.Finished answers
      ∧ answers[2]? = some .notStarted
      ∧ Plan.missing.result answers = .error (.unresolved "a/A" (.notOnClassPath "a/A")) := by
  have hlast : After Plan.missing 5 (⟨false, some 0, [.answered (Plan.missing.alone "a/A"),
      .answered (Plan.missing.alone "a/B"), .answered .notStarted]⟩ : State 2) :=
    .step after_four_missing (.finish 0 0 "a/A" rfl rfl)
  have hresult := (run_schedule_independent Plan.missing 2).2.2 5 _
    [Plan.missing.alone "a/A", Plan.missing.alone "a/B", .notStarted] hlast rfl rfl
  refine ⟨by decide, _, [Plan.missing.alone "a/A", Plan.missing.alone "a/B", .notStarted], hlast,
    rfl, rfl, rfl, ?_⟩
  exact (hresult.2.1 rfl).1 [] "a/A" ["a/B", "a/C"] _ rfl (by simp) rfl

end Batch

end NativeHeaders
