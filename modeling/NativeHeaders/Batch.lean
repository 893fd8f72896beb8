import NativeHeaders.Header.Analysis

/-!
# Batches of classes

A batch answers for each requested class in turn: with a header, with none because none is needed,
with an error, or not at all once the batch is stopped. It is stopped by whoever asked for it, and
when the settings say so also by the first failure. The report sorts the answers, each list in the
order of the requests; without a report there is the error of the first class that failed.
-/

set_option autoImplicit false

namespace NativeHeaders

/-- How a batch answers for one class. -/
inductive Outcome where
  | header (h : Header)
  | noHeader
  | failed (e : GenerationError)
  /-- The batch was stopped before. -/
  | notStarted
deriving DecidableEq

namespace Outcome

/-- The answer for a class whose bytes were asked for. -/
def ofLoaded (settings : Settings) (className : String) (loaded : Except LoadFault Bytes) :
    Outcome :=
  match loaded with
  | .error fault => failed (.unresolved className fault)
  | .ok bytes =>
    match ClassFile.ofBytes bytes with
    | .error e => failed (.malformedClass className (.undecodable e))
    | .ok file =>
      match Header.ofClassFile settings file with
      | .error e => failed e
      | .ok none => noHeader
      | .ok (some h) => header h

/-- Whether a class failed. -/
def isFailure : Outcome → Bool
  | failed _ => true
  | _ => false

end Outcome

/-- The answers of a batch, sorted. -/
structure Report where
  headers : List Header
  /-- Classes that need no header. -/
  skipped : List String
  failures : List GenerationError
  /-- Classes that were not started. -/
  cancelled : List String
deriving DecidableEq

namespace Report

/-- The report of an empty batch. -/
def empty : Report := ⟨[], [], [], []⟩

/-- Whether every class was answered for without an error. -/
def isComplete (r : Report) : Bool := r.failures.isEmpty && r.cancelled.isEmpty

/-- A report with the answer for one more class in front. -/
def add (className : String) (outcome : Outcome) (r : Report) : Report :=
  match outcome with
  | .header h => { r with headers := h :: r.headers }
  | .noHeader => { r with skipped := className :: r.skipped }
  | .failed e => { r with failures := e :: r.failures }
  | .notStarted => { r with cancelled := className :: r.cancelled }

/-- The report of some answers. Where the first failure ends a batch, its error stands instead. -/
def ofOutcomes (policy : ErrorPolicy) : List (String × Outcome) → Generated Report
  | [] => .ok empty
  | (className, outcome) :: others =>
    match policy, outcome with
    | .failFast, .failed e => .error e
    | _, _ => do
      let report ← ofOutcomes policy others
      return report.add className outcome

end Report

namespace Batch

/-- Where a batch gets its classes, and how it learns that it is to stop. -/
structure Source (m : Type → Type) where
  load : String → m (Except LoadFault Bytes)
  isCancelled : m Bool

variable {m : Type → Type} [Monad m]

/-- A source of files that is never told to stop. -/
def Source.ofLoad (load : String → m (Except LoadFault Bytes)) : Source m := ⟨load, pure false⟩

/-- The answers for some classes in turn; `failed` says that a failure has ended the batch. -/
def outcomes (settings : Settings) (source : Source m) (failed : Bool) :
    List String → m (List Outcome)
  | [] => pure []
  | className :: others => do
    let stopped ← source.isCancelled
    if failed || stopped then
      let rest ← outcomes settings source failed others
      return .notStarted :: rest
    else
      let loaded ← source.load className
      let outcome := Outcome.ofLoaded settings className loaded
      -- a class that was started is answered for, even if it stops the others
      let ends := settings.errorPolicy == .failFast && outcome.isFailure
      let rest ← outcomes settings source ends others
      return outcome :: rest

/-- Generates the headers of some classes. -/
def run (settings : Settings) (source : Source m) (classNames : List String) :
    m (Generated Report) := do
  let answers ← outcomes settings source false classNames
  return Report.ofOutcomes settings.errorPolicy (classNames.zip answers)

end Batch

end NativeHeaders
