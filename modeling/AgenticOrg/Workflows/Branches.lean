import AgenticOrg.Workflows.Runs.Places

namespace AgenticOrg.Workflows

open OrderedDict VersionedStore

section Definition

variable (steps : List Step)

-- The step with the id `source` falls back to the one with `id`.
def FallsTo (source id : Scalar) : Prop :=
  ∃ step ∈ steps, (step.id == source) = true ∧
    (fallbackTarget step).any (fun target => Scalar.str target == id) = true

-- `after` is run only when `before` has completed: it depends on it, and not as its fallback.
def Gate (before after : Canon) : Prop :=
  ∃ step ∈ steps, ∃ dep ∈ step.deps, before = dep.canon ∧ after = step.id.canon ∧
    ¬ FallsTo steps dep step.id

def Names (condition target : Step) : Prop :=
  condition ∈ steps ∧ target ∈ steps ∧ ∃ path ∈ condition.paths, (path == target.id) = true

-- A step that is skipped for its dependencies only.
structure Plain (step : Step) : Prop where
  path : ∀ other ∈ steps, ∀ path ∈ other.paths, (path == step.id) = false
  fallback : ∀ source, ¬ FallsTo steps source step.id

-- Where a condition leads, it has been evaluated before: the target waits for it, or the
-- condition comes first and is skipped only for what the target waits for as well.
def Guarded : Prop :=
  ∀ condition target, Names steps condition target →
    Relation.TransGen (Gate steps) condition.id.canon target.id.canon ∨
    Plain steps condition ∧
      (∀ dep ∈ condition.deps, Relation.TransGen (Gate steps) dep.canon target.id.canon) ∧
      ∀ order, topologicalSort steps = .ok order → Behind order target.id condition.id

def TextPaths : Prop := ∀ step ∈ steps, ∀ path ∈ step.paths, path.isText = true

end Definition

section State

-- An entry that a handler is behind, not a skip and not the mark of a replan.
def StepResult.ran (entry : StepResult) : Bool :=
  entry.status ≠ .replanned && !(entry.status = .skipped && entry.reason.isSome && entry.stub.isNone)

def Ran (s : RunState) (id : Scalar) : Prop := (s.stepResults.get? id).any StepResult.ran = true

def Done (s : RunState) (id : Scalar) : Prop := statusOf s.stepResults id = some .completed

def RunStatus.isLive (status : RunStatus) : Bool := status = .running || status.isPaused

-- The new steps of a replan keep to themselves: their ids are free, no condition that
-- stays leads to them, and the definition they make is guarded again.
structure Joins (s : RunState) (failed : Scalar) (newSteps : List Step) : Prop where
  texts : TextIds newSteps
  paths : TextPaths newSteps
  fresh : ∀ new ∈ newSteps, (failed == new.id) = false ∧ s.stepResults.contains new.id = false
  apart : ∀ step ∈ s.definition.steps,
    (s.stepResults.contains step.id || failed == step.id) = true →
      ∀ path ∈ step.paths, ∀ new ∈ newSteps, (path == new.id) = false
  guarded : Guarded (replannedSteps s failed newSteps)

def branchRules : Rules Engine where
  load
    | .resumeWorkflowWait stepId, s => s.waiting.truthy = false → (s.waiting == stepId) = true
    | .timeoutWorkflowEvent stepId, _ => stepId.isText = true
    | _, _ => True
  answer := RepliesFit Joins

-- The saves that settle a step: with them a condition is evaluated.
def Event.settles : Event → Bool
  | .stepCheckpointed | .waitingHitl | .waitingDelay _ | .waitingEvent _ => true
  | _ => false

def Evaluates (row : Row Engine) (id : Scalar) : Prop :=
  row.note.event.settles = true ∧ ∃ stepId, row.note.stepId = some stepId ∧ (stepId == id) = true

-- The branch target that stands in the results of the row.
def Selects (row : Row Engine) (condition target : Step) : Prop :=
  ∃ entry path, row.state.stepResults.get? condition.id = some entry ∧
    entry.branchTarget = some path ∧ (path == target.id) = true

end State

end AgenticOrg.Workflows
