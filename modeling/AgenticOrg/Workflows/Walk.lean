import AgenticOrg.Workflows.Engine.Writes

namespace AgenticOrg.Workflows

open OrderedDict

-- What the two drivers come to when nobody else works on the run: a walk along the
-- sorted steps, as a function from state to state.
section Walk

variable (repository : Repository) (handler : Step → RunState → Except String Json)

-- The answer of a handler that gives the same one at every attempt.
def attempted (step : Step) (answer : Except String Json) : Except String Json :=
  let maxRetries := parseRetryCount step.onFailure
  if maxRetries > 0 ∧ stepIsRetryable step then
    if attemptFailed answer then spent maxRetries answer else answer
  else answer

inductive Turn where
  | stuck
  | skipped (state : RunState)
  | checkpointed (state : RunState)
  | stopped (state : RunState)

def Turn.ifStored (state : RunState) (note : Note) (turn : Turn) : Turn :=
  if repository.storable state note then turn else .stuck

def turn (known : Scalar → Bool) (s : RunState) (step : Step) : Turn :=
  match checkDependencies step s with
  | some reason =>
      let skipped := s.record step.id (skippedResult reason)
      Turn.ifStored repository skipped { stepId := some step.id, event := .stepSkipped reason }
        (.skipped skipped)
  | none =>
      match attempted step (handler step (jsonSafe s)) with
      | .error message =>
          let failed := { s.record step.id (failedResult message) with status := .failed }
          Turn.ifStored repository failed
            { stepId := some step.id, event := .stepFailed (.str message) } (.stopped failed)
      | .ok answer =>
          match normalizeStepResult step answer with
          | none => .stuck
          | some (status, result) =>
              let settled := settle known step status result s
              Turn.ifStored repository settled.1 { stepId := some step.id, event := settled.2 }
                (match settled.2 with
                | .stepCheckpointed => .checkpointed settled.1
                | _ => .stopped settled.1)

def completedState (s : RunState) (now : Int) : RunState :=
  { s with status := .completed, completedAt := some now }

-- Where the walk goes from a turn: `onward` says whether it goes on behind a handler,
-- and the flag of the result says that an exception ended it.
def Turn.follow (onward : Bool) (s : RunState) (next : RunState → RunState × Bool) :
    Turn → RunState × Bool
  | .stuck => (s, true)
  | .skipped s' => next s'
  | .checkpointed s' => if onward then next s' else (s', false)
  | .stopped s' => (s', false)

-- Which branch targets a driver notes down: `execute` those that are steps, and
-- `execute_next` every one.
def noted (index : Dict Scalar Step) : Bool → Scalar → Bool
  | true => index.contains
  | false => fun _ => true

def walk (index : Dict Scalar Step) (onward : Bool) (now : Int) : List Scalar → RunState → RunState × Bool
  | [], s =>
      if repository.storable (completedState s now) { event := .workflowCompleted } then
        (completedState s now, false)
      else (s, true)
  | stepId :: rest, s =>
      if s.stepResults.contains stepId then walk index onward now rest s
      else
        match index.get? stepId with
        | none => (s, true)
        | some step =>
            (turn repository handler (noted index onward) s step).follow onward s (walk index onward now rest)

def drivenState (onward : Bool) (now : Int) (s : RunState) : RunState × Bool :=
  if s.status = .running then
    match topologicalSort s.definition.steps with
    | .error _ => (s, true)
    | .ok order => walk repository handler (buildStepIndex s.definition.steps) onward now order s
  else (s, false)

-- What is stored after so many steps one by one, each at its own time.
def calls (now : Nat → Int) : Nat → RunState → RunState
  | 0, s => s
  | k + 1, s => calls (fun i => now (i + 1)) k (jsonSafe (drivenState repository handler false (now 0) s).1)

end Walk

section Course

variable (handler : Step → RunState → Except String Json) (start : RunState)

-- Where a run comes by when every target is noted down: the state, and the steps still ahead.
inductive Course : RunState → List Scalar → Prop
  | start (order) (ho : topologicalSort start.definition.steps = .ok order) : Course start order
  | passed (s stepId rest) (h : Course s (stepId :: rest)) (hc : s.stepResults.contains stepId = true) :
      Course s rest
  | skipped (s stepId rest step reason) (h : Course s (stepId :: rest)) (ha : AtStep s stepId step)
      (hc : checkDependencies step s = some reason) :
      Course (s.record step.id (skippedResult reason)) rest
  | settled (s stepId rest step answer status result) (h : Course s (stepId :: rest))
      (ha : AtStep s stepId step) (hc : checkDependencies step s = none)
      (hr : attempted step (handler step (jsonSafe s)) = .ok answer)
      (hn : normalizeStepResult step answer = some (status, result))
      (he : (settle (fun _ => true) step status result s).2 = .stepCheckpointed) :
      Course (settle (fun _ => true) step status result s).1 rest

def StepResult.keepTarget (known : Scalar → Bool) (entry : StepResult) : StepResult :=
  { entry with branchTarget := entry.branchTarget.filter known }

def RunState.keepTargets (known : Scalar → Bool) (s : RunState) : RunState :=
  { s with stepResults := s.stepResults.mapValues (StepResult.keepTarget known) }

-- The state without the branch targets that are no steps.
def RunState.withoutGhosts (s : RunState) : RunState :=
  s.keepTargets (buildStepIndex s.definition.steps).contains

-- Wherever a step is taken up, all results stand under texts, and its handler, if it is
-- called, answers the same without the targets that are no steps.
def Unseen : Prop :=
  ∀ s stepId rest step, Course handler start s (stepId :: rest) → AtStep s stepId step →
    (∀ key ∈ s.stepResults.keys, key.isText = true) ∧
    (checkDependencies step s = none →
      attempted step (handler step s.withoutGhosts) = attempted step (handler step s))

end Course

end AgenticOrg.Workflows
