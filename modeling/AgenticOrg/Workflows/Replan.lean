import AgenticOrg.Workflows.Results

namespace AgenticOrg.Workflows

def MAX_REPLAN_ATTEMPTS : Nat := 3

def validateReplanned (completedIds seenIds : List Scalar) : List Entry → Except String (List Step)
  | [] => .ok []
  | .notDict typeName :: _ => .error ("Step must be a dict, got " ++ typeName)
  | .noId :: _ => .error "Every replanned step must have an 'id'"
  | .step step :: rest =>
      if completedIds.any (· == step.id) then
        .error ("Replanned step id '" ++ step.id.display ++ "' conflicts with an already-completed step")
      else if seenIds.any (· == step.id) then
        .error ("Duplicate replanned step id: " ++ step.id.display)
      else if step.stepType.valid then
        match validateReplanned completedIds (step.id :: seenIds) rest with
        | .ok steps => .ok (step :: steps)
        | .error message => .error message
      else
        .error ("Invalid step type '" ++ step.stepType.text ++ "' in replanned step '" ++
          step.id.display ++ "'")

-- The part of `replan_workflow` behind the model call: the reply is a list by now.
def replanWorkflow (completedIds : List Scalar) (reply : List Entry) : Except String (List Step) :=
  if reply.isEmpty then .error "LLM returned empty step list"
  else validateReplanned (completedIds.filter Scalar.truthy) [] reply

-- The steps the sort has left to do, without the one that failed.
def remainingSteps (state : RunState) (order : List Scalar) (failed : Scalar) : List Step :=
  (order.filter fun id => !(state.stepResults.contains id || failed == id)).filterMap
    (buildStepIndex state.definition.steps).get?

def replanEnabled (state : RunState) : Bool :=
  state.definition.replanOnFailure && state.replanCount < MAX_REPLAN_ATTEMPTS

def replannedResult (error : String) : StepResult :=
  { output := .null, status := .replanned, confidence := some .null, error := some (.str error),
    replanned := true }

-- The steps of the definition after a replan: those with a result, the one that
-- failed among them, and behind them the steps of the reply.
def replannedSteps (state : RunState) (failed : Scalar) (newSteps : List Step) : List Step :=
  (state.definition.steps.filter fun step => state.stepResults.contains step.id || failed == step.id) ++
    newSteps.map fun step => { step with replanned := true }

def replannedState (state : RunState) (failed : Scalar) (error : String) (newSteps : List Step)
    (now : Int) : RunState :=
  let marked := state.record failed (replannedResult error)
  let steps := replannedSteps state failed newSteps
  { marked with
    replanHistory := state.replanHistory ++
      [⟨state.replanCount + 1, now, failed, error, newSteps.map Step.id⟩]
    replanCount := state.replanCount + 1
    definition := { state.definition with steps := steps }
    stepsTotal := steps.length }

end AgenticOrg.Workflows
