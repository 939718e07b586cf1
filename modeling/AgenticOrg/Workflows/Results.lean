import AgenticOrg.Workflows.Sort
import AgenticOrg.Workflows.State

namespace AgenticOrg.Workflows

open OrderedDict Directive

section StepResults

-- `UnknownStepStatusError(...).to_error()`
def unknownStepStatus (stepId : Scalar) (status : Json) : Json :=
  .obj [("code", .str "unknown_step_status"),
    ("message", .str "Workflow step returned an unsupported status."),
    ("details", .obj [("step_id", .scalar stepId), ("status", status)])]

def failureResult (step : Step) (error output : Json) : Json :=
  .obj [("step_id", .scalar step.id), ("type", .str step.stepType.text), ("status", .str "failed"),
    ("output", output), ("error", error)]

def allowedStatus (text : String) : Option StepStatus :=
  ALLOWED_STEP_STATUSES.find? (·.text = text)

-- The status of a result and the result that goes with it. `none` is the
-- `TypeError` of looking up a list or a dict in a frozenset.
def normalizeStepResult (step : Step) (result : Json) : Option (StepStatus × Json) :=
  if result.isDict then
    match result.get "status" with
    | .scalar .null => some (.failed, failureResult step (unknownStepStatus step.id .null) result)
    | .scalar status =>
        match if status.isText then allowedStatus status.display else none with
        | some found => some (found, result)
        | none =>
            some (.failed, failureResult step (unknownStepStatus step.id (.str status.display)) result)
    | _ => none
  else some (.failed, failureResult step (unknownStepStatus step.id .null) result)

def keepIfTruthy (value : Json) : Option Json := if value.truthy then some value else none

def stateResultFromStepResult (status : StepStatus) (result : Json) : StepResult :=
  let stubbed := (result.get "stubbed").truthy
  { output := (result.get? "output").getD result
    status := status
    confidence := some (result.get "confidence")
    error := keepIfTruthy (result.get "error")
    reason := if stubbed then some (result.get "reason") else none
    stub :=
      if stubbed then
        some ⟨result.get "code", keepIfTruthy (result.get "connector"),
          keepIfTruthy (result.get "agent"), keepIfTruthy (result.get "action")⟩
      else none }

end StepResults

section Branches

def resolveConditionBranch (step : Step) (result : Json) : Option Scalar :=
  if (result.get "result").truthy then step.truePath else step.falsePath

def skippedResult (reason : String) : StepResult :=
  { output := .null, status := .skipped, confidence := some .null, reason := some (.str reason) }

-- A path counts when it has a value that is not empty.
def pathOf (path : Option Scalar) : Option Scalar := path.filter Scalar.truthy

def skipPath (branchTarget : Option Scalar) (results : Dict Scalar StepResult) (path : Option Scalar) :
    Dict Scalar StepResult :=
  match pathOf path with
  | none => results
  | some other =>
      if branchTarget.any (other == ·) || results.contains other then results
      else results.insert other (skippedResult "branch_not_taken")

def skipBranchNotTaken (step : Step) (branchTarget : Option Scalar) (results : Dict Scalar StepResult) :
    Dict Scalar StepResult :=
  skipPath branchTarget (skipPath branchTarget results step.truePath) step.falsePath

end Branches

section Dependencies

def statusOf (results : Dict Scalar StepResult) (id : Scalar) : Option StepStatus :=
  (results.get? id).map StepResult.status

-- The steps that `step` is the fallback of: those the definition names, and those
-- of its dependencies whose recorded result says so.
def sourcesOf (step : Step) (state : RunState) : List Scalar :=
  step.deps.foldl
    (fun sources dep =>
      if !(sources.any (· == dep)) &&
          ((state.stepResults.get? dep).bind StepResult.fallbackTarget).any
            fun target => Scalar.str target == step.id
      then sources ++ [dep] else sources)
    (fallbackSources step.id state.definition.steps)

def checkSources (sources : List Scalar) (results : Dict Scalar StepResult) : Option String :=
  match sources.find? fun source => !results.contains source with
  | some source => some ("Fallback source '" ++ source.display ++ "' has not been executed")
  | none =>
      if sources.any fun source => statusOf results source = some .failed then none
      else if sources.isEmpty then none
      else some "fallback_not_needed"

def checkDependency (results : Dict Scalar StepResult) (dep : Scalar) : Option String :=
  match results.get? dep with
  | none => some ("Dependency '" ++ dep.display ++ "' has not been executed")
  | some result =>
      match result.status, result.reason with
      | .completed, _ => none
      | .skipped, some (.scalar (.str "branch_not_taken")) => some "branch_not_taken"
      | status, _ =>
          some ("Dependency '" ++ dep.display ++ "' did not complete successfully (status=" ++
            status.text ++ ")")

def checkDependencies (step : Step) (state : RunState) : Option String :=
  let sources := sourcesOf step state
  match checkSources sources state.stepResults with
  | some reason => some reason
  | none =>
      (step.deps.filter fun dep => !(sources.any (· == dep))).findSome?
        (checkDependency state.stepResults)

end Dependencies

section Settle

-- The pause a result asks for, with the status and the event it is saved under.
def pauseOf (step : Step) (status : StepStatus) (result : Json) : Option (RunStatus × Event) :=
  if step.type = some .humanInLoop ∨ status = .waitingHitl then some (.waitingHitl, .waitingHitl)
  else if status = .waitingDelay then some (.waitingDelay, .waitingDelay (result.get "resume_at"))
  else if status = .waitingEvent then some (.waitingEvent, .waitingEvent (result.get "event_type"))
  else none

def recordedResult (step : Step) (status : StepStatus) (result : Json) : StepResult :=
  { stateResultFromStepResult status result with fallbackTarget := fallbackTarget step }

-- The entry of the step, and the branch bookkeeping of a condition step; `known`
-- says which targets are noted down.
def branchResults (known : Scalar → Bool) (step : Step) (result : Json) (entry : StepResult)
    (results : Dict Scalar StepResult) : Dict Scalar StepResult :=
  if step.type = some .condition then
    let target := resolveConditionBranch step result
    skipBranchNotTaken step target
      (results.insert step.id { entry with branchTarget := (pathOf target).filter known })
  else results.insert step.id entry

-- What both drivers do with the result of a step: the state they save and the
-- event of the save. The run goes on after `stepCheckpointed` only.
def settle (known : Scalar → Bool) (step : Step) (status : StepStatus) (result : Json)
    (state : RunState) : RunState × Event :=
  let entry := recordedResult step status result
  if status = .failed ∧ stepAllowsFailure step = false then
    ({ state.record step.id entry with status := .failed }, .stepFailed (result.get "error"))
  else
    let taken := state.withResults (branchResults known step result entry state.stepResults)
    match pauseOf step status result with
    | some (paused, event) => ({ taken with status := paused, waitingStepId := some step.id }, event)
    | none => (taken, .stepCheckpointed)

def failedResult (error : String) : StepResult :=
  { output := .null, status := .failed, confidence := some .null, error := some (.str error) }

end Settle

section Resume

def REJECTIONS : List String := ["reject", "rejected", "deny", "denied"]

def isRejection (decision : Json) : Bool :=
  match decision.get "decision" with
  | .scalar word => word.truthy && REJECTIONS.contains (String.ofList (lower (strip word.display.toList)))
  | _ => false

def stepTypeFor (state : RunState) (stepId : Scalar) : StepType :=
  match state.definition.steps.find? (·.id == stepId) with
  | some step => step.stepType
  | none => .agent

def isBlank : Json → Bool
  | .scalar .null => true
  | .scalar (.str "") => true
  | .obj [] => true
  | _ => false

-- The entry that replaces the one of the step a decision was awaited for.
def decidedResult (state : RunState) (waiting : Scalar) (decision : Json) : StepResult :=
  let prior := state.stepResults.get? waiting
  let output := (prior.map StepResult.output).getD .null
  if stepTypeFor state waiting = .humanInLoop ∨ isBlank output then
    { output := decision, status := .completed, confidence := some (decision.get "confidence") }
  else
    let merged := if output.isDict then output else .obj [("result", output)]
    let confidence := match prior.bind StepResult.confidence with
      | none | some (.scalar .null) => decision.get "confidence"
      | some found => found
    { output := merged.set "hitl_decision" decision, status := .completed, confidence := some confidence }

def hitlError (message : String) : Json :=
  .obj [("code", .str "hitl_rejected"), ("message", .str message)]

def rejectedResult (decision : Json) : StepResult :=
  { output := decision
    status := .rejected
    confidence := some (decision.get "confidence")
    error := some (hitlError "Rejected by human reviewer") }

-- Taking a run out of its wait: the entry of the step, the status, and no waiting step.
def RunState.release (state : RunState) (id : Scalar) (result : StepResult) (status : RunStatus) :
    RunState :=
  { state.record id result with status := status, waitingStepId := none }

end Resume

end AgenticOrg.Workflows
