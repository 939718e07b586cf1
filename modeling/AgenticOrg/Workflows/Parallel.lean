import AgenticOrg.Workflows.Digits
import AgenticOrg.Workflows.Results

namespace AgenticOrg.Workflows

section ChildResults

def setDefault (value : Json) (key : String) (default : Json) : Json :=
  if (value.get? key).isSome then value else value.set key default

inductive ChildOutcome where
  | raised (exceptionType cause : String)
  | returned (value : Json)

def exceptionChildResult (exceptionType cause childId : String) : Json :=
  .obj [("step_id", .str childId), ("status", .str "failed"), ("output", .null),
    ("error", .obj [("code", .str "parallel_child_exception"),
      ("message", .str "Parallel child raised an exception."),
      ("details", .obj [("exception_type", .str exceptionType), ("cause", .str cause)])])]

def failureOf (stepId : Scalar) (stepType : String) (error output : Json) : Json :=
  .obj [("step_id", .scalar stepId), ("type", .str stepType), ("status", .str "failed"),
    ("output", output), ("error", error)]

-- `str(value)`, where `repr` prints the lists and dicts.
def strOf (repr : Json → String) : Json → String
  | .scalar value => value.display
  | value => repr value

def orElse (value default : Json) : Json := if value.truthy then value else default

variable (repr : Json → String)

def unknownChildStatus (childId : String) (status normalized : Json) : Json :=
  let stepId := Scalar.str (strOf repr (orElse (normalized.get "step_id") (.str childId)))
  failureOf stepId (strOf repr (orElse (normalized.get "type") (.str "parallel_child")))
    (unknownStepStatus stepId status) normalized

-- `none` is the `TypeError` of looking up a list or a dict in a frozenset.
def normalizeChildResult (childId : String) : ChildOutcome → Option Json
  | .raised exceptionType cause => some (exceptionChildResult exceptionType cause childId)
  | .returned value =>
      if value.isDict then
        let normalized := setDefault value "step_id" (.str childId)
        match normalized.get "status" with
        | .scalar .null => some (unknownChildStatus repr childId .null normalized)
        | .scalar status =>
            if status.isText ∧ (allowedStatus status.display).isSome then
              some (setDefault normalized "output" (.obj []))
            else some (unknownChildStatus repr childId (.str status.display) normalized)
        | _ => none
      else some (.obj [("step_id", .str childId), ("status", .str "completed"), ("output", value)])

def isCompleted (result : Json) : Bool := (result.get "status").text == "completed"

end ChildResults

section Executor

-- Waiting for all children: the results in the order of the children.
def collectAll (results : List (Option Json)) : Option (List Json) := results.mapM id

-- Waiting for any child: what was collected up to the first success.
def collectAny : List (Option Json) → Option (List Json)
  | [] => some []
  | none :: _ => none
  | some result :: rest =>
      if isCompleted result then some [result] else (collectAny rest).map (result :: ·)

-- Waiting for `count` successes, `successes` of them seen so far.
def collectCount (count : ℕ) : ℕ → List (Option Json) → Option (List Json)
  | _, [] => some []
  | _, none :: _ => none
  | successes, some result :: rest =>
      let seen := if isCompleted result then successes + 1 else successes
      if count ≤ seen then some [result] else (collectCount count seen rest).map (result :: ·)

def countOf (digits : Digits) (waitFor : String) (n : ℕ) : Option ℕ :=
  if digits.isNumeric waitFor.toList then (digits.int waitFor.toList).map Int.toNat else some n

def resultAt (results : List (Option Json)) (index : ℕ) : Option Json := results[index]?.join

-- `order` is the order in which the executor sees the children end.
def executeParallel (digits : Digits) (results : List (Option Json)) (order : List ℕ)
    (waitFor : String) (n : ℕ) : Option (List Json) :=
  let seen := order.map (resultAt results)
  if waitFor = "all" then collectAll results
  else if waitFor = "any" then collectAny seen
  else (countOf digits waitFor n).bind fun count => collectCount count 0 seen

end Executor

section Step

structure ParallelStep where
  id : Scalar
  steps : List Json := []
  waitFor : Scalar := .str "all"

variable (repr : Json → String) (digits : Digits) (handler : Json → ChildOutcome)

def parallelChildStep (child : Json) : Json :=
  if child.isDict then setDefault child "type" (.str "agent")
  else
    let childId := Json.str (strOf repr child)
    .obj [("id", childId), ("type", .str "agent"), ("agent", childId)]

def parallelFailures (results : List Json) : List Json := results.filter (!isCompleted ·)

def parallelChildError (stepId : Scalar) (failures : List Json) : Json :=
  .obj [("code", .str "parallel_child_failed"), ("message", .str "One or more parallel child steps failed."),
    ("details", .obj [("step_id", .scalar stepId), ("failed_children", .arr failures)])]

-- The result of each child, as the executor would collect it.
def childResults (step : ParallelStep) : List (Option Json) :=
  step.steps.mapIdx fun index child =>
    normalizeChildResult repr (toString index) (handler (parallelChildStep repr child))

def parallelResult (step : ParallelStep) (results : List Json) : Json :=
  let failures := parallelFailures results
  let shouldFail := if step.waitFor.display ≠ "any" then !failures.isEmpty else !results.any isCompleted
  if shouldFail then
    failureOf step.id "parallel" (parallelChildError step.id failures)
      (.obj [("results", .arr results), ("failed_children", .arr failures)])
  else
    .obj [("step_id", .scalar step.id), ("type", .str "parallel"), ("status", .str "completed"),
      ("results", .arr results)]

-- `none` is an exception that leaves the step.
def parallelStep (step : ParallelStep) (order : List ℕ) : Option Json :=
  (executeParallel digits (childResults repr handler step) order step.waitFor.display 1).map
    (parallelResult step)

-- The status a run of the step reports, if it reports one.
def reported (step : ParallelStep) (order : List ℕ) : Option String :=
  (parallelStep repr digits handler step order).map fun result => (result.get "status").text

-- How a child ends.
def endsCompleted (result : Option Json) : Bool := result.any isCompleted

def completedChildren (step : ParallelStep) : ℕ := (childResults repr handler step).countP endsCompleted

end Step

end AgenticOrg.Workflows
