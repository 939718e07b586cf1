import AgenticOrg.Lib.Kahn
import AgenticOrg.Workflows.Parser

namespace AgenticOrg.Workflows

def named (steps : List Step) (id : Scalar) : Bool := steps.any (·.id == id)

-- The edges of one step, in the order in which the sort adds them.
def stepEdges (steps : List Step) (step : Step) : List (Canon × Canon) :=
  (step.deps.filter (named steps)).map (fun dep => (dep.canon, step.id.canon)) ++
    match fallbackTarget step with
    | none => []
    | some target =>
        if named steps (.str target) && !(Scalar.str target == step.id) then
          [(step.id.canon, (Scalar.str target).canon)]
        else []

def sortEdges (steps : List Step) : List (Canon × Canon) := steps.flatMap (stepEdges steps)

def idOf (steps : List Step) (node : Canon) : Option Scalar :=
  (steps.find? (·.id.canon = node)).map Step.id

def topologicalSort (steps : List Step) : Except String (List Scalar) :=
  if steps.any (·.dependsOn.isNone) then .error "depends_on is not iterable"
  else
    let order := Precedence.kahn (canonIds steps) (sortEdges steps)
    if order.length ≠ steps.length then .error "Circular dependency detected in workflow steps"
    else .ok (order.filterMap (idOf steps))

-- What a step has to wait for by its definition: its dependencies and, when it
-- is somebody's fallback, the step it stands in for.
def precedenceEdges (steps : List Step) : List (Canon × Canon) :=
  steps.flatMap fun step =>
    (step.deps.filter (named steps)).map (fun dep => (dep.canon, step.id.canon)) ++
      ((fallbackTarget step).toList.filter fun target => named steps (.str target)).map
        fun target => (step.id.canon, (Scalar.str target).canon)

-- `earlier` stands in the list before every place of `id`.
def Behind (order : List Scalar) (id earlier : Scalar) : Prop :=
  ∀ front back, order = front ++ id :: back → ∃ found ∈ front, (found == earlier) = true

end AgenticOrg.Workflows
