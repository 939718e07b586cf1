import AgenticOrg.Lib.DepthFirst
import AgenticOrg.Workflows.Definition

namespace AgenticOrg.Workflows

-- An item of a list of steps as it comes in, from a definition or from a model reply.
inductive Entry where
  | notDict (typeName : String)
  | noId
  | step (step : Step)

structure RawDefinition where
  steps : Option (List Entry)
  timeoutHours : Option Rat := none
  replanOnFailure : Bool := false

def validateSteps (stepIds : List Scalar) : List Entry → Except String (List Step)
  | [] => .ok []
  | .notDict typeName :: _ => .error ("argument of type '" ++ typeName ++ "' is not iterable")
  | .noId :: _ => .error "Every step must have an id"
  | .step step :: rest =>
      if stepIds.any (· == step.id) then .error ("Duplicate step id: " ++ step.id.display)
      else if step.stepType.valid then
        match validateSteps (step.id :: stepIds) rest with
        | .ok steps => .ok (step :: steps)
        | .error message => .error message
      else .error ("Invalid step type: " ++ step.stepType.text)

def dependencyGraph (steps : List Step) (node : Canon) : List Canon :=
  match steps.find? (·.id.canon = node) with
  | some step => step.deps.map Scalar.canon
  | none => []

-- The node whose visit closes a cycle, as the loop of `_check_circular` finds it.
def cycleNode (visit : Canon → Precedence.Marks Canon → Bool × Precedence.Marks Canon) :
    List Scalar → Precedence.Marks Canon → Option Scalar
  | [], _ => none
  | node :: rest, marks =>
      match visit node.canon marks with
      | (true, _) => some node
      | (false, marks') => cycleNode visit rest marks'

def stepIds (steps : List Step) : List Scalar := steps.map Step.id

def canonIds (steps : List Step) : List Canon := steps.map (·.id.canon)

-- Python's recursion has no bound; the number of nodes and edges is one it never meets.
def dfsFuel (steps : List Step) : Nat :=
  (canonIds steps ++ (canonIds steps).flatMap (dependencyGraph steps)).length + 1

def checkCircular (steps : List Step) : Except String Unit :=
  if steps.any (·.dependsOn.isNone) then .error "depends_on is not iterable"
  else
    match cycleNode (Precedence.hasCycle (dependencyGraph steps) (dfsFuel steps)) (stepIds steps) ⟨[], []⟩ with
    | some node => .error ("E3006: Circular dependency detected involving " ++ node.display)
    | none => .ok ()

def parse (raw : RawDefinition) : Except String Definition :=
  match raw.steps with
  | none => .error "Workflow must have steps"
  | some entries =>
      match validateSteps [] entries with
      | .error message => .error message
      | .ok steps =>
          match checkCircular steps with
          | .error message => .error message
          | .ok () => .ok ⟨steps, raw.timeoutHours, raw.replanOnFailure⟩

end AgenticOrg.Workflows
