import AgenticOrg.Lib.VersionedStore
import AgenticOrg.Workflows.Parser

namespace AgenticOrg.Workflows

open OrderedDict VersionedStore

inductive RunStatus where
  | running
  | waitingHitl
  | waitingDelay
  | waitingEvent
  | completed
  | failed
  | timedOut
  | cancelled
  deriving DecidableEq

def RunStatus.text : RunStatus → String
  | .running => "running"
  | .waitingHitl => "waiting_hitl"
  | .waitingDelay => "waiting_delay"
  | .waitingEvent => "waiting_event"
  | .completed => "completed"
  | .failed => "failed"
  | .timedOut => "timed_out"
  | .cancelled => "cancelled"

-- `ALLOWED_STEP_STATUSES`, and the two that only the engine itself records.
inductive StepStatus where
  | completed
  | failed
  | skipped
  | stubbed
  | waitingHitl
  | waitingDelay
  | waitingEvent
  | timedOut
  | cancelled
  | compensated
  | rejected
  | replanned
  deriving DecidableEq

def StepStatus.text : StepStatus → String
  | .completed => "completed"
  | .failed => "failed"
  | .skipped => "skipped"
  | .stubbed => "stubbed"
  | .waitingHitl => "waiting_hitl"
  | .waitingDelay => "waiting_delay"
  | .waitingEvent => "waiting_event"
  | .timedOut => "timed_out"
  | .cancelled => "cancelled"
  | .compensated => "compensated"
  | .rejected => "rejected"
  | .replanned => "replanned"

def ALLOWED_STEP_STATUSES : List StepStatus :=
  [.completed, .failed, .skipped, .stubbed, .waitingHitl, .waitingDelay, .waitingEvent, .timedOut,
    .cancelled, .compensated]

structure Stub where
  code : Json
  connector : Option Json
  agent : Option Json
  action : Option Json

-- An entry of `state["step_results"]`; an optional field is `none` when its key is missing.
structure StepResult where
  output : Json
  status : StepStatus
  confidence : Option Json := none
  error : Option Json := none
  reason : Option Json := none
  stub : Option Stub := none
  fallbackTarget : Option String := none
  branchTarget : Option Scalar := none
  completedBy : Option String := none
  replanned : Bool := false

structure ReplanEvent where
  replanNumber : Nat
  timestamp : Int
  failedStepId : Scalar
  error : String
  replacementSteps : List Scalar

-- Times are in microseconds. `tenant` is what `_extract_tenant_id` finds in the state.
structure RunState where
  id : String
  tenant : Option String := none
  workflowId : Option String := none
  workflowRunId : Option String := none
  definition : Definition
  status : RunStatus
  triggerPayload : Json
  stepsTotal : Nat
  stepsCompleted : Nat
  stepResults : Dict Scalar StepResult
  startedAt : Int
  replanCount : Nat
  replanHistory : List ReplanEvent
  waitingStepId : Option Scalar := none
  completedAt : Option Int := none
  cancelledAt : Option Int := none
  error : Option Json := none

-- `state.get("waiting_step_id")`
def RunState.waiting (state : RunState) : Scalar := state.waitingStepId.getD .null

-- New results, and the count of them that always follows.
def RunState.withResults (state : RunState) (results : Dict Scalar StepResult) : RunState :=
  { state with stepResults := results, stepsCompleted := results.size }

def RunState.record (state : RunState) (id : Scalar) (result : StepResult) : RunState :=
  state.withResults (state.stepResults.insert id result)

-- `json.loads(json.dumps(state))`: the keys of `step_results` are the only ones that
-- need not be texts before.
def jsonSafe (state : RunState) : RunState :=
  { state with stepResults := state.stepResults.mapKeys Scalar.jsonKey }

section Notes

inductive Actor where
  | workflowEngine
  | hitlResume
  | waitResume
  | eventTimeout
  | cancel
  | replan
  | celeryResumeWorkflowWait
  | celeryTimeoutWorkflowEvent
  | celeryTimeoutWorkflowHitl
  | redisLegacyBackfill
  deriving DecidableEq

inductive Event where
  | runStarted
  | workflowTimedOut
  | stepSkipped (reason : String)
  | stepFailed (error : Json)
  | waitingHitl
  | waitingDelay (resumeAt : Json)
  | waitingEvent (eventType : Json)
  | stepCheckpointed
  | workflowCompleted
  | hitlRejected
  | hitlResumed
  | waitResumed
  | eventWaitTimedOut
  | workflowCancelled
  | workflowReplanned (error : String)
  | resumeWorkflowWait
  | timeoutWorkflowEvent
  | hitlEscalated
  | hitlTimedOut
  | redisFallback

-- What a save passes along with the state.
structure Note where
  actor : Actor := .workflowEngine
  stepId : Option Scalar := none
  event : Event
  key : Option String := none

end Notes

section Outside

inductive ListenerStatus where
  | waiting
  | matched
  | timedOut
  | cancelled
  | expired
  deriving DecidableEq

def ListenerStatus.text : ListenerStatus → String
  | .waiting => "waiting"
  | .matched => "matched"
  | .timedOut => "timed_out"
  | .cancelled => "cancelled"
  | .expired => "expired"

structure Override where
  reason : String
  override : Json

-- What the operations ask of the world around the state store: the clock, the
-- operator overrides, the step handlers, the model behind the replanner, the
-- event listeners, and the text conversions `float()` and `uuid.UUID()`.
inductive Query where
  | now
  | operatorOverride (state : RunState)
  | executeStep (step : Step) (state : RunState)
  | replanReply (state : RunState) (failed : Step) (remaining : List Step) (error : String)
  | markTimedOut (stepId : Scalar)
  | floatOf (value : Json)
  | uuids (state : RunState)

def Query.Answer : Query → Type
  | .now => Int
  | .operatorOverride _ => Option Override
  | .executeStep _ _ => Except String Json
  | .replanReply _ _ _ _ => Except String (List Entry)
  | .markTimedOut _ => Option ListenerStatus
  | .floatOf _ => Option Rat
  | .uuids _ => Bool

end Outside

def sig (Op Result : Type) : Sig := ⟨RunState, Note, Query, Query.Answer, Op, Result⟩

end AgenticOrg.Workflows
