import AgenticOrg.Workflows.Engine

namespace AgenticOrg.Workflows

open VersionedStore

-- The tasks open their store without a tenant.
def Repository.unscoped : Repository → Repository
  | .inMemory => .inMemory
  | .sqlAlchemy _ => .sqlAlchemy none

section Tasks

variable (repository : Repository) (runId : String)

def stateNotFound : Prog Engine := .done (.task "error" (some "workflow_state_not_found"))

def currentStatusIs (status : RunStatus) : String := "current status is " ++ status.text

-- The engine goes on with the run; the sync of the database row behind it reads the
-- state once more and does not write it.
def driveEngineAndSync (next : Result → Prog Engine) : Prog Engine :=
  .call .execute fun result => peekState repository.unscoped runId storeFailed fun _ => next result

def resumeWaitKey (stepId : Scalar) : String := "resume_workflow_wait:" ++ runId ++ ":" ++ stepId.display

def resumedResult : StepResult :=
  { output := .obj [("resumed", .bool true), ("completed_by", .str "resume_workflow_wait")]
    status := .completed
    completedBy := some "resume_workflow_wait" }

def resumeWorkflowWait (stepId : Scalar) : Prog Engine :=
  loadState repository.unscoped runId storeFailed fun
    | none => stateNotFound
    | some copy =>
        let state := copy.state
        if state.status = .running ∧ state.waiting.truthy = false ∧
            state.stepResults.contains stepId = false then
          .done (.task "retry" (some "waiting checkpoint not yet persisted"))
        else if state.status ≠ .waitingDelay ∧ state.status ≠ .waitingEvent then
          .done (.task "noop" (some (currentStatusIs state.status)))
        else if state.waiting.truthy ∧ (state.waiting == stepId) = false then
          .done (.task "error" (some "waiting_step_id does not match"))
        else
          saveOrRaise ⟨copy.version, state.release stepId resumedResult .running⟩
            { actor := .celeryResumeWorkflowWait, stepId := some stepId, event := .resumeWorkflowWait,
              key := some (resumeWaitKey runId stepId) }
            fun _ => driveEngineAndSync repository runId fun _ => .done (.task "resumed" none)

def timeoutEventKey (stepId : Scalar) : String :=
  "timeout_workflow_event:" ++ runId ++ ":" ++ stepId.display

def timedOutResult : StepResult :=
  { output := .obj [], status := .timedOut, completedBy := some "timeout_workflow_event" }

-- A listener that the timeout no longer concerns.
def ListenerStatus.closed : ListenerStatus → Bool
  | .matched | .cancelled | .expired => true
  | .waiting | .timedOut => false

-- `mark_timed_out`: the record of the listener after it, when there is one.
def markTimedOut : Option ListenerStatus → Option ListenerStatus
  | some .waiting => some .timedOut
  | record => record

def timeoutWorkflowEvent (stepId : Scalar) : Prog Engine :=
  .ask (.markTimedOut stepId) fun (record : Option ListenerStatus) =>
    if record.any ListenerStatus.closed then
      .done (.task "noop" (record.map fun status => "listener is " ++ status.text))
    else
      loadState repository.unscoped runId storeFailed fun
        | none => stateNotFound
        | some copy =>
            let state := copy.state
            if state.stepResults.contains stepId then .done (.task "already_completed" none)
            else if state.status = .running ∧ state.waiting.truthy = false then
              .done (.task "retry" (some "waiting checkpoint not yet persisted"))
            else if (state.waiting == stepId) = false then .done (.task "noop" none)
            else
              saveOrRaise ⟨copy.version, state.release stepId timedOutResult .running⟩
                { actor := .celeryTimeoutWorkflowEvent, stepId := some stepId,
                  event := .timeoutWorkflowEvent, key := some (timeoutEventKey runId stepId) }
                fun _ => driveEngineAndSync repository runId fun _ => .done (.task "timed_out" none)

def resumeHaltedWorkflow : Prog Engine :=
  loadState repository.unscoped runId storeFailed fun
    | none => stateNotFound
    | some copy =>
        if copy.state.status = .running then
          driveEngineAndSync repository runId fun
            | .halted _ _ _ => .done (.task "halted" none)
            | _ => .done (.task "resumed" none)
        else .done (.task "noop" (some ("run_status_" ++ copy.state.status.text)))

section Hitl

-- The role a pending decision escalates to, if its policy says so and it has not yet.
def escalationRole (output : Json) : Option Scalar :=
  let policy := output.get "approval_timeout_policy"
  match policy.get "escalation_role" with
  | .scalar role =>
      if policy.isDict && (policy.get "timeout_outcome").text = "auto_escalate" && role.truthy &&
          !(output.get "hitl_escalated").truthy
      then some (.str role.display) else none
  | _ => none

def firstTruthy (values : List Json) : Json := (values.find? Json.truthy).getD (.nat 4)

def escalatedOutput (output : Json) (role : Scalar) (now : Int) : Json :=
  (((output.set "hitl_escalated" (.bool true)).set "hitl_escalated_at" (.scalar (.int now))).set
    "assignee_role" (.scalar role)).set "escalated_from_role" (output.get "assignee_role")

def hitlTimeoutError (stepId : Scalar) : Json :=
  .obj [("code", .str "hitl_timeout"),
    ("message", .str ("Step '" ++ stepId.display ++ "' timed out waiting for a human decision"))]

def priorResult (state : RunState) (stepId : Scalar) : StepResult :=
  (state.stepResults.get? stepId).getD { output := .null, status := .timedOut }

def hitlTimedOutResult (state : RunState) (stepId : Scalar) : StepResult :=
  { priorResult state stepId with
    status := .timedOut
    error := some (hitlTimeoutError stepId)
    completedBy := some "timeout_workflow_hitl" }

def timeoutHitlKey (kind : String) (stepId : Scalar) : String :=
  "timeout_workflow_hitl:" ++ kind ++ runId ++ ":" ++ stepId.display

def escalate (copy : Copy Engine) (stepId role : Scalar) (output : Json) (now : Int) : Prog Engine :=
  .ask (.floatOf (firstTruthy [(output.get "approval_timeout_policy").get "default_sla_hours",
      output.get "timeout_hours"])) fun (hours : Option Rat) =>
    if hours.isNone then .done (.raised "ValueError")
    else
      saveOrRaise
        ⟨copy.version, { copy.state with
          stepResults := copy.state.stepResults.insert stepId
            { priorResult copy.state stepId with output := escalatedOutput output role now } }⟩
        { actor := .celeryTimeoutWorkflowHitl, stepId := some stepId, event := .hitlEscalated,
          key := some (timeoutHitlKey runId "escalate:" stepId) }
        fun _ => .done (.task "escalated" none)

def timeoutWorkflowHitl (stepId : Scalar) : Prog Engine :=
  loadState repository.unscoped runId storeFailed fun
    | none => stateNotFound
    | some copy =>
        let state := copy.state
        if state.status ≠ .waitingHitl ∨ (state.waiting == stepId) = false then
          .done (.task "noop" (some (currentStatusIs state.status)))
        else
          .ask .now fun now =>
            .ask (.uuids state) fun (parsed : Bool) =>
              if parsed then
                let prior := (priorResult state stepId).output
                let output := if prior.isDict then prior else .obj []
                match escalationRole output with
                | some role => escalate runId copy stepId role output now
                | none =>
                    saveOrRaise
                      ⟨copy.version,
                        { state.release stepId (hitlTimedOutResult state stepId) .failed with
                          error := some (hitlTimeoutError stepId)
                          completedAt := some now }⟩
                      { actor := .celeryTimeoutWorkflowHitl, stepId := some stepId,
                        event := .hitlTimedOut, key := some (timeoutHitlKey runId "" stepId) }
                      fun _ => .done (.task "timed_out" none)
              else .done (.raised "ValueError")

end Hitl

end Tasks

-- The operations on one run, each as the tree of its accesses.
def body (repository : Repository) (runId : String) : Op → Prog Engine
  | .execute => execute repository runId
  | .executeNext => executeNext repository runId
  | .resumeFromHitl decision => resumeFromHitl repository runId decision
  | .resumeFromWait stepResult => resumeFromWait repository runId stepResult
  | .resumeFromEvent eventData => resumeFromEvent repository runId eventData
  | .timeoutEventWait stepId => timeoutEventWait repository runId stepId
  | .cancel => cancel repository runId
  | .resumeWorkflowWait stepId => resumeWorkflowWait repository runId stepId
  | .timeoutWorkflowEvent stepId => timeoutWorkflowEvent repository runId stepId
  | .timeoutWorkflowHitl stepId => timeoutWorkflowHitl repository runId stepId
  | .resumeHaltedWorkflow => resumeHaltedWorkflow repository runId

end AgenticOrg.Workflows
