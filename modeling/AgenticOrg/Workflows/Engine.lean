import AgenticOrg.Workflows.Replan
import AgenticOrg.Workflows.Retry

namespace AgenticOrg.Workflows

open OrderedDict VersionedStore

-- `InMemoryWorkflowStateRepository`, or `SqlAlchemyWorkflowStateRepository` with its
-- trusted tenant.
inductive Repository where
  | inMemory
  | sqlAlchemy (tenant : Option String)

-- The columns `step_id` and `waiting_step_id` are `String(100)` and may be null.
def fitsColumn : Option Scalar → Bool
  | none | some .null => true
  | some (.str text) => text.length ≤ 100
  | some _ => false

def Repository.storable : Repository → RunState → Note → Bool
  | .inMemory, _, _ => true
  | .sqlAlchemy _, state, note => fitsColumn state.waitingStepId && fitsColumn note.stepId

-- Whether `WorkflowStateStore.load` takes a cached state for the run it looks for.
def Repository.restores (repository : Repository) (runId : String) (legacy : RunState) : Bool :=
  legacy.id = runId &&
    match repository with
    | .inMemory => true
    | .sqlAlchemy none => false
    | .sqlAlchemy (some tenant) => legacy.tenant = some tenant

theorem jsonSafe_jsonSafe (state : RunState) : jsonSafe (jsonSafe state) = jsonSafe state := by
  have h : (state.stepResults.mapKeys Scalar.jsonKey).mapKeys Scalar.jsonKey =
      state.stepResults.mapKeys Scalar.jsonKey := by
    apply Dict.mapKeys_eq_self
    intro key hk
    obtain ⟨original, -, rfl⟩ := Dict.mem_keys_mapKeys Scalar.jsonKey state.stepResults key hk
    exact Scalar.jsonKey_jsonKey original
  simp only [jsonSafe, h]

def Repository.backend (repository : Repository) (Op Result : Type) : Backend (sig Op Result) where
  encode := jsonSafe
  encode_encode := jsonSafe_jsonSafe
  key := Note.key
  storable := repository.storable

section Store

variable {Op Result : Type}

-- `WorkflowStateStore.save`: the copy goes on with the version it was accepted at.
def saveState (copy : Copy (sig Op Result)) (note : Note) (next : Copy (sig Op Result) → Prog (sig Op Result))
    (stale failed : Prog (sig Op Result)) : Prog (sig Op Result) :=
  .save copy note fun
    | .accepted version => .cacheSet copy.state (next ⟨some version, copy.state⟩)
    | .duplicate => .cacheSet copy.state (next copy)
    | .stale => stale
    | .failed => failed

def backfillNote : Note := { actor := .redisLegacyBackfill, event := .redisFallback }

def restoreLegacy (repository : Repository) (runId : String) (failed : Prog (sig Op Result))
    (next : Option (Copy (sig Op Result)) → Prog (sig Op Result)) : Prog (sig Op Result) :=
  .cacheGet fun
    | none => next none
    | some legacy =>
        if repository.restores runId legacy then
          saveState ⟨none, legacy⟩ backfillNote (fun copy => next (some copy)) failed failed
        else next none

-- `WorkflowStateStore.load` by an operation that goes on with the state, ...
def loadState (repository : Repository) (runId : String) (failed : Prog (sig Op Result))
    (next : Option (Copy (sig Op Result)) → Prog (sig Op Result)) : Prog (sig Op Result) :=
  .load fun
    | some copy => next (some copy)
    | none => restoreLegacy repository runId failed next

-- ... and by one that only looks at it.
def peekState (repository : Repository) (runId : String) (failed : Prog (sig Op Result))
    (next : Option (Copy (sig Op Result)) → Prog (sig Op Result)) : Prog (sig Op Result) :=
  .peek fun
    | some copy => next (some copy)
    | none => restoreLegacy repository runId failed next

end Store

inductive Op where
  | execute
  | executeNext
  | resumeFromHitl (decision : Json)
  | resumeFromWait (stepResult : Json)
  | resumeFromEvent (eventData : Json)
  | timeoutEventWait (stepId : Scalar)
  | cancel
  | resumeWorkflowWait (stepId : Scalar)
  | timeoutWorkflowEvent (stepId : Scalar)
  | timeoutWorkflowHitl (stepId : Scalar)
  | resumeHaltedWorkflow

-- What an operation returns; `raised` is an exception that leaves it.
inductive Result where
  | status (status : RunStatus) (stepResults : Dict Scalar StepResult)
  | unknown
  | halted (status : RunStatus) (override : Override) (stepResults : Dict Scalar StepResult)
  | step (status : RunStatus) (stepId : Option Scalar) (error : Option Json)
  | stepResult (result : Json)
  | error (message : String)
  | task (status : String) (reason : Option String)
  | nothing
  | raised (message : String)

abbrev Engine : Sig := sig Op Result

-- The arguments of `start_run` besides the definition, and the id it makes up.
structure RunInfo where
  id : String
  triggerPayload : Json := .obj []
  tenant : Option String := none
  workflowId : Option String := none
  workflowRunId : Option String := none

def initialState (info : RunInfo) (definition : Definition) (now : Int) : RunState :=
  { id := info.id
    tenant := info.tenant
    workflowId := info.workflowId
    workflowRunId := info.workflowRunId
    definition := definition
    status := .running
    triggerPayload := info.triggerPayload
    stepsTotal := definition.steps.length
    stepsCompleted := 0
    stepResults := Dict.empty
    startedAt := now
    replanCount := 0
    replanHistory := [] }

def startRun (info : RunInfo) (raw : RawDefinition) (now : Int) : Except String RunState :=
  match parse raw with
  | .error message => .error message
  | .ok definition => .ok (initialState info definition now)

def startNote : Note := { event := .runStarted }

section Retry

def attemptFailed : Except String Json → Bool
  | .ok result => result.isDict && (result.get "status").text = "failed"
  | .error _ => true

def spent (maxRetries : Nat) : Except String Json → Except String Json
  | .ok result => .ok (result.set "retry_attempts" (.nat maxRetries))
  | .error message => .error message

-- `retry_with_backoff` around the handler, with the number of attempts left after this one.
def retryWithBackoff (step : Step) (state : RunState) (maxRetries : Nat)
    (next : Except String Json → Prog Engine) : Nat → Prog Engine
  | 0 => .ask (.executeStep step state) fun answer =>
      next (if attemptFailed answer then spent maxRetries answer else answer)
  | left + 1 => .ask (.executeStep step state) fun answer =>
      if attemptFailed answer then retryWithBackoff step state maxRetries next left else next answer

def executeWithRetry (step : Step) (state : RunState) (next : Except String Json → Prog Engine) :
    Prog Engine :=
  let maxRetries := parseRetryCount step.onFailure
  if maxRetries > 0 ∧ stepIsRetryable step then retryWithBackoff step state maxRetries next maxRetries
  else .ask (.executeStep step state) next

end Retry

section Operations

variable (repository : Repository) (runId : String)

def storeFailed : Prog Engine := .done (.raised "workflow state store failed")

def staleStateResult : Prog Engine :=
  peekState repository runId storeFailed fun
    | none => .done .unknown
    | some latest => .done (.status latest.state.status latest.state.stepResults)

-- A save of `execute` or `execute_next`: when it is stale the newer status is reported.
def checkpoint (copy : Copy Engine) (note : Note) (next : Copy Engine → Prog Engine) : Prog Engine :=
  saveState copy note next (staleStateResult repository runId) storeFailed

def whileLive (ranStep : Bool) (copy : Copy Engine) (next : Prog Engine) : Prog Engine :=
  if ranStep then
    peekState repository runId storeFailed fun
      | none => next
      | some latest =>
          if latest.state.status = .running then next
          else .done (.status latest.state.status copy.state.stepResults)
  else next

def operatorHalt (state : RunState) (next : Prog Engine) : Prog Engine :=
  .ask (.operatorOverride state) fun (override : Option Override) =>
    match override with
    | none => next
    | some override => .done (.halted state.status override state.stepResults)

def checkTimeout (state : RunState) (hours : Rat) (now : Int) : Bool :=
  ((now - state.startedAt : Int) : Rat) > hours * 3600 * 1000000

def unlessTimedOut (copy : Copy Engine) (stepId : Scalar) (report : RunState → Result)
    (next : Prog Engine) : Prog Engine :=
  match copy.state.definition.timeoutHours with
  | none => next
  | some hours =>
      .ask .now fun now =>
        if checkTimeout copy.state hours now then
          checkpoint repository runId ⟨copy.version, { copy.state with status := .timedOut }⟩
            { stepId := some stepId, event := .workflowTimedOut }
            fun copy => .done (report copy.state)
        else next

def skipStep (copy : Copy Engine) (step : Step) (reason : String) (next : Copy Engine → Prog Engine) :
    Prog Engine :=
  checkpoint repository runId ⟨copy.version, copy.state.record step.id (skippedResult reason)⟩
    { stepId := some step.id, event := .stepSkipped reason } next

def failStep (copy : Copy Engine) (step : Step) (message : String) (report : RunState → Result) :
    Prog Engine :=
  checkpoint repository runId
    ⟨copy.version, { copy.state.record step.id (failedResult message) with status := .failed }⟩
    { stepId := some step.id, event := .stepFailed (.str message) }
    fun copy => .done (report copy.state)

-- The handler with its retries, and the save of what came of it.
def runStep (known : Scalar → Bool) (copy : Copy Engine) (step : Step) (raised : String → Prog Engine)
    (settled : Copy Engine → Event → Json → Prog Engine) : Prog Engine :=
  executeWithRetry step copy.state fun
    | .error message => raised message
    | .ok answer =>
        match normalizeStepResult step answer with
        | none => .done (.raised "unhashable step status")
        | some (status, result) =>
            checkpoint repository runId ⟨copy.version, (settle known step status result copy.state).1⟩
              { stepId := some step.id, event := (settle known step status result copy.state).2 }
              fun copy' => settled copy' (settle known step status result copy.state).2 result

def complete (copy : Copy Engine) : Prog Engine :=
  .ask .now fun now =>
    checkpoint repository runId
      ⟨copy.version, { copy.state with status := .completed, completedAt := some now }⟩
      { event := .workflowCompleted }
      fun copy => .done (.status .completed copy.state.stepResults)

def attemptReplan (copy : Copy Engine) (order : List Scalar) (failed : Step) (message : String)
    (refused replanned : Prog Engine) : Prog Engine :=
  .ask (.replanReply copy.state failed (remainingSteps copy.state order failed.id) message)
    fun (reply : Except String (List Entry)) =>
      match reply with
      | .error _ => refused
      | .ok entries =>
          match replanWorkflow copy.state.stepResults.keys entries with
          | .error _ => refused
          | .ok newSteps =>
              .ask .now fun now =>
                checkpoint repository runId
                  ⟨copy.version, replannedState copy.state failed.id message newSteps now⟩
                  { actor := .replan, stepId := some failed.id, event := .workflowReplanned message }
                  fun _ => replanned

def reportStatus (state : RunState) : Result := .status state.status state.stepResults

def executeLoop (index : Dict Scalar Step) (order : List Scalar) :
    List Scalar → Bool → Copy Engine → Prog Engine
  | [], _, copy => complete repository runId copy
  | stepId :: rest, ranStep, copy =>
      if copy.state.stepResults.contains stepId then executeLoop index order rest ranStep copy
      else
        whileLive repository runId ranStep copy <|
        operatorHalt copy.state <|
        unlessTimedOut repository runId copy stepId reportStatus <|
          match index.get? stepId with
          | none => .done (.raised "KeyError")
          | some step =>
              match checkDependencies step copy.state with
              | some reason =>
                  skipStep repository runId copy step reason fun copy =>
                    executeLoop index order rest ranStep copy
              | none =>
                  runStep repository runId index.contains copy step
                    (fun message =>
                      if replanEnabled copy.state then
                        attemptReplan repository runId copy order step message
                          (failStep repository runId copy step message reportStatus)
                          (.call .execute .done)
                      else failStep repository runId copy step message reportStatus)
                    fun copy event _ =>
                      match event with
                      | .stepCheckpointed => executeLoop index order rest true copy
                      | _ => .done (reportStatus copy.state)

-- The start of both drivers: only a run that is `running` goes on, in its sorted order.
def drive (next : List Scalar → Copy Engine → Prog Engine) : Prog Engine :=
  loadState repository runId storeFailed fun
    | none => .done (.error "Run not found")
    | some copy =>
        if copy.state.status = .running then
          match topologicalSort copy.state.definition.steps with
          | .error message => .done (.raised message)
          | .ok order => next order copy
        else .done (reportStatus copy.state)

def execute : Prog Engine :=
  drive repository runId fun order copy =>
    executeLoop repository runId (buildStepIndex copy.state.definition.steps) order order false copy

def executeNextLoop (index : Dict Scalar Step) : List Scalar → Copy Engine → Prog Engine
  | [], copy => complete repository runId copy
  | stepId :: rest, copy =>
      if copy.state.stepResults.contains stepId then executeNextLoop index rest copy
      else
        unlessTimedOut repository runId copy stepId (fun _ => .step .timedOut none none) <|
          match index.get? stepId with
          | none => .done (.raised "KeyError")
          | some step =>
              match checkDependencies step copy.state with
              | some reason =>
                  skipStep repository runId copy step reason fun copy => executeNextLoop index rest copy
              | none =>
                  operatorHalt copy.state <|
                    runStep repository runId (fun _ => true) copy step
                      (fun message =>
                        failStep repository runId copy step message
                          fun _ => .step .failed (some step.id) (some (.str message)))
                      fun copy event result =>
                        match event with
                        | .stepCheckpointed => .done (.stepResult result)
                        | .stepFailed error => .done (.step .failed (some step.id) (some error))
                        | _ => .done (.step copy.state.status (some step.id) none)

def executeNext : Prog Engine :=
  drive repository runId fun order copy =>
    executeNextLoop repository runId (buildStepIndex copy.state.definition.steps) order copy

-- A save outside the two drivers: a stale one raises.
def saveOrRaise (copy : Copy Engine) (note : Note) (next : Copy Engine → Prog Engine) : Prog Engine :=
  saveState copy note next (.done (.raised "StaleStateError")) storeFailed

def resumeFromHitl (decision : Json) : Prog Engine :=
  loadState repository runId storeFailed fun
    | none => .done (.error "Run not found")
    | some copy =>
        if copy.state.status ≠ .waitingHitl then
          .done (.error ("Run is not waiting for HITL, current status: " ++ copy.state.status.text))
        else if copy.state.waiting.truthy = false then .done (.error "No waiting step recorded")
        else
          let waiting := copy.state.waiting
          if isRejection decision then
            .ask .now fun now =>
              saveOrRaise
                ⟨copy.version,
                  { copy.state.release waiting (rejectedResult decision) .failed with
                    error := some (hitlError
                      ("Step '" ++ waiting.display ++ "' was rejected by a human reviewer"))
                    completedAt := some now }⟩
                { actor := .hitlResume, stepId := some waiting, event := .hitlRejected }
                fun copy => .done (reportStatus copy.state)
          else
            saveOrRaise
              ⟨copy.version,
                copy.state.release waiting (decidedResult copy.state waiting decision) .running⟩
              { actor := .hitlResume, stepId := some waiting, event := .hitlResumed }
              fun _ => .call .execute .done

def resumeFromWait (stepResult : Json) : Prog Engine :=
  loadState repository runId storeFailed fun
    | none => .done (.error "Run not found")
    | some copy =>
        if copy.state.status ≠ .waitingDelay ∧ copy.state.status ≠ .waitingEvent then
          .done (.error ("Run is not waiting, current status: " ++ copy.state.status.text))
        else if copy.state.waiting.truthy = false then .done (.error "No waiting step recorded")
        else
          saveOrRaise
            ⟨copy.version,
              copy.state.release copy.state.waiting
                { output := if stepResult.truthy then stepResult else .obj [], status := .completed }
                .running⟩
            { actor := .waitResume, stepId := some copy.state.waiting, event := .waitResumed }
            fun _ => .call .execute .done

def resumeFromEvent (eventData : Json) : Prog Engine :=
  resumeFromWait repository runId (.obj [("event", eventData), ("status", .str "event_received")])

def timeoutEventWait (stepId : Scalar) : Prog Engine :=
  loadState repository runId storeFailed fun
    | none => .done (.error "Run not found")
    | some copy =>
        if copy.state.status ≠ .waitingEvent ∨ (copy.state.waiting == stepId) = false then
          .done (.error "Step is no longer waiting")
        else
          saveOrRaise
            ⟨copy.version, copy.state.release stepId { output := .obj [], status := .timedOut } .running⟩
            { actor := .eventTimeout, stepId := some stepId, event := .eventWaitTimedOut }
            fun _ => .call .execute .done

def cancel : Prog Engine :=
  loadState repository runId storeFailed fun
    | none => .done .nothing
    | some copy =>
        .ask .now fun now =>
          saveOrRaise
            ⟨copy.version, { copy.state with status := .cancelled, cancelledAt := some now }⟩
            { actor := .cancel, event := .workflowCancelled }
            fun _ => .done .nothing

end Operations

end AgenticOrg.Workflows
