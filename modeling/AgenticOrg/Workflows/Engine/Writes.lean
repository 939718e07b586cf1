import AgenticOrg.Lib.VersionedStore.Theorems
import AgenticOrg.Workflows.Tasks

namespace AgenticOrg.Workflows

open OrderedDict VersionedStore

-- The place the drivers have come to in the sorted order: everything before it has
-- a result, and it has none.
structure AtStep (state : RunState) (stepId : Scalar) (step : Step) : Prop where
  running : state.status = .running
  place : ∃ front back, topologicalSort state.definition.steps = .ok (front ++ stepId :: back) ∧
    ∀ id ∈ front, state.stepResults.contains id = true
  fresh : state.stepResults.contains stepId = false
  lookup : (buildStepIndex state.definition.steps).get? stepId = some step

def stepNote (stepId : Scalar) (event : Event) : Note := { stepId := some stepId, event := event }

-- Which targets a driver notes down as the branch a condition took.
def NotesBranches (state : RunState) (known : Scalar → Bool) : Prop :=
  known = (buildStepIndex state.definition.steps).contains ∨ known = fun _ => true

-- Everything an operation can save in place of the state it holds, under `rules`
-- on what it loads and on what it is answered.
inductive Writes (rules : Rules Engine) : RunState → RunState → Note → Prop where
  | runTimedOut (s stepId) (hr : s.status = .running) :
      Writes rules s { s with status := .timedOut } (stepNote stepId .workflowTimedOut)
  | skipped (s stepId step reason) (ha : AtStep s stepId step)
      (hc : checkDependencies step s = some reason) :
      Writes rules s (s.record step.id (skippedResult reason)) (stepNote step.id (.stepSkipped reason))
  | raised (s stepId step message) (ha : AtStep s stepId step)
      (hc : checkDependencies step s = none) :
      Writes rules s { s.record step.id (failedResult message) with status := .failed }
        (stepNote step.id (.stepFailed (.str message)))
  | settled (s stepId step known answer status result) (ha : AtStep s stepId step)
      (hc : checkDependencies step s = none) (hk : NotesBranches s known)
      (hn : normalizeStepResult step answer = some (status, result)) :
      Writes rules s (settle known step status result s).1
        (stepNote step.id (settle known step status result s).2)
  | completed (s now order) (hr : s.status = .running)
      (ho : topologicalSort s.definition.steps = .ok order)
      (hall : ∀ id ∈ order, s.stepResults.contains id = true) :
      Writes rules s { s with status := .completed, completedAt := some now }
        { event := .workflowCompleted }
  | replanned (s stepId step message remaining reply newSteps now) (ha : AtStep s stepId step)
      (hc : checkDependencies step s = none) (he : replanEnabled s = true)
      (hr : rules.answer (.replanReply s step remaining message) (Except.ok reply))
      (hn : replanWorkflow s.stepResults.keys reply = .ok newSteps) :
      Writes rules s (replannedState s step.id message newSteps now)
        { actor := .replan, stepId := some step.id, event := .workflowReplanned message }
  | hitlRejected (s decision error now) (hs : s.status = .waitingHitl) (hw : s.waiting.truthy = true) :
      Writes rules s
        { s.release s.waiting (rejectedResult decision) .failed with
          error := error, completedAt := some now }
        { actor := .hitlResume, stepId := some s.waiting, event := .hitlRejected }
  | hitlResumed (s decision) (hs : s.status = .waitingHitl) (hw : s.waiting.truthy = true) :
      Writes rules s (s.release s.waiting (decidedResult s s.waiting decision) .running)
        { actor := .hitlResume, stepId := some s.waiting, event := .hitlResumed }
  | waitResumed (s output) (hs : s.status = .waitingDelay ∨ s.status = .waitingEvent)
      (hw : s.waiting.truthy = true) :
      Writes rules s (s.release s.waiting { output := output, status := .completed } .running)
        { actor := .waitResume, stepId := some s.waiting, event := .waitResumed }
  | eventTimedOut (s stepId) (hs : s.status = .waitingEvent) (hw : (s.waiting == stepId) = true) :
      Writes rules s (s.release stepId { output := .obj [], status := .timedOut } .running)
        { actor := .eventTimeout, stepId := some stepId, event := .eventWaitTimedOut }
  | cancelled (s now) (hl : rules.load .cancel s) :
      Writes rules s { s with status := .cancelled, cancelledAt := some now }
        { actor := .cancel, event := .workflowCancelled }
  | waitTask (s stepId key) (hs : s.status = .waitingDelay ∨ s.status = .waitingEvent)
      (hw : s.waiting.truthy = true → (s.waiting == stepId) = true)
      (hl : rules.load (.resumeWorkflowWait stepId) s) :
      Writes rules s (s.release stepId resumedResult .running)
        { actor := .celeryResumeWorkflowWait, stepId := some stepId, event := .resumeWorkflowWait,
          key := some key }
  | eventTask (s stepId key) (hfresh : s.stepResults.contains stepId = false)
      (hs : ¬ (s.status = .running ∧ s.waiting.truthy = false)) (hw : (s.waiting == stepId) = true)
      (hl : rules.load (.timeoutWorkflowEvent stepId) s) :
      Writes rules s (s.release stepId timedOutResult .running)
        { actor := .celeryTimeoutWorkflowEvent, stepId := some stepId,
          event := .timeoutWorkflowEvent, key := some key }
  | hitlEscalated (s stepId output key) (hs : s.status = .waitingHitl)
      (hw : (s.waiting == stepId) = true) :
      Writes rules s
        { s with
          stepResults := s.stepResults.insert stepId { priorResult s stepId with output := output } }
        { actor := .celeryTimeoutWorkflowHitl, stepId := some stepId, event := .hitlEscalated,
          key := some key }
  | hitlTask (s stepId error now key) (hs : s.status = .waitingHitl)
      (hw : (s.waiting == stepId) = true) :
      Writes rules s
        { s.release stepId (hitlTimedOutResult s stepId) .failed with
          error := error, completedAt := some now }
        { actor := .celeryTimeoutWorkflowHitl, stepId := some stepId, event := .hitlTimedOut,
          key := some key }

-- A handler is asked for the step the driver has come to, and for no other.
def Asks (held : Option RunState) : Query → Prop
  | .executeStep step seen =>
      held = some seen ∧ checkDependencies step seen = none ∧ ∃ stepId, AtStep seen stepId step
  | _ => True

def engineSpec (rules : Rules Engine) : Spec Engine := ⟨Writes rules, Asks⟩

end AgenticOrg.Workflows
