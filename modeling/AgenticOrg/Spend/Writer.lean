import AgenticOrg.Lib.Dict
import Mathlib.Algebra.Order.Ring.Rat

namespace AgenticOrg.Spend

open OrderedDict

section Events

-- An event object; what it measures is not looked at on the way.
structure UsageEvent where
  object : ℕ
  tenantId : String
  usageType : String
  deriving DecidableEq

inductive FailureReason where
  | queueFull
  | paused
  | noTenant
  | dbError
  | spillFailed
  | shutdownLost
  | hookError
  deriving DecidableEq

structure WriteRetry where
  due : ℚ
  tenantId : String
  events : List UsageEvent
  attempt : ℕ
  busySince : Option ℚ
  transientTries : ℕ

def MAX_PENDING : ℕ := 5000
def MAX_BATCH : ℕ := 500
def RETRY_BACKOFF_S : List ℚ := [1 / 4, 1 / 2, 1, 2, 5]
def BUSY_SPILL_AFTER_S : ℚ := 120

def backoff (attempt : ℕ) : ℚ := RETRY_BACKOFF_S.getD (min attempt (RETRY_BACKOFF_S.length - 1)) 0

def retryEvents (retries : List WriteRetry) : List UsageEvent := retries.flatMap fun retry => retry.events

def groupEvents (events : Option (List UsageEvent)) (event : UsageEvent) : List UsageEvent :=
  events.getD [] ++ [event]

-- The batch tenant by tenant, then the retries.
def flushWork (batch : List UsageEvent) (retries : List WriteRetry) : List WriteRetry :=
  ((Dict.gather (fun event => event.tenantId) groupEvents batch).entries.map fun group =>
    (⟨0, group.1, group.2, 0, none, 0⟩ : WriteRetry)) ++ retries

end Events

section States

-- Where the writer's thread is, with the events it has taken out.
inductive WriterThread where
  | unassigned
  -- a thread object that has not been started
  | assigned
  | checking
  | taking
  | took (batch : List UsageEvent)
  | picked (batch : List UsageEvent) (retries : List WriteRetry)
  | flushing (work : List WriteRetry)
  | requeueing (retry : WriteRetry) (work : List WriteRetry)
  | spilling (events : List UsageEvent) (work : List WriteRetry)
  | exited

def WriterThread.held : WriterThread → List UsageEvent
  | .took batch => batch
  | .picked batch retries => batch ++ retryEvents retries
  | .flushing work => retryEvents work
  | .requeueing retry work => retry.events ++ retryEvents work
  | .spilling events work => events ++ retryEvents work
  | _ => []

-- Between its start and its end.
def WriterThread.alive : WriterThread → Bool
  | .unassigned => false
  | .assigned => false
  | .exited => false
  | _ => true

-- A call of `submit` on its way: before it has the writer, and before it puts its events.
inductive Submission where
  | opening (events : List UsageEvent)
  | putting (events : List UsageEvent)

def Submission.events : Submission → List UsageEvent
  | .opening events => events
  | .putting events => events

-- The one call that has made the writer, until the writer's thread is started.
inductive Creator where
  | none
  | starting (events : List UsageEvent)
  | launching (events : List UsageEvent)

def Creator.events : Creator → List UsageEvent
  | .none => []
  | .starting events => events
  | .launching events => events

inductive DrainStage where
  | waiting
  | holding
  | joining
  | joined (outlived : Bool)
  | collected (left : List UsageEvent)
  | done
  -- `Thread.join` refuses a thread that has not been started
  | raised

def DrainStage.held : DrainStage → List UsageEvent
  | .collected left => left
  | _ => []

inductive WriterHolder where
  | unopened
  | opened
  | closed
  deriving DecidableEq

structure WriterState where
  holder : WriterHolder
  queue : List UsageEvent
  retries : List WriteRetry
  stop : Bool
  closed : Bool
  inflight : List UsageEvent
  handedOver : Bool
  thread : WriterThread
  submissions : List Submission
  creator : Creator
  drain : DrainStage
  submitted : List UsageEvent
  written : List UsageEvent
  spilled : List UsageEvent
  counted : List (UsageEvent × FailureReason)

def WriterState.initial : WriterState :=
  ⟨.unopened, [], [], false, false, [], false, .unassigned, [], .none, .waiting, [], [], [], []⟩

def WriterState.count (state : WriterState) (reason : FailureReason) (events : List UsageEvent) : WriterState :=
  { state with counted := state.counted ++ events.map fun event => (event, reason) }

end States

section Submits

-- `_writer(create=True)`.
def openWriter (state : WriterState) (k : ℕ) (events : List UsageEvent) : WriterState :=
  match state.holder with
  | .opened => { state with submissions := state.submissions.set k (.putting events) }
  | .unopened =>
      { state with
        holder := .opened, submissions := state.submissions.eraseIdx k, creator := .starting events }
  | .closed => { state with submissions := state.submissions.eraseIdx k }.count .shutdownLost events

def pendingEvents (state : WriterState) : ℕ := state.queue.length + (retryEvents state.retries).length

def put (state : WriterState) (k : ℕ) (events : List UsageEvent) : WriterState :=
  let rest := { state with submissions := state.submissions.eraseIdx k }
  if state.closed then rest.count .shutdownLost events
  else if MAX_PENDING < pendingEvents state + events.length then rest.count .queueFull events
  else { rest with queue := state.queue ++ events }

def submissionStep (state : WriterState) (k : ℕ) : Submission → WriterState
  | .opening events => openWriter state k events
  | .putting events => put state k events

-- `start`: the thread object is made, then the thread is started or cannot be.
def creatorStep (state : WriterState) (launched : Bool) : Creator → Option WriterState
  | .none => none
  | .starting events => some { state with thread := .assigned, creator := .launching events }
  | .launching events =>
      if launched then
        some { state with
          thread := .checking, creator := .none, submissions := state.submissions ++ [.putting events] }
      else some ({ state with creator := .none }.count .hookError events)

end Submits

section Thread

inductive WriteAnswer where
  | written
  | busy
  | raised (transient : Bool)

def transientRetry (item : WriteRetry) (now : ℚ) : WriteRetry :=
  ⟨now + backoff 0, item.tenantId, item.events, 0, none, 1⟩

def busyRetry (item : WriteRetry) (now since : ℚ) : WriteRetry :=
  ⟨now + backoff item.attempt, item.tenantId, item.events, item.attempt + 1, some since, 0⟩

variable (validTenant : String → Bool)

-- `_flush_tenant` up to the requeue or the spill of what could not be written.
def flushTenant (state : WriterState) (item : WriteRetry) (work : List WriteRetry) (paused : Bool)
    (answer : WriteAnswer) (now : ℚ) : WriterState :=
  if paused then { state with thread := .flushing work }.count .paused item.events
  else if !validTenant item.tenantId then { state with thread := .flushing work }.count .noTenant item.events
  else
    match answer with
    | .written => { state with thread := .flushing work, written := state.written ++ item.events }
    | .raised transient =>
        if transient && item.transientTries = 0 then
          { state with thread := .requeueing (transientRetry item now) work }
        else { state with thread := .spilling item.events work }.count .dbError item.events
    | .busy =>
        let since := item.busySince.getD now
        if BUSY_SPILL_AFTER_S ≤ now - since then { state with thread := .spilling item.events work }
        else
          { state with thread := .requeueing (busyRetry item now since) work }

def requeue (state : WriterState) (retry : WriteRetry) (work : List WriteRetry) : WriterState :=
  let next := { state with thread := .flushing work }
  if !state.closed then { next with retries := state.retries ++ [retry] }
  else if state.handedOver then next
  else next.count .shutdownLost retry.events

def spillEvents (state : WriterState) (events : List UsageEvent) (published : Bool) (failed : FailureReason) :
    WriterState :=
  if published then { state with spilled := state.spilled ++ events } else state.count failed events

-- What the thread does next depends on the clock, on whether the tenant is paused, on what the database
-- answers and on whether the spill is published.
structure ThreadInput where
  now : ℚ
  paused : Bool
  answer : WriteAnswer
  published : Bool

def threadStep (state : WriterState) (input : ThreadInput) : WriterThread → Option WriterState
  | .unassigned => none
  | .assigned => none
  | .checking =>
      some { state with thread := if state.stop && state.queue.isEmpty then .exited else .taking }
  | .taking =>
      some { state with queue := state.queue.drop MAX_BATCH, thread := .took (state.queue.take MAX_BATCH) }
  | .took batch =>
      some { state with
        retries := state.retries.filter fun retry => input.now < retry.due
        thread := .picked batch (state.retries.filter fun retry => retry.due ≤ input.now) }
  | .picked batch retries =>
      if batch.isEmpty && retries.isEmpty then some { state with thread := .checking }
      else some { state with
        inflight := batch ++ retryEvents retries, thread := .flushing (flushWork batch retries) }
  | .flushing [] => some { state with inflight := [], thread := .checking }
  | .flushing (item :: work) =>
      some (flushTenant validTenant state item work input.paused input.answer input.now)
  | .requeueing retry work => some (requeue state retry work)
  | .spilling events work =>
      some (spillEvents { state with thread := .flushing work } events input.published .spillFailed)
  | .exited => none

end Thread

section Drain

-- What `stop_and_collect` returns.
def collect (state : WriterState) (outlived : Bool) : WriterState :=
  let kept := outlived && !state.inflight.isEmpty
  { state with
    closed := true
    inflight := []
    handedOver := state.handedOver || kept
    queue := []
    retries := []
    drain := .collected (state.queue ++ retryEvents state.retries ++ if kept then state.inflight else []) }

def drainStep (state : WriterState) (published : Bool) : DrainStage → Option WriterState
  | .waiting =>
      some { state with
        holder := .closed, drain := if state.holder = .opened then .holding else .done }
  | .holding => some { state with stop := true, drain := .joining }
  | .joining =>
      match state.thread with
      | .assigned => some { state with drain := .raised }
      | thread => some { state with drain := .joined thread.alive }
  | .joined outlived => some (collect state outlived)
  | .collected left =>
      some (spillEvents { state with drain := .done } left published .shutdownLost)
  | .done => none
  | .raised => none

end Drain

section Steps

inductive WriterStep where
  | submit (events : List UsageEvent)
  | submission (k : ℕ)
  | creator (launched : Bool)
  | thread (input : ThreadInput)
  | drain (published : Bool)

def WriterStep.after (validTenant : String → Bool) (state : WriterState) : WriterStep → Option WriterState
  | .submit events =>
      some { state with
        submissions := state.submissions ++ [.opening events], submitted := state.submitted ++ events }
  | .submission k => state.submissions[k]?.map (submissionStep state k)
  | .creator launched => creatorStep state launched state.creator
  | .thread input => threadStep validTenant state input state.thread
  | .drain published => drainStep state published state.drain

def writerAfter (validTenant : String → Bool) (steps : List WriterStep) : Option WriterState :=
  steps.foldlM (WriterStep.after validTenant) .initial

end Steps

end AgenticOrg.Spend
