import Mathlib.Data.List.Dedup
import Mathlib.Data.Int.Order.Basic
import AgenticOrg.Lib.Table
import AgenticOrg.Spend.Rates

namespace AgenticOrg.Spend

open Tables

section Data

inductive JobKind where
  | rebuild
  | backfill
  | restate
  | settleFx
  | reattribute
  | recomputeCommitments
  deriving DecidableEq

def JobKind.value : JobKind → String
  | .rebuild => "rebuild"
  | .backfill => "backfill"
  | .restate => "restate"
  | .settleFx => "settle_fx"
  | .reattribute => "reattribute"
  | .recomputeCommitments => "recompute_commitments"

inductive JobStatus where
  | queued
  | running
  | succeeded
  | failed
  deriving DecidableEq

def JobStatus.value : JobStatus → String
  | .queued => "queued"
  | .running => "running"
  | .succeeded => "succeeded"
  | .failed => "failed"

-- A job's parameters; a date that is missing or cannot be read is `none`.
structure JobParams where
  provider : Option String
  start : Option Date
  stop : Option Date
  forceDates : List (String × String)
  cardIds : List String
  includeUnpriced : Bool
  reason : String
  deriving DecidableEq

def JobParams.blank : JobParams := ⟨none, none, none, [], [], false, ""⟩

-- What a job's `result` holds until the job ends.
structure JobResult where
  attempts : Nat
  merges : Nat
  lastError : String
  deriving DecidableEq

def JobResult.empty : JobResult := ⟨0, 0, ""⟩

structure Job where
  id : String
  kind : JobKind
  params : JobParams
  status : JobStatus
  result : JobResult
  errorCode : String
  requestedBy : String
  createdAt : Int
  startedAt : Option Int
  heartbeatAt : Option Int
  deriving DecidableEq

instance : Keyed Job String := ⟨Job.id⟩

structure JobFault where
  code : String
  retryable : Bool
  deriving DecidableEq

-- How far `run` has come since its claim.
inductive RunStage where
  | executing
  | ended (fault : Option JobFault)
  | written (fault : Option JobFault)
  deriving DecidableEq

-- A worker's run of a job, with what its claim returned.
structure JobRun where
  jobId : String
  kind : JobKind
  params : JobParams
  requestedBy : String
  attempts : Nat
  stage : RunStage
  deriving DecidableEq

-- A run whose job body came to its end.
def JobRun.Completed (run : JobRun) : Prop := run.stage = .ended none ∨ run.stage = .written none

-- The jobs, every run that ever claimed one, and which request went into which job.
structure JobBoard where
  jobs : Table Job
  runs : List JobRun
  requests : List (String × JobParams)

def JobBoard.empty : JobBoard := ⟨.empty, [], []⟩

-- `str.strip` and `str.rstrip`.
structure JobTexts where
  strip : String → String
  rstrip : String → String

end Data

section Merging

def JOB_MAX_DAYS : Int := 3660
def JOB_REASON_MAX : Nat := 500

def needDate (field : String) : Option Date → Except Failure Date
  | some date => .ok date
  | none => refuse 422 "invalid_date" (field ++ " is a date YYYY-MM-DD")

def spanWithin (start stop : Date) : Option (Date × Date) :=
  if stop - start + 1 > JOB_MAX_DAYS then none else some (start, stop)

def span (a b : JobParams) : Except Failure (Option (Date × Date)) := do
  let aStart ← needDate "start" a.start
  let bStart ← needDate "start" b.start
  let aStop ← needDate "end" a.stop
  let bStop ← needDate "end" b.stop
  pure (spanWithin (min aStart bStart) (max aStop bStop))

def addReason (texts : JobTexts) (seen : List String) (part : String) : List String :=
  let part := texts.strip part
  if part ≠ "" ∧ part ∉ seen then seen ++ [part] else seen

def reasons (texts : JobTexts) (values : List String) : String :=
  let seen := (values.flatMap fun value => value.splitOn "; ").foldl (addReason texts) []
  texts.rstrip (String.ofList (("; ".intercalate seen).toList.take JOB_REASON_MAX))

-- The provider, where there is one.
def JobParams.named (params : JobParams) : Option String := params.provider.filter (· ≠ "")

def JobParams.everything (params : JobParams) : Bool := params.cardIds.isEmpty && !params.includeUnpriced

def mergeRecompute (queued new : JobParams) : JobParams :=
  if queued.named.isSome ∧ queued.named = new.named then { JobParams.blank with provider := queued.named }
  else .blank

def pairOrder (a b : String × String) : Bool := a.1 < b.1 || a.1 = b.1 && a.2 ≤ b.2

def mergeSettle (queued new : JobParams) (span : Date × Date) : JobParams :=
  { JobParams.blank with
    start := some span.1
    stop := some span.2
    forceDates := ((queued.forceDates ++ new.forceDates).dedup).mergeSort pairOrder }

def mergeRestate (texts : JobTexts) (queued new : JobParams) (span : Date × Date) : JobParams :=
  let everything := queued.everything || new.everything
  { JobParams.blank with
    provider := queued.provider
    start := some span.1
    stop := some span.2
    cardIds := if everything then [] else ((queued.cardIds ++ new.cardIds).dedup).mergeSort
    includeUnpriced := if everything then false else queued.includeUnpriced || new.includeUnpriced
    reason := reasons texts [queued.reason, new.reason] }

def mergeParams (texts : JobTexts) (kind : JobKind) (queued new : JobParams) :
    Except Failure (Option JobParams) :=
  match kind with
  | .recomputeCommitments => .ok (some (mergeRecompute queued new))
  | .settleFx => do
      let joined ← span queued new
      pure (joined.map (mergeSettle queued new))
  | .restate =>
      if queued.provider.getD "" ≠ new.provider.getD "" then .ok none
      else do
        let joined ← span queued new
        pure (joined.map (mergeRestate texts queued new))
  | _ => .ok (if queued = new then some queued else none)

end Merging

section Queueing

def JOB_ACTOR_MAX : Nat := 128
def SYSTEM_ACTOR : String := "system:spend"

def jobActor (texts : JobTexts) (actor : String) : String :=
  let who := String.ofList ((texts.strip actor).toList.take JOB_ACTOR_MAX)
  if who = "" then SYSTEM_ACTOR else who

def jobOrder (a b : Job) : Bool := a.createdAt < b.createdAt || a.createdAt = b.createdAt && a.id ≤ b.id

def queuedJobs (jobs : Table Job) (kind : JobKind) : List Job :=
  (jobs.rows.filter fun job => job.kind = kind && job.status = .queued).mergeSort jobOrder

-- The running job, else the oldest queued one.
def activeJob (jobs : Table Job) (kind : JobKind) : Option Job :=
  let rows := (jobs.rows.filter fun job =>
    job.kind = kind && (job.status = .queued || job.status = .running)).mergeSort jobOrder
  (rows.filter (·.status = .running) ++ rows).head?

def newJob (id : String) (kind : JobKind) (params : JobParams) (who : String) (stamp : Int) : Job :=
  ⟨id, kind, params, .queued, .empty, "", who, stamp, none, none⟩

def insertJob (jobs : Table Job) (job : Job) : Except Failure (Table Job) :=
  match jobs.insert? job with
  | none => .error .integrity
  | some jobs => .ok jobs

def enqueue (texts : JobTexts) (board : JobBoard) (newId : String) (kind : JobKind) (params : JobParams)
    (actor : String) (now : Int) : Except Failure JobBoard :=
  match activeJob board.jobs kind with
  | some existing =>
      refuse 409 "job_running"
        ("job " ++ existing.id ++ " (" ++ kind.value ++ ") is " ++ existing.status.value)
  | none => do
      let jobs ← insertJob board.jobs (newJob newId kind params (jobActor texts actor) now)
      pure { board with jobs := jobs, requests := board.requests ++ [(newId, params)] }

def failDispatch (job : Job) : Job := { job with status := .failed, errorCode := "dispatch_failed" }

-- `_mark_undispatched`: only a job that is as `enqueue` wrote it.
def markUndispatched (board : JobBoard) (jobId : String) (params : JobParams) : JobBoard :=
  match board.jobs.find? jobId with
  | none => board
  | some job =>
      if job.status = .queued ∧ job.params = params ∧ job.result = .empty then
        { board with jobs := board.jobs.modify jobId failDispatch fun _ => rfl }
      else board

-- The first queued job that can take the work in, with what its parameters become.
def findMerge (texts : JobTexts) (kind : JobKind) (params : JobParams) :
    List Job → Except Failure (Option (Job × JobParams))
  | [] => .ok none
  | job :: rest =>
      if job.result.attempts > 0 then findMerge texts kind params rest
      else do
        let found ← mergeParams texts kind job.params params
        match found with
        | none => findMerge texts kind params rest
        | some merged => pure (some (job, merged))

def mergeJob (merged : JobParams) (job : Job) : Job :=
  { job with params := merged, result := { job.result with merges := job.result.merges + 1 } }

-- `skipped` are the rows another transaction holds at that moment.
def queueFollowup (texts : JobTexts) (board : JobBoard) (newId : String) (kind : JobKind) (params : JobParams)
    (actor : String) (now : Int) (skipped : List String) : Except Failure JobBoard := do
  let found ← findMerge texts kind params
    ((queuedJobs board.jobs kind).filter fun job => !skipped.contains job.id)
  match found with
  | some found =>
      pure
        { board with
          jobs := board.jobs.modify found.1.id (mergeJob found.2) fun _ => rfl
          requests := board.requests ++ [(found.1.id, params)] }
  | none => do
      let jobs ← insertJob board.jobs (newJob newId kind params (jobActor texts actor) now)
      pure { board with jobs := jobs, requests := board.requests ++ [(newId, params)] }

end Queueing

section Running

def STALE_MICROSECONDS : Int := 600000000
def MAX_ATTEMPTS : Nat := 3

-- `COALESCE(heartbeat_at, started_at)`.
def Job.beat (job : Job) : Option Int := job.heartbeatAt.or job.startedAt

def Job.claimable (now : Int) (job : Job) : Bool :=
  job.status = .queued || job.status = .running && job.beat.any (· < now - STALE_MICROSECONDS)

def otherRunning (jobs : Table Job) (job : Job) : List Job :=
  jobs.rows.filter fun other => other.kind = job.kind && other.status = .running && other.id ≠ job.id

def startJob (now : Int) (job : Job) : Job :=
  { job with status := .running, startedAt := some now, heartbeatAt := some now }

-- `_CLAIM_SQL`; `unseen` are the jobs that became running after its snapshot, which the unique index of
-- the running jobs then stops.
def claim (board : JobBoard) (jobId : String) (now : Int) (unseen : List String) : JobBoard :=
  match board.jobs.find? jobId with
  | none => board
  | some job =>
      if job.claimable now ∧ (otherRunning board.jobs job).all (fun other => unseen.contains other.id) then
        if (otherRunning board.jobs job).isEmpty then
          { board with
            jobs := board.jobs.modify jobId (startJob now) fun _ => rfl
            runs := board.runs ++
              [⟨job.id, job.kind, job.params, job.requestedBy, job.result.attempts, .executing⟩] }
        else board
      else board

def beatJob (now : Int) (job : Job) : Job :=
  if job.status = .running then { job with heartbeatAt := some now } else job

def finishJob (status : JobStatus) (result : JobResult) (errorCode : String) (job : Job) : Job :=
  { job with status := status, result := result, errorCode := String.ofList (errorCode.toList.take 64) }

def requeueJob (attempts : Nat) (errorCode : String) (job : Job) : Job :=
  if job.status = .running then
    { job with
      status := .queued
      startedAt := none
      heartbeatAt := none
      result := ⟨attempts, 0, String.ofList (errorCode.toList.take 64)⟩ }
  else job

-- What `run` writes to its job's row, by id, once the job body is over.
def writeOutcome (run : JobRun) (fault : Option JobFault) (job : Job) : Job :=
  match fault with
  | none =>
      finishJob .succeeded ⟨if run.attempts = 0 then 0 else run.attempts + 1, 0, ""⟩ "" job
  | some fault =>
      if fault.retryable && run.attempts + 1 < MAX_ATTEMPTS then requeueJob (run.attempts + 1) fault.code job
      else finishJob .failed ⟨run.attempts + 1, 0, ""⟩ fault.code job

theorem beatJob_id (now : Int) (job : Job) : (beatJob now job).id = job.id := by
  unfold beatJob
  split <;> rfl

theorem requeueJob_id (attempts : Nat) (errorCode : String) (job : Job) :
    (requeueJob attempts errorCode job).id = job.id := by
  unfold requeueJob
  split <;> rfl

theorem writeOutcome_id (run : JobRun) (fault : Option JobFault) (job : Job) :
    (writeOutcome run fault job).id = job.id := by
  unfold writeOutcome
  split
  · rfl
  · split
    · exact requeueJob_id _ _ job
    · rfl

def heartbeat (board : JobBoard) (index : Nat) (now : Int) : JobBoard :=
  match board.runs[index]? with
  | none => board
  | some run => { board with jobs := board.jobs.modify run.jobId (beatJob now) (beatJob_id now) }

-- The job body of a run comes to its end, with a fault or without.
def endRun (board : JobBoard) (index : Nat) (fault : Option JobFault) : JobBoard :=
  match board.runs[index]? with
  | none => board
  | some run =>
      match run.stage with
      | .executing => { board with runs := board.runs.set index { run with stage := .ended fault } }
      | _ => board

def writeRun (board : JobBoard) (index : Nat) : JobBoard :=
  match board.runs[index]? with
  | none => board
  | some run =>
      match run.stage with
      | .ended fault =>
          { board with
            jobs := board.jobs.modify run.jobId (writeOutcome run fault) (writeOutcome_id run fault)
            runs := board.runs.set index { run with stage := .written fault } }
      | _ => board

def sweepJob (cutoff : Int) (job : Job) : Job :=
  if job.status = .running ∧ job.beat.all (· < cutoff) then
    { job with status := .queued, startedAt := none, heartbeatAt := none }
  else job

theorem sweepJob_id (cutoff : Int) (job : Job) : (sweepJob cutoff job).id = job.id := by
  unfold sweepJob
  split <;> rfl

def sweep (board : JobBoard) (now : Int) : JobBoard :=
  { board with jobs := board.jobs.map (sweepJob (now - STALE_MICROSECONDS)) (sweepJob_id _) }

end Running

section Steps

inductive JobStep where
  | enqueue (newId : String) (kind : JobKind) (params : JobParams) (actor : String) (now : Int)
  | markUndispatched (jobId : String) (params : JobParams)
  | queueFollowup (newId : String) (kind : JobKind) (params : JobParams) (actor : String) (now : Int)
      (skipped : List String)
  | claim (jobId : String) (now : Int) (unseen : List String)
  | heartbeat (run : Nat) (now : Int)
  | endRun (run : Nat) (fault : Option JobFault)
  | writeRun (run : Nat)
  | sweep (now : Int)

def JobStep.after (texts : JobTexts) (board : JobBoard) : JobStep → Except Failure JobBoard
  | .enqueue newId kind params actor now => Spend.enqueue texts board newId kind params actor now
  | .markUndispatched jobId params => .ok (Spend.markUndispatched board jobId params)
  | .queueFollowup newId kind params actor now skipped =>
      Spend.queueFollowup texts board newId kind params actor now skipped
  | .claim jobId now unseen => .ok (Spend.claim board jobId now unseen)
  | .heartbeat run now => .ok (Spend.heartbeat board run now)
  | .endRun run fault => .ok (Spend.endRun board run fault)
  | .writeRun run => .ok (Spend.writeRun board run)
  | .sweep now => .ok (Spend.sweep board now)

-- A step that fails is rolled back.
def jobStep (texts : JobTexts) (board : JobBoard) (step : JobStep) : JobBoard :=
  match step.after texts board with
  | .ok board => board
  | .error _ => board

def jobsAfter (texts : JobTexts) (steps : List JobStep) : JobBoard := steps.foldl (jobStep texts) .empty

end Steps

section Work

-- A usage record as the jobs select it.
structure WorkUnit where
  provider : String
  eventDate : Date
  billingDate : Date
  cards : List String
  repriceable : Bool
  fxPending : Bool
  currency : String
  fxRateDate : String

def JobParams.inSpan (params : JobParams) (day : Date) : Bool :=
  match params.start, params.stop with
  | some start, some stop => start ≤ day && day ≤ stop
  | _, _ => false

-- Whether a job of these parameters goes over the record.
def selects (norm : String → String) (kind : JobKind) (params : JobParams) (unit : WorkUnit) : Bool :=
  match kind with
  | .restate =>
      unit.provider == norm (params.provider.getD "") && params.inSpan unit.billingDate &&
        (params.everything || unit.cards.any params.cardIds.contains ||
          params.includeUnpriced && unit.repriceable)
  | .settleFx =>
      params.inSpan unit.eventDate &&
        (unit.fxPending || params.forceDates.contains (unit.currency, unit.fxRateDate))
  | .recomputeCommitments =>
      match params.named with
      | none => true
      | some provider => unit.provider == norm provider
  | _ => params.inSpan unit.eventDate

end Work

end AgenticOrg.Spend
