import AgenticOrg.Spend.Commitments

namespace AgenticOrg.Spend

open Tables Replay

section Windows

variable (calendar : Calendar)

def billingDays (start stop : Int) : List Date :=
  let first := calendar.dateOf start
  (List.range (calendar.dateOf (stop - 1) - first + 1).toNat).map fun offset : ℕ => first + offset

def dayWindowOf (start stop : Int) (day : Date) : Int × Int :=
  (max (calendar.dayStart day) start, min (calendar.dayStart (day + 1)) stop)

-- The part of each billing day that is between the two instants.
def replayWindows (start stop : Int) : List (Int × Int) :=
  if stop ≤ start then []
  else ((billingDays calendar start stop).map (dayWindowOf calendar start stop)).filter fun window =>
    window.1 < window.2

end Windows

section States

def APPEND_GRACE : Int := 7200000000
def RECOMPUTE_CHUNK : ℕ := 1000

-- The order in which records are drawn.
abbrev RecordKey := Int ×ₗ String

def recordKey (record : UsageRecord) : RecordKey := toLex (record.eventTime, record.id)

-- A write that has inserted its records and has not committed: what it wrote, and the commitments it
-- has marked.
structure Write where
  written : List UsageRecord
  marks : List String

-- A recompute between its transactions.
structure Pass where
  active : List Terms
  states : DrawStates
  through : Int
  windows : List (Int × Int)
  last : Option RecordKey

structure DrawState where
  records : Table UsageRecord
  commitments : Table Commitment
  writes : List Write
  passes : List Pass

def DrawState.empty : DrawState := ⟨.empty, .empty, [], []⟩

end States

section Marks

-- The rows `mark_commitments_for_replay` selects.
def marked (providers : List String) (after : Option Int) (kind : Option CommitmentKind) (row : Commitment) :
    Bool :=
  row.isActive && providers.contains row.terms.provider &&
    (after.all fun after => row.recomputedThrough.all fun through => after < through) &&
    kind.all fun kind => row.terms.pledge.kind = kind

def markedIds (commitments : Table Commitment) (providers : List String) (after : Option Int)
    (kind : Option CommitmentKind) : List String :=
  (commitments.rows.filter (marked providers after kind)).map fun row => row.terms.id

def flagRow (ids : List String) (row : Commitment) : Commitment :=
  if ids.contains row.terms.id then { row with needsFullRecompute := true } else row

theorem flagRow_id (ids : List String) (row : Commitment) : (flagRow ids row).terms.id = row.terms.id := by
  unfold flagRow
  split <;> rfl

def flagRows (commitments : Table Commitment) (ids : List String) : Table Commitment :=
  commitments.map (flagRow ids) (flagRow_id ids)

end Marks

section Changes

def periodsOverlap (aStart aEnd bStart bEnd : Date) : Bool := aStart < bEnd && bStart < aEnd

-- `_check_overlap`: another active commitment for the same provider, usage, model, unit and kind.
def commitmentOverlaps (commitments : Table Commitment) (terms : Terms) (exclude : Option String) : Bool :=
  commitments.rows.any fun other =>
    other.isActive && other.terms.provider = terms.provider &&
      other.terms.pledge.kind = terms.pledge.kind && other.terms.modelSku = terms.modelSku &&
      exclude ≠ some other.terms.id && other.terms.pledge.usageType = terms.pledge.usageType &&
      other.terms.pledge.unit = terms.pledge.unit &&
      periodsOverlap terms.periodStart terms.periodEnd other.terms.periodStart other.terms.periodEnd

def createCommitment (commitments : Table Commitment) (terms : Terms) (reference : String) :
    Option (Table Commitment) :=
  if terms.periodEnd ≤ terms.periodStart || commitmentOverlaps commitments terms none then none
  else commitments.insert? ⟨{ terms with status := .active }, reference, .zero, none, true⟩

-- What `update_commitment` may be asked for.
structure CommitmentChange where
  periodEnd : Option Date
  close : Bool
  reference : Option String

def changedRow (change : CommitmentChange) (row : Commitment) : Commitment :=
  { row with
    terms := { row.terms with
      periodEnd := change.periodEnd.getD row.terms.periodEnd
      status := if change.close then .closed else row.terms.status }
    reference := change.reference.getD row.reference }

def updatedRow (change : CommitmentChange) (row : Commitment) : Commitment :=
  if changedRow change row = row then row else { changedRow change row with needsFullRecompute := true }

theorem updatedRow_id (change : CommitmentChange) (row : Commitment) :
    (updatedRow change row).terms.id = row.terms.id := by
  unfold updatedRow
  split <;> rfl

def updateRefused (commitments : Table Commitment) (change : CommitmentChange) (row : Commitment) : Bool :=
  (change.periodEnd.any fun periodEnd => periodEnd ≤ row.terms.periodStart) ||
    ((changedRow change row).isActive && (changedRow change row).terms.periodEnd ≠ row.terms.periodEnd &&
      commitmentOverlaps commitments (changedRow change row).terms (some row.terms.id))

def updateCommitment (commitments : Table Commitment) (id : String) (change : CommitmentChange) :
    Option (Table Commitment) :=
  match commitments.find? id with
  | none => none
  | some row =>
      if updateRefused commitments change row then none
      else some (commitments.modify id (updatedRow change) (updatedRow_id change))

-- What a restatement or a settlement may give a record.
structure Prices where
  amount : Option ℕ
  currency : Option String
  amountInr : Option ℕ
  rateCardId : Option String
  priceSource : String
  unpriced : Bool
  unconverted : Bool
  fxEstimated : Bool
  priceEstimated : Bool

def UsageRecord.repriced (record : UsageRecord) (prices : Prices) : UsageRecord :=
  { record with
    amount := prices.amount
    amountInr := prices.amountInr
    dims := { record.dims with
      currency := prices.currency, rateCardId := prices.rateCardId, priceSource := prices.priceSource }
    unpriced := prices.unpriced
    unconverted := prices.unconverted
    fxEstimated := prices.fxEstimated
    priceEstimated := prices.priceEstimated }

def repriceRecord (values : UsageRecord → Option Prices) (record : UsageRecord) : UsageRecord :=
  match values record with
  | none => record
  | some prices => record.repriced prices

theorem repriceRecord_id (values : UsageRecord → Option Prices) (record : UsageRecord) :
    (repriceRecord values record).id = record.id := by
  unfold repriceRecord
  split <;> rfl

end Changes

section Passes

variable (env : DrawEnv)

def providerCommitments (state : DrawState) : List Commitment :=
  state.commitments.rows.filter fun row => row.terms.provider = env.provider

def activeCommitments (state : DrawState) : List Commitment :=
  (providerCommitments env state).filter fun row => row.isActive

def flagged (state : DrawState) : Bool :=
  (providerCommitments env state).any fun row => row.needsFullRecompute

def needsFull (state : DrawState) : Bool :=
  flagged env state || (activeCommitments env state).any fun row => row.recomputedThrough.isNone

-- The start of the earliest period.
def windowStart (state : DrawState) : Int :=
  env.billing.dayStart (((providerCommitments env state).map fun row => row.terms.periodStart).min?.getD 0)

def windowEnd (state : DrawState) : Int :=
  env.billing.dayStart (((providerCommitments env state).map fun row => row.terms.periodEnd).max?.getD 0)

def activeTerms (state : DrawState) : List Terms := (activeCommitments env state).map fun row => row.terms

-- The totals the rows hold.
def storedStates (state : DrawState) : DrawStates := fun id =>
  match (activeCommitments env state).find? fun row => row.terms.id = id with
  | none => .zero
  | some row => row.drawn

def passFrom (state : DrawState) (states : DrawStates) (start stop : Int) : Pass where
  active := activeTerms env state
  states := states
  through := max start stop
  windows := replayWindows env.billing start (max start stop)
  last := none

-- A full replay clears the flags, and drops the watermarks until it ends.
def clearedRow (row : Commitment) : Commitment :=
  if row.terms.provider = env.provider then
    { row with
      needsFullRecompute := false
      recomputedThrough := if row.isActive then none else row.recomputedThrough }
  else row

theorem clearedRow_id (row : Commitment) : (clearedRow env row).terms.id = row.terms.id := by
  unfold clearedRow
  split <;> rfl

def startFull (state : DrawState) (cutoff : Int) : DrawState :=
  { state with
    commitments := state.commitments.map (clearedRow env) (clearedRow_id env)
    passes := state.passes ++ [passFrom env state .zero (windowStart env state)
      (min cutoff (windowEnd env state))] }

def startAppend (state : DrawState) (cutoff : Int) : DrawState :=
  let start := ((activeCommitments env state).filterMap fun row => row.recomputedThrough).min?.getD 0
  { state with passes := state.passes ++ [passFrom env state (storedStates env state) start cutoff] }

-- The first transaction of `_recompute_provider`.
def startPass (state : DrawState) (now : Int) : DrawState :=
  if (activeCommitments env state).isEmpty && !flagged env state then state
  else if needsFull env state then startFull env state (now - APPEND_GRACE)
  else startAppend env state (now - APPEND_GRACE)

-- The next records of a window, past the last one read.
def nextPage (records : Table UsageRecord) (window : Int × Int) (last : Option RecordKey) : List UsageRecord :=
  (ordered recordKey (records.rows.filter fun record =>
    record.dims.provider = env.provider && window.1 ≤ record.eventTime && record.eventTime < window.2 &&
      last.all fun last => last < recordKey record)).take RECOMPUTE_CHUNK

def assignRecord (page : List UsageRecord) (given : List Assignment) (record : UsageRecord) : UsageRecord :=
  match ((page.map fun row => row.id).zip given).lookup record.id with
  | none => record
  | some assignment => record.assign assignment

theorem assignRecord_id (page : List UsageRecord) (given : List Assignment) (record : UsageRecord) :
    (assignRecord page given record).id = record.id := by
  unfold assignRecord
  split <;> rfl

-- A page that is not full ends the window.
def Pass.next (pass : Pass) (page : List UsageRecord) (states : DrawStates) : Pass :=
  if page.length < RECOMPUTE_CHUNK then { pass with states := states, windows := pass.windows.tail, last := none }
  else { pass with states := states, last := page.getLast?.map recordKey }

-- One transaction of `_replay_window`.
def replayChunk (state : DrawState) (k : ℕ) (pass : Pass) (window : Int × Int) : DrawState :=
  let page := nextPage env state.records window pass.last
  let drawn := replay (drawRecord env pass.active) pass.states page
  { state with
    records := state.records.map (assignRecord page drawn.2) (assignRecord_id page drawn.2)
    passes := state.passes.set k (pass.next page drawn.1) }

def finishedRow (pass : Pass) (row : Commitment) : Commitment :=
  if row.terms.provider = env.provider && (pass.active.map fun terms => terms.id).contains row.terms.id then
    { row with drawn := pass.states row.terms.id, recomputedThrough := some pass.through }
  else row

theorem finishedRow_id (pass : Pass) (row : Commitment) :
    (finishedRow env pass row).terms.id = row.terms.id := by
  unfold finishedRow
  split <;> rfl

-- The last transaction of `_recompute_provider`.
def finishPass (state : DrawState) (k : ℕ) (pass : Pass) : DrawState :=
  { state with
    commitments := state.commitments.map (finishedRow env pass) (finishedRow_id env pass)
    passes := state.passes.eraseIdx k }

end Passes

section Steps

variable (env : DrawEnv)

-- Those written before the time from which records are left to an append.
def lateRecords (stamp : Int) (written : List UsageRecord) : List UsageRecord :=
  written.filter fun record => record.eventTime < stamp - APPEND_GRACE

def writeMarks (commitments : Table Commitment) (late : List UsageRecord) : List String :=
  match (late.map fun record => record.eventTime).min? with
  | none => []
  | some first => markedIds commitments (late.map fun record => record.dims.provider) (some first) none

inductive DrawStep where
  -- `write_events` up to its commit, with the stamp it has taken
  | write (stamp : Int) (rows : List UsageRecord)
  | commit (k : ℕ)
  | create (terms : Terms) (reference : String)
  | update (id : String) (change : CommitmentChange)
  -- one transaction of a restatement, and of a settlement, which marks commitments of money only
  | restate (values : UsageRecord → Option Prices)
  | settleFx (values : UsageRecord → Option Prices)
  | start (now : Int)
  | chunk (k : ℕ)
  | finish (k : ℕ)
  | abort (k : ℕ)

def beginWrite (state : DrawState) (stamp : Int) (rows : List UsageRecord) : DrawState :=
  let written := (writeRecords (rows.map fun row => row.assign .unassigned) state.records).2
  { state with writes := state.writes ++ [⟨written, writeMarks state.commitments (lateRecords stamp written)⟩] }

def commitWrite (state : DrawState) (k : ℕ) (write : Write) : DrawState :=
  { state with
    records := (writeRecords write.written state.records).1
    commitments := flagRows state.commitments write.marks
    writes := state.writes.eraseIdx k }

def repricedProviders (state : DrawState) (values : UsageRecord → Option Prices) : List String :=
  (state.records.rows.filter fun record => (values record).isSome).map fun record => record.dims.provider

def repriceRecords (state : DrawState) (kind : Option CommitmentKind) (values : UsageRecord → Option Prices) :
    DrawState :=
  { state with
    records := state.records.map (repriceRecord values) (repriceRecord_id values)
    commitments := flagRows state.commitments
      (markedIds state.commitments (repricedProviders state values) none kind) }

-- The state after a step; nothing when it is not possible.
def DrawStep.after (state : DrawState) : DrawStep → Option DrawState
  | .write stamp rows => some (beginWrite state stamp rows)
  | .commit k => state.writes[k]?.map (commitWrite state k)
  | .create terms reference =>
      (createCommitment state.commitments terms reference).map fun rows => { state with commitments := rows }
  | .update id change =>
      (updateCommitment state.commitments id change).map fun rows => { state with commitments := rows }
  | .restate values => some (repriceRecords state none values)
  | .settleFx values => some (repriceRecords state (some .money) values)
  | .start now => some (startPass env state now)
  | .chunk k =>
      state.passes[k]?.bind fun pass => pass.windows.head?.map (replayChunk env state k pass)
  | .finish k =>
      state.passes[k]?.bind fun pass => if pass.windows.isEmpty then some (finishPass env state k pass) else none
  | .abort k => if k < state.passes.length then some { state with passes := state.passes.eraseIdx k } else none

def drawAfter (steps : List DrawStep) : Option DrawState := steps.foldlM (DrawStep.after env) .empty

end Steps

end AgenticOrg.Spend
