import AgenticOrg.Lib.Decimal
import AgenticOrg.Lib.Dict
import AgenticOrg.Lib.Fallible
import AgenticOrg.Spend.Usage

namespace AgenticOrg.Spend

open Tables OrderedDict Fallible

section Deltas

-- What is asked of the libraries: `str.strip`, the text of a date, the hex digest of a text, and the
-- instants at which a reporting day starts and ends.
structure RollupEnv where
  strip : String → String
  isoformat : Date → String
  sha256 : String → String
  dayBounds : Date → Int × Int

inductive SumField where
  | quantity
  | amount
  | amountInr
  | unconvertedAmount
  | unpricedQuantity
  | overageQuantity
  deriving DecidableEq

inductive CountField where
  | record
  | call
  | unpriced
  | unconverted
  | fxEstimated
  | overage
  | allocated
  | estimated
  deriving DecidableEq

def SUM_FIELDS : List SumField :=
  [.quantity, .amount, .amountInr, .unconvertedAmount, .unpricedQuantity, .overageQuantity]

def COUNT_FIELDS : List CountField :=
  [.record, .call, .unpriced, .unconverted, .fxEstimated, .overage, .allocated, .estimated]

def SumField.places : SumField → ℕ
  | .quantity => QTY_PLACES
  | .amount => AMOUNT_PLACES
  | .amountInr => AMOUNT_PLACES
  | .unconvertedAmount => AMOUNT_PLACES
  | .unpricedQuantity => QTY_PLACES
  | .overageQuantity => QTY_PLACES

@[ext] structure Delta where
  sums : SumField → ℚ
  counts : CountField → ℤ

def Delta.negate (delta : Delta) : Delta :=
  ⟨fun field => Decimals.rounded DEFAULT_DIGITS (-delta.sums field), fun field => -delta.counts field⟩

def Delta.plus (delta other : Delta) : Delta :=
  ⟨fun field => Decimals.plus DEFAULT_DIGITS (delta.sums field) (other.sums field),
    fun field => delta.counts field + other.counts field⟩

def Delta.isZero (delta : Delta) : Bool :=
  SUM_FIELDS.all (fun field => delta.sums field = 0) && COUNT_FIELDS.all fun field => delta.counts field = 0

def Dims.canon (strip : String → String) (dims : Dims) : Dims :=
  { dims with
    attributionPath := dims.attributionPath.map strip
    unattributedReason := dims.unattributedReason.map strip
    productLine := dims.productLine.map strip
    useCase := strip dims.useCase
    application := strip dims.application
    provider := strip dims.provider
    model := strip dims.model
    usageType := strip dims.usageType
    unit := strip dims.unit
    currency := dims.currency.map strip
    priceSource := strip dims.priceSource
    billingAccount := dims.billingAccount.map strip
    region := dims.region.map strip
    environment := strip dims.environment
    riskTier := dims.riskTier.map strip }

def Dims.texts (isoformat : Date → String) (dims : Dims) : List (Option String) :=
  [some (isoformat dims.billingDate), dims.orgNodeId, dims.businessUnitNodeId, dims.attributionPath,
    dims.unattributedReason, dims.productLine, some dims.useCase, some dims.application, dims.agentId,
    some dims.provider, some dims.model, some dims.usageType, some dims.unit, dims.currency, dims.rateCardId,
    some dims.priceSource, dims.commitmentId, dims.billingAccount, dims.region, some dims.environment,
    dims.riskTier]

def dimsOf (env : RollupEnv) (record : UsageRecord) : Dims := record.dims.canon env.strip

-- What `dims_hash` takes the hash of.
def dimsText (isoformat : Date → String) (dims : Dims) : String :=
  "|".intercalate ((dims.texts isoformat).map fun text => text.getD "~")

def dimsHash (env : RollupEnv) (dims : Dims) : String := env.sha256 (dimsText env.isoformat dims)

def flag (value : Bool) : ℤ := if value then 1 else 0

def contributedSum (record : UsageRecord) : SumField → ℚ
  | .quantity => decimalQuantity record.quantity
  | .amount => (record.amount.map decimalAmount).getD 0
  | .amountInr => (record.amountInr.map decimalAmount).getD 0
  | .unconvertedAmount => if record.unconverted then (record.amount.map decimalAmount).getD 0 else 0
  | .unpricedQuantity => if record.unpriced then decimalQuantity record.quantity else 0
  | .overageQuantity => decimalQuantity record.overageQuantity

def contributedCount (record : UsageRecord) : CountField → ℤ
  | .record => 1
  | .call => flag record.calls
  | .unpriced => flag record.unpriced
  | .unconverted => flag record.unconverted
  | .fxEstimated => flag record.fxEstimated
  | .overage => flag record.overage
  | .allocated => flag record.allocated
  | .estimated => flag (record.quantityEstimated || record.priceEstimated)

def contribution (record : UsageRecord) : Delta := ⟨contributedSum record, contributedCount record⟩

abbrev RollupKey := Date × String

abbrev Deltas := Dict RollupKey (Dims × Delta)

-- What `add_delta` is given.
structure DeltaEntry where
  day : Date
  dims : Dims
  delta : Delta

def DeltaEntry.key (env : RollupEnv) (entry : DeltaEntry) : RollupKey := (entry.day, dimsHash env entry.dims)

-- The dimensions last given, with the sum.
def accumulate (previous : Option (Dims × Delta)) (entry : DeltaEntry) : Dims × Delta :=
  match previous with
  | none => (entry.dims, entry.delta)
  | some previous => (entry.dims, previous.2.plus entry.delta)

def addDelta (env : RollupEnv) (deltas : Deltas) (entry : DeltaEntry) : Deltas :=
  deltas.insert (entry.key env) (accumulate (deltas.get? (entry.key env)) entry)

def added (env : RollupEnv) (record : UsageRecord) : DeltaEntry :=
  ⟨record.eventDate, dimsOf env record, contribution record⟩

def removed (env : RollupEnv) (record : UsageRecord) : DeltaEntry :=
  ⟨record.eventDate, dimsOf env record, (contribution record).negate⟩

def aggregate (env : RollupEnv) (records : List UsageRecord) : Deltas :=
  records.foldl (fun deltas record => addDelta env deltas (added env record)) .empty

def move (env : RollupEnv) (deltas : Deltas) (before after : UsageRecord) : Deltas :=
  addDelta env (addDelta env deltas (removed env before)) (added env after)

end Deltas

section Rows

structure RollupRow where
  day : Date
  digest : String
  dims : Dims
  delta : Delta

instance : Keyed RollupRow RollupKey := ⟨fun row => (row.day, row.digest)⟩

inductive RollupFailure where
  | outOfRange
  | checkViolation
  | uniqueViolation
  deriving DecidableEq

-- `NUMERIC(28,6)`, `NUMERIC(28,10)` and `BIGINT` columns.
def Delta.inRange (delta : Delta) : Bool :=
  SUM_FIELDS.all (fun field => |delta.sums field| < 10 ^ (DEFAULT_DIGITS - field.places)) &&
    COUNT_FIELDS.all fun field => -2 ^ 63 ≤ delta.counts field && delta.counts field < 2 ^ 63

-- `ck_spend_usage_rollups_counts`.
def Delta.counted (delta : Delta) : Bool := COUNT_FIELDS.all fun field => 0 ≤ delta.counts field

def checkRow (delta : Delta) : Except RollupFailure Unit :=
  if !delta.inRange then .error .outOfRange
  else if !delta.counted then .error .checkViolation
  else .ok ()

def insertRow (rows : Table RollupRow) (row : RollupRow) : Except RollupFailure (Table RollupRow) := do
  checkRow row.delta
  match rows.insert? row with
  | none => .error .uniqueViolation
  | some rows => .ok rows

def Delta.addedTo (delta stored : Delta) : Delta :=
  ⟨fun field => stored.sums field + delta.sums field, fun field => stored.counts field + delta.counts field⟩

def addToRow (delta : Delta) (row : RollupRow) : RollupRow := { row with delta := delta.addedTo row.delta }

-- The row proposed for insertion is checked first, then the row it is added to.
def upsertRow (rows : Table RollupRow) (proposed : RollupRow) : Except RollupFailure (Table RollupRow) :=
  match rows.find? (proposed.day, proposed.digest) with
  | none => insertRow rows proposed
  | some stored => do
      checkRow proposed.delta
      checkRow (proposed.delta.addedTo stored.delta)
      pure (rows.modify (proposed.day, proposed.digest) (addToRow proposed.delta) fun _ => rfl)

def UPSERT_CHUNK : ℕ := 500

def rowValues (entry : RollupKey × (Dims × Delta)) : RollupRow :=
  ⟨entry.1.1, entry.1.2, entry.2.1, entry.2.2⟩

def rowOrder (a b : RollupRow) : Bool := a.day < b.day || a.day = b.day && a.digest ≤ b.digest

def liveRows (deltas : Deltas) : List RollupRow :=
  (deltas.entries.filter fun entry => !entry.2.2.isZero).map rowValues

def applyDeltas (deltas : Deltas) (rows : Table RollupRow) : Except RollupFailure (Table RollupRow) :=
  let live := liveRows deltas
  if live.isEmpty then .ok rows
  else do
    let rows ← (chunks UPSERT_CHUNK (live.mergeSort rowOrder)).foldlM
      (fun rows chunk => chunk.foldlM upsertRow rows) rows
    pure (rows.filter fun row => !((live.map (·.day)).contains row.day && row.delta.counts .record = 0))

end Rows

section Rebuild

-- The columns of `_aggregate_statement`; a missing one is NULL.
def selectedSum (record : UsageRecord) : SumField → Option ℚ
  | .quantity => some (decimalQuantity record.quantity)
  | .amount => some ((record.amount.map decimalAmount).getD 0)
  | .amountInr => some ((record.amountInr.map decimalAmount).getD 0)
  | .unconvertedAmount => if record.unconverted then record.amount.map decimalAmount else some 0
  | .unpricedQuantity => some (if record.unpriced then decimalQuantity record.quantity else 0)
  | .overageQuantity => some (decimalQuantity record.overageQuantity)

def selectedCount (record : UsageRecord) : CountField → ℤ
  | .record => 1
  | .call => flag record.calls
  | .unpriced => if record.unpriced then 1 else 0
  | .unconverted => if record.unconverted then 1 else 0
  | .fxEstimated => if record.fxEstimated then 1 else 0
  | .overage => if record.overage then 1 else 0
  | .allocated => if record.allocated then 1 else 0
  | .estimated => if record.quantityEstimated || record.priceEstimated then 1 else 0

-- `SUM` leaves NULLs out, and is NULL itself when nothing is left.
def sqlSum (values : List (Option ℚ)) : Option ℚ :=
  match values.filterMap id with
  | [] => none
  | known => some known.sum

def groupDelta (group : List UsageRecord) : Delta :=
  ⟨fun field => (sqlSum (group.map (selectedSum · field))).getD 0,
    fun field => (group.map (selectedCount · field)).sum⟩

def DAY_MICROSECONDS : Int := 86400000000

def dayWindow (env : RollupEnv) (day : Date) : Int × Int :=
  ((env.dayBounds day).1 - DAY_MICROSECONDS, (env.dayBounds day).2 + DAY_MICROSECONDS)

def UsageRecord.within (env : RollupEnv) (day : Date) (record : UsageRecord) : Bool :=
  (dayWindow env day).1 ≤ record.eventTime && record.eventTime < (dayWindow env day).2

def groupRow (env : RollupEnv) (day : Date) (found : List UsageRecord) (dims : Dims) : RollupRow :=
  ⟨day, dimsHash env (dims.canon env.strip), dims.canon env.strip,
    groupDelta (found.filter fun record => record.dims = dims)⟩

-- The day's records grouped by their dimensions as they are stored.
def groupRows (env : RollupEnv) (day : Date) (records : List UsageRecord) : List RollupRow :=
  let found := records.filter fun record => record.eventDate = day && record.within env day
  (found.map (·.dims)).dedup.map (groupRow env day found)

def rebuildDay (env : RollupEnv) (day : Date) (records : List UsageRecord) (rows : Table RollupRow) :
    Except RollupFailure (Table RollupRow) :=
  let values := (groupRows env day records).mergeSort fun a b => a.digest ≤ b.digest
  (chunks UPSERT_CHUNK values).foldlM (fun rows chunk => chunk.foldlM insertRow rows)
    (rows.filter fun row => row.day ≠ day)

end Rebuild

section Steps

structure RollupState where
  records : Table UsageRecord
  rows : Table RollupRow

def RollupState.empty : RollupState := ⟨.empty, .empty⟩

-- Those that are new (`ON CONFLICT DO NOTHING`), after the table they are in.
def writeRecords : List UsageRecord → Table UsageRecord → Table UsageRecord × List UsageRecord
  | [], records => (records, [])
  | record :: rest, records =>
      match records.insert? record with
      | none => writeRecords rest records
      | some records =>
          let written := writeRecords rest records
          (written.1, record :: written.2)

def revised (change : UsageRecord → Option UsageRecord) (record : UsageRecord) : UsageRecord :=
  match change record with
  | none => record
  | some after => { after with id := record.id }

theorem revised_id (change : UsageRecord → Option UsageRecord) (record : UsageRecord) :
    (revised change record).id = record.id := by
  unfold revised
  split <;> rfl

def moveRevised (env : RollupEnv) (change : UsageRecord → Option UsageRecord) (deltas : Deltas)
    (record : UsageRecord) : Deltas :=
  if (change record).isSome then move env deltas record (revised change record) else deltas

inductive RollupStep where
  | insert (records : List UsageRecord)
  -- one transaction of a job, which may give any record new values
  | revise (change : UsageRecord → Option UsageRecord)
  | rebuild (day : Date)

def RollupStep.after (env : RollupEnv) (state : RollupState) : RollupStep → Except RollupFailure RollupState
  | .insert records => do
      let written := writeRecords records state.records
      let rows ← applyDeltas (aggregate env written.2) state.rows
      pure ⟨written.1, rows⟩
  | .revise change => do
      let rows ← applyDeltas (state.records.rows.foldl (moveRevised env change) .empty) state.rows
      pure ⟨state.records.map (revised change) (revised_id change), rows⟩
  | .rebuild day => do
      let rows ← rebuildDay env day state.records.rows state.rows
      pure ⟨state.records, rows⟩

def rollupsAfter (env : RollupEnv) (steps : List RollupStep) : Except RollupFailure RollupState :=
  steps.foldlM (RollupStep.after env) .empty

end Steps

end AgenticOrg.Spend
