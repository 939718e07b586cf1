import AgenticOrg.Lib.Award
import AgenticOrg.Lib.Decimal
import AgenticOrg.Lib.Table
import Mathlib.Data.String.Basic
import Mathlib.Data.Prod.Lex
import Mathlib.Order.WithBot
import Mathlib.Algebra.Order.Ring.Int

namespace AgenticOrg.Spend.Gpu

open Tables

-- Tokens and node hours are counted in millionths (QTY_QUANT), amounts in steps of AMOUNT_QUANT. Rounding to
-- significant digits does not depend on the unit.

def SPLIT_DIGITS : ℕ := 38

-- The precision sums have outside a local context.
def CONTEXT_DIGITS : ℕ := 28

def MAX_NODE_HOURS : ℤ := 10000 * 10 ^ 6

section LargestRemainder

variable {κ : Type} [LinearOrder κ]

-- A weight's part of the total: its whole steps, and what is left of it.
structure Part (κ : Type) where
  key : κ
  floor : ℤ
  remainder : ℚ
  deriving DecidableEq

def Part.rank (part : Part κ) : ℚ ×ₗ κ := toLex (-part.remainder, part.key)

def exactShare (amount : ℤ) (weightSum weight : ℚ) : ℚ :=
  Decimals.rounded SPLIT_DIGITS (Decimals.rounded SPLIT_DIGITS (amount * weight) / weightSum)

def partOf (amount : ℤ) (weightSum : ℚ) (weight : κ × ℚ) : Part κ :=
  let exact := exactShare amount weightSum (max 0 weight.2)
  { key := weight.1, floor := ⌊exact⌋, remainder := exact - ⌊exact⌋ }

-- How many items `[:left]` keeps: a negative number counts from the end.
def sliceEnd (length : ℕ) (left : ℤ) : ℕ := if 0 ≤ left then left.toNat else (length + left).toNat

-- The keys are those of a dict or of a GROUP BY: no two weights have the same one.
def largestRemainder (total : ℤ) (weights : List (κ × ℚ)) : List (κ × ℤ) :=
  let weightSum := Decimals.total SPLIT_DIGITS (weights.map fun weight => max 0 weight.2)
  if weightSum ≤ 0 ∨ total ≤ 0 then weights.map fun weight => (weight.1, 0)
  else
    let parts := weights.map (partOf total weightSum)
    let left := total - (parts.map (·.floor)).sum
    parts.map fun part => (part.key, Awards.award Part.rank (·.floor) (sliceEnd parts.length left) parts part)

end LargestRemainder

section Data

-- A token record of the pool's models in the hour, as the hour froze it.
structure TokenRecord where
  sourceRef : String
  quantity : ℕ
  amount : Option ℤ
  deriving DecidableEq

def TokenRecord.pricedAboveZero (record : TokenRecord) : Bool := 0 < record.amount.getD 0

structure Priced where
  amount : Option ℤ
  amountInr : Option ℤ
  currency : Option String
  deriving DecidableEq

inductive AllocationStatus where
  | frozen
  | written
  deriving DecidableEq

structure Allocation where
  tokens : ℕ
  status : AllocationStatus
  nodeHours : Option ℤ
  amount : Option ℤ
  currency : Option String
  records : ℕ
  deriving DecidableEq

-- A call's share of the hour; the call is what its idempotency key names.
structure GpuRecord where
  sourceRef : String
  quantity : ℤ
  priced : Priced
  deriving DecidableEq

-- What a tenant's session sees of the hour. Tenants deleted before the hour began are not there.
structure Tenant where
  id : ℕ
  active : Bool
  tokens : List TokenRecord
  allocation : Option Allocation
  records : List GpuRecord
  deriving DecidableEq

instance : Keyed Tenant ℕ := ⟨Tenant.id⟩

inductive HourStatus where
  | pending
  | allocating
  | allocated
  deriving DecidableEq

structure PoolHour where
  nodeHours : ℤ
  status : HourStatus
  totalTokens : Option ℚ
  tenantCount : Option ℕ
  pricedCallsSkipped : ℕ
  skippedNodeHours : ℤ
  idle : Bool
  inRange : 0 < nodeHours ∧ nodeHours ≤ MAX_NODE_HOURS

structure State where
  hour : PoolHour
  tenants : Table Tenant

end Data

section Freeze

def chargedTokens (tokens : List TokenRecord) : ℕ :=
  ((tokens.filter fun record => !record.pricedAboveZero).map (·.quantity)).sum

def ownCostTokens (tokens : List TokenRecord) : ℕ :=
  ((tokens.filter (·.pricedAboveZero)).map (·.quantity)).sum

def ownCostCalls (tokens : List TokenRecord) : ℕ :=
  ((tokens.filter (·.pricedAboveZero)).map (·.sourceRef)).eraseDups.length

structure TenantTokens where
  charged : ℕ
  ownCost : ℕ
  ownCostCalls : ℕ
  status : Option AllocationStatus
  writtenHours : ℤ

def settle (allocation : Allocation) : Allocation :=
  { allocation with status := .written, nodeHours := some 0, amount := none, currency := none, records := 0 }

def frozenRow (charged : ℕ) : Allocation :=
  { tokens := charged, status := .frozen, nodeHours := none, amount := none, currency := none, records := 0 }

def Tenant.written (tenant : Tenant) : Bool := tenant.allocation.any (·.status = .written)

-- The allocation row after the pass.
def freezeRow (active : Bool) (charged : ℕ) : Option Allocation → Option Allocation
  | some row =>
      if row.status = .written then some row
      else if !active then some (settle row)
      else if charged ≤ 0 then some (settle { row with tokens := charged })
      else some { row with tokens := charged }
  | none => if active && 0 < charged then some (frozenRow charged) else none

def freezeTenant (tenant : Tenant) : Tenant :=
  { tenant with allocation := freezeRow tenant.active (chargedTokens tenant.tokens) tenant.allocation }

-- What the pass finds.
def foundTokens (tenant : Tenant) : TenantTokens :=
  let charged := chargedTokens tenant.tokens
  let found : TenantTokens :=
    { charged, ownCost := ownCostTokens tenant.tokens, ownCostCalls := ownCostCalls tenant.tokens
      status := none, writtenHours := 0 }
  match tenant.allocation with
  | some row =>
      if row.status = .written then
        { found with charged := row.tokens, status := some .written, writtenHours := row.nodeHours.getD 0 }
      else if tenant.active && 0 < charged then { found with status := some .frozen }
      else found
  | none => if tenant.active && 0 < charged then { found with status := some .frozen } else found

end Freeze

section Write

def splitShare (share : ℤ) (calls : List (String × ℚ)) (priced : Priced) : List GpuRecord :=
  let hours := (largestRemainder share calls).filter fun call => 0 < call.2
  let weights := hours.map fun call => (call.1, (calls.lookup call.1).getD 0)
  let amounts := priced.amount.map fun amount => largestRemainder amount weights
  let inrs := priced.amountInr.map fun amount => largestRemainder amount weights
  hours.map fun call =>
    { sourceRef := call.1
      quantity := call.2
      priced :=
        { priced with
          amount := amounts.bind (·.lookup call.1)
          amountInr := inrs.bind (·.lookup call.1) } }

-- The zero-priced calls with their tokens, by call.
def chargedCalls (tokens : List TokenRecord) : List (String × ℕ) :=
  let charged := tokens.filter fun record => !record.pricedAboveZero
  let refs := (charged.map (·.sourceRef)).dedup.insertionSort (· ≤ ·)
  let calls := refs.map fun ref => (ref, ((charged.filter (·.sourceRef = ref)).map (·.quantity)).sum)
  calls.filter fun call => 0 < call.2

-- Every call has an attribution: the records it is read from include those the call was found in.
def shareEvents (price : ℤ → Priced) (tokens : List TokenRecord) (share : ℤ) : List GpuRecord × Priced :=
  let priced := price share
  let calls := (chargedCalls tokens).map fun call => (call.1, (call.2 : ℚ))
  (splitShare share calls priced, priced)

-- A repeat of a key is dropped.
def writeEvents (records events : List GpuRecord) : List GpuRecord :=
  events.foldl
    (fun records event => if event.sourceRef ∈ records.map (·.sourceRef) then records else records ++ [event])
    records

def writtenRow (share : ℤ) (events : List GpuRecord) (priced : Priced) (row : Allocation) : Allocation :=
  { row with
    status := .written
    nodeHours := some share
    amount := priced.amount
    currency := priced.currency
    records := events.length }

def writeTenant (price : ℤ → Priced) (tenant : Tenant) (share : ℤ) : Tenant :=
  if 0 < share then
    let found := shareEvents price tenant.tokens share
    { tenant with
      records := writeEvents tenant.records found.1
      allocation := tenant.allocation.map (writtenRow share found.1 found.2) }
  else { tenant with allocation := tenant.allocation.map settle }

end Write

section Allocate

-- What the first pass adds up over the tenants.
structure Pass where
  charged : List (ℕ × ℕ)
  written : List (ℕ × ℤ)
  kept : ℚ
  skipped : ℕ

def Pass.empty : Pass := { charged := [], written := [], kept := 0, skipped := 0 }

def Pass.add (pass : Pass) (tenant : Tenant) : Pass :=
  let found := foundTokens tenant
  let pass :=
    { pass with
      skipped := pass.skipped + found.ownCostCalls
      kept := Decimals.plus CONTEXT_DIGITS pass.kept found.ownCost }
  if found.status = some .written then
    { pass with
      charged := pass.charged ++ [(tenant.id, found.charged)]
      written := pass.written ++ [(tenant.id, found.writtenHours)] }
  else if !tenant.active then { pass with kept := Decimals.plus CONTEXT_DIGITS pass.kept found.charged }
  else if 0 < found.charged then { pass with charged := pass.charged ++ [(tenant.id, found.charged)] }
  else pass

def Pass.total (pass : Pass) : ℚ :=
  Decimals.plus CONTEXT_DIGITS
    (Decimals.total CONTEXT_DIGITS (pass.charged.map fun charged => (charged.2 : ℚ))) pass.kept

-- The platform sorts before every tenant id.
def PLATFORM_KEY : WithBot ℕ := ⊥

def Pass.weights (pass : Pass) : List (WithBot ℕ × ℚ) :=
  (pass.charged.insertionSort fun a b => a.1 ≤ b.1).map (fun charged => ((charged.1 : WithBot ℕ), (charged.2 : ℚ))) ++
    [(PLATFORM_KEY, pass.kept)]

-- What becomes of a tenant's write in a run.
inductive Outcome where
  | written
  | failed
  | paused
  deriving DecidableEq

structure Tally where
  failed : ℕ
  paused : ℕ
  carried : ℤ

-- One tenant of the second pass.
def Tally.add (pass : Pass) (outcome : ℕ → Outcome) (tally : Tally) (share : WithBot ℕ × ℤ) : Tally :=
  match share.1 with
  | none => tally
  | some id =>
      match pass.written.lookup id with
      | some hours => { tally with carried := tally.carried + hours }
      | none =>
          match outcome id with
          | .paused => { tally with paused := tally.paused + 1 }
          | .failed => { tally with failed := tally.failed + 1 }
          | .written => { tally with carried := tally.carried + share.2 }

-- A tenant's own transaction of the second pass: no session sees another tenant's rows.
def takeShare (price : ℕ → ℤ → Priced) (outcome : ℕ → Outcome) (pass : Pass)
    (shares : List (WithBot ℕ × ℤ)) (tenant : Tenant) : Tenant :=
  match shares.lookup (tenant.id : WithBot ℕ), pass.written.lookup tenant.id, outcome tenant.id with
  | some share, none, .written => writeTenant (price tenant.id) tenant share
  | _, _, _ => tenant

-- Pending, or a claim over an hour old.
def claim (stale : Bool) (hour : PoolHour) : Option PoolHour :=
  match hour.status with
  | .pending => some { hour with status := .allocating }
  | .allocating => if stale then some hour else none
  | .allocated => none

def close (hour : PoolHour) (pass : Pass) (carried : ℤ) : PoolHour :=
  { hour with
    status := .allocated
    totalTokens := some pass.total
    tenantCount := some pass.charged.length
    pricedCallsSkipped := pass.skipped
    skippedNodeHours := min hour.nodeHours (max 0 (hour.nodeHours - carried))
    idle := pass.total = 0 }

def firstPass (tenants : Table Tenant) : Pass := tenants.rows.foldl Pass.add Pass.empty

def Pass.shares (pass : Pass) (hour : PoolHour) : List (WithBot ℕ × ℤ) :=
  if 0 < pass.total then largestRemainder hour.nodeHours pass.weights else []

theorem freezeTenant_key (tenant : Tenant) : Keyed.key (freezeTenant tenant) = Keyed.key tenant := rfl

theorem writeTenant_id (price : ℤ → Priced) (tenant : Tenant) (share : ℤ) :
    (writeTenant price tenant share).id = tenant.id := by
  unfold writeTenant
  split <;> rfl

theorem takeShare_key (price : ℕ → ℤ → Priced) (outcome : ℕ → Outcome) (pass : Pass)
    (shares : List (WithBot ℕ × ℤ)) (tenant : Tenant) :
    Keyed.key (takeShare price outcome pass shares tenant) = Keyed.key tenant := by
  unfold takeShare
  split
  · exact writeTenant_id _ tenant _
  · rfl

def allocateHour (stale : Bool) (price : ℕ → ℤ → Priced) (outcome : ℕ → Outcome) (state : State) : State :=
  match claim stale state.hour with
  | none => state
  | some hour =>
      let pass := firstPass state.tenants
      let shares := pass.shares hour
      let tally := shares.foldl (Tally.add pass outcome) { failed := 0, paused := 0, carried := 0 }
      let frozen := state.tenants.map freezeTenant freezeTenant_key
      let tenants := frozen.map (takeShare price outcome pass shares) (takeShare_key price outcome pass shares)
      if tally.failed ≠ 0 ∨ tally.paused ≠ 0 then { hour, tenants }
      else { hour := close hour pass tally.carried, tenants }

end Allocate

section Runs

-- What happens to the hour: a run, a tenant deleted, a token record's amount restated.
inductive Step where
  | run (stale : Bool) (price : ℕ → ℤ → Priced) (outcome : ℕ → Outcome)
  | deleteTenant (id : ℕ)
  | restate (id index : ℕ) (amount : Option ℤ)

def restateTokens (index : ℕ) (amount : Option ℤ) (tokens : List TokenRecord) : List TokenRecord :=
  tokens.modify index fun record => { record with amount }

def Tenant.delete (id : ℕ) (tenant : Tenant) : Tenant :=
  if tenant.id = id then { tenant with active := false } else tenant

def Tenant.restate (id index : ℕ) (amount : Option ℤ) (tenant : Tenant) : Tenant :=
  if tenant.id = id then { tenant with tokens := restateTokens index amount tenant.tokens } else tenant

theorem Tenant.delete_key (id : ℕ) (tenant : Tenant) : Keyed.key (tenant.delete id) = Keyed.key tenant := by
  unfold Tenant.delete
  split <;> rfl

theorem Tenant.restate_key (id index : ℕ) (amount : Option ℤ) (tenant : Tenant) :
    Keyed.key (tenant.restate id index amount) = Keyed.key tenant := by
  unfold Tenant.restate
  split <;> rfl

def State.step (state : State) : Step → State
  | .run stale price outcome => allocateHour stale price outcome state
  | .deleteTenant id => { state with tenants := state.tenants.map (Tenant.delete id) (Tenant.delete_key id) }
  | .restate id index amount =>
      { state with
        tenants := state.tenants.map (Tenant.restate id index amount) (Tenant.restate_key id index amount) }

def State.run (state : State) (steps : List Step) : State := steps.foldl State.step state

end Runs

section Properties

def Tenant.writtenHours (tenant : Tenant) : ℤ :=
  match tenant.allocation with
  | some row => if row.status = .written then row.nodeHours.getD 0 else 0
  | none => 0

def State.writtenHours (state : State) : ℤ := (state.tenants.rows.map (·.writtenHours)).sum

def recordHours (tenant : Tenant) : ℤ := (tenant.records.map (·.quantity)).sum

-- The written hours stay within the hour's, are those of the records, and make up the hour once it is closed.
structure Conserved (state : State) : Prop where
  within : state.writtenHours ≤ state.hour.nodeHours
  records : ∀ tenant ∈ state.tenants.rows, tenant.written = true → tenant.writtenHours = recordHours tenant
  closed : state.hour.status = .allocated →
    state.writtenHours + state.hour.skippedNodeHours = state.hour.nodeHours

-- An hour no run has taken.
structure Fresh (state : State) : Prop where
  pending : state.hour.status = .pending
  empty : ∀ tenant ∈ state.tenants.rows, tenant.allocation = none ∧ tenant.records = []

def State.tokens (state : State) : ℕ :=
  (state.tenants.rows.map fun tenant => (tenant.tokens.map (·.quantity)).sum).sum

-- A restatement while the hour is being allocated keeps the tenant's zero-priced tokens.
def Step.KeepsCharged (state : State) : Step → Prop
  | .restate id index amount =>
      state.hour.status = .allocating → ∀ tenant ∈ state.tenants.rows, tenant.id = id →
        chargedTokens (restateTokens index amount tenant.tokens) = chargedTokens tenant.tokens
  | _ => True

-- Every step keeps them in the state it starts from.
def KeepsChargedAlong : State → List Step → Prop
  | _, [] => True
  | state, step :: rest => step.KeepsCharged state ∧ KeepsChargedAlong (state.step step) rest

end Properties

end AgenticOrg.Spend.Gpu
