import AgenticOrg.Lib.Replay
import AgenticOrg.Spend.Reconcile
import AgenticOrg.Spend.Rollups
import Mathlib.Data.Prod.Lex
import Mathlib.Data.String.Basic
import Mathlib.Data.Int.Order.Basic

namespace AgenticOrg.Spend

open Tables Replay

section Terms

inductive CommitmentKind where
  | quantity
  | money
  deriving DecidableEq

-- What is committed to, with what `ck_spend_commitments_shape` asks of each kind; quantities are in
-- millionths of a card unit, amounts in units of the tenth decimal place.
inductive Pledge where
  | quantity (usageType : String) (unit : CardUnit) (committed : ℕ)
  | money (usageType : Option String) (committed : ℕ) (currency : String)
  deriving DecidableEq

def Pledge.kind : Pledge → CommitmentKind
  | .quantity _ _ _ => .quantity
  | .money _ _ _ => .money

def Pledge.usageType : Pledge → Option String
  | .quantity usageType _ _ => some usageType
  | .money usageType _ _ => usageType

def Pledge.unit : Pledge → Option CardUnit
  | .quantity _ unit _ => some unit
  | .money _ _ _ => none

inductive CommitmentStatus where
  | active
  | closed
  deriving DecidableEq

-- What a drawdown reads of a commitment; ids are their texts.
structure Terms where
  id : String
  provider : String
  modelSku : String
  pledge : Pledge
  periodStart : Date
  periodEnd : Date
  status : CommitmentStatus
  deriving DecidableEq

@[ext] structure Drawn where
  quantity : ℚ
  amount : ℚ
  undrawn : ℕ
  deriving DecidableEq

def Drawn.zero : Drawn := ⟨0, 0, 0⟩

structure Commitment where
  terms : Terms
  reference : String
  drawn : Drawn
  recomputedThrough : Option Int
  needsFullRecompute : Bool
  deriving DecidableEq

instance : Keyed Commitment String := ⟨fun row => row.terms.id⟩

def Commitment.isActive (row : Commitment) : Bool := row.terms.status = .active

-- The days of a zone: when each starts, and the one an instant falls on.
structure Calendar where
  dayStart : Date → Int
  dateOf : Int → Date
  dayStart_le : ∀ day, dayStart day ≤ dayStart (day + 1)
  dateOf_bounds : ∀ moment, dayStart (dateOf moment) ≤ moment ∧ moment < dayStart (dateOf moment + 1)

-- The provider that is recomputed and the days it bills in; `str.strip`; and the rate of a currency to
-- the reporting one on a day.
structure DrawEnv where
  provider : String
  billing : Calendar
  strip : String → String
  rateToInr : String → Date → Option ℚ

end Terms

section Drawing

variable (env : DrawEnv)

def matchRank (record : UsageRecord) (terms : Terms) : Option ℕ :=
  if terms.status ≠ .active || terms.provider ≠ record.dims.provider then none
  else if !(terms.periodStart ≤ record.dims.billingDate && record.dims.billingDate < terms.periodEnd) then none
  else
    match terms.pledge with
    | .quantity usageType unit _ =>
        if usageType ≠ record.dims.usageType then none
        else if some unit ≠ CANONICAL_UNIT.lookup record.dims.unit then none
        else if terms.modelSku ≠ "" && terms.modelSku ≠ env.strip record.dims.model then none
        else some (if terms.modelSku ≠ "" then 0 else 1)
    | .money none _ _ => some 3
    | .money (some usageType) _ _ => if usageType = record.dims.usageType then some 2 else none

def rankKey (ranked : ℕ × Terms) : ℕ ×ₗ String := toLex (ranked.1, ranked.2.id)

def rankedCommitments (record : UsageRecord) (commitments : List Terms) : List (ℕ × Terms) :=
  commitments.filterMap fun terms => (matchRank env record terms).map fun rank => (rank, terms)

def bestCommitment (record : UsageRecord) (commitments : List Terms) : Option Terms :=
  (ordered rankKey (rankedCommitments env record commitments)).head?.map fun ranked => ranked.2

-- The part of a draw past the capacity.
def overage (before drawn capacity : ℚ) : ℚ :=
  max 0 (Decimals.rounded DEFAULT_DIGITS (Decimals.plus DEFAULT_DIGITS before drawn - max capacity before))

-- What a record is given: its commitment, and how much of it is past the capacity (in millionths).
@[ext] structure Assignment where
  commitmentId : Option String
  overage : Bool
  overageQuantity : ℕ
  deriving DecidableEq

def Assignment.unassigned : Assignment := ⟨none, false, 0⟩

def millionths (quantity : ℚ) : ℕ := (Decimals.halfEven (quantity * 10 ^ QTY_PLACES)).toNat

-- In record units.
def capacityOf (unit : CardUnit) (committed : ℕ) : ℚ :=
  Decimals.rounded DEFAULT_DIGITS (decimalQuantity committed * CANONICAL_DIVISOR unit)

-- The amount of a priced record in the currency of the commitment, when it can be had.
def drawnAmount (record : UsageRecord) (amount : ℕ) (currency target : String) (rate : Option ℚ) : Option ℚ :=
  if env.strip currency = target then some (decimalAmount amount)
  else
    match record.amountInr with
    | none => none
    | some inr =>
        if target = REPORTING_CURRENCY then some (decimalAmount inr)
        else
          match rate with
          | none => none
          | some rate =>
              if rate ≠ 0 then
                some (Decimals.quantized AMOUNT_PLACES (Decimals.rounded DEFAULT_DIGITS (decimalAmount inr / rate)))
              else none

def drawQuantity (record : UsageRecord) (id : String) (unit : CardUnit) (committed : ℕ) (state : Drawn) :
    Drawn × Assignment :=
  let quantity := decimalQuantity record.quantity
  let past := overage state.quantity quantity (capacityOf unit committed)
  ({ state with quantity := Decimals.plus DEFAULT_DIGITS state.quantity quantity },
    ⟨some id, 0 < past, millionths past⟩)

-- The share of the record's quantity that its amount past the capacity is of its amount.
def overageShare (quantity amount past : ℚ) : ℚ :=
  min quantity (Decimals.quantized QTY_PLACES
    (Decimals.rounded DEFAULT_DIGITS (Decimals.rounded DEFAULT_DIGITS (quantity * past) / amount)))

def drawAmount (record : UsageRecord) (id : String) (committed : ℕ) (amount : ℚ) (state : Drawn) :
    Drawn × Assignment :=
  let quantity := decimalQuantity record.quantity
  let past := overage state.amount amount (decimalAmount committed)
  let drawn := { state with amount := Decimals.plus DEFAULT_DIGITS state.amount amount }
  if past ≤ 0 || amount ≤ 0 then (drawn, ⟨some id, false, 0⟩)
  else
    let share := overageShare quantity amount past
    (drawn, ⟨some id, 0 < share, millionths share⟩)

def draw (record : UsageRecord) (terms : Terms) (state : Drawn) (rateToInr : Option ℚ) : Drawn × Assignment :=
  match terms.pledge with
  | .quantity _ unit committed => drawQuantity record terms.id unit committed state
  | .money _ committed currency =>
      match record.amount, record.dims.currency with
      | some amount, some own =>
          match drawnAmount env record amount own (env.strip currency) rateToInr with
          | none => ({ state with undrawn := state.undrawn + 1 }, .unassigned)
          | some amount => drawAmount record terms.id committed amount state
      | _, _ => (state, .unassigned)

-- The rate is asked for only where a commitment of another currency is drawn from.
def moneyRate (record : UsageRecord) (terms : Terms) : Option ℚ :=
  match terms.pledge with
  | .quantity _ _ _ => none
  | .money _ _ currency =>
      let target := env.strip currency
      if target ≠ "" && target ≠ REPORTING_CURRENCY then env.rateToInr target record.eventDate else none

abbrev DrawStates := String → Drawn

def DrawStates.zero : DrawStates := fun _ => .zero

def drawRecord (commitments : List Terms) (states : DrawStates) (record : UsageRecord) :
    DrawStates × Assignment :=
  match bestCommitment env record commitments with
  | none => (states, .unassigned)
  | some chosen =>
      let drawn := draw env record chosen (states chosen.id) (moneyRate env record chosen)
      (Function.update states chosen.id drawn.1, drawn.2)

def UsageRecord.assignment (record : UsageRecord) : Assignment :=
  ⟨record.dims.commitmentId, record.overage, record.overageQuantity⟩

def UsageRecord.assign (record : UsageRecord) (assignment : Assignment) : UsageRecord :=
  { record with
    dims := { record.dims with commitmentId := assignment.commitmentId }
    overage := assignment.overage
    overageQuantity := assignment.overageQuantity }

end Drawing

end AgenticOrg.Spend
