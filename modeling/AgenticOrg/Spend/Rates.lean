import AgenticOrg.Lib.Table

namespace AgenticOrg.Spend

open Tables

section Vocabulary

def APPLICATIONS : List String :=
  ["agents", "chat", "voice", "workflows", "a2a", "mcp", "api", "console", "knowledge", "documents", "speech",
    "content", "txn", "system"]

def RISK_TIERS : List String := ["low", "medium", "high", "critical"]

def REPORTING_CURRENCY : String := "INR"

-- The places of stored amounts and quantities, and the digits of Python's default decimal context and of the stored sums.
def AMOUNT_PLACES : Nat := 10
def QTY_PLACES : Nat := 6
def DEFAULT_DIGITS : Nat := 28

end Vocabulary

section Data

-- A billing date, as the number of its day.
abbrev Date := Int

structure SpendError where
  status : Nat
  code : String
  message : String

-- A refusal of the service, or a constraint of the database.
inductive Failure where
  | refused (error : SpendError)
  | integrity

def refuse {α : Type} (status : Nat) (code message : String) : Except Failure α :=
  .error (.refused ⟨status, code, message⟩)

structure CardKey where
  provider : String
  usageType : String
  modelSku : String
  unit : String
  source : String
  deriving DecidableEq

inductive TierMode where
  | graduated
  | allUnits
  deriving DecidableEq

structure VolumeTier where
  fromQuantity : Rat
  unitPrice : Rat
  deriving DecidableEq

inductive CardStatus where
  | active
  | retired
  deriving DecidableEq

-- The fields that `check_card` makes of a body.
structure CardFields where
  key : CardKey
  unitPrice : Rat
  cachedUnitPrice : Option Rat
  batchDiscountPct : Rat
  volumeTiers : List VolumeTier
  tierMode : TierMode
  currency : String
  effectiveFrom : Date
  effectiveTo : Option Date
  reference : String

structure RateCard extends CardFields where
  id : String
  status : CardStatus
  replacesId : Option String

instance : Keyed RateCard String := ⟨RateCard.id⟩

abbrev Cards := Table RateCard

-- What a call is told from outside the table of the cards: the provider's billing date, the last
-- billing date a card was used on, and how a date is printed.
structure Outside where
  today : String → Date
  cardInUse : Cards → String → Option Date
  isoformat : Date → String

-- Provider, first and last day, and the card that priced them.
structure RestatePlan where
  provider : String
  start : Date
  stop : Date
  cardId : String

end Data

section Checks

-- `None` as a bound is never reached.
def before (date : Date) : Option Date → Bool
  | none => true
  | some bound => date < bound

def overlaps (aFrom : Date) (aTo : Option Date) (bFrom : Date) (bTo : Option Date) : Bool :=
  before aFrom bTo && before bFrom aTo

def activeCards (cards : Cards) (key : CardKey) : List RateCard :=
  cards.rows.filter fun card => card.status = .active && card.key = key

def checkOverlap (out : Outside) (cards : Cards) (key : CardKey) (effFrom : Date) (effTo : Option Date)
    (excludeId : Option String) : Except Failure Unit :=
  match (activeCards cards key).find? fun other =>
      some other.id ≠ excludeId && overlaps effFrom effTo other.effectiveFrom other.effectiveTo with
  | none => .ok ()
  | some other =>
      refuse 409 "rate_card_overlap"
        ("card " ++ other.id ++ " covers " ++ out.isoformat other.effectiveFrom ++ " to " ++
          (match other.effectiveTo with
          | some stop => out.isoformat stop
          | none => "open") ++ " for the same key")

def checkPeriod (effFrom : Date) (effTo : Option Date) : Except Failure Unit :=
  match effTo with
  | none => .ok ()
  | some stop =>
      if stop ≤ effFrom then
        refuse 422 "invalid_period" "effective_to is after effective_from (it is exclusive)"
      else .ok ()

def checkCachedPrice (cached : Option Rat) (unit : String) : Except Failure Unit :=
  match cached with
  | none => .ok ()
  | some _ =>
      if unit = "1m_input_tokens" then .ok ()
      else refuse 422 "invalid_unit" "only a 1m_input_tokens card carries a cached-input price"

def insertCard (cards : Cards) (card : RateCard) : Except Failure Cards :=
  match cards.insert? card with
  | none => .error .integrity
  | some cards => .ok cards

def lockedCard (cards : Cards) (cardId : String) : Except Failure RateCard :=
  match cards.find? cardId with
  | none => refuse 404 "not_found" "no such rate card"
  | some card => .ok card

end Checks

section Create

def closeCard (stop : Date) (card : RateCard) : RateCard := { card with effectiveTo := some stop }

-- Closes the open predecessors among `previous` at `start`; the last one closed is named.
def closePredecessors (out : Outside) (key : CardKey) (start : Date) (restate : Bool) :
    List RateCard → Cards → Option String → Except Failure (Cards × Option String)
  | [], cards, superseded => .ok (cards, superseded)
  | previous :: rest, cards, superseded =>
      if previous.effectiveTo.isSome || previous.effectiveFrom ≥ start then
        closePredecessors out key start restate rest cards superseded
      else
        match (out.cardInUse cards previous.id).filter fun used => used ≥ start && !restate with
        | some _ =>
            refuse 409 "restate_required"
              ("card " ++ previous.id ++ " priced records from " ++ out.isoformat start ++ " to " ++
                out.isoformat (out.today key.provider) ++ "; send restate=true to restate them")
        | none =>
            closePredecessors out key start restate rest
              (cards.modify previous.id (closeCard start) fun _ => rfl) (some previous.id)

def supersedeOpen (out : Outside) (cards : Cards) (fields : CardFields) (supersede restate : Bool) :
    Except Failure (Cards × Option String) :=
  if supersede then
    closePredecessors out fields.key fields.effectiveFrom restate (activeCards cards fields.key) cards none
  else .ok (cards, none)

def createIn (out : Outside) (cards : Cards) (newId : String) (fields : CardFields)
    (supersede restate : Bool) : Except Failure (Cards × Option String) := do
  let (cards, superseded) ← supersedeOpen out cards fields supersede restate
  checkOverlap out cards fields.key fields.effectiveFrom fields.effectiveTo none
  let cards ← insertCard cards { fields with id := newId, status := .active, replacesId := none }
  pure (cards, superseded)

-- The days that a backdated card takes from the one it supersedes.
def createPlan (out : Outside) (cards : Cards) (fields : CardFields) (superseded : Option String)
    (restate : Bool) : Option RestatePlan :=
  match superseded with
  | none => none
  | some cardId =>
      match (out.cardInUse cards cardId).filter fun used => restate && used ≥ fields.effectiveFrom with
      | none => none
      | some _ =>
          some ⟨fields.key.provider, fields.effectiveFrom, out.today fields.key.provider, cardId⟩

def createCard (out : Outside) (cards : Cards) (newId : String) (fields : CardFields)
    (supersede restate : Bool) : Except Failure (Cards × List RestatePlan) := do
  checkPeriod fields.effectiveFrom fields.effectiveTo
  checkCachedPrice fields.cachedUnitPrice fields.key.unit
  let (cards, superseded) ← createIn out cards newId fields supersede restate
  pure (cards, (createPlan out cards fields superseded restate).toList)

end Create

section Update

-- A body of a change, with the fields that are in it.
structure CardChanges where
  tierMode : Option TierMode
  unitPrice : Option Rat
  cachedUnitPrice : Option (Option Rat)
  batchDiscountPct : Option Rat
  volumeTiers : Option (List VolumeTier)
  currency : Option String
  effectiveFrom : Option Date
  effectiveTo : Option (Option Date)
  retire : Bool
  reference : Option String

def different {α : Type} [DecidableEq α] (given : Option α) (current : α) : Option α :=
  given.filter fun value => value ≠ current

-- The values of the body that differ from the card.
def patchValues (card : RateCard) (body : CardChanges) : Except Failure CardChanges := do
  checkCachedPrice (body.cachedUnitPrice.getD none) card.key.unit
  let new : CardChanges :=
    { tierMode := different body.tierMode card.tierMode
      unitPrice := different body.unitPrice card.unitPrice
      cachedUnitPrice := different body.cachedUnitPrice card.cachedUnitPrice
      batchDiscountPct := different body.batchDiscountPct card.batchDiscountPct
      volumeTiers := different body.volumeTiers card.volumeTiers
      currency := different body.currency card.currency
      effectiveFrom := different body.effectiveFrom card.effectiveFrom
      effectiveTo := different body.effectiveTo card.effectiveTo
      retire := body.retire && card.status ≠ .retired
      reference := different body.reference card.reference }
  checkPeriod (new.effectiveFrom.getD card.effectiveFrom) (new.effectiveTo.getD card.effectiveTo)
  pure new

-- One of `PRICE_FIELDS` is among the changes.
def CardChanges.price (new : CardChanges) : Bool :=
  new.unitPrice.isSome || new.cachedUnitPrice.isSome || new.batchDiscountPct.isSome ||
    new.volumeTiers.isSome || new.tierMode.isSome || new.currency.isSome || new.effectiveFrom.isSome

def CardChanges.isEmpty (new : CardChanges) : Bool :=
  !(new.price || new.effectiveTo.isSome || new.retire || new.reference.isSome)

def CardChanges.apply (new : CardChanges) (card : RateCard) : RateCard :=
  { card with
    tierMode := new.tierMode.getD card.tierMode
    unitPrice := new.unitPrice.getD card.unitPrice
    cachedUnitPrice := new.cachedUnitPrice.getD card.cachedUnitPrice
    batchDiscountPct := new.batchDiscountPct.getD card.batchDiscountPct
    volumeTiers := new.volumeTiers.getD card.volumeTiers
    currency := new.currency.getD card.currency
    effectiveFrom := new.effectiveFrom.getD card.effectiveFrom
    effectiveTo := new.effectiveTo.getD card.effectiveTo
    status := if new.retire then .retired else card.status
    reference := new.reference.getD card.reference }

-- The change takes away days that the card has priced.
def cutsUsed (today : Date) (usedUntil : Option Date) (stop : Option Date) : Bool :=
  match stop, usedUntil with
  | some stop, some used => stop ≤ today && used ≥ stop
  | _, _ => false

-- What the lifecycle allows, with the card's use and the provider's date.
def checkLifecycle (out : Outside) (card : RateCard) (new : CardChanges) (usedUntil : Option Date)
    (restate : Bool) : Except Failure Unit :=
  let today := out.today card.key.provider
  if new.price && (usedUntil.isSome || card.effectiveFrom ≤ today) then
    refuse 409 "card_in_use"
      ("the card has started or priced records: correct it with POST /spend/rate-cards/" ++
        "\x7bcard_id\x7d/correct")
  else if new.retire && usedUntil.isSome then
    refuse 409 "card_in_use" "a card that priced records is retired only by a correction (/correct)"
  else
    match new.effectiveTo with
    | some (some stop) =>
        if cutsUsed today usedUntil (some stop) && !restate then
          refuse 409 "restate_required"
            ("records from " ++ out.isoformat stop ++ " to " ++ out.isoformat today ++
              " used this card; send restate=true")
        else .ok ()
    | _ => .ok ()

-- Only a change of a date of a card that stays active can make it overlap.
def checkMoved (out : Outside) (cards : Cards) (card : RateCard) (new : CardChanges) :
    Except Failure Unit :=
  if !new.retire && (new.effectiveTo.isSome || new.effectiveFrom.isSome) then
    checkOverlap out cards card.key (new.effectiveFrom.getD card.effectiveFrom)
      (new.effectiveTo.getD card.effectiveTo) (some card.id)
  else .ok ()

-- Whether anything changed comes with the cards.
def updateIn (out : Outside) (cards : Cards) (card : RateCard) (body : CardChanges) (restate : Bool) :
    Except Failure (Cards × Bool) :=
  if card.status ≠ .active then
    refuse 409 "card_in_use" "a retired card is kept as history; change its replacement"
  else do
    let new ← patchValues card body
    if new.isEmpty then pure (cards, false)
    else do
      checkLifecycle out card new (out.cardInUse cards card.id) restate
      checkMoved out cards card new
      pure (cards.modify card.id new.apply fun _ => rfl, true)

-- The days a card loses when its end moves to where it was used.
def updatePlan (out : Outside) (cards : Cards) (cardId : String) (previousEnd : Option Date)
    (changed restate : Bool) : Option RestatePlan :=
  match cards.find? cardId with
  | none => none
  | some card =>
      match card.effectiveTo with
      | none => none
      | some stop =>
          if changed && restate && card.effectiveTo ≠ previousEnd &&
              cutsUsed (out.today card.key.provider) (out.cardInUse cards cardId) (some stop) then
            some ⟨card.key.provider, stop, out.today card.key.provider, cardId⟩
          else none

def updateCard (out : Outside) (cards : Cards) (cardId : String) (body : CardChanges) (restate : Bool) :
    Except Failure (Cards × List RestatePlan) := do
  let card ← lockedCard cards cardId
  let (cards, changed) ← updateIn out cards card body restate
  pure (cards, (updatePlan out cards cardId card.effectiveTo changed restate).toList)

end Update

section Correct

def retireCard (card : RateCard) : RateCard := { card with status := .retired }

-- The old card's fields with those of the body over them.
def correctedFields (old : RateCard) (body : CardChanges) : CardFields :=
  { key := old.key
    unitPrice := body.unitPrice.getD old.unitPrice
    cachedUnitPrice := body.cachedUnitPrice.getD old.cachedUnitPrice
    batchDiscountPct := body.batchDiscountPct.getD old.batchDiscountPct
    volumeTiers := body.volumeTiers.getD old.volumeTiers
    tierMode := body.tierMode.getD old.tierMode
    currency := body.currency.getD old.currency
    effectiveFrom := old.effectiveFrom
    effectiveTo := body.effectiveTo.getD old.effectiveTo
    reference := old.reference }

def correctPlan (out : Outside) (cards : Cards) (old : RateCard) : Option RestatePlan :=
  match out.cardInUse cards old.id with
  | none => none
  | some _ =>
      let today := out.today old.key.provider
      let lastDay :=
        match old.effectiveTo with
        | some stop => min (stop - 1) today
        | none => today
      some ⟨old.key.provider, old.effectiveFrom, lastDay, old.id⟩

def correctCard (out : Outside) (cards : Cards) (newId cardId : String) (body : CardChanges) :
    Except Failure (Cards × List RestatePlan) := do
  let old ← lockedCard cards cardId
  if old.status ≠ .active then
    refuse 409 "card_in_use" "the card is already retired; correct its replacement"
  else do
    let plan := correctPlan out cards old
    let fields := correctedFields old body
    checkPeriod old.effectiveFrom fields.effectiveTo
    checkCachedPrice fields.cachedUnitPrice old.key.unit
    let cards := cards.modify old.id retireCard fun _ => rfl
    checkOverlap out cards old.key fields.effectiveFrom fields.effectiveTo (some old.id)
    let cards ← insertCard cards { fields with id := newId, status := .active, replacesId := some old.id }
    pure (cards, plan.toList)

end Correct

section Import

-- A row of the file that passed its checks; `present` are the columns it has.
structure CheckedRow where
  newId : String
  fields : CardFields
  present : List String
  supersede : Bool
  restate : Bool

structure ImportRow where
  label : String
  parsed : Except SpendError CheckedRow

structure Rejection where
  row : Nat
  key : String
  reason : String

structure ImportReport where
  received : Nat
  created : Nat
  updated : Nat
  unchanged : Nat
  rejected : List Rejection

-- The row numbers count the header as the first one.
def checkRows : Nat → List ImportRow → List (CardKey × Date) → List (Nat × CheckedRow) × List Rejection
  | _, [], _ => ([], [])
  | index, row :: rest, seen =>
      match row.parsed with
      | .error error =>
          let (checked, rejected) := checkRows (index + 1) rest seen
          (checked, ⟨index, row.label, error.code⟩ :: rejected)
      | .ok found =>
          let place := (found.fields.key, found.fields.effectiveFrom)
          if seen.contains place then
            let (checked, rejected) := checkRows (index + 1) rest seen
            (checked, ⟨index, row.label, "duplicate_in_file"⟩ :: rejected)
          else
            let (checked, rejected) := checkRows (index + 1) rest (place :: seen)
            ((index, found) :: checked, rejected)

def CardKey.label (key : CardKey) : String :=
  key.provider ++ ":" ++ key.usageType ++ ":" ++ key.modelSku ++ ":" ++ key.unit ++ ":" ++ key.source

-- The required columns, and of the others those that the row has.
def CheckedRow.body (row : CheckedRow) : CardChanges :=
  let given {α : Type} (column : String) (value : α) : Option α :=
    if row.present.contains column then some value else none
  { tierMode := given "tier_mode" row.fields.tierMode
    unitPrice := some row.fields.unitPrice
    cachedUnitPrice := given "cached_unit_price" row.fields.cachedUnitPrice
    batchDiscountPct := given "batch_discount_pct" row.fields.batchDiscountPct
    volumeTiers := given "volume_tiers" row.fields.volumeTiers
    currency := some row.fields.currency
    effectiveFrom := some row.fields.effectiveFrom
    effectiveTo := given "effective_to" row.fields.effectiveTo
    retire := false
    reference := given "reference" row.fields.reference }

inductive RowOutcome where
  | created
  | updated
  | unchanged
  deriving DecidableEq

def importRow (out : Outside) (cards : Cards) (row : CheckedRow) :
    Except Failure (Cards × RowOutcome × List RestatePlan) :=
  match (activeCards cards row.fields.key).find? (·.effectiveFrom == row.fields.effectiveFrom) with
  | some same => do
      let (cards, changed) ← updateIn out cards same row.body row.restate
      pure (cards, if changed then .updated else .unchanged,
        (updatePlan out cards same.id same.effectiveTo changed row.restate).toList)
  | none => do
      let (cards, superseded) ← createIn out cards row.newId row.fields row.supersede row.restate
      pure (cards, .created, (createPlan out cards row.fields superseded row.restate).toList)

structure ImportState where
  cards : Cards
  report : ImportReport
  plans : List RestatePlan

def ImportReport.count (report : ImportReport) : RowOutcome → ImportReport
  | .created => { report with created := report.created + 1 }
  | .updated => { report with updated := report.updated + 1 }
  | .unchanged => { report with unchanged := report.unchanged + 1 }

def ImportReport.reject (report : ImportReport) (rejection : Rejection) : ImportReport :=
  { report with rejected := report.rejected ++ [rejection] }

-- Each row in a savepoint of its own: a refused one leaves the cards as they are.
def importRows (out : Outside) : List (Nat × CheckedRow) → ImportState → Except Failure ImportState
  | [], state => .ok state
  | (index, row) :: rest, state =>
      match importRow out state.cards row with
      | .ok (cards, outcome, plans) =>
          importRows out rest
            { cards := cards
              report := state.report.count outcome
              plans := state.plans ++ plans }
      | .error (.refused error) =>
          importRows out rest
            { state with report := state.report.reject ⟨index, row.fields.key.label, error.code⟩ }
      | .error .integrity => .error .integrity

-- One restatement per provider over all that is planned for it.
def mergePlans (plans : List RestatePlan) : List (RestatePlan × List String) :=
  let providers := (plans.map (·.provider)).eraseDups.mergeSort
  providers.filterMap fun provider =>
    match plans.filter (·.provider == provider) with
    | [] => none
    | first :: rest =>
        some
          (⟨provider, rest.foldl (fun low plan => min low plan.start) first.start,
            rest.foldl (fun high plan => max high plan.stop) first.stop, first.cardId⟩,
            (first :: rest).map (·.cardId))

def importCards (out : Outside) (cards : Cards) (rows : List ImportRow) (dryRun : Bool) :
    Except Failure (Cards × ImportReport × List (RestatePlan × List String)) := do
  let (checked, rejected) := checkRows 2 rows []
  let state ← importRows out checked ⟨cards, ⟨rows.length, 0, 0, 0, rejected⟩, []⟩
  let report := { state.report with rejected := state.report.rejected.mergeSort fun a b => a.row ≤ b.row }
  pure (if dryRun then (cards, report, []) else (state.cards, report, mergePlans state.plans))

end Import

section Calls

inductive RateCall where
  | create (newId : String) (fields : CardFields) (supersede restate : Bool)
  | update (cardId : String) (body : CardChanges) (restate : Bool)
  | correct (newId cardId : String) (body : CardChanges)
  | importFile (rows : List ImportRow) (dryRun : Bool)

def RateCall.cardsAfter (out : Outside) (cards : Cards) : RateCall → Except Failure Cards
  | .create newId fields supersede restate =>
      (createCard out cards newId fields supersede restate).map Prod.fst
  | .update cardId body restate => (updateCard out cards cardId body restate).map Prod.fst
  | .correct newId cardId body => (correctCard out cards newId cardId body).map Prod.fst
  | .importFile rows dryRun => (importCards out cards rows dryRun).map Prod.fst

-- A call that fails is rolled back.
def callStep (cards : Cards) (call : Outside × RateCall) : Cards :=
  match call.2.cardsAfter call.1 cards with
  | .ok cards => cards
  | .error _ => cards

-- The tenant's cards after the calls, from none at all.
def cardsAfter (calls : List (Outside × RateCall)) : Cards := calls.foldl callStep .empty

end Calls

end AgenticOrg.Spend
