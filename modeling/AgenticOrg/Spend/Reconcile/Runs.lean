import AgenticOrg.Spend.Reconcile

namespace AgenticOrg.Spend

open Tables Decimals

section Data

inductive InvoiceStatus where
  | current
  | superseded
  deriving DecidableEq

structure Invoice where
  id : String
  provider : String
  periodStart : Date
  invoiceRef : String
  currency : String
  lines : List InvoiceLine
  status : InvoiceStatus
  supersededBy : Option String
  importedBy : String
  createdAt : Int

-- `accepted_by`, `accepted_at` and `accept_reason`, which are set together.
structure Acceptance where
  actor : String
  stamp : Int
  reason : String

structure StoredItem where
  id : String
  reconciliationId : String
  lineKind : LineKind
  key : ItemKey
  invoiceAmount : ℚ
  storedAmount : Option ℚ
  repricedAmount : Option ℚ
  invoiceLineIds : List String
  status : ItemStatus
  acceptance : Option Acceptance
  carriedFrom : Option String

def StoredItem.isUsage (item : StoredItem) : Bool := item.lineKind = .usage

structure Reconciliation where
  id : String
  provider : String
  periodStart : Date
  currency : String
  invoiceAmount : ℚ
  nonUsageAmount : ℚ
  storedAmount : Option ℚ
  repricedAmount : Option ℚ
  status : ItemStatus
  itemCount : Nat
  needsReviewCount : Nat
  invoiceIds : List String
  superseded : Bool
  acceptance : Option Acceptance
  runBy : String
  createdAt : Int

instance : Keyed Invoice String := ⟨Invoice.id⟩
instance : Keyed StoredItem String := ⟨StoredItem.id⟩
instance : Keyed Reconciliation String := ⟨Reconciliation.id⟩

structure Ledger where
  invoices : Table Invoice
  runs : Table Reconciliation
  items : Table StoredItem

def Ledger.empty : Ledger := ⟨.empty, .empty, .empty⟩

-- What a run is told besides the invoices: the month's groups with both figures, the model names,
-- and the texts of dates.
structure MonthInputs where
  names : Naming
  daysInMonth : Nat
  priced : List PricedGroup
  platformInr : ℚ
  isoformat : Date → String

end Data

section Checks

def ACTOR_MAX : Nat := 128
def REASON_MIN : Nat := 10
def REASON_MAX : Nat := 500
def MAX_PERIOD_LINES : Nat := 20000

def AMOUNT_MAX : ℚ := 10 ^ 14 - 1 / 10 ^ 10
def QTY_MAX : ℚ := 10 ^ 18 - 1 / 10 ^ 6
def INR_TOTAL_MAX : ℚ := 10 ^ 18 - 1 / 10 ^ 10

def requireActor (strip : String → String) (actor : String) : Except Failure String :=
  if strip actor = "" then refuse 401 "actor_required" "this change needs an identified user"
  else .ok (String.ofList ((strip actor).toList.take ACTOR_MAX))

def checkReason (strip : String → String) (reason : String) : Except Failure String :=
  let text := strip reason
  if REASON_MIN ≤ text.length ∧ text.length ≤ REASON_MAX then .ok text
  else refuse 422 "reason_required" "a reason of 10 to 500 characters is required"

def tooLarge (value : Option ℚ) (limit : ℚ) (places : Nat) : Bool :=
  match value with
  | none => false
  | some value => |value| > limit + 1 || |quantized places value| > limit

-- What a figure is called in a refusal, with the bound of its column.
structure CapacityCheck where
  place : String
  field : String
  value : Option ℚ
  limit : ℚ
  places : Nat
  column : String
  limitText : String

def amountCheck (place field : String) (value : Option ℚ) : CapacityCheck :=
  ⟨place, field, value, AMOUNT_MAX, AMOUNT_PLACES, "NUMERIC(24,10)", "99999999999999.9999999999"⟩

def quantityCheck (place field : String) (value : Option ℚ) : CapacityCheck :=
  ⟨place, field, value, QTY_MAX, QTY_PLACES, "NUMERIC(24,6)", "999999999999999999.999999"⟩

def LineKind.value : LineKind → String
  | .usage => "usage"
  | .credit => "credit"
  | .tax => "tax"
  | .fee => "fee"
  | .commitment => "commitment"

def Item.place (isoformat : Date → String) (item : Item) : String :=
  let first := match item.key.usageType with
    | some usageType => usageType.value
    | none => item.lineKind.value
  let parts := [first, item.key.model, (item.key.unit.map CardUnit.value).getD "",
    (item.key.day.map isoformat).getD ""]
  "item " ++ " ".intercalate (parts.filter (· ≠ ""))

def itemChecks (isoformat : Date → String) (item : Item) : List CapacityCheck :=
  let place := item.place isoformat
  [amountCheck place "invoice_amount" (some item.invoiceAmount),
    amountCheck place "stored_amount" item.storedAmount,
    amountCheck place "repriced_amount" item.repricedAmount,
    amountCheck place "stored_variance_amount" item.storedVarianceAmount,
    amountCheck place "repriced_variance_amount" item.repricedVarianceAmount,
    amountCheck place "unconverted_amount" (some item.unconvertedAmount),
    quantityCheck place "invoice_quantity" item.invoiceQuantity,
    quantityCheck place "metered_quantity" (some item.meteredQuantity),
    quantityCheck place "unpriced_quantity" (some item.unpricedQuantity)]

def runChecks (invoiceAmount nonUsageAmount : ℚ) (level : ProviderLevel) (platformInr : ℚ) :
    List CapacityCheck :=
  [amountCheck "run" "invoice_amount" (some invoiceAmount),
    amountCheck "run" "non_usage_amount" (some nonUsageAmount),
    amountCheck "run" "stored_amount" level.stored,
    amountCheck "run" "repriced_amount" level.repriced,
    amountCheck "run" "stored_adjustments_amount" (some level.storedAdjustments),
    amountCheck "run" "repriced_adjustments_amount" (some level.repricedAdjustments),
    amountCheck "run" "stored_variance_amount" (varianceAmount level.stored invoiceAmount),
    amountCheck "run" "repriced_variance_amount" (varianceAmount level.repriced invoiceAmount),
    ⟨"run", "platform_billed_amount_inr", some platformInr, INR_TOTAL_MAX, AMOUNT_PLACES, "NUMERIC(28,10)",
      "999999999999999999.9999999999"⟩]

def checkCapacity (label : String) (checks : List CapacityCheck) : Except Failure Unit :=
  match checks.find? fun check => tooLarge check.value check.limit check.places with
  | none => .ok ()
  | some check =>
      refuse 422 "figure_out_of_range"
        (label ++ ": the " ++ check.place ++ " " ++ check.field ++ " does not fit a reconciliation (" ++
          check.column ++ ", at most " ++ check.limitText ++
          " in magnitude); check the month's records, cards and FX rows")

end Checks

section Import

def currentInvoices (ledger : Ledger) (provider : String) (periodStart : Date) : List Invoice :=
  ledger.invoices.rows.filter fun invoice =>
    invoice.provider = provider && invoice.periodStart = periodStart && invoice.status = .current

def supersedeInvoice (byId : String) (invoice : Invoice) : Invoice :=
  { invoice with status := .superseded, supersededBy := some byId }

-- An invoice whose lines passed their checks; `capacity` is what `check_period_capacity` says.
structure InvoiceFile where
  provider : String
  periodStart : Date
  periodText : String
  invoiceRef : String
  currency : String
  lines : List InvoiceLine
  capacity : Except Failure Unit

def checkPeriodLines (file : InvoiceFile) (held : Nat) : Except Failure Unit :=
  if held + file.lines.length > MAX_PERIOD_LINES then
    refuse 413 "too_many_rows"
      (file.provider ++ "'s " ++ file.periodText ++ " holds " ++ toString held ++
        " current invoice lines; with these " ++ toString file.lines.length ++ " it would pass the " ++
        toString MAX_PERIOD_LINES ++ " one month may hold")
  else .ok ()

def insertInvoice (invoices : Table Invoice) (invoice : Invoice) : Except Failure (Table Invoice) :=
  match invoices.insert? invoice with
  | none => .error .integrity
  | some invoices => .ok invoices

def importInvoice (ledger : Ledger) (newId : String) (file : InvoiceFile) (who : String) (now : Int)
    (replace dryRun : Bool) : Except Failure Ledger :=
  let current := currentInvoices ledger file.provider file.periodStart
  let existing := current.find? (·.invoiceRef == file.invoiceRef)
  let invoice : Invoice :=
    ⟨newId, file.provider, file.periodStart, file.invoiceRef, file.currency, file.lines, .current, none, who,
      now⟩
  match existing with
  | some old =>
      if !replace then
        refuse 409 "invoice_exists"
          ("invoice " ++ old.id ++ " is the current " ++ file.provider ++ " invoice " ++ file.invoiceRef ++
            " for " ++ file.periodText ++ "; send replace=true to supersede it")
      else do
        checkPeriodLines file ((current.map (·.lines.length)).sum - old.lines.length)
        file.capacity
        if dryRun then pure ledger
        else do
          let invoices ← insertInvoice
            (ledger.invoices.modify old.id (supersedeInvoice newId) fun _ => rfl) invoice
          pure { ledger with invoices := invoices }
  | none => do
      checkPeriodLines file (current.map (·.lines.length)).sum
      file.capacity
      if dryRun then pure ledger
      else do
        let invoices ← insertInvoice ledger.invoices invoice
        pure { ledger with invoices := invoices }

end Import

section CarryOver

structure CarryKey where
  key : ItemKey
  lineIds : List String
  stored : Option ℚ
  repriced : Option ℚ
  deriving DecidableEq

def StoredItem.carryKey (item : StoredItem) : CarryKey :=
  ⟨item.key, item.invoiceLineIds.mergeSort, item.storedAmount, item.repricedAmount⟩

def Item.carryKey (item : Item) : CarryKey :=
  ⟨item.key, item.invoiceLineIds.mergeSort, item.storedAmount.map (quantized AMOUNT_PLACES),
    item.repricedAmount.map (quantized AMOUNT_PLACES)⟩

-- Takes in an accepted item under its key, unless the key is there or its actor is refused; an
-- accepted item has its acceptance.
def offerAccepted (refused : List String) (accepted : List (CarryKey × StoredItem)) (old : StoredItem) :
    List (CarryKey × StoredItem) :=
  match old.acceptance with
  | none => accepted
  | some acceptance =>
      if old.isUsage && old.status = .accepted && !refused.contains acceptance.actor &&
          !accepted.any (·.1 = old.carryKey) then
        accepted ++ [(old.carryKey, old)]
      else accepted

-- The accepted items of the previous run by their keys.
def acceptedBefore (previous : List StoredItem) (refused : List String) : List (CarryKey × StoredItem) :=
  previous.foldl (offerAccepted refused) []

-- Each item with the accepted one it takes over, which is then gone.
def carryOver : List Item → List (CarryKey × StoredItem) → List (Item × Option StoredItem)
  | [], _ => []
  | item :: rest, accepted =>
      if item.isUsage && item.status = .needsReview then
        match accepted.find? (·.1 = item.carryKey) with
        | some found =>
            (item, some found.2) :: carryOver rest (accepted.filter fun entry => entry.1 ≠ item.carryKey)
        | none => (item, none) :: carryOver rest accepted
      else (item, none) :: carryOver rest accepted

def itemRow (runId itemId : String) (entry : Item × Option StoredItem) : StoredItem :=
  { id := itemId
    reconciliationId := runId
    lineKind := entry.1.lineKind
    key := entry.1.key
    invoiceAmount := quantized AMOUNT_PLACES entry.1.invoiceAmount
    storedAmount := entry.1.storedAmount.map (quantized AMOUNT_PLACES)
    repricedAmount := entry.1.repricedAmount.map (quantized AMOUNT_PLACES)
    invoiceLineIds := entry.1.invoiceLineIds
    status := if entry.2.isSome then .accepted else entry.1.status
    acceptance := entry.2.bind (·.acceptance)
    carriedFrom := entry.2.map (·.id) }

-- Each row with the id made for its place.
def itemRows (runId : String) (itemId : Nat → String) : Nat → List (Item × Option StoredItem) →
    List StoredItem
  | _, [] => []
  | index, entry :: rest => itemRow runId (itemId index) entry :: itemRows runId itemId (index + 1) rest

def insertItems : List StoredItem → Table StoredItem → Except Failure (Table StoredItem)
  | [], items => .ok items
  | row :: rest, items =>
      match items.insert? row with
      | none => .error .integrity
      | some items => insertItems rest items

end CarryOver

section Run

def runStatus (providerStatus : ItemStatus) (needsReview accepted : Nat) : ItemStatus :=
  if needsReview ≠ 0 then .needsReview
  else if accepted ≠ 0 then .accepted
  else if providerStatus = .withinTolerance then .withinTolerance
  else .needsReview

-- The first of those with the latest stamp.
def latestAcceptance : List Acceptance → Option Acceptance
  | [] => none
  | first :: rest => some (rest.foldl (fun best next => if next.stamp > best.stamp then next else best) first)

-- The month's runs that are not superseded, the newest first.
def openRuns (ledger : Ledger) (provider : String) (periodStart : Date) : List Reconciliation :=
  (ledger.runs.rows.filter fun run =>
    run.provider = provider && run.periodStart = periodStart && !run.superseded).mergeSort
      fun a b => a.createdAt ≥ b.createdAt

def itemOrder (isoformat : Date → String) (a b : StoredItem) : Ordering :=
  let text (item : StoredItem) : List String :=
    [(item.key.usageType.map UsageType.value).getD "", item.key.model, (item.key.unit.map CardUnit.value).getD "",
      (item.key.day.map isoformat).getD "", item.lineKind.value, item.id]
  (compare (!a.isUsage) (!b.isUsage)).then (compare (text a) (text b))

def itemsOf (ledger : Ledger) (isoformat : Date → String) (runId : String) : List StoredItem :=
  (ledger.items.rows.filter (·.reconciliationId = runId)).mergeSort fun a b => (itemOrder isoformat a b).isLE

def supersedeRun (run : Reconciliation) : Reconciliation := { run with superseded := true }

def supersedeRuns (runs : Table Reconciliation) (earlier : List Reconciliation) : Table Reconciliation :=
  earlier.foldl (fun runs run => runs.modify run.id supersedeRun fun _ => rfl) runs

def insertRun (runs : Table Reconciliation) (run : Reconciliation) :
    Except Failure (Table Reconciliation) :=
  match runs.insert? run with
  | none => .error .integrity
  | some runs => .ok runs

-- The currency that all the month's invoices are in.
def oneCurrency (provider periodText : String) (current : List Invoice) : Except Failure String :=
  match (current.map (·.currency)).dedup.mergeSort with
  | [] => refuse 409 "invoice_missing" ("no current " ++ provider ++ " invoice for " ++ periodText)
  | [currency] => .ok currency
  | currencies =>
      refuse 422 "currency_mismatch"
        ("the month's current invoices are in " ++ ", ".intercalate currencies ++ "; use one")

def previousItems (ledger : Ledger) (provider : String) (periodStart : Date) (isoformat : Date → String) :
    List StoredItem :=
  match openRuns ledger provider periodStart with
  | [] => []
  | last :: _ => itemsOf ledger isoformat last.id

-- The items of a run with what they take over from the month's run before it.
def carriedItems (ledger : Ledger) (provider : String) (periodStart : Date) (inputs : MonthInputs)
    (current : List Invoice) (items : List Item) : List (Item × Option StoredItem) :=
  carryOver items
    (acceptedBefore (previousItems ledger provider periodStart inputs.isoformat) (current.map (·.importedBy)))

def runAcceptance (status : ItemStatus) (rows : List StoredItem) : Option Acceptance :=
  if status = .accepted then
    latestAcceptance ((rows.filter (·.status = .accepted)).filterMap (·.acceptance))
  else none

def monthLines (current : List Invoice) : List InvoiceLine :=
  (current.flatMap (·.lines)).mergeSort fun a b => (lineOrder a b).isLE

-- What the month's lines say besides its items.
structure MonthFigures where
  invoiceAmount : ℚ
  nonUsageAmount : ℚ
  level : ProviderLevel

def monthFigures (lines : List InvoiceLine) (items : List Item) : MonthFigures :=
  let invoiceAmount := total DEFAULT_DIGITS ((lines.filter (·.lineKind = .usage)).map (·.amount))
  { invoiceAmount := invoiceAmount
    nonUsageAmount := total DEFAULT_DIGITS ((lines.filter (·.lineKind ≠ .usage)).map (·.amount))
    level := providerLevel items invoiceAmount }

def newRun (runId provider : String) (periodStart : Date) (currency who : String) (now : Int)
    (current : List Invoice) (figures : MonthFigures) (rows : List StoredItem) : Reconciliation :=
  let needsReview := rows.countP (·.status = .needsReview)
  let status := runStatus figures.level.status needsReview (rows.countP (·.status = .accepted))
  { id := runId
    provider := provider
    periodStart := periodStart
    currency := currency
    invoiceAmount := quantized AMOUNT_PLACES figures.invoiceAmount
    nonUsageAmount := quantized AMOUNT_PLACES figures.nonUsageAmount
    storedAmount := figures.level.stored.map (quantized AMOUNT_PLACES)
    repricedAmount := figures.level.repriced.map (quantized AMOUNT_PLACES)
    status := status
    itemCount := rows.length
    needsReviewCount := needsReview
    invoiceIds := (current.map (·.id)).mergeSort
    superseded := false
    acceptance := runAcceptance status rows
    runBy := who
    createdAt := now }

def runMonth (ledger : Ledger) (runId : String) (itemId : Nat → String) (provider : String)
    (periodStart : Date) (periodText who : String) (now : Int) (inputs : MonthInputs) :
    Except Failure Ledger := do
  let current := currentInvoices ledger provider periodStart
  let lines := monthLines current
  let currency ← oneCurrency provider periodText current
  let items := matchLines inputs.names provider inputs.daysInMonth lines inputs.priced
  let figures := monthFigures lines items
  checkCapacity (provider ++ " " ++ periodText)
    (items.flatMap (itemChecks inputs.isoformat) ++
      runChecks figures.invoiceAmount figures.nonUsageAmount figures.level inputs.platformInr)
  let rows := itemRows runId itemId 0 (carriedItems ledger provider periodStart inputs current items)
  let run := newRun runId provider periodStart currency who now current figures rows
  let runs ← insertRun (supersedeRuns ledger.runs (openRuns ledger provider periodStart)) run
  let stored ← insertItems rows ledger.items
  pure { ledger with runs := runs, items := stored }

end Run

section Accept

def lockedRun (ledger : Ledger) (runId : String) : Except Failure Reconciliation :=
  match ledger.runs.find? runId with
  | none => refuse 404 "not_found" "no such reconciliation"
  | some run => .ok run

-- Whoever imported one of the run's invoices may not accept its differences.
def checkChecker (ledger : Ledger) (run : Reconciliation) (who : String) : Except Failure Unit :=
  let importers := (ledger.invoices.rows.filter fun invoice => run.invoiceIds.contains invoice.id).map (·.importedBy)
  if importers.contains who then
    refuse 409 "same_actor" "the administrator who imported the invoice cannot accept its differences"
  else .ok ()

def acceptRow (acceptance : Acceptance) (item : StoredItem) : StoredItem :=
  { item with status := .accepted, acceptance := some acceptance }

def countReview (items : Table StoredItem) (runId : String) : Nat :=
  items.rows.countP fun item => item.reconciliationId = runId && item.status = .needsReview

-- The run is accepted with its last item.
def reviewRun (acceptance : Acceptance) (needsReview : Nat) (run : Reconciliation) : Reconciliation :=
  if needsReview = 0 ∧ run.status = .needsReview then
    { run with needsReviewCount := needsReview, status := .accepted, acceptance := some acceptance }
  else { run with needsReviewCount := needsReview }

theorem reviewRun_id (acceptance : Acceptance) (needsReview : Nat) (run : Reconciliation) :
    (reviewRun acceptance needsReview run).id = run.id := by
  unfold reviewRun
  split <;> rfl

def acceptItem (ledger : Ledger) (runId itemId reason who : String) (now : Int) : Except Failure Ledger := do
  let run ← lockedRun ledger runId
  match ledger.items.rows.find? fun item => item.id = itemId && item.reconciliationId = run.id with
  | none => refuse 404 "not_found" "no such item in this reconciliation"
  | some item =>
      if run.superseded ∨ item.status ≠ .needsReview then
        refuse 409 "not_reviewable" "only an item that needs review in a current run can be accepted"
      else do
        checkChecker ledger run who
        let acceptance : Acceptance := ⟨who, now, reason⟩
        let items := ledger.items.modify item.id (acceptRow acceptance) fun _ => rfl
        pure
          { ledger with
            items := items
            runs := ledger.runs.modify run.id (reviewRun acceptance (countReview items run.id))
              (reviewRun_id acceptance _) }

def acceptWhole (acceptance : Acceptance) (run : Reconciliation) : Reconciliation :=
  { run with status := .accepted, acceptance := some acceptance }

def acceptRun (ledger : Ledger) (runId reason who : String) (now : Int) : Except Failure Ledger := do
  let run ← lockedRun ledger runId
  if run.superseded ∨ run.status ≠ .needsReview ∨ countReview ledger.items run.id ≠ 0 then
    refuse 409 "not_reviewable"
      "a run is accepted whole only when it is current, out of tolerance and no item needs review"
  else do
    checkChecker ledger run who
    pure { ledger with runs := ledger.runs.modify run.id (acceptWhole ⟨who, now, reason⟩) fun _ => rfl }

end Accept

section Calls

inductive LedgerCall where
  | importInvoice (newId : String) (file : InvoiceFile) (replace dryRun : Bool)
  | run (runId : String) (itemId : Nat → String) (provider : String) (periodStart : Date)
      (periodText : String) (inputs : MonthInputs)
  | acceptItem (runId itemId reason : String)
  | acceptRun (runId reason : String)

def LedgerCall.after (strip : String → String) (actor : String) (now : Int) (ledger : Ledger) :
    LedgerCall → Except Failure Ledger
  | .importInvoice newId file replace dryRun => do
      let who ← requireActor strip actor
      Spend.importInvoice ledger newId file who now replace dryRun
  | .run runId itemId provider periodStart periodText inputs => do
      let who ← requireActor strip actor
      runMonth ledger runId itemId provider periodStart periodText who now inputs
  | .acceptItem runId itemId reason => do
      let who ← requireActor strip actor
      let why ← checkReason strip reason
      Spend.acceptItem ledger runId itemId why who now
  | .acceptRun runId reason => do
      let who ← requireActor strip actor
      let why ← checkReason strip reason
      Spend.acceptRun ledger runId why who now

-- Who makes which call, and when.
structure LedgerRequest where
  actor : String
  now : Int
  call : LedgerCall

-- A call that fails is rolled back.
def ledgerStep (strip : String → String) (ledger : Ledger) (request : LedgerRequest) : Ledger :=
  match request.call.after strip request.actor request.now ledger with
  | .ok ledger => ledger
  | .error _ => ledger

def ledgerAfter (strip : String → String) (requests : List LedgerRequest) : Ledger :=
  requests.foldl (ledgerStep strip) .empty

end Calls

end AgenticOrg.Spend
