import AgenticOrg.Commerce.Ucp.Evaluation

namespace AgenticOrg.Commerce.Ucp

open AgenticOrg.Workflows (Json Scalar)

section Orders

def FULFILLING_EVENTS : List String := ["shipped", "picked_up", "fulfilled"]

def REDUCING_ADJUSTMENTS : List String := ["cancellation", "return"]

def ADJUSTMENT_STATUSES : List String := ["pending", "completed", "failed"]

structure LineQuantity where
  original : ℤ
  total : ℤ
  fulfilled : ℤ

def lineStatus (quantity : LineQuantity) : String :=
  if quantity.total = 0 then "removed"
  else if quantity.fulfilled = 0 then "processing"
  else if quantity.fulfilled ≥ quantity.total then "fulfilled"
  else "partial"

-- `amount` is both its subtotal and its total.
structure OrderLine where
  id : String
  item : RenderedItem
  quantity : LineQuantity
  amount : ℤ
  status : String

structure LineRef where
  id : String
  quantity : ℤ

structure EventEntry where
  id : String
  occurredAt : String
  type : String
  lineItems : List LineRef
  trackingNumber : Option String
  carrier : Option String
  description : Option String
  trackingUrl : Option String

structure Adjustment where
  id : String
  type : String
  occurredAt : String
  status : String
  lineItems : Option (List LineRef)
  -- type and amount of each
  totals : Option (List (String × ℤ))
  description : Option String

structure Expectation where
  id : String
  description : Option String
  lineItems : List LineRef
  methodType : MethodType
  destination : OrderedDict.Dict String String

structure Snapshot where
  lineItems : List OrderLine
  expectations : List Expectation
  events : List EventEntry
  adjustments : List Adjustment
  currency : Option String
  totals : Totals
  attribution : Option (List (String × String))
  acceptedTerm : Option Json

structure OrderRow where
  snapshot : Snapshot
  revision : ℕ

end Orders

section Building

def orderLine (line : Line) : OrderLine :=
  let quantity : LineQuantity := ⟨line.quantity.val, line.quantity.val, 0⟩
  ⟨line.id, line.item, quantity, line.amount, lineStatus quantity⟩

-- The quantity of the last line with the id.
def quantityOf? (lines : List OrderLine) (id : String) : Option ℤ :=
  (lines.reverse.find? fun line => line.id = id).map fun line => line.quantity.total

def expectation (lines : List OrderLine) (method : Method) : Option Expectation :=
  (method.destinations.find? fun destination => some destination.id = method.selectedDestinationId).map
    fun selected =>
      { id := "exp_" ++ method.id
        description := ((method.groups.flatMap fun group =>
          group.options.filter fun option => some option.id = group.selectedOptionId).head?).map FulfillmentOption.title
        lineItems := method.lineItemIds.filterMap fun id => (quantityOf? lines id).map fun quantity => ⟨id, quantity⟩
        methodType := method.type
        destination := selected.address }

def buildOrderSnapshot (state : State) (acceptedTerm : Option Json) : Snapshot :=
  let lines := state.lineItems.map orderLine
  { lineItems := lines
    expectations := state.methods.filterMap (expectation lines)
    events := []
    adjustments := []
    currency := state.currency
    totals := state.totals
    attribution := state.attribution
    acceptedTerm := acceptedTerm }

-- The row a completed checkout stores.
def newOrder (state : State) (acceptedTerm : Option Json) : OrderRow := ⟨buildOrderSnapshot state acceptedTerm, 1⟩

end Building

section Changing

inductive OrderRefusal where
  | update (text : String)
  | duplicate
  | typeError

variable (py : Python)

-- A text that is the id of one of the lines.
def knownLine (ids : List String) (value : Json) : Except OrderRefusal String :=
  match value with
  | .scalar (.str id) =>
      if id ∈ ids then .ok id else .error (.update "line_items reference an unknown order line")
  | .scalar _ => .error (.update "line_items reference an unknown order line")
  | _ => .error .typeError

def refQuantity (signed : Bool) (value : Json) : Except OrderRefusal ℤ :=
  match value with
  | .scalar (.int quantity) =>
      if (quantity < 1 ∧ signed = false) ∨ quantity = 0 then
        .error (.update "line item quantities are non-zero integers")
      else .ok quantity
  | _ => .error (.update "line item quantities are non-zero integers")

def lineRef (ids : List String) (signed : Bool) (ref : Json) : Except OrderRefusal LineRef :=
  if ref.isDict then do
    let id ← knownLine ids (ref.get "id")
    let quantity ← refQuantity signed (ref.get "quantity")
    return ⟨id, quantity⟩
  else .error (.update "line_items reference an unknown order line")

def lineRefs (ids : List String) (signed : Bool) (raw : Json) : Except OrderRefusal (List LineRef) :=
  match raw with
  | .arr (first :: rest) => (first :: rest).mapM (lineRef ids signed)
  | _ => .error (.update "line_items must be a non-empty array")

-- The last line with an id, as the line a dict by id holds.
def changeLine (id : String) (change : LineQuantity → LineQuantity) : List OrderLine → List OrderLine
  | [] => []
  | line :: rest =>
      if rest.any fun other => other.id = id then line :: changeLine id change rest
      else if line.id = id then { line with quantity := change line.quantity } :: rest
      else line :: rest

def advanced (quantity : ℤ) (line : LineQuantity) : LineQuantity :=
  { line with fulfilled := min line.total (line.fulfilled + quantity) }

def reduced (quantity : ℤ) (line : LineQuantity) : LineQuantity :=
  if quantity < 0 then
    { line with
      total := max 0 (line.total + quantity)
      fulfilled := min line.fulfilled (max 0 (line.total + quantity)) }
  else line

def changeLines (change : ℤ → LineQuantity → LineQuantity) (refs : List LineRef) (lines : List OrderLine) :
    List OrderLine :=
  refs.foldl (fun lines ref => changeLine ref.id (change ref.quantity) lines) lines

def restate (lines : List OrderLine) : List OrderLine :=
  lines.map fun line => { line with status := lineStatus line.quantity }

def Snapshot.lineIds (snapshot : Snapshot) : List String := snapshot.lineItems.map OrderLine.id

def typeText (value : Json) : String := if value.truthy then py.str value else ""

def HTTPS : String := "https://"

-- When the source says it happened, where that can be read.
variable (parseTime : Json → Option String)

def applyFulfillmentEvent (snapshot : Snapshot) (event : Json) (now : String) (eventId : Option String)
    (fresh : String) : Except OrderRefusal Snapshot :=
  let type := typeText py (event.get "type")
  if type = "" then .error (.update "type is required")
  else if eventId.any (fun id => (snapshot.events.map EventEntry.id).contains id) then .error .duplicate
  else do
    let refs ← lineRefs snapshot.lineIds false (event.get "line_items")
    let entry : EventEntry :=
      { id := (eventId.bind nonEmpty).getD ("evt_" ++ fresh)
        occurredAt := (eventId.bind fun _ => parseTime (event.get "occurred_at")).getD now
        type := type
        lineItems := refs
        trackingNumber := (givenText (event.get "tracking_number")).map (clip 500)
        carrier := (givenText (event.get "carrier")).map (clip 500)
        description := (givenText (event.get "description")).map (clip 500)
        trackingUrl := (textOf? (event.get "tracking_url")).filter (HTTPS.toList.isPrefixOf ·.toList) }
    let lines := if type ∈ FULFILLING_EVENTS then changeLines advanced refs snapshot.lineItems
      else snapshot.lineItems
    return { snapshot with lineItems := restate lines, events := snapshot.events ++ [entry] }

def totalEntry (total : Json) : Except OrderRefusal (String × ℤ) :=
  match total.get "type", total.get "amount" with
  | .scalar (.str type), .scalar (.int amount) => .ok (type, amount)
  | _, _ => .error (.update "totals entries need a type and an integer amount")

def totalEntries : Json → Except OrderRefusal (Option (List (String × ℤ)))
  | .arr totals => do
      let entries ← totals.mapM totalEntry
      return some entries
  | _ => .ok none

def adjustmentRefs (ids : List String) (raw : Json) : Except OrderRefusal (Option (List LineRef)) :=
  match raw with
  | .scalar .null => .ok none
  | raw => do
      let refs ← lineRefs ids true raw
      return some refs

def applyAdjustment (snapshot : Snapshot) (adjustment : Json) (now : String) (entryId : Option String)
    (fresh : String) : Except OrderRefusal Snapshot :=
  let type := typeText py (adjustment.get "type")
  let status := typeText py (adjustment.get "status")
  if type = "" ∨ status ∉ ADJUSTMENT_STATUSES then
    .error (.update "type and a status of pending, completed or failed are required")
  else do
    let refs ← adjustmentRefs snapshot.lineIds (adjustment.get "line_items")
    let totals ← totalEntries (adjustment.get "totals")
    let entry : Adjustment :=
      { id := (entryId.bind nonEmpty).getD ("adj_" ++ fresh)
        type := type
        occurredAt := now
        status := status
        lineItems := refs
        totals := totals
        description := (textOf? (adjustment.get "description")).map (clip 500) }
    let lines := if type ∈ REDUCING_ADJUSTMENTS ∧ status = "completed" then
        changeLines reduced (refs.getD []) snapshot.lineItems
      else snapshot.lineItems
    return { snapshot with lineItems := restate lines, adjustments := snapshot.adjustments ++ [entry] }

end Changing

section Calls

-- `fresh` is the part of a new id that is generated.
inductive OrderCall where
  | change (event adjustment : Option Json) (eventId adjustmentId : Option String) (fresh now : String)
  | setStatus (adjustmentId status : String)

inductive OrderOutcome where
  | accepted
  | unchanged
  | refused (status : ℕ) (message : String)
  | raised
  deriving DecidableEq

variable (py : Python) (parseTime : Json → Option String)

def refusalOutcome : OrderRefusal → OrderOutcome
  | .update text => .refused 422 text
  | .duplicate => .refused 409 "event_already_recorded"
  | .typeError => .raised

-- The changed snapshot is stored, with the next revision, only when nothing was raised.
def commitChange (row : OrderRow) : Except OrderRefusal Snapshot → OrderRow × OrderOutcome
  | .ok snapshot => (⟨snapshot, row.revision + 1⟩, .accepted)
  | .error refusal => (row, refusalOutcome refusal)

def Snapshot.holdsAdjustment (snapshot : Snapshot) (id : String) : Bool :=
  (snapshot.adjustments.map Adjustment.id).contains id

def applyOrderChange (row : OrderRow) (event adjustment : Option Json) (eventId adjustmentId : Option String)
    (fresh now : String) : OrderRow × OrderOutcome :=
  if event.isNone = adjustment.isNone then
    (row, .refused 422 "Send exactly one of fulfillment_event or adjustment")
  else if adjustmentId.any row.snapshot.holdsAdjustment then (row, .unchanged)
  else
    match event with
    | some event => commitChange row (applyFulfillmentEvent py parseTime row.snapshot event now eventId fresh)
    | none =>
        commitChange row (applyAdjustment py row.snapshot (adjustment.getD .null) now adjustmentId fresh)

-- The first adjustment with the id gets the status.
def moveAdjustment (id status : String) : List Adjustment → List Adjustment
  | [] => []
  | entry :: rest =>
      if entry.id = id then { entry with status := status } :: rest else entry :: moveAdjustment id status rest

def setOrderAdjustmentStatus (row : OrderRow) (adjustmentId status : String) : OrderRow × OrderOutcome :=
  if status ∉ ADJUSTMENT_STATUSES then (row, .raised)
  else
    match row.snapshot.adjustments.find? fun entry => entry.id = adjustmentId with
    | none => (row, .unchanged)
    | some entry =>
        if entry.status = status then (row, .unchanged)
        else
          (⟨{ row.snapshot with
              lineItems := restate row.snapshot.lineItems
              adjustments := moveAdjustment adjustmentId status row.snapshot.adjustments }, row.revision + 1⟩,
            .accepted)

def orderStep (row : OrderRow) : OrderCall → OrderRow × OrderOutcome
  | .change event adjustment eventId adjustmentId fresh now =>
      applyOrderChange py parseTime row event adjustment eventId adjustmentId fresh now
  | .setStatus adjustmentId status => setOrderAdjustmentStatus row adjustmentId status

def orderRun (row : OrderRow) (calls : List OrderCall) : OrderRow :=
  calls.foldl (fun row call => (orderStep py parseTime row call).1) row

-- How many of the calls are accepted.
def acceptedCount (row : OrderRow) : List OrderCall → ℕ
  | [] => 0
  | call :: rest =>
      (if (orderStep py parseTime row call).2 = .accepted then 1 else 0) +
        acceptedCount (orderStep py parseTime row call).1 rest

end Calls

end AgenticOrg.Commerce.Ucp
