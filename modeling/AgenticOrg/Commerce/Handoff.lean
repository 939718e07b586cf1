import AgenticOrg.Commerce.Checkout

namespace AgenticOrg.Commerce.Handoff

open Tables

section Links

inductive Mode where
  | shopifyCart
  | pluralHosted
  deriving DecidableEq

inductive LinkStatus where
  | creating
  | issued
  | expired
  | paid
  | failed
  deriving DecidableEq

structure Line where
  itemId : String
  quantity : ℕ
  price : ℤ
  deriving DecidableEq

-- What the buyer pays for: a cart's digest stands for all of it.
structure Cart where
  lines : List Line
  total : ℤ
  currency : String
  fulfillment : List String
  deriving DecidableEq

-- A reference is the digest of the session and the decision, so the decision stands for it.
structure LinkRecord where
  decisionId : ℕ
  amount : ℤ
  currency : String
  cart : Cart
  status : Option LinkStatus
  providerOrderId : Option String
  issuedAt : Option ℤ
  expiresAt : Option ℤ
  deriving DecidableEq

-- The current hand-off.
structure Link where
  mode : Mode
  status : LinkStatus
  decisionId : ℕ
  reference : Option ℕ
  providerOrderId : Option String
  issuedAt : Option ℤ
  expiresAt : Option ℤ
  deriving DecidableEq

structure HandoffState where
  cart : Cart
  handoff : Option Link
  refs : List ℕ
  orders : List (ℕ × LinkRecord)
  events : List String
  notified : List ℕ
  deriving DecidableEq

def PLURAL_LINK_TTL : ℤ := 30 * 60

def MAX_REFERENCES : ℕ := 10

def MAX_SEEN_EVENTS : ℕ := 20

def payable (record : Option LinkRecord) : Bool := record.any (·.status = some .issued)

def HandoffState.record (state : HandoffState) (reference : ℕ) : Option LinkRecord := state.orders.lookup reference

-- A dictionary's update: a key keeps its place.
def put (orders : List (ℕ × LinkRecord)) (reference : ℕ) (record : LinkRecord) : List (ℕ × LinkRecord) :=
  if (orders.lookup reference).isSome then
    orders.map fun entry => if entry.1 = reference then (reference, record) else entry
  else orders ++ [(reference, record)]

def activeHandoff (state : HandoffState) (now : ℤ) : Option Link :=
  state.handoff.filter fun link => link.status = .issued ∧ link.expiresAt.any (now < ·)

def setReferenceStatus (state : HandoffState) (reference : ℕ) (status : LinkStatus) : HandoffState :=
  match state.record reference with
  | some record => { state with orders := put state.orders reference { record with status := some status } }
  | none => state

def clearHandoff (state : HandoffState) (status : LinkStatus) : HandoffState :=
  { state with handoff := state.handoff.map fun link => { link with status } }

-- The link of a record that can be paid again.
def recordLink (reference : ℕ) (record : LinkRecord) : Link where
  mode := .pluralHosted
  status := .issued
  decisionId := record.decisionId
  reference := some reference
  providerOrderId := record.providerOrderId
  issuedAt := record.issuedAt
  expiresAt := record.expiresAt

def retireFailed (state : HandoffState) : HandoffState × CheckoutStatus :=
  let marked :=
    match state.handoff.bind (·.reference) with
    | some reference => setReferenceStatus state reference .failed
    | none => state
  let cleared := clearHandoff marked .failed
  match (cleared.refs.filter fun reference => payable (cleared.record reference)).getLast? with
  | none => (cleared, .readyForComplete)
  | some reference =>
      ({ cleared with handoff := (cleared.record reference).map (recordLink reference) }, .requiresEscalation)

-- Past the maximum the oldest are dropped, but none that can still be paid.
def dropStale (refs : List ℕ) (orders : List (ℕ × LinkRecord)) : List ℕ :=
  (refs.dropLast.filter fun reference => !payable (orders.lookup reference)).take (refs.length - MAX_REFERENCES)

def rememberReference (state : HandoffState) (reference : ℕ) (record : LinkRecord) : HandoffState :=
  let refs := state.refs.filter (· ≠ reference) ++ [reference]
  let orders := put state.orders reference record
  let stale := dropStale refs orders
  { state with
    refs := refs.filter (!stale.contains ·)
    orders := orders.filter (!stale.contains ·.1) }

-- An issued link as its record keeps it.
def linkRecord (link : Link) (record : LinkRecord) : LinkRecord :=
  { record with
    decisionId := link.decisionId
    providerOrderId := link.providerOrderId <|> record.providerOrderId
    issuedAt := link.issuedAt <|> record.issuedAt
    expiresAt := link.expiresAt <|> record.expiresAt
    status := some .issued }

def rememberLink (state : HandoffState) (link : Link) : HandoffState :=
  match link.reference.filter (state.refs.contains ·) with
  | none => state
  | some reference =>
      match state.record reference with
      | none => state
      | some record => { state with orders := put state.orders reference (linkRecord link record) }

-- Whether an event was applied before, and the state that remembers it.
def seenEvent (state : HandoffState) (eventId : Option String) : Bool × HandoffState :=
  match eventId.filter (· ≠ "") with
  | none => (false, state)
  | some event =>
      if state.events.contains event then (true, state)
      else
        let events := state.events ++ [event]
        (false, { state with events := events.drop (events.length - MAX_SEEN_EVENTS) })

end Links

section Sessions

structure HandoffOrder where
  decisionId : ℕ
  providerOrderRef : Option String
  deriving DecidableEq

structure HandoffSession where
  status : CheckoutStatus
  canceledAt : Option ℤ
  completedAt : Option ℤ
  createdAt : ℤ
  expiresAt : ℤ
  updatedAt : ℤ
  revision : ℕ
  decisionId : Option ℕ
  state : HandoffState
  order : Option HandoffOrder
  deriving DecidableEq

def HandoffSession.frozen (session : HandoffSession) (now : ℤ) : Bool :=
  session.status.frozen || (!session.status.terminal && session.expiresAt ≤ now)

-- A link is out for the checkout as it stands.
def paymentLinkOutstanding (session : HandoffSession) : Bool :=
  match session.state.handoff with
  | some link =>
      if link.mode = .shopifyCart then link.status = .issued && session.status = .requiresEscalation
      else if (link.status = .creating || link.status = .issued) &&
          (session.status = .requiresEscalation || session.status = .completeInProgress) then true
      else session.state.orders.any fun entry => payable (some entry.2)
  | none => session.state.orders.any fun entry => payable (some entry.2)

def HandoffSession.touch (session : HandoffSession) (now : ℤ) : HandoffSession :=
  { session with revision := session.revision + 1, updatedAt := now }

-- Update: the hand-off goes, what is remembered of earlier links stays.
def HandoffSession.update (session : HandoffSession) (now : ℤ) (cart : Cart) (evaluated : Evaluated) :
    HandoffSession :=
  if session.frozen now || paymentLinkOutstanding session then session
  else
    { session with status := evaluated.status, state := { session.state with cart, handoff := none } }.touch now

def HandoffSession.cancel (session : HandoffSession) (now : ℤ) : HandoffSession :=
  if session.status.terminal || session.status = .completeInProgress then session
  else { session with status := .canceled, canceledAt := some now }.touch now

-- A Complete that issues a new link for one that lapsed.
def HandoffSession.reissue (session : HandoffSession) : Bool :=
  session.status = .requiresEscalation && session.state.handoff.isSome

-- What the first transaction of a Complete asks of the session before it decides; `clean` says that the messages
-- but the link's own hold no error.
def HandoffSession.completable (session : HandoffSession) (now : ℤ) (clean : Bool) : Bool :=
  !session.frozen now && !(session.status = .requiresEscalation && (activeHandoff session.state now).isSome) &&
    (session.status = .readyForComplete || (session.reissue && clean))

-- The first transaction finds the catalog changed; it does not look while an earlier link can be paid.
def HandoffSession.recheck (session : HandoffSession) (now : ℤ) (clean : Bool) (cart : Cart)
    (evaluated : Evaluated) : HandoffSession :=
  if session.completable now clean && !(session.state.orders.any fun entry => payable (some entry.2)) then
    { session with
      status := evaluated.status
      state :=
        { (if session.reissue then clearHandoff session.state .expired else session.state) with cart } }.touch now
  else session

-- The second transaction's own checks.
def HandoffSession.consumable (session : HandoffSession) (now : ℤ) (revision : ℕ) : Bool :=
  !session.frozen now && session.revision = revision &&
    (session.status = .readyForComplete || session.status = .requiresEscalation)

-- A link that is replaced stays on its record while it can be paid.
def HandoffSession.replaced (session : HandoffSession) : HandoffState :=
  match session.state.handoff with
  | none => session.state
  | some link =>
      if session.status = .requiresEscalation then
        clearHandoff
          (if link.mode = .pluralHosted ∧ link.status = .issued then rememberLink session.state link
          else session.state) .expired
      else session.state

def HandoffSession.issueShopify (session : HandoffSession) (now : ℤ) (decisionId : ℕ) : HandoffSession :=
  { session with
    status := .requiresEscalation
    decisionId := some decisionId
    state :=
      { session.replaced with
        handoff := some
          { mode := .shopifyCart, status := .issued, decisionId, reference := none, providerOrderId := none
            issuedAt := some now, expiresAt := some session.expiresAt } } }.touch now

def HandoffSession.reserve (session : HandoffSession) (now : ℤ) (decisionId : ℕ) : HandoffSession :=
  let cart := session.state.cart
  { session with
    status := .completeInProgress
    decisionId := some decisionId
    state := rememberReference
      { session.replaced with
        handoff := some
          { mode := .pluralHosted, status := .creating, decisionId, reference := some decisionId
            providerOrderId := none, issuedAt := none, expiresAt := none } }
      decisionId
      { decisionId, amount := cart.total, currency := cart.currency.toUpper, cart, status := none
        providerOrderId := none, issuedAt := none, expiresAt := none } }.touch now

-- The third transaction, with the provider's order or without one.
def HandoffSession.settle (session : HandoffSession) (later : ℤ) (decisionId : ℕ) (created : Option String) :
    HandoffSession :=
  if (session.state.handoff.bind (·.reference)) ≠ some decisionId ∨ session.status ≠ .completeInProgress then session
  else
    match created with
    | some providerOrderId =>
        let link : Link :=
          { mode := .pluralHosted, status := .issued, decisionId, reference := some decisionId
            providerOrderId := some providerOrderId, issuedAt := some later
            expiresAt := some (min (later + PLURAL_LINK_TTL) session.expiresAt) }
        let record := (session.state.record decisionId).getD
          { decisionId, amount := 0, currency := "", cart := session.state.cart, status := none
            providerOrderId := none, issuedAt := none, expiresAt := none }
        { session with
          status := .requiresEscalation
          state := rememberReference { session.state with handoff := some link } decisionId
            (linkRecord link record) }.touch later
    | none =>
        let retired := retireFailed session.state
        { session with status := retired.2, state := retired.1 }.touch later

end Sessions

section Confirmations

def PAID : List String := ["PROCESSED", "CAPTURED", "SETTLED"]

def FAILED : List String := ["FAILED", "CANCELLED", "DECLINED", "REJECTED", "EXPIRED", "ATTEMPTED_FAILED"]

inductive PaymentReported where
  | paid
  | failed
  | pending
  deriving DecidableEq

def paymentState (status : String) : PaymentReported :=
  if status.toUpper ∈ PAID then .paid else if status.toUpper ∈ FAILED then .failed else .pending

-- A call of `confirm_handoff_payment`, with what it reads outside the session: whether the merchant is still
-- configured and whether the stock is short.
structure Report where
  reference : ℕ
  providerOrderId : String
  status : String
  amountMinorUnits : Option ℤ
  currency : Option String
  eventId : Option String
  configured : Bool
  stockShort : Bool
  now : ℤ
  deriving DecidableEq

def Report.payment (report : Report) : PaymentReported := paymentState report.status

inductive Confirmed where
  | completed
  | alreadyCompleted
  | pending
  | linkRetired
  | unknownReference
  | orderMismatch
  | amountMismatch
  | checkoutChanged
  | paidAfterCancel
  | paidTwice
  | duplicateEvent
  | notApplicable
  deriving DecidableEq

def UNMATCHED_RESULTS : List Confirmed :=
  [.amountMismatch, .paidAfterCancel, .checkoutChanged, .orderMismatch, .paidTwice]

-- The record names another provider order.
def otherOrder (record : Option LinkRecord) (report : Report) : Bool :=
  (record.bind (·.providerOrderId)).any fun providerOrderId =>
    providerOrderId ≠ "" && providerOrderId ≠ report.providerOrderId

def amountMatches (record : Option LinkRecord) (report : Report) : Bool :=
  match record, report.amountMinorUnits with
  | some record, some amount => amount = record.amount && (report.currency.getD "").toUpper = record.currency
  | _, _ => false

-- A failed payment: the current link goes, or an earlier one no longer counts.
def HandoffSession.confirmFailed (session : HandoffSession) (report : Report) : HandoffSession × Confirmed :=
  let current := session.state.handoff.bind (·.reference) = some report.reference
  if current ∧ (session.status = .requiresEscalation ∨ session.status = .completeInProgress) then
    let retired := retireFailed session.state
    ({ session with status := retired.2, state := retired.1 }, .linkRetired)
  else if current ∧ session.status = .canceled then
    ({ session with
        state := clearHandoff (setReferenceStatus session.state report.reference .failed) .failed }, .linkRetired)
  else if payable (session.state.record report.reference) then
    ({ session with state := setReferenceStatus session.state report.reference .failed }, .linkRetired)
  else (session, .notApplicable)

def HandoffSession.completeIntoOrder (session : HandoffSession) (report : Report) : HandoffSession :=
  let decisionId := ((session.state.record report.reference).map (·.decisionId)).getD (session.decisionId.getD 0)
  { session with
    status := .completed
    completedAt := some report.now
    state := clearHandoff (setReferenceStatus session.state report.reference .paid) .paid
    order := some
      { decisionId
        providerOrderRef := if report.providerOrderId = "" then none else some report.providerOrderId } }

-- What a report that is neither pending nor applied before comes to.
def HandoffSession.judge (session : HandoffSession) (report : Report) : HandoffSession × Confirmed :=
  let record := session.state.record report.reference
  if otherOrder record report then (session, .orderMismatch)
  else if session.status = .completed then
    if report.payment = .paid ∧ record.any (·.status ≠ some .paid) then
      ({ session with state := setReferenceStatus session.state report.reference .paid }, .paidTwice)
    else (session, .alreadyCompleted)
  else if report.payment = .failed then session.confirmFailed report
  else if !amountMatches record report then (session, .amountMismatch)
  else if session.status = .canceled ∨ session.canceledAt.isSome then (session, .paidAfterCancel)
  else if record.any (·.cart ≠ session.state.cart) then (session, .checkoutChanged)
  else (session.completeIntoOrder report, .completed)

-- Why a payment needs the merchant.
inductive Attention where
  | unmatched (result : Confirmed)
  | stockShort
  deriving DecidableEq

def attentionOf (result : Confirmed) (stockShort : Bool) : Option Attention :=
  if result ∈ UNMATCHED_RESULTS then some (.unmatched result)
  else if result = .completed ∧ stockShort then some .stockShort
  else none

-- A payment that came without its order id is kept under the reference.
inductive PaymentKey where
  | order (providerOrderId : String)
  | unreported (reference : ℕ)
  deriving DecidableEq

structure UnmatchedPayment where
  key : PaymentKey
  reference : ℕ
  reason : Attention
  amountMinorUnits : Option ℤ
  currency : Option String
  orderId : Option ℕ
  deriving DecidableEq

-- uq_commerce_unmatched_payments_provider_order
instance : Keyed UnmatchedPayment PaymentKey := ⟨UnmatchedPayment.key⟩

def paymentKey (report : Report) : PaymentKey :=
  if report.providerOrderId = "" then .unreported report.reference else .order report.providerOrderId

def recordPaymentAttention (unmatched : Table UnmatchedPayment) (report : Report) (reason : Attention)
    (orderId : Option ℕ) : Table UnmatchedPayment :=
  (unmatched.insert?
    { key := paymentKey report, reference := report.reference, reason
      amountMinorUnits := report.amountMinorUnits, currency := report.currency.map (·.toUpper)
      orderId := if reason = .stockShort then orderId else none }).getD unmatched

structure Desk where
  session : HandoffSession
  unmatched : Table UnmatchedPayment
  deriving DecidableEq

-- The merchant is told once for each reference.
def Desk.attend (desk : Desk) (report : Report) (reason : Attention) : Desk :=
  if report.reference ∈ desk.session.state.notified then desk
  else
    let notified := desk.session.state.notified ++ [report.reference]
    { session :=
        { desk.session with
          state := { desk.session.state with notified := notified.drop (notified.length - 20) } }
      unmatched := recordPaymentAttention desk.unmatched report reason
        (desk.session.order.map (·.decisionId)) }

-- The session as it is judged, with what the merchant has to be told of.
def Desk.conclude (desk : Desk) (report : Report) (judged : HandoffSession × Confirmed) : Desk :=
  match attentionOf judged.2 report.stockShort with
  | some reason => { desk with session := judged.1 }.attend report reason
  | none => { desk with session := judged.1 }

def HandoffSession.noting (session : HandoffSession) (eventId : Option String) : HandoffSession :=
  { session with state := (seenEvent session.state eventId).2 }

def Desk.touch (desk : Desk) (now : ℤ) : Desk := { desk with session := desk.session.touch now }

-- The confirmation's own transaction; the session was found by the reference before it.
def Desk.confirm (desk : Desk) (report : Report) : Desk × Confirmed :=
  if !report.configured then (desk, .unknownReference)
  else if report.payment = .pending ∧ desk.session.status ≠ .completed then (desk, .pending)
  else if (seenEvent desk.session.state report.eventId).1 then (desk, .duplicateEvent)
  else
    let judged := (desk.session.noting report.eventId).judge report
    ((desk.conclude report judged).touch report.now, judged.2)

end Confirmations

section Runs

-- One session with the Completes and the confirmations that run for it, the decisions made so far and the provider
-- orders reported paid under a reference of it.
structure HandoffRun where
  desk : Desk
  decided : List (ℕ × ℕ)
  decisions : List ℕ
  found : List Report
  paid : List String
  deriving DecidableEq

inductive HandoffStep where
  -- The first transaction of a Complete: it decides, or finds the catalog changed.
  | decide (now : ℤ) (clean : Bool) (decisionId : ℕ)
  | recheck (now : ℤ) (clean : Bool) (cart : Cart) (evaluated : Evaluated)
  -- The second: the link of a Shopify cart, or a Plural order to create.
  | consume (now : ℤ) (mode : Mode) (decisionId : ℕ) (revision : ℕ)
  | settle (later : ℤ) (decisionId : ℕ) (created : Option String)
  | update (now : ℤ) (cart : Cart) (evaluated : Evaluated)
  | cancel (now : ℤ)
  -- A report that finds the session by its reference, and its transaction.
  | find (report : Report)
  | confirm (report : Report)

def HandoffSession.consume (session : HandoffSession) (now : ℤ) (mode : Mode) (decisionId : ℕ) : HandoffSession :=
  match mode with
  | .shopifyCart => session.issueShopify now decisionId
  | .pluralHosted => session.reserve now decisionId

def HandoffRun.setSession (run : HandoffRun) (session : HandoffSession) : HandoffRun :=
  { run with desk := { run.desk with session } }

-- The report is of a payment that names its provider order.
def Report.pays (report : Report) : Bool := report.payment = .paid && report.providerOrderId ≠ ""

def HandoffRun.step (run : HandoffRun) : HandoffStep → HandoffRun
  | .decide now clean decisionId =>
      if run.desk.session.completable now clean ∧ decisionId ∉ run.decisions then
        { run with
          decided := (decisionId, run.desk.session.revision) :: run.decided
          decisions := decisionId :: run.decisions }
      else run
  | .recheck now clean cart evaluated => run.setSession (run.desk.session.recheck now clean cart evaluated)
  | .consume now mode decisionId revision =>
      if (decisionId, revision) ∈ run.decided ∧ run.desk.session.consumable now revision then
        { run.setSession (run.desk.session.consume now mode decisionId) with
          decided := run.decided.erase (decisionId, revision) }
      else run
  | .settle later decisionId created => run.setSession (run.desk.session.settle later decisionId created)
  | .update now cart evaluated => run.setSession (run.desk.session.update now cart evaluated)
  | .cancel now => run.setSession (run.desk.session.cancel now)
  | .find report =>
      if report.reference ∈ run.desk.session.state.refs then { run with found := report :: run.found } else run
  | .confirm report =>
      if report ∈ run.found then
        { run with
          desk := (run.desk.confirm report).1
          paid := if report.pays then report.providerOrderId :: run.paid else run.paid }
      else run

def HandoffRun.run (run : HandoffRun) (steps : List HandoffStep) : HandoffRun := steps.foldl HandoffRun.step run

-- A session that was just created.
structure NewRun (run : HandoffRun) : Prop where
  order : run.desk.session.order = none
  handoff : run.desk.session.state.handoff = none
  refs : run.desk.session.state.refs = []
  orders : run.desk.session.state.orders = []
  events : run.desk.session.state.events = []
  notified : run.desk.session.state.notified = []
  canceled : run.desk.session.canceledAt = none
  status : run.desk.session.status.frozen = false
  unmatched : run.desk.unmatched.rows = []
  decided : run.decided = []
  found : run.found = []
  paid : run.paid = []

end Runs

end AgenticOrg.Commerce.Handoff
