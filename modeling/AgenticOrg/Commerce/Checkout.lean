import AgenticOrg.Commerce.Payments

namespace AgenticOrg.Commerce

open Tables

section Sessions

inductive CheckoutStatus where
  | incomplete
  | requiresEscalation
  | readyForComplete
  | completeInProgress
  | completed
  | canceled
  deriving DecidableEq

def CheckoutStatus.terminal (status : CheckoutStatus) : Bool := status = .completed || status = .canceled

def CheckoutStatus.frozen (status : CheckoutStatus) : Bool := status = .completeInProgress || status.terminal

-- What an evaluation of a checkout leaves it as.
inductive Evaluated where
  | incomplete
  | requiresEscalation
  | readyForComplete
  deriving DecidableEq

def Evaluated.status : Evaluated → CheckoutStatus
  | .incomplete => .incomplete
  | .requiresEscalation => .requiresEscalation
  | .readyForComplete => .readyForComplete

structure LineItem where
  id : String
  itemId : String
  quantity : ℕ
  price : ℤ
  deriving DecidableEq

-- What is bought. The catalog gives an item's currency in upper case.
structure Content where
  lineItems : List LineItem
  total : ℤ
  currency : String
  upper : currency.toUpper = currency
  deriving DecidableEq

-- What a decision authorises by its digest: the revision and what is bought at it.
structure Payload where
  revision : ℕ
  content : Content
  deriving DecidableEq

structure CheckoutSession where
  status : CheckoutStatus
  content : Content
  decisionId : Option ℕ
  revision : ℕ
  deriving DecidableEq

structure CheckoutOrder where
  decisionId : ℕ
  totalMinorUnits : ℤ
  currency : String
  lineItems : List LineItem
  providerOrderRef : Option String
  deriving DecidableEq

end Sessions

section Executions

inductive PaymentStatus where
  | authorized
  | captured
  | failed
  | pending
  deriving DecidableEq

-- The answer to a payment: its status, whether the buyer has to authenticate, the amount authorised.
structure PaymentData where
  status : PaymentStatus
  challenge : Bool
  authorizedAmount : Option ℤ
  deriving DecidableEq

-- What a provider call comes to.
inductive ProviderAnswer where
  | refused
  | unreachable
  | order (orderId : Option String)
  | payment (data : PaymentData)
  | capture (status : PaymentStatus)
  deriving DecidableEq

inductive ExecutionResult where
  | completed (providerOrderRef : String)
  | actionRequired (providerOrderRef : String)
  | failed (errorCode : String)
  deriving DecidableEq

-- Where `execute` stands: about to journal a call, waiting for its answer, or done. A capture is sent after it
-- is journalled.
inductive ExecutionStage where
  | createOrder
  | createOrderSent
  | createPayment (providerOrder : String)
  | createPaymentSent (providerOrder : String)
  | capture (providerOrder : String)
  | captureBegun (providerOrder : String)
  | captureSent (providerOrder : String)
  | finished (result : ExecutionResult)
  deriving DecidableEq

structure Execution where
  decisionId : ℕ
  amount : ℤ
  currency : String
  stage : ExecutionStage
  deriving DecidableEq

def Execution.record (execution : Execution) (operation : Operation) : OperationRecord where
  operation := operation
  reference := .order execution.decisionId
  decisionId := execution.decisionId
  amountMinorUnits := execution.amount
  currency := execution.currency.toUpper

inductive Outcome where
  | captured
  | failed
  deriving DecidableEq

-- Where `reconcile` stands after it has read the journal.
inductive ReconcileStage where
  | capture
  | captureBegun
  | captureSent
  | apply (outcome : Outcome)
  | done
  deriving DecidableEq

structure Reconcile where
  decisionId : ℕ
  providerOrder : String
  amount : ℤ
  currency : String
  stage : ReconcileStage
  deriving DecidableEq

def Reconcile.record (reconcile : Reconcile) (operation : Operation) : OperationRecord where
  operation := operation
  reference := .order reconcile.decisionId
  decisionId := reconcile.decisionId
  amountMinorUnits := reconcile.amount
  currency := reconcile.currency

-- The phase `_call` journals the answer to a capture with.
def capturePhase : ProviderAnswer → Option Phase
  | .refused => some .failed
  | .unreachable => some .unknown
  | .capture .captured => some .succeeded
  | .capture _ => some .failed
  | _ => none

end Executions

section Steps

inductive CheckoutEvent where
  | admitted (decisionId : ℕ)
  | edited
  | canceled
  | captureSent (decisionId : ℕ)
  deriving DecidableEq

-- One session with what runs for it; the trace has the newest event first.
structure Checkout where
  session : CheckoutSession
  journal : Journal
  executions : List Execution
  reconciles : List Reconcile
  order : Option CheckoutOrder
  consumed : List (ℕ × Payload)
  trace : List CheckoutEvent

def Checkout.setStatus (checkout : Checkout) (status : CheckoutStatus) : Checkout :=
  { checkout with
    session := { checkout.session with status, revision := checkout.session.revision + 1 } }

-- Nothing when the session has an order: the insert raises and the transaction is rolled back.
def Checkout.completeIntoOrder (checkout : Checkout) (decisionId : ℕ) (providerOrder : String) : Option Checkout :=
  match checkout.order with
  | some _ => none
  | none =>
      let order : CheckoutOrder :=
        { decisionId
          totalMinorUnits := checkout.session.content.total
          currency := checkout.session.content.currency
          lineItems := checkout.session.content.lineItems
          providerOrderRef := if providerOrder = "" then none else some providerOrder }
      some { checkout.setStatus .completed with order := some order }

def Checkout.reconcileExecution (checkout : Checkout) (decisionId : ℕ) (providerOrder : String)
    (outcome : Outcome) : Checkout :=
  if checkout.session.status = .completed then checkout
  else if checkout.session.decisionId ≠ some decisionId ∨ checkout.session.status = .canceled then checkout
  else
    match outcome with
    | .captured => (checkout.completeIntoOrder decisionId providerOrder).getD checkout
    | .failed => checkout.setStatus .readyForComplete

def Checkout.setExecution (checkout : Checkout) (execution : Execution) (stage : ExecutionStage) : Checkout :=
  { checkout with
    executions := checkout.executions.map fun other =>
      if other.decisionId = execution.decisionId then { execution with stage } else other }

def paymentFailed : ExecutionStage := .finished (.failed "payment_failed")

-- Journals a call: a repeat is not sent.
def Checkout.beginCall (checkout : Checkout) (execution : Execution) (operation : Operation)
    (sent : ExecutionStage) : Checkout :=
  match checkout.journal.begin (execution.record operation) with
  | some journal => { checkout with journal }.setExecution execution sent
  | none => checkout.setExecution execution paymentFailed

-- Journals an answer: when its row is already there the insert raises, and Complete takes that for a failure.
def Checkout.finishCall (checkout : Checkout) (execution : Execution) (operation : Operation) (phase : Phase)
    (providerRef : Option String) (next : ExecutionStage) : Checkout :=
  match checkout.journal.finish (execution.record operation) phase providerRef with
  | some journal => { checkout with journal }.setExecution execution next
  | none => checkout.setExecution execution paymentFailed

-- What `execute` goes on with after an order was created.
def orderStage (orderId : Option String) : ExecutionStage :=
  if orderId.getD "" = "" then paymentFailed else .createPayment (orderId.getD "")

-- What `execute` goes on with after a payment was created.
def paymentStage (amount : ℤ) (providerOrder : String) (data : PaymentData) : ExecutionStage :=
  if data.challenge then .finished (.actionRequired providerOrder)
  else if data.status = .failed then .finished (.failed "payment_declined")
  else if data.status ≠ .authorized then .finished (.failed "payment_pending")
  else if data.authorizedAmount.any (· ≠ amount) then paymentFailed
  else .capture providerOrder

def Checkout.execute (checkout : Checkout) (execution : Execution) (answer : ProviderAnswer) : Checkout :=
  match execution.stage, answer with
  | .createOrder, _ => checkout.beginCall execution .createOrder .createOrderSent
  | .createOrderSent, .refused => checkout.finishCall execution .createOrder .failed none paymentFailed
  | .createOrderSent, .unreachable => checkout.finishCall execution .createOrder .unknown none paymentFailed
  | .createOrderSent, .order orderId =>
      checkout.finishCall execution .createOrder .succeeded (orderId.filter (· ≠ "")) (orderStage orderId)
  | .createPayment providerOrder, _ =>
      checkout.beginCall execution .createPayment (.createPaymentSent providerOrder)
  | .createPaymentSent providerOrder, .refused =>
      checkout.finishCall execution .createPayment .failed (some providerOrder)
        (.finished (.failed "payment_declined"))
  | .createPaymentSent providerOrder, .unreachable =>
      checkout.finishCall execution .createPayment .unknown (some providerOrder) paymentFailed
  | .createPaymentSent providerOrder, .payment data =>
      checkout.finishCall execution .createPayment .succeeded (some providerOrder)
        (paymentStage execution.amount providerOrder data)
  | .capture providerOrder, _ => checkout.beginCall execution .capture (.captureBegun providerOrder)
  | .captureBegun providerOrder, _ =>
      { checkout.setExecution execution (.captureSent providerOrder) with
        trace := .captureSent execution.decisionId :: checkout.trace }
  | .captureSent providerOrder, answer =>
      match capturePhase answer with
      | none => checkout
      | some phase =>
          checkout.finishCall execution .capture phase (some providerOrder)
            (if phase = Phase.succeeded then .finished (.completed providerOrder) else paymentFailed)
  | _, _ => checkout

-- How an action the buyer has to take is shown: the platform runs it, cannot use it, or the buyer is sent to it.
inductive Presentation where
  | action
  | unusable
  | escalation
  deriving DecidableEq

def Checkout.applyExecution (checkout : Checkout) (decisionId : ℕ) (result : ExecutionResult)
    (presentation : Presentation) : Checkout :=
  match result with
  | .completed providerOrder => (checkout.completeIntoOrder decisionId providerOrder).getD checkout
  | .actionRequired _ =>
      checkout.setStatus
        (match presentation with
        | .action => .completeInProgress
        | .unusable => .readyForComplete
        | .escalation => .requiresEscalation)
  | .failed _ => checkout.setStatus .readyForComplete

def Checkout.setReconcile (checkout : Checkout) (index : ℕ) (reconcile : Reconcile) (stage : ReconcileStage) :
    Checkout :=
  { checkout with reconciles := checkout.reconciles.set index { reconcile with stage } }

def Checkout.reconcile (checkout : Checkout) (index : ℕ) (reconcile : Reconcile) (answer : ProviderAnswer) :
    Checkout :=
  match reconcile.stage with
  | .capture =>
      match checkout.journal.begin (reconcile.record .capture) with
      | some journal => { checkout with journal }.setReconcile index reconcile .captureBegun
      | none => checkout.setReconcile index reconcile .done
  | .captureBegun =>
      { checkout.setReconcile index reconcile .captureSent with
        trace := .captureSent reconcile.decisionId :: checkout.trace }
  | .captureSent =>
      match capturePhase answer with
      | none => checkout
      | some phase =>
          match checkout.journal.finish (reconcile.record .capture) phase (some reconcile.providerOrder) with
          | some journal =>
              { checkout with journal }.setReconcile index reconcile
                (if phase = Phase.succeeded then .apply .captured else .done)
          | none => checkout.setReconcile index reconcile .done
  | .apply outcome =>
      (checkout.reconcileExecution reconcile.decisionId reconcile.providerOrder outcome).setReconcile index reconcile
        .done
  | .done => checkout

-- The row an event has to name: the order this executor created.
def Checkout.created (checkout : Checkout) (decisionId : ℕ) (orderId : String) : Option JournalEntry :=
  (checkout.journal.find? (Reference.order decisionId, Operation.createOrder, Phase.succeeded)).filter fun entry =>
    entry.providerRef = some orderId

def Checkout.startReconcile (checkout : Checkout) (created : JournalEntry) (orderId : String)
    (stage : ReconcileStage) : Checkout :=
  { checkout with
    reconciles := checkout.reconciles ++
      [{ decisionId := created.decisionId, providerOrder := orderId, amount := created.amountMinorUnits
         currency := created.currency, stage }] }

def createdRecord (created : JournalEntry) (operation : Operation) : OperationRecord :=
  { created.toOperationRecord with operation }

-- A verified event up to its first provider call or to the session.
def Checkout.receive (checkout : Checkout) (created : JournalEntry) (orderId : String) (status : PaymentStatus)
    (amount : Option ℤ) (credentials : Bool) : Checkout :=
  match status with
  | .captured =>
      { checkout with
        journal := checkout.journal.recordOnce (createdRecord created .capture) .succeeded
          (some orderId) }.startReconcile created orderId (.apply .captured)
  | .authorized =>
      if checkout.journal.has created.reference .capture .succeeded then
        checkout.startReconcile created orderId (.apply .captured)
      else if checkout.journal.has created.reference .capture .requested then checkout
      else if amount.any (· ≠ created.amountMinorUnits) then checkout
      else if !credentials then checkout
      else checkout.startReconcile created orderId .capture
  | .failed =>
      { checkout with
        journal := checkout.journal.recordOnce (createdRecord created .createPayment) .failed
          (some orderId) }.startReconcile created orderId (.apply .failed)
  | .pending => checkout

inductive CheckoutStep where
  -- A Complete whose decision is consumed; the problem is what the checks before the first call find.
  | complete (decisionId : ℕ) (expired : Bool) (problem : Option String)
  -- A Complete that finds the catalog changed, or that returns the AFA step.
  | recheck (expired : Bool) (content : Content) (evaluated : Evaluated)
  | afaStep (expired : Bool) (evaluated : Evaluated)
  | update (expired : Bool) (content : Content) (evaluated : Evaluated)
  | cancel
  | execute (decisionId : ℕ) (answer : ProviderAnswer)
  | apply (decisionId : ℕ) (presentation : Presentation)
  | event (decisionId : ℕ) (orderId : String) (status : PaymentStatus) (amount : Option ℤ) (credentials : Bool)
  | reconcile (index : ℕ) (answer : ProviderAnswer)

def Checkout.frozen (checkout : Checkout) (expired : Bool) : Bool := checkout.session.status.frozen || expired

def Checkout.admits (checkout : Checkout) (decisionId : ℕ) (expired : Bool) : Bool :=
  !checkout.frozen expired && checkout.session.status = .readyForComplete &&
    !(checkout.consumed.map (·.1)).contains decisionId

def Checkout.admitted (checkout : Checkout) (decisionId : ℕ) (problem : Option String) : Checkout :=
  let execution : Execution :=
    { decisionId, amount := checkout.session.content.total, currency := checkout.session.content.currency
      stage := if problem.isSome then paymentFailed else .createOrder }
  { checkout.setStatus .completeInProgress with
    session :=
      { checkout.session with
        status := .completeInProgress
        decisionId := some decisionId
        revision := checkout.session.revision + 1 }
    executions := checkout.executions ++ [execution]
    consumed := (decisionId, { revision := checkout.session.revision, content := checkout.session.content }) ::
      checkout.consumed
    trace := .admitted decisionId :: checkout.trace }

def Checkout.edit (checkout : Checkout) (content : Content) (status : CheckoutStatus) : Checkout :=
  { checkout with
    session := { checkout.session with content, status, revision := checkout.session.revision + 1 }
    trace := .edited :: checkout.trace }

def Checkout.cancelable (checkout : Checkout) : Bool :=
  !checkout.session.status.terminal && checkout.session.status ≠ .completeInProgress

def Checkout.step (checkout : Checkout) : CheckoutStep → Checkout
  | .complete decisionId expired problem =>
      if checkout.admits decisionId expired then checkout.admitted decisionId problem else checkout
  | .recheck expired content evaluated =>
      if !checkout.frozen expired && checkout.session.status = .readyForComplete then
        checkout.edit content evaluated.status
      else checkout
  | .afaStep expired evaluated =>
      if !checkout.frozen expired && checkout.session.status = .readyForComplete then
        checkout.setStatus evaluated.status
      else checkout
  | .update expired content evaluated =>
      if checkout.frozen expired then checkout else checkout.edit content evaluated.status
  | .cancel =>
      if checkout.cancelable then
        { checkout.setStatus .canceled with trace := .canceled :: checkout.trace }
      else checkout
  | .execute decisionId answer =>
      match checkout.executions.find? (·.decisionId = decisionId) with
      | some execution => checkout.execute execution answer
      | none => checkout
  | .apply decisionId presentation =>
      match checkout.executions.find? (·.decisionId = decisionId) with
      | some execution =>
          match execution.stage with
          | .finished result =>
              { checkout with
                executions := checkout.executions.filter (·.decisionId ≠ decisionId) }.applyExecution decisionId
                  result presentation
          | _ => checkout
      | none => checkout
  | .event decisionId orderId status amount credentials =>
      match checkout.created decisionId orderId with
      | some created => checkout.receive created orderId status amount credentials
      | none => checkout
  | .reconcile index answer =>
      match checkout.reconciles[index]? with
      | some reconcile => checkout.reconcile index reconcile answer
      | none => checkout

def Checkout.run (checkout : Checkout) (steps : List CheckoutStep) : Checkout := steps.foldl Checkout.step checkout

-- A session that nothing was completed for.
structure NewCheckout (checkout : Checkout) : Prop where
  open_ : checkout.session.status.frozen = false
  undecided : checkout.session.decisionId = none
  journal : checkout.journal.rows = []
  executions : checkout.executions = []
  reconciles : checkout.reconciles = []
  order : checkout.order = none
  consumed : checkout.consumed = []
  trace : checkout.trace = []

end Steps

section Charges

def Checkout.captureFailed (checkout : Checkout) (decisionId : ℕ) : Bool :=
  checkout.journal.has (.order decisionId) .capture .failed

-- One decision at most has a capture out that did not fail, and none is sent for an abandoned attempt.
structure ChargedOnce (checkout : Checkout) : Prop where
  single : ∀ d d', .captureSent d ∈ checkout.trace → .captureSent d' ∈ checkout.trace →
    checkout.captureFailed d = false → checkout.captureFailed d' = false → d = d'
  live : ∀ after before d, checkout.trace = after ++ .captureSent d :: before → .canceled ∉ before ∧
    ∀ later earlier, before = later ++ .admitted d :: earlier → ∀ d', .admitted d' ∉ later

def Reconcile.aboutToCapture (reconcile : Reconcile) : Bool :=
  reconcile.stage = .capture || reconcile.stage = .captureBegun

-- A Complete is admitted once every capture journalled before it has failed; no Complete is admitted and no
-- Cancel accepted while an event is about to capture; an authorised event that no capture was journalled before
-- is for the session's decision while it is not canceled, and a failed one comes after that decision's execution
-- has been applied.
def CheckoutStep.Ordered (checkout : Checkout) : CheckoutStep → Prop
  | .complete decisionId expired _ => checkout.admits decisionId expired = true →
      (∀ row ∈ checkout.journal.rows, row.operation = .capture → row.phase = .requested →
        checkout.journal.has row.reference .capture .failed = true) ∧
      ∀ reconcile ∈ checkout.reconciles, reconcile.aboutToCapture = false
  | .cancel => checkout.cancelable = true →
      ∀ reconcile ∈ checkout.reconciles, reconcile.aboutToCapture = false
  | .event decisionId _ status _ _ =>
      (status = .authorized → checkout.journal.has (.order decisionId) .capture .requested = false →
        checkout.session.decisionId = some decisionId ∧ checkout.session.status ≠ .canceled) ∧
      (status = .failed → ∀ execution ∈ checkout.executions, execution.decisionId ≠ decisionId)
  | _ => True

def OrderedAlong : Checkout → List CheckoutStep → Prop
  | _, [] => True
  | checkout, step :: rest => step.Ordered checkout ∧ OrderedAlong (checkout.step step) rest

instance (checkout : Checkout) : (step : CheckoutStep) → Decidable (step.Ordered checkout)
  | .complete decisionId expired _ => inferInstanceAs (Decidable (checkout.admits decisionId expired = true → _ ∧ _))
  | .cancel => inferInstanceAs (Decidable (checkout.cancelable = true → _))
  | .event _ _ status _ _ => inferInstanceAs (Decidable ((status = .authorized → _) ∧ (status = .failed → _)))
  | .recheck .. | .afaStep .. | .update .. | .execute .. | .apply .. | .reconcile .. => inferInstanceAs (Decidable True)

instance decidableOrderedAlong : (checkout : Checkout) → (steps : List CheckoutStep) →
    Decidable (OrderedAlong checkout steps)
  | _, [] => inferInstanceAs (Decidable True)
  | checkout, step :: rest =>
      have := decidableOrderedAlong (checkout.step step) rest
      inferInstanceAs (Decidable (step.Ordered checkout ∧ _))

end Charges

section Orders

-- The session was edited since the decision's Complete was admitted.
def editedSince (decisionId : ℕ) : List CheckoutEvent → Bool
  | [] => false
  | .edited :: _ => true
  | .admitted other :: rest => if other = decisionId then false else editedSince decisionId rest
  | _ :: rest => editedSince decisionId rest

-- An order is for what was captured under its decision, and for what the decision authorised.
def OrderMatches (checkout : Checkout) : Prop :=
  ∀ order, checkout.order = some order →
    (∃ row ∈ checkout.journal.rows, row.operation = .capture ∧ row.phase = .succeeded ∧
      row.decisionId = order.decisionId ∧ row.amountMinorUnits = order.totalMinorUnits ∧
      row.currency = order.currency) ∧
    ∃ payload, (order.decisionId, payload) ∈ checkout.consumed ∧ payload.content.lineItems = order.lineItems

def ExecutionStage.captured : ExecutionStage → Bool
  | .finished (.completed _) => true
  | _ => false

-- A capture is applied only to a session that was not edited since its decision's Complete was admitted.
def CheckoutStep.Unedited (checkout : Checkout) : CheckoutStep → Prop
  | .apply decisionId _ => ∀ execution ∈ checkout.executions, execution.decisionId = decisionId →
      execution.stage.captured = true → editedSince decisionId checkout.trace = false
  | .reconcile index _ => ∀ reconcile ∈ checkout.reconciles[index]?, reconcile.stage = .apply .captured →
      editedSince reconcile.decisionId checkout.trace = false
  | _ => True

def UneditedAlong : Checkout → List CheckoutStep → Prop
  | _, [] => True
  | checkout, step :: rest => step.Unedited checkout ∧ UneditedAlong (checkout.step step) rest

instance (checkout : Checkout) : (step : CheckoutStep) → Decidable (step.Unedited checkout)
  | .apply decisionId _ =>
      inferInstanceAs (Decidable (∀ execution ∈ checkout.executions, execution.decisionId = decisionId → _))
  | .reconcile index _ => inferInstanceAs (Decidable (∀ reconcile ∈ checkout.reconciles[index]?, _ → _))
  | .complete .. | .recheck .. | .afaStep .. | .update .. | .cancel | .execute .. | .event .. =>
      inferInstanceAs (Decidable True)

instance decidableUneditedAlong : (checkout : Checkout) → (steps : List CheckoutStep) →
    Decidable (UneditedAlong checkout steps)
  | _, [] => inferInstanceAs (Decidable True)
  | checkout, step :: rest =>
      have := decidableUneditedAlong (checkout.step step) rest
      inferInstanceAs (Decidable (step.Unedited checkout ∧ _))

end Orders

end AgenticOrg.Commerce
