import AgenticOrg.Commerce.Payments

namespace AgenticOrg.Commerce

open Tables

section Requests

-- A refund of a captured order under a consumed decision.
structure RefundRequest where
  reference : Reference
  decisionId : ℕ
  amountMinorUnits : ℤ
  currency : String
  orderTotalMinorUnits : ℤ
  allowanceMaxMinorUnits : Option ℤ
  -- what the decision's action and scope checks say
  decisionProblem : Option String
  deriving DecidableEq

def RefundRequest.record (request : RefundRequest) : OperationRecord where
  operation := .refund
  reference := request.reference
  decisionId := request.decisionId
  amountMinorUnits := request.amountMinorUnits
  currency := request.currency.toUpper

-- Why a refund is refused before anything is journalled.
def refundProblem (request : RefundRequest) (state : PaymentState) (credentials : Bool) : Option String :=
  request.decisionProblem <|>
    amountProblem request.amountMinorUnits request.currency
      (min request.orderTotalMinorUnits state.refundableMinorUnits) request.allowanceMaxMinorUnits state.currency
      "refund_exceeds_captured" <|>
    (if (state.providerOrderRef.getD "") = "" then some "order_not_captured" else none) <|>
    (if credentials then none else some "plural_credentials_missing")

-- The status of a refund in the provider's answer, by what the executor makes of it.
inductive RefundStatus where
  | succeeded
  | pending
  | failed
  | unrecognised
  deriving DecidableEq

-- What the provider call comes to: an HTTP error with a body, no usable answer, or an answer.
inductive RefundAnswer where
  | error (httpStatus : ℕ)
  | unreachable
  | answered (status : RefundStatus)
  deriving DecidableEq

-- The phase `_call` journals the answer with.
def RefundAnswer.phase : RefundAnswer → Phase
  | .error _ => .failed
  | .unreachable => .unknown
  | .answered .succeeded => .succeeded
  | .answered .pending => .unknown
  | .answered .failed => .failed
  | .answered .unrecognised => .failed

-- The provider says that it did not process the call.
def RefundAnswer.refused : RefundAnswer → Bool
  | .error httpStatus => httpStatus < 500
  | .answered .failed => true
  | _ => false

end Requests

section Runs

-- Where a request stands: checked against the journal, journalled and sent, or answered.
inductive RefundStage where
  | checked
  | requested
  | answered (answer : RefundAnswer)
  | refused (reason : String)
  deriving DecidableEq

structure RefundCall where
  request : RefundRequest
  stage : RefundStage
  -- how many refunds were journalled when the request was checked
  seen : ℕ
  deriving DecidableEq

structure Refunds where
  journal : Journal
  calls : List RefundCall

-- The refunds journalled so far.
def refundCount (rows : List JournalEntry) : ℕ :=
  (rows.filter fun row => row.operation = .refund ∧ row.phase = .requested).length

-- One transaction or provider answer of a refund request.
inductive RefundStep where
  | check (request : RefundRequest) (credentials : Bool)
  | begin (index : ℕ)
  | answer (index : ℕ) (answer : RefundAnswer) (providerRef : Option String)

def checkCall (journal : Journal) (request : RefundRequest) (credentials : Bool) : RefundCall :=
  { request
    stage :=
      match refundProblem request (paymentStateFrom journal.rows) credentials with
      | none => .checked
      | some reason => .refused reason
    seen := refundCount journal.rows }

def Refunds.begin (refunds : Refunds) (index : ℕ) (call : RefundCall) : Refunds :=
  match refunds.journal.begin call.request.record with
  | some journal => { journal, calls := refunds.calls.set index { call with stage := .requested } }
  | none =>
      { refunds with calls := refunds.calls.set index { call with stage := .refused "operation_already_requested" } }

def Refunds.answer (refunds : Refunds) (index : ℕ) (call : RefundCall) (answer : RefundAnswer)
    (providerRef : Option String) : Refunds :=
  { journal := (refunds.journal.finish call.request.record answer.phase providerRef).getD refunds.journal
    calls := refunds.calls.set index { call with stage := .answered answer } }

def Refunds.step (refunds : Refunds) : RefundStep → Refunds
  | .check request credentials =>
      { refunds with calls := refunds.calls ++ [checkCall refunds.journal request credentials] }
  | .begin index =>
      match refunds.calls[index]? with
      | some call => if call.stage = .checked then refunds.begin index call else refunds
      | none => refunds
  | .answer index answer providerRef =>
      match refunds.calls[index]? with
      | some call => if call.stage = .requested then refunds.answer index call answer providerRef else refunds
      | none => refunds

def Refunds.run (refunds : Refunds) (steps : List RefundStep) : Refunds := steps.foldl Refunds.step refunds

-- The provider has the call, or had it and did not refuse it.
def RefundCall.mayBeProcessed (call : RefundCall) : Bool :=
  match call.stage with
  | .requested => true
  | .answered answer => !answer.refused
  | _ => false

def Refunds.processed (refunds : Refunds) : ℤ :=
  ((refunds.calls.filter (·.mayBeProcessed)).map (·.request.amountMinorUnits)).sum

-- A captured order that nothing was refunded of.
structure CapturedOrder (refunds : Refunds) : Prop where
  unrefunded : ∀ row ∈ refunds.journal.rows, row.operation ≠ .refund
  calls : refunds.calls = []
  captured : 0 ≤ capturedOf refunds.journal.rows

-- No refund was journalled since the request was checked, and no answer is journalled as failed that the
-- provider did not give as a refusal.
def RefundStep.Serial (refunds : Refunds) : RefundStep → Prop
  | .check _ _ => True
  | .begin index => ∀ call ∈ refunds.calls[index]?, call.seen = refundCount refunds.journal.rows
  | .answer _ given _ => given.phase = .failed → given.refused = true

def SerialAlong : Refunds → List RefundStep → Prop
  | _, [] => True
  | refunds, step :: rest => step.Serial refunds ∧ SerialAlong (refunds.step step) rest

end Runs

end AgenticOrg.Commerce
