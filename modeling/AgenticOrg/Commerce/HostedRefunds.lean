import AgenticOrg.Commerce.Payments
import Mathlib.Data.List.Sort

namespace AgenticOrg.Commerce.Hosted

open Tables

section Answers

def SUCCEEDED : List String := ["PROCESSED", "CAPTURED", "SUCCESS", "REFUNDED"]

def REFUND_FAILED : List String := ["FAILED", "REJECTED", "DECLINED", "CANCELLED"]

def AMBIGUOUS_HTTP : List ℕ := [408, 409, 425, 429]

def ORDER_REFUNDED : List String := ["REFUNDED", "FULLY_REFUNDED"]

def refundPhase (status : String) : Phase :=
  if status.toUpper ∈ SUCCEEDED then .succeeded
  else if status.toUpper ∈ REFUND_FAILED then .failed
  else .unknown

def refusedPhase (httpStatus : ℕ) : Phase :=
  if 400 ≤ httpStatus ∧ httpStatus < 500 ∧ httpStatus ∉ AMBIGUOUS_HTTP then .failed else .unknown

-- What the refund call comes to.
inductive HostedAnswer where
  | error (httpStatus : ℕ)
  | unreachable
  | answered (status : String)
  deriving DecidableEq

def HostedAnswer.phase : HostedAnswer → Phase
  | .error httpStatus => refusedPhase httpStatus
  | .unreachable => .unknown
  | .answered status => refundPhase status

-- An object of the provider's order that names refund references and a status.
structure RefundEntry where
  references : List Reference
  status : String
  deriving DecidableEq

structure OrderRead where
  entries : List RefundEntry
  status : String
  orderAmount : Option ℤ
  deriving DecidableEq

def refundStateFromOrder (read : OrderRead) (reference : Reference) (amount : ℤ) : Option Phase :=
  match read.entries.find? fun entry => entry.references.contains reference with
  | some entry => if refundPhase entry.status = .unknown then none else some (refundPhase entry.status)
  | none =>
      if read.status.toUpper ∈ ORDER_REFUNDED ∧ read.orderAmount = some amount then some .succeeded else none

end Answers

section Ledgers

structure HostedRow extends JournalEntry where
  createdAt : ℤ
  deriving DecidableEq

instance : Keyed HostedRow (Reference × Operation × Phase) := ⟨fun row => Keyed.key row.toJournalEntry⟩

abbrev HostedJournal := Table HostedRow

def HostedJournal.entries (journal : HostedJournal) : List JournalEntry := journal.rows.map (·.toJournalEntry)

def hostedRow (record : OperationRecord) (phase : Phase) (providerRef : Option String) (now : ℤ) : HostedRow :=
  { journalEntry record phase providerRef with createdAt := now }

inductive AdjustmentStatus where
  | pending
  | completed
  | failed
  deriving DecidableEq

-- The id of a refund call's adjustment is the digest of its reference; one recorded by hand gets a new id.
inductive AdjustmentId where
  | refund (reference : Reference)
  | recorded (number : ℕ)
  deriving DecidableEq

structure TotalLine where
  type : String
  amount : ℤ
  deriving DecidableEq

structure Adjustment where
  id : AdjustmentId
  type : String
  status : AdjustmentStatus
  totals : List TotalLine
  deriving DecidableEq

instance : Keyed Adjustment AdjustmentId := ⟨Adjustment.id⟩

def refundAdjustment (reference : Reference) (status : AdjustmentStatus) (amount : ℤ) : Adjustment where
  id := .refund reference
  type := "refund"
  status := status
  totals := [⟨"total", -amount⟩]

-- What an adjustment counts as refunded.
def Adjustment.refunded (adjustment : Adjustment) : ℤ :=
  if adjustment.type = "refund" ∧ (adjustment.status = .completed ∨ adjustment.status = .pending) then
    ((adjustment.totals.filter (·.type = "total")).map (|·.amount|)).sum
  else 0

def recordedRefunds (adjustments : List Adjustment) (excludeIds : List AdjustmentId) : ℤ :=
  ((adjustments.filter fun adjustment => !excludeIds.contains adjustment.id).map (·.refunded)).sum

def hostedRefunded (entries : List JournalEntry) (adjustments : List Adjustment) : ℤ :=
  refundedOf entries + recordedRefunds adjustments ((references .refund entries).map .refund)

end Ledgers

section Outstanding

def RECONCILE_AFTER : ℤ := 5 * 60

def RECONCILE_WINDOW : ℤ := 30 * 24 * 60 * 60

def RECONCILE_BATCH : ℕ := 50

structure OutstandingRefund where
  reference : Reference
  decisionId : ℕ
  amount : ℤ
  currency : String
  deriving DecidableEq

-- The call of a reference, when it has no outcome yet and is old enough.
def outstandingRefund (rows : List HostedRow) (now : ℤ) (reference : Reference) : Option OutstandingRefund :=
  let entries := rows.filter (·.reference = reference)
  match entries.find? (·.phase = .requested) with
  | none => none
  | some requested =>
      if entries.any (fun row => row.phase = .succeeded || row.phase = .failed) ||
          now - RECONCILE_AFTER < requested.createdAt then none
      else
        some
          { reference, decisionId := requested.decisionId, amount := requested.amountMinorUnits
            currency := requested.currency }

def outstandingRefunds (rows : List HostedRow) (now : ℤ) : List OutstandingRefund :=
  let recent := rows.filter fun row => now - RECONCILE_WINDOW ≤ row.createdAt
  let read := (recent.insertionSort fun a b => a.createdAt ≤ b.createdAt).take (RECONCILE_BATCH * 4)
  (((read.map (·.reference)).eraseDups).filterMap (outstandingRefund read now)).take RECONCILE_BATCH

end Outstanding

section Runs

-- What the provider made of a refund call that was sent to it: once refunded or refused, it stays so.
inductive Verdict where
  | undecided
  | refunded
  | refused
  deriving DecidableEq

def Verdict.decide (verdict : Verdict) (refunded : Bool) : Verdict :=
  if verdict = .undecided then (if refunded then .refunded else .refused) else verdict

structure ProviderCall where
  reference : Reference
  amount : ℤ
  verdict : Verdict
  deriving DecidableEq

instance : Keyed ProviderCall Reference := ⟨ProviderCall.reference⟩

-- Where `refund_order` stands: each stage ends with one transaction or provider call.
inductive CallStage where
  | lookup (replayed : Bool)
  | found (phases : List Phase) (amount : ℤ)
  | recording (status : AdjustmentStatus) (amount : ℤ)
  | deciding
  | consuming
  | decided
  | begun
  | sent
  | answered (phase : Phase)
  | done
  deriving DecidableEq

structure Call where
  number : ℕ
  requestKey : String
  decisionId : ℕ
  amount : ℤ
  stage : CallStage
  deriving DecidableEq

instance : Keyed Call ℕ := ⟨Call.number⟩

def Call.reference (call : Call) : Reference := .refund call.requestKey

-- Where `reconcile_refund` stands.
inductive CheckStage where
  | selected
  | told (phase : Phase)
  | journalled (phase : Phase)
  | missing
  | done
  deriving DecidableEq

structure Check where
  item : OutstandingRefund
  stage : CheckStage
  deriving DecidableEq

-- One hosted order with what runs for it. Interrupted are the references whose outcome was journalled by a
-- writer that crashed before the order agreed with it, until the order is written for them again.
structure HostedOrder where
  totalMinorUnits : ℤ
  currency : String
  providerOrderRef : Option String
  journal : HostedJournal
  adjustments : Table Adjustment
  provider : Table ProviderCall
  calls : Table Call
  checks : List Check
  interrupted : List Reference

-- What comes from outside at a step.
structure Given where
  now : ℤ
  consumed : Bool
  credentials : Bool
  answer : HostedAnswer
  read : Option OrderRead

def HostedOrder.record (order : HostedOrder) (call : Call) : OperationRecord where
  operation := .refund
  reference := call.reference
  decisionId := call.decisionId
  amountMinorUnits := call.amount
  currency := order.currency.toUpper.toUpper

def HostedOrder.setCall (order : HostedOrder) (call : Call) (stage : CallStage) : HostedOrder :=
  { order with calls := order.calls.modify call.number (fun old => { old with stage }) fun _ => rfl }

def HostedOrder.setCheck (order : HostedOrder) (index : ℕ) (check : Check) (stage : CheckStage) : HostedOrder :=
  { order with checks := order.checks.set index { check with stage } }

-- An adjustment under a fixed id: nothing changes when the order has it.
def HostedOrder.applyOrderChange (order : HostedOrder) (reference : Reference) (status : AdjustmentStatus) (amount : ℤ) :
    HostedOrder :=
  match order.adjustments.insert? (refundAdjustment reference status amount) with
  | none => order
  | some adjustments =>
      { order with
        adjustments
        interrupted := if status = .completed then order.interrupted.filter (· ≠ reference) else order.interrupted }

-- Nothing when the adjustment is missing or has the status.
def HostedOrder.setOrderAdjustmentStatus (order : HostedOrder) (reference : Reference) (status : AdjustmentStatus) :
    Option HostedOrder :=
  match order.adjustments.find? (.refund reference) with
  | none => none
  | some adjustment =>
      if adjustment.status = status then none
      else
        some
          { order with
            adjustments := order.adjustments.modify (.refund reference) (fun old => { old with status }) fun _ => rfl
            interrupted := order.interrupted.filter (· ≠ reference) }

-- The first read of `_earlier_refund`.
def HostedOrder.lookup (order : HostedOrder) (call : Call) (replayed : Bool) : CallStage :=
  match order.journal.entries.filter fun entry => entry.reference = call.reference ∧ entry.operation = .refund with
  | [] => if replayed then .done else .deciding
  | first :: rest =>
      .found ((first :: rest).map (·.phase))
        (((first :: rest).find? (·.phase = .requested)).getD first).amountMinorUnits

-- Its second read: an adjustment is recorded when the provider has the refund and the order lacks it.
def HostedOrder.earlier (order : HostedOrder) (call : Call) (phases : List Phase) (amount : ℤ) : CallStage :=
  if (order.adjustments.find? (.refund call.reference)).isNone ∧ .failed ∉ phases ∧
      (.succeeded ∈ phases ∨ .unknown ∈ phases) then
    .recording (if .succeeded ∈ phases then .completed else .pending) amount
  else .done

def HostedOrder.refunded (order : HostedOrder) : ℤ := hostedRefunded order.journal.entries order.adjustments.rows

def ruleRefundWithinCaptured (amount : ℤ) (captured refunded : ℤ) : Bool :=
  1 ≤ amount && 1 ≤ captured && refunded + amount ≤ captured

def HostedOrder.captured (order : HostedOrder) : Bool := order.providerOrderRef.getD "" ≠ ""

def HostedOrder.refundProblem (order : HostedOrder) (amount : ℤ) (credentials : Bool) : Option String :=
  if !order.captured then some "order_not_captured"
  else if order.currency.toUpper.toUpper ≠ order.currency.toUpper then some "refund_currency_mismatch"
  else if order.totalMinorUnits < order.refunded + amount then some "refund_exceeds_captured"
  else if !credentials then some "plural_credentials_missing"
  else none

-- The transaction of `refund_hosted_order`, under the lock of the order's row.
def HostedOrder.begin (order : HostedOrder) (call : Call) (given : Given) : HostedOrder :=
  if call.reference ∈ references .refund order.journal.entries then order.setCall call (.lookup true)
  else if (order.refundProblem call.amount given.credentials).isSome then order.setCall call .done
  else
    match order.journal.insert? (hostedRow (order.record call) .requested none given.now) with
    | none => order.setCall call (.lookup true)
    | some journal => { order with journal }.setCall call .begun

-- The provider does not contradict what it made of a call.
def HostedOrder.agreesWithProvider (order : HostedOrder) (reference : Reference) (phase : Phase) : Bool :=
  match phase with
  | .succeeded => (order.provider.find? reference).any (·.verdict = .refunded)
  | .failed => (order.provider.find? reference).any (·.verdict = .refused)
  | _ => true

-- What follows an answer that was journalled.
def answeredStage (phase : Phase) (amount : ℤ) : CallStage :=
  match phase with
  | .succeeded => .recording .completed amount
  | .unknown => .recording .pending amount
  | _ => .done

def HostedOrder.advance (order : HostedOrder) (call : Call) (given : Given) : HostedOrder :=
  match call.stage with
  | .lookup replayed => order.setCall call (order.lookup call replayed)
  | .found phases amount => order.setCall call (order.earlier call phases amount)
  | .recording status amount => (order.applyOrderChange call.reference status amount).setCall call .done
  | .deciding =>
      if order.captured && ruleRefundWithinCaptured call.amount order.totalMinorUnits order.refunded then
        order.setCall call .consuming
      else order.setCall call .done
  | .consuming => order.setCall call (if given.consumed then .decided else .done)
  | .decided => order.begin call given
  | .begun =>
      { order with
        provider := (order.provider.insert? ⟨call.reference, call.amount, .undecided⟩).getD order.provider }.setCall
          call .sent
  | .sent =>
      if order.agreesWithProvider call.reference given.answer.phase then
        order.setCall call (.answered given.answer.phase)
      else order
  | .answered phase =>
      match order.journal.insert? (hostedRow (order.record call) phase order.providerOrderRef given.now) with
      | none => order.setCall call .done
      | some journal => { order with journal }.setCall call (answeredStage phase call.amount)
  | .done => order

def OutstandingRefund.record (item : OutstandingRefund) : OperationRecord where
  operation := .refund
  reference := item.reference
  decisionId := item.decisionId
  amountMinorUnits := item.amount
  currency := (if item.currency = "" then "INR" else item.currency).toUpper

def reconciledStatus (phase : Phase) : AdjustmentStatus := if phase = .succeeded then .completed else .failed

def UNREPORTED_PREFIX : String := "unreported:"

def providerOrderKnown (providerOrderId : String) : Bool :=
  providerOrderId ≠ "" && !UNREPORTED_PREFIX.toList.isPrefixOf providerOrderId.toList

-- What `reconcile_refund` reads of the order.
def HostedOrder.readRefund (order : HostedOrder) (item : OutstandingRefund) (given : Given) : Option Phase :=
  if given.credentials && providerOrderKnown (order.providerOrderRef.getD "") then
    given.read.bind fun read => refundStateFromOrder read item.reference item.amount
  else none

def HostedOrder.recordOnce (order : HostedOrder) (item : OutstandingRefund) (phase : Phase) (now : ℤ) : HostedOrder :=
  { order with
    journal := (order.journal.insert? (hostedRow item.record phase order.providerOrderRef now)).getD order.journal }

def HostedOrder.check (order : HostedOrder) (index : ℕ) (check : Check) (given : Given) : HostedOrder :=
  match check.stage with
  | .selected =>
      match order.readRefund check.item given with
      | none => order.setCheck index check .done
      | some phase =>
          if order.agreesWithProvider check.item.reference phase then order.setCheck index check (.told phase)
          else order
  | .told phase => (order.recordOnce check.item phase given.now).setCheck index check (.journalled phase)
  | .journalled phase =>
      match order.setOrderAdjustmentStatus check.item.reference (reconciledStatus phase) with
      | some later => later.setCheck index check .done
      | none => order.setCheck index check (if phase = .succeeded then .missing else .done)
  | .missing =>
      (order.applyOrderChange check.item.reference .completed check.item.amount).setCheck index check .done
  | .done => order

-- The order agrees with an outcome of a refund call.
def HostedOrder.agrees (order : HostedOrder) (reference : Reference) (phase : Phase) : Bool :=
  match order.adjustments.find? (.refund reference) with
  | some adjustment => adjustment.status = reconciledStatus phase
  | none => phase ≠ .succeeded

def HostedOrder.interrupt (order : HostedOrder) (reference : Reference) (phase : Phase) : HostedOrder :=
  if order.agrees reference phase then order
  else { order with interrupted := reference :: order.interrupted }

def HostedOrder.crash (order : HostedOrder) (call : Call) : HostedOrder :=
  match call.stage with
  | .recording .completed _ => (order.interrupt call.reference .succeeded).setCall call .done
  | _ => order.setCall call .done

def HostedOrder.crashCheck (order : HostedOrder) (index : ℕ) (check : Check) : HostedOrder :=
  match check.stage with
  | .journalled phase => (order.interrupt check.item.reference phase).setCheck index check .done
  | .missing => (order.interrupt check.item.reference .succeeded).setCheck index check .done
  | _ => order.setCheck index check .done

inductive HostedStep where
  | request (number : ℕ) (requestKey : String) (repeatable : Bool) (decisionId : ℕ) (amount : ℤ)
  | advance (number : ℕ) (given : Given)
  | crash (number : ℕ)
  | decideVerdict (reference : Reference) (refunded : Bool)
  | select (now : ℤ)
  | check (index : ℕ) (given : Given)
  | crashCheck (index : ℕ)
  | adjust (number : ℕ) (type : String) (status : AdjustmentStatus) (totals : List TotalLine)

def HostedOrder.step (order : HostedOrder) : HostedStep → HostedOrder
  | .request number requestKey repeatable decisionId amount =>
      if amount < 1 then order
      else
        { order with
          calls := (order.calls.insert?
            { number, requestKey, decisionId, amount
              stage := if repeatable then .lookup false else .deciding }).getD order.calls }
  | .advance number given =>
      match order.calls.find? number with
      | some call => order.advance call given
      | none => order
  | .crash number =>
      match order.calls.find? number with
      | some call => order.crash call
      | none => order
  | .decideVerdict reference refunded =>
      { order with
        provider := order.provider.modify reference
          (fun call => { call with verdict := call.verdict.decide refunded }) fun _ => rfl }
  | .select now =>
      { order with
        checks := order.checks ++ (outstandingRefunds order.journal.rows now).map fun item => ⟨item, .selected⟩ }
  | .check index given =>
      match order.checks[index]? with
      | some check => order.check index check given
      | none => order
  | .crashCheck index =>
      match order.checks[index]? with
      | some check => order.crashCheck index check
      | none => order
  | .adjust number type status totals =>
      if type = "" then order
      else
        { order with
          adjustments := (order.adjustments.insert? ⟨.recorded number, type, status, totals⟩).getD
            order.adjustments }

def HostedOrder.run (order : HostedOrder) (steps : List HostedStep) : HostedOrder := steps.foldl HostedOrder.step order

-- An order that no refund was asked of.
structure NewOrder (order : HostedOrder) : Prop where
  total : 0 ≤ order.totalMinorUnits
  journal : order.journal.rows = []
  adjustments : ∀ adjustment ∈ order.adjustments.rows, ∃ number, adjustment.id = .recorded number
  provider : order.provider.rows = []
  calls : order.calls.rows = []
  checks : order.checks = []
  interrupted : order.interrupted = []

end Runs

section Bounds

-- The calls that the provider has, or had and did not refuse.
def HostedOrder.processed (order : HostedOrder) : ℤ :=
  ((order.provider.rows.filter (·.verdict ≠ .refused)).map (·.amount)).sum

def AdjustmentId.byHand : AdjustmentId → Bool
  | .recorded _ => true
  | .refund _ => false

def HostedOrder.recordedByHand (order : HostedOrder) : ℤ :=
  ((order.adjustments.rows.filter (·.id.byHand)).map (·.refunded)).sum

end Bounds

section Settlements

def HostedOrder.adjustmentsOf (order : HostedOrder) (reference : Reference) : List Adjustment :=
  order.adjustments.rows.filter (·.id = .refund reference)

-- The order says of every refund call what the journal says.
structure Settled (order : HostedOrder) : Prop where
  succeeded : ∀ row ∈ order.journal.rows, row.phase = .succeeded →
    order.adjustmentsOf row.reference =
      [refundAdjustment row.reference .completed (requestedAmount order.journal.entries .refund row.reference)]
  failed : ∀ row ∈ order.journal.rows, row.phase = .failed →
    order.adjustmentsOf row.reference = [] ∨
      ∃ adjustment, order.adjustmentsOf row.reference = [adjustment] ∧ adjustment.status = .failed

structure Stopped (order : HostedOrder) : Prop where
  calls : ∀ call ∈ order.calls.rows, call.stage = .done
  checks : ∀ check ∈ order.checks, check.stage = .done

-- One pass of `check_refunds`: its items are read and reconciled one after the other.
def HostedOrder.checkSteps (order : HostedOrder) (now : ℤ) (given : ℕ → Given) : List HostedStep :=
  .select now ::
    (List.range (outstandingRefunds order.journal.rows now).length).flatMap fun i =>
      List.replicate 4 (.check (order.checks.length + i) (given i))

def HostedOrder.checkRefunds (order : HostedOrder) (now : ℤ) (given : ℕ → Given) : HostedOrder :=
  order.run (order.checkSteps now given)

-- Every row is old enough for a pass, and the provider tells it the outcome of every refund it asks for.
structure FinalAnswers (order : HostedOrder) (now : ℤ) (given : ℕ → Given) : Prop where
  later : ∀ row ∈ order.journal.rows, row.createdAt < now - RECONCILE_AFTER
  answers : ∀ i item, (outstandingRefunds order.journal.rows now)[i]? = some item →
    ∃ phase, order.readRefund item (given i) = some phase ∧ order.agreesWithProvider item.reference phase = true

def Check.aboutToSet (reference : Reference) (check : Check) : Bool :=
  check.item.reference = reference ∧ (check.stage = .journalled .succeeded ∨ check.stage = .journalled .failed)

def HostedOrder.final (order : HostedOrder) (reference : Reference) : Bool :=
  order.journal.rows.any fun row => row.reference = reference ∧ (row.phase = .succeeded ∨ row.phase = .failed)

def CallStage.recordsPending : CallStage → Bool
  | .recording .pending _ => true
  | _ => false

-- A request that found the outcome unknown records its pending adjustment before a reconciliation journals the
-- outcome, or while one has still to set the adjustment's status.
def HostedStep.Timely (order : HostedOrder) : HostedStep → Prop
  | .advance number _ => ∀ call ∈ order.calls.find? number, call.stage.recordsPending = true →
      (order.adjustments.find? (.refund call.reference)).isSome = true ∨ order.final call.reference = false ∨
        order.checks.any (·.aboutToSet call.reference) = true
  | _ => True

def TimelyAlong : HostedOrder → List HostedStep → Prop
  | _, [] => True
  | order, step :: rest => step.Timely order ∧ TimelyAlong (order.step step) rest

instance (order : HostedOrder) : (step : HostedStep) → Decidable (step.Timely order)
  | .advance number _ =>
      inferInstanceAs (Decidable (∀ call ∈ order.calls.find? number, call.stage.recordsPending = true → _))
  | .request .. | .crash .. | .decideVerdict .. | .select .. | .check .. | .crashCheck .. | .adjust .. =>
      inferInstanceAs (Decidable True)

instance decidableTimelyAlong : (order : HostedOrder) → (steps : List HostedStep) →
    Decidable (TimelyAlong order steps)
  | _, [] => inferInstanceAs (Decidable True)
  | order, step :: rest =>
      have := decidableTimelyAlong (order.step step) rest
      inferInstanceAs (Decidable (step.Timely order ∧ _))

end Settlements

end AgenticOrg.Commerce.Hosted
