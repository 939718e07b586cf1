import AgenticOrg.Lib.Table
import Mathlib.Algebra.BigOperators.Group.List.Basic
import Mathlib.Algebra.Order.BigOperators.Group.List
import Mathlib.Algebra.Order.Ring.Int
import Mathlib.Data.List.Dedup

namespace AgenticOrg.Commerce

open Tables

section Journal

inductive Operation where
  | createOrder
  | createPayment
  | capture
  | refund
  deriving DecidableEq

inductive Phase where
  | requested
  | succeeded
  | failed
  | unknown
  deriving DecidableEq

-- What an idempotency key is the digest of: the session and its decision, or the order and the refund request.
inductive Reference where
  | order (decisionId : ℕ)
  | refund (requestKey : String)
  deriving DecidableEq

-- One provider call of one checkout session.
structure OperationRecord where
  operation : Operation
  reference : Reference
  decisionId : ℕ
  amountMinorUnits : ℤ
  currency : String
  deriving DecidableEq

structure JournalEntry extends OperationRecord where
  phase : Phase
  providerRef : Option String
  deriving DecidableEq

-- uq_commerce_payment_operations
instance : Keyed JournalEntry (Reference × Operation × Phase) :=
  ⟨fun entry => (entry.reference, entry.operation, entry.phase)⟩

abbrev Journal := Table JournalEntry

def journalEntry (record : OperationRecord) (phase : Phase) (providerRef : Option String) : JournalEntry :=
  { record with phase, providerRef }

-- Nothing when the operation was already requested under the key.
def Journal.begin (journal : Journal) (record : OperationRecord) : Option Journal :=
  journal.insert? (journalEntry record .requested none)

-- Nothing when the phase is already there: the insert raises.
def Journal.finish (journal : Journal) (record : OperationRecord) (phase : Phase) (providerRef : Option String) :
    Option Journal :=
  journal.insert? (journalEntry record phase providerRef)

def Journal.recordOnce (journal : Journal) (record : OperationRecord) (phase : Phase)
    (providerRef : Option String) : Journal :=
  (journal.insert? (journalEntry record phase providerRef)).getD journal

def Journal.has (journal : Journal) (reference : Reference) (operation : Operation) (phase : Phase) : Bool :=
  (journal.find? (reference, operation, phase)).isSome

end Journal

section State

structure PaymentState where
  providerOrderRef : Option String
  currency : Option String
  capturedMinorUnits : ℤ
  refundedMinorUnits : ℤ
  deriving DecidableEq

def PaymentState.refundableMinorUnits (state : PaymentState) : ℤ :=
  max 0 (state.capturedMinorUnits - state.refundedMinorUnits)

-- The references an operation has rows of.
def references (operation : Operation) (rows : List JournalEntry) : List Reference :=
  ((rows.filter (·.operation = operation)).map (·.reference)).dedup

def hasPhase (rows : List JournalEntry) (operation : Operation) (phase : Phase) (reference : Reference) : Bool :=
  rows.any fun row => row.operation = operation ∧ row.reference = reference ∧ row.phase = phase

-- The amount the operation was requested with under the key, nothing when it was not.
def requestedAmount (rows : List JournalEntry) (operation : Operation) (reference : Reference) : ℤ :=
  ((rows.reverse.find? fun row => row.operation = operation ∧ row.reference = reference ∧ row.phase = .requested).map
    (·.amountMinorUnits)).getD 0

def capturedOf (rows : List JournalEntry) : ℤ :=
  (((references .capture rows).filter (hasPhase rows .capture .succeeded)).map
    (requestedAmount rows .capture)).sum

def refundedOf (rows : List JournalEntry) : ℤ :=
  (((references .refund rows).filter fun reference => !hasPhase rows .refund .failed reference).map
    (requestedAmount rows .refund)).sum

def paymentStateFrom (rows : List JournalEntry) : PaymentState where
  providerOrderRef :=
    (rows.reverse.find? fun row => row.operation = .createOrder ∧ row.phase = .succeeded).bind (·.providerRef)
  currency := (rows.find? fun row => row.phase = .requested ∧ row.currency ≠ "").map (·.currency)
  capturedMinorUnits := capturedOf rows
  refundedMinorUnits := refundedOf rows

end State

section Amounts

def amountProblem (amount : ℤ) (currency : String) (ceiling : ℤ) (allowanceMax : Option ℤ)
    (allowanceCurrency : Option String) (ceilingReason : String) : Option String :=
  if amount < 1 then some "amount_invalid"
  else
    match allowanceMax, allowanceCurrency with
    | some allowance, some allowed =>
        if allowed = "" then some "allowance_missing"
        else if currency = "" ∨ currency.toUpper ≠ allowed.toUpper then some "currency_mismatch"
        else if ceiling < amount then some ceilingReason
        else if allowance < amount then some "amount_exceeds_allowance"
        else none
    | _, _ => some "allowance_missing"

theorem amountProblem_none (amount : ℤ) (currency : String) (ceiling : ℤ) (allowanceMax : Option ℤ)
    (allowanceCurrency : Option String) (ceilingReason : String)
    (h : amountProblem amount currency ceiling allowanceMax allowanceCurrency ceilingReason = none) :
    1 ≤ amount ∧ amount ≤ ceiling := by
  unfold amountProblem at h
  split at h
  · cases h
  · split at h
    · split_ifs at h
      omega
    · cases h

end Amounts

end AgenticOrg.Commerce
