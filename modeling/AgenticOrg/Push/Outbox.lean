import Mathlib.Algebra.Order.Ring.Int
import AgenticOrg.Lib.Table

namespace AgenticOrg.Push

open Tables

section Rows

inductive DeliveryStatus where
  | pending
  | delivered
  | deadLettered
  deriving DecidableEq

structure Delivery where
  id : ℕ
  status : DeliveryStatus
  attempts : ℕ
  nextAttemptAt : ℤ
  payloadInvalid : Bool
  deriving DecidableEq

instance : Keyed Delivery ℕ := ⟨Delivery.id⟩

-- The delay after a failed attempt is a function of its number and of the row.
structure PushSettings where
  maxAttempts : ℕ
  leaseSeconds : ℤ
  retryDelay : ℕ → ℕ → ℤ

structure SendResult where
  error : String
  statusCode : Option ℕ
  deriving DecidableEq

def RETRYABLE_STATUS : List ℕ := [408, 425, 429]

def SendResult.retryable (result : SendResult) : Bool :=
  match result.statusCode with
  | none => true
  | some code => RETRYABLE_STATUS.contains code || 500 ≤ code

def SendResult.succeeded (result : SendResult) : Bool := result.error = ""

-- A row that a run has leased and not written back yet.
structure Attempt where
  run : ℕ
  rowId : ℕ
  number : ℕ
  leaseUntil : ℤ
  result : Option SendResult
  deriving DecidableEq

inductive OutboxEvent where
  | attempted (rowId : ℕ)
  | sent (rowId : ℕ) (result : SendResult)
  | replayed (rowId : ℕ)
  deriving DecidableEq

-- A tenant's outbox with the runs that work on it; the newest event comes first.
structure Outbox where
  rows : Table Delivery
  attempts : List Attempt
  runs : ℕ
  history : List OutboxEvent
  deriving DecidableEq

end Rows

section Steps

variable (settings : PushSettings) (outbox : Outbox)

-- The first transaction of a run: rows that are due, as many as the batch and the locks of others leave it.
def Delivery.due (row : Delivery) (now : ℤ) : Bool := row.status = .pending && row.nextAttemptAt ≤ now

def Outbox.chosen (now : ℤ) (ids : List ℕ) : List Delivery :=
  outbox.rows.rows.filter fun row => row.due now && ids.contains row.id

-- A row whose subscription or order is gone is dead-lettered at once.
def PushSettings.leased (row : Delivery) (now : ℤ) (disabled : Bool) : Delivery :=
  { row with
    attempts := row.attempts + 1
    nextAttemptAt := now + settings.leaseSeconds
    status := if disabled then .deadLettered else row.status }

def Outbox.lease (now : ℤ) (ids disabled : List ℕ) : Outbox where
  rows := outbox.rows.map
    (fun row => if row.due now && ids.contains row.id then settings.leased row now (disabled.contains row.id) else row)
    (fun row => by split <;> rfl)
  attempts := ((outbox.chosen now ids).filter fun row => !disabled.contains row.id).map
    (fun row => ⟨outbox.runs, row.id, row.attempts + 1, now + settings.leaseSeconds, none⟩) ++ outbox.attempts
  runs := outbox.runs + 1
  history := (outbox.chosen now ids).map (fun row => .attempted row.id) ++ outbox.history

def Outbox.send (run rowId : ℕ) (result : SendResult) : Outbox :=
  { outbox with
    attempts := outbox.attempts.map fun attempt =>
      if attempt.run = run ∧ attempt.rowId = rowId ∧ attempt.result = none then
        { attempt with result := some result }
      else attempt
    history :=
      if outbox.attempts.any fun attempt =>
          attempt.run = run ∧ attempt.rowId = rowId ∧ attempt.result = none then
        .sent rowId result :: outbox.history
      else outbox.history }

-- What a result makes of its row, by the row's id alone.
def PushSettings.settled (row : Delivery) (finished : ℤ) (attempt : Attempt) (result : SendResult) : Delivery :=
  if result.succeeded then { row with status := .delivered, payloadInvalid := false }
  else if result.retryable && attempt.number < settings.maxAttempts then
    { row with nextAttemptAt := finished + settings.retryDelay attempt.number row.id, payloadInvalid := false }
  else { row with status := .deadLettered, payloadInvalid := false }

def Outbox.attemptOf (run rowId : ℕ) : Option Attempt :=
  outbox.attempts.find? fun attempt => attempt.run = run ∧ attempt.rowId = rowId

def PushSettings.reported (row : Delivery) (finished : ℤ) (attempt : Option Attempt) : Delivery :=
  match attempt with
  | none => row
  | some attempt =>
      match attempt.result with
      | none => row
      | some result => settings.settled row finished attempt result

theorem PushSettings.reported_id (row : Delivery) (finished : ℤ) (attempt : Option Attempt) :
    (settings.reported row finished attempt).id = row.id := by
  unfold PushSettings.reported PushSettings.settled
  split
  · rfl
  · split
    · rfl
    · split_ifs
      · rfl
      · rfl
      · rfl

-- The second transaction: the results of the whole batch, once all of it was sent.
def Outbox.report (run : ℕ) (finished : ℤ) : Outbox :=
  if outbox.attempts.any fun attempt => attempt.run = run ∧ attempt.result = none then outbox
  else
    { outbox with
      rows := outbox.rows.map (fun row => settings.reported row finished (outbox.attemptOf run row.id))
        fun row => settings.reported_id row finished (outbox.attemptOf run row.id)
      attempts := outbox.attempts.filter (·.run ≠ run) }

-- The lease of a worker that crashed expires.
def Outbox.crash (run : ℕ) : Outbox := { outbox with attempts := outbox.attempts.filter (·.run ≠ run) }

def Delivery.replayed (row : Delivery) (now : ℤ) : Delivery :=
  { row with status := .pending, attempts := 0, nextAttemptAt := now, payloadInvalid := false }

-- A payload that was invalid has to be built again.
def Outbox.replayDeadLetter (rowId : ℕ) (now : ℤ) (rebuilt : Bool) : Outbox :=
  match outbox.rows.find? rowId with
  | none => outbox
  | some row =>
      if row.status ≠ .deadLettered ∨ (row.payloadInvalid ∧ !rebuilt) then outbox
      else
        { outbox with
          rows := outbox.rows.modify rowId (·.replayed now) fun _ => rfl
          history := .replayed rowId :: outbox.history }

-- A row's event id is unique: it is written once.
def Outbox.enqueue (rowId : ℕ) (now : ℤ) (invalid : Bool) : Outbox :=
  match outbox.rows.insert? ⟨rowId, if invalid then .deadLettered else .pending, 0, now, invalid⟩ with
  | none => outbox
  | some rows => { outbox with rows }

-- Order webhooks have no replay and their payloads are never invalid; a case push has no subscription to disable.
inductive OutboxStep where
  | enqueue (rowId : ℕ) (now : ℤ) (invalid : Bool)
  | lease (now : ℤ) (ids disabled : List ℕ)
  | send (run rowId : ℕ) (result : SendResult)
  | report (run : ℕ) (finished : ℤ)
  | crash (run : ℕ)
  | replay (rowId : ℕ) (now : ℤ) (rebuilt : Bool)

def Outbox.step (outbox : Outbox) : OutboxStep → Outbox
  | .enqueue rowId now invalid => outbox.enqueue rowId now invalid
  | .lease now ids disabled => outbox.lease settings now ids disabled
  | .send run rowId result => outbox.send run rowId result
  | .report run finished => outbox.report settings run finished
  | .crash run => outbox.crash run
  | .replay rowId now rebuilt => outbox.replayDeadLetter rowId now rebuilt

def Outbox.run (outbox : Outbox) (steps : List OutboxStep) : Outbox := steps.foldl (Outbox.step settings) outbox

def emptyOutbox : Outbox := ⟨Table.empty, [], 0, []⟩

end Steps

end AgenticOrg.Push
