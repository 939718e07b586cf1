import Mathlib.Data.List.Basic
import Mathlib.Algebra.Order.Ring.Int

namespace AgenticOrg.Commerce.Idempotency

section Requests

inductive Operation where
  | createCheckout
  | updateCheckout
  | completeCheckout
  | cancelCheckout
  | createCart
  | updateCart
  | cancelCart
  deriving DecidableEq

def Operation.name : Operation → String
  | .createCheckout => "create_checkout"
  | .updateCheckout => "update_checkout"
  | .completeCheckout => "complete_checkout"
  | .cancelCheckout => "cancel_checkout"
  | .createCart => "create_cart"
  | .updateCart => "update_cart"
  | .cancelCart => "cancel_cart"

structure WriteRequest where
  operation : Operation
  resourceId : Option String
  rawBody : String
  deriving DecidableEq

def WriteRequest.resource (request : WriteRequest) : String := request.resourceId.getD ""

-- What a record keeps of the operation.
def WriteRequest.operationKey (request : WriteRequest) : String :=
  request.operation.name ++ ":" ++ request.resource

structure Answer where
  status : ℕ
  body : String
  deriving DecidableEq

end Requests

section Records

-- In seconds: 48 hours.
def RETENTION : ℤ := 48 * 3600

-- The row of one tenant, merchant and key. The body stands for its SHA-256.
structure Row where
  operation : String
  body : String
  complete : Bool
  response : Option Answer
  createdAt : ℤ
  expiresAt : ℤ
  deriving DecidableEq

-- A request in `claim`: the time it read, and whether its insert met a row.
structure Claim where
  id : ℕ
  request : WriteRequest
  now : ℤ
  conflicted : Bool
  deriving DecidableEq

-- A request that claimed the key, with what it answered.
structure Execution where
  id : ℕ
  request : WriteRequest
  claimedAt : ℤ
  answer : Option Answer
  deriving DecidableEq

inductive Event where
  | started (id : ℕ) (request : WriteRequest) (claimedAt at_ : ℤ)
  | released (id : ℕ) (answer : Answer)
  | stored (id : ℕ) (answer : Answer)
  | replayed (answer : Answer)
  deriving DecidableEq

-- One key with the requests that carry it; the newest event comes first.
structure KeyState where
  clock : ℤ
  row : Option Row
  claims : List Claim
  executions : List Execution
  next : ℕ
  history : List Event
  deriving DecidableEq

end Records

section Steps

inductive KeyStep where
  | tick (elapsed : ℕ)
  | begin (request : WriteRequest)
  -- The two statements of `claim`.
  | insert (id : ℕ)
  | select (id : ℕ)
  -- The operation's answer, and `store`.
  | finish (id : ℕ) (answer : Answer)
  | store (id : ℕ)
  -- The process dies, or a statement of it fails.
  | crash (id : ℕ)
  -- `prune_expired` with the time it read.
  | prune (now : ℤ)

variable (state : KeyState)

def KeyState.dropClaim (id : ℕ) : KeyState := { state with claims := state.claims.filter (·.id ≠ id) }

def newRow (claim : Claim) : Row where
  operation := claim.request.operationKey
  body := claim.request.rawBody
  complete := false
  response := none
  createdAt := claim.now
  expiresAt := claim.now + RETENTION

-- The key is claimed and the operation runs.
def KeyState.take (claim : Claim) : KeyState :=
  { state.dropClaim claim.id with
    row := some (newRow claim)
    executions := ⟨claim.id, claim.request, claim.now, none⟩ :: state.executions
    history := .started claim.id claim.request claim.now state.clock :: state.history }

def KeyState.insertClaim (claim : Claim) : KeyState :=
  match state.row with
  | none => state.take claim
  | some _ => { state.dropClaim claim.id with claims := { claim with conflicted := true } :: (state.dropClaim claim.id).claims }

def KeyState.selectClaim (claim : Claim) : KeyState :=
  match state.row with
  | none => state.dropClaim claim.id
  | some row =>
      if row.expiresAt ≤ claim.now then state.take claim
      else if row.operation ≠ claim.request.operationKey ∨ row.body ≠ claim.request.rawBody then
        state.dropClaim claim.id
      else if !row.complete then state.dropClaim claim.id
      else
        match row.response with
        | none => state.dropClaim claim.id
        | some answer => { state.dropClaim claim.id with history := .replayed answer :: state.history }

def KeyState.dropExecution (id : ℕ) : KeyState :=
  { state with executions := state.executions.filter (·.id ≠ id) }

-- An answer of 500 or above is not kept: the claim is released.
def KeyState.storeAnswer (execution : Execution) (answer : Answer) : KeyState :=
  if 500 ≤ answer.status then
    { state.dropExecution execution.id with
      row := none
      history := .released execution.id answer :: state.history }
  else
    { state.dropExecution execution.id with
      row := state.row.map fun row => { row with complete := true, response := some answer }
      history := .stored execution.id answer :: state.history }

def KeyState.step (state : KeyState) : KeyStep → KeyState
  | .tick elapsed => { state with clock := state.clock + elapsed }
  | .begin request =>
      { state with claims := ⟨state.next, request, state.clock, false⟩ :: state.claims, next := state.next + 1 }
  | .insert id =>
      match state.claims.find? fun claim => claim.id = id ∧ claim.conflicted = false with
      | none => state
      | some claim => state.insertClaim claim
  | .select id =>
      match state.claims.find? fun claim => claim.id = id ∧ claim.conflicted = true with
      | none => state
      | some claim => state.selectClaim claim
  | .finish id answer =>
      { state with
        executions := state.executions.map fun execution =>
          if execution.id = id ∧ execution.answer = none then { execution with answer := some answer }
          else execution }
  | .store id =>
      match state.executions.find? fun execution => execution.id = id with
      | none => state
      | some execution =>
          match execution.answer with
          | none => state
          | some answer => state.storeAnswer execution answer
  | .crash id => (state.dropClaim id).dropExecution id
  | .prune now =>
      if now ≤ state.clock then { state with row := state.row.filter fun row => now < row.expiresAt } else state

def KeyState.run (steps : List KeyStep) : KeyState := steps.foldl KeyState.step state

-- A key nobody has used.
structure NewKey : Prop where
  row : state.row = none
  claims : state.claims = []
  executions : state.executions = []
  history : state.history = []

-- A request stores its answer within the retention time from its claim.
def TimelyStep : KeyStep → Prop
  | .store id => ∀ execution ∈ state.executions, execution.id = id → state.clock < execution.claimedAt + RETENTION
  | _ => True

def TimelyAlong (state : KeyState) : List KeyStep → Prop
  | [] => True
  | step :: rest => TimelyStep state step ∧ TimelyAlong (state.step step) rest

end Steps

end AgenticOrg.Commerce.Idempotency
