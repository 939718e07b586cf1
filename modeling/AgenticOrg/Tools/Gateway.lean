import Mathlib.Data.List.Basic
import Mathlib.Algebra.Order.Ring.Int

namespace AgenticOrg.Tools

section Store

-- In seconds: 24 hours for a result, 5 minutes for a reservation.
def IDEMPOTENCY_TTL : ℤ := 86400

def RESERVATION_TTL : ℤ := 300

-- What a connector returns, as far as the gateway looks into it: a dictionary by whether its `error` and its
-- `__idempotency_pending__` are truthy.
inductive ToolResult where
  | null
  | dict (error pending : Bool) (text : String)
  | other (text : String)
  deriving DecidableEq

-- An error is no completed side effect.
def ToolResult.failed : ToolResult → Bool
  | .dict error _ _ => error
  | _ => false

inductive Content where
  | pending
  | result (result : ToolResult)
  deriving DecidableEq

-- The value of the key. Who wrote it is not stored and no step reads it.
structure Entry where
  content : Content
  expiresAt : ℤ
  writtenBy : ℕ
  deriving DecidableEq

-- What `reserve` makes of a key that is taken: a result, or a call in flight.
def Entry.cached (entry : Entry) : Option ToolResult :=
  match entry.content with
  | .pending => none
  | .result .null => none
  | .result (.dict error pending text) => if pending then none else some (.dict error pending text)
  | .result result => some result

end Store

section Calls

inductive CallStage where
  | reserving
  -- The key was taken; it is read next.
  | taken
  | reserved
  -- The registry refused the call, or there is no connector.
  | refused
  | invoking
  | returned (result : ToolResult)
  -- The result is stored or the reservation released; the audit row is written next.
  | recorded
  -- In the exception handler.
  | failing
  deriving DecidableEq

structure Call where
  id : ℕ
  reservedAt : ℤ
  stage : CallStage
  deriving DecidableEq

-- The call has the key and has still to store a result or to release it.
def Call.holding (call : Call) : Bool :=
  match call.stage with
  | .reserving | .taken | .recorded => false
  | _ => true

inductive CallEvent where
  | reserved (id : ℕ) (at_ : ℤ)
  | replied (id : ℕ) (cached : Option ToolResult) (at_ : ℤ)
  | invoked (id : ℕ) (at_ : ℤ)
  | stored (id : ℕ) (result : ToolResult) (at_ : ℤ)
  deriving DecidableEq

-- One key of a tenant and company with the calls that carry it; the newest event comes first.
structure Gateway where
  clock : ℤ
  entry : Option Entry
  calls : List Call
  next : ℕ
  history : List CallEvent
  deriving DecidableEq

variable (gateway : Gateway)

-- Redis drops an entry when its time is over.
def Gateway.entry? : Option Entry := gateway.entry.filter fun entry => gateway.clock < entry.expiresAt

def Gateway.drop (id : ℕ) : Gateway := { gateway with calls := gateway.calls.filter (·.id ≠ id) }

def Gateway.setStage (call : Call) (stage : CallStage) : Gateway :=
  { gateway with calls := { call with stage } :: (gateway.drop call.id).calls }

def Gateway.log (event : CallEvent) : Gateway := { gateway with history := event :: gateway.history }

def Gateway.find (id : ℕ) (stage : CallStage) : Option Call :=
  gateway.calls.find? fun call => call.id = id ∧ call.stage = stage

end Calls

section Steps

inductive CallStep where
  | tick (elapsed : ℕ)
  | begin
  -- `SET NX`, and `GET` when it was refused.
  | reserve (id : ℕ)
  | read (id : ℕ)
  | refuse (id : ℕ)
  | invoke (id : ℕ)
  | returns (id : ℕ) (result : ToolResult)
  | raises (id : ℕ)
  -- The result is stored, or the reservation released for an error; or that is not done; or it is, and its reply lost.
  | record (id : ℕ) (result : ToolResult)
  | recordFails (id : ℕ) (result : ToolResult)
  | recordLost (id : ℕ) (result : ToolResult)
  | audit (id : ℕ) (written : Bool)
  | release (id : ℕ) (stage : CallStage)
  -- The process dies, or an exception leaves `execute`.
  | abandon (id : ℕ)

def Gateway.reserve (gateway : Gateway) (call : Call) : Gateway :=
  match gateway.entry? with
  | some _ => gateway.setStage call .taken
  | none =>
      { gateway.setStage { call with reservedAt := gateway.clock } .reserved with
        entry := some ⟨.pending, gateway.clock + RESERVATION_TTL, call.id⟩ }.log (.reserved call.id gateway.clock)

-- The store's part, after which the call goes on at a stage.
def Gateway.record (gateway : Gateway) (call : Call) (result : ToolResult) (stage : CallStage) : Gateway :=
  if result.failed then { gateway.setStage call stage with entry := none }
  else
    { gateway.setStage call stage with
      entry := some ⟨.result result, gateway.clock + IDEMPOTENCY_TTL, call.id⟩ }.log
      (.stored call.id result gateway.clock)

-- A step of a call that is at another stage does nothing.
def Gateway.step (gateway : Gateway) : CallStep → Gateway
  | .tick elapsed => { gateway with clock := gateway.clock + elapsed }
  | .begin =>
      { gateway with
        calls := ⟨gateway.next, gateway.clock, .reserving⟩ :: gateway.calls
        next := gateway.next + 1 }
  | .reserve id =>
      match gateway.find id .reserving with
      | some call => gateway.reserve call
      | none => gateway
  | .read id =>
      match gateway.find id .taken with
      | some call => (gateway.drop call.id).log (.replied call.id (gateway.entry?.bind Entry.cached) gateway.clock)
      | none => gateway
  | .refuse id =>
      match gateway.find id .reserved with
      | some call => gateway.setStage call .refused
      | none => gateway
  | .invoke id =>
      match gateway.find id .reserved with
      | some call => (gateway.setStage call .invoking).log (.invoked call.id gateway.clock)
      | none => gateway
  | .returns id result =>
      match gateway.find id .invoking with
      | some call => gateway.setStage call (.returned result)
      | none => gateway
  | .raises id =>
      match gateway.find id .invoking with
      | some call => gateway.setStage call .failing
      | none => gateway
  | .record id result =>
      match gateway.find id (.returned result) with
      | some call => gateway.record call result .recorded
      | none => gateway
  | .recordFails id result =>
      match gateway.find id (.returned result) with
      | some call => gateway.setStage call .failing
      | none => gateway
  | .recordLost id result =>
      match gateway.find id (.returned result) with
      | some call => gateway.record call result .failing
      | none => gateway
  | .audit id written =>
      match gateway.find id .recorded with
      | some call => if written then gateway.drop call.id else gateway.setStage call .failing
      | none => gateway
  | .release id stage =>
      match gateway.find id stage with
      | some call =>
          if call.stage = .refused ∨ call.stage = .failing then { gateway.drop call.id with entry := none }
          else gateway
      | none => gateway
  | .abandon id => gateway.drop id

def Gateway.run (gateway : Gateway) (steps : List CallStep) : Gateway := steps.foldl Gateway.step gateway

structure NewGateway (gateway : Gateway) : Prop where
  entry : gateway.entry = none
  calls : gateway.calls = []
  history : gateway.history = []

-- A call finishes within the reservation time.
def TimelyStep (gateway : Gateway) : CallStep → Prop
  | .tick elapsed => ∀ call ∈ gateway.calls, call.stage ≠ .reserving → call.stage ≠ .taken →
      gateway.clock + elapsed < call.reservedAt + RESERVATION_TTL
  | _ => True

def TimelyAlong (gateway : Gateway) : List CallStep → Prop
  | [] => True
  | step :: rest => TimelyStep gateway step ∧ TimelyAlong (gateway.step step) rest

end Steps

end AgenticOrg.Tools
