import AgenticOrg.Tools.RateLimiter
import Mathlib.Data.Rat.Floor

namespace AgenticOrg.Governance.ModelGatewayLimits

open Tools.RateLimiter (Bucket evaluate perMinute)

section Limits

-- A provider-wide limit has no model.
structure Limit where
  id : String
  provider : String
  model : Option String
  enabled : Bool
  maxConcurrency : Option ℕ
  requestsPerMinute : Option ℕ
  deriving DecidableEq

-- `normal` is Python's `strip` and then its `lower`.
def Limit.appliesTo (normal : String → String) (limit : Limit) (provider : Option String) (model : String) : Bool :=
  normal (provider.getD "") = normal limit.provider && limit.model.all fun own => normal own = normal model

structure Key where
  tenantId : String
  limitId : String
  deriving DecidableEq

inductive Check where
  | rate (key : Key) (rpm : ℕ)
  | concurrency (key : Key) (maximum : ℕ)
  deriving DecidableEq

-- What a call is checked against under one limit, in the order of the checks.
def checksOf (tenantId : String) (limit : Limit) : List Check :=
  (limit.requestsPerMinute.toList.map fun rpm => .rate ⟨tenantId, limit.id⟩ rpm) ++
    limit.maxConcurrency.toList.map fun maximum => .concurrency ⟨tenantId, limit.id⟩ maximum

def applicable (normal : String → String) (provider : Option String) (model : String) (limits : List Limit) :
    List Limit :=
  limits.filter fun limit => limit.enabled && limit.appliesTo normal provider model

def Check.slotKey : Check → Option Key
  | .rate _ _ => none
  | .concurrency key _ => some key

end Limits

section Store

-- The leases of one key by their expiry, and when the key itself is gone.
structure LeaseSet where
  entries : List (String × ℚ)
  expiresAt : ℚ
  deriving DecidableEq

-- The clock is the store's own; a call brings the reading of its process.
structure Store where
  leases : Key → LeaseSet
  rates : Key → Option Bucket
  clock : ℚ

def Store.setLeases (store : Store) (key : Key) (set : LeaseSet) : Store :=
  { store with leases := fun other => if other = key then set else store.leases other }

def Store.setRate (store : Store) (key : Key) (bucket : Bucket) : Store :=
  { store with rates := fun other => if other = key then some bucket else store.rates other }

def pruned (set : LeaseSet) (now : ℚ) : List (String × ℚ) := set.entries.filter fun entry => now < entry.2

def without (lease : String) (entries : List (String × ℚ)) : List (String × ℚ) :=
  entries.filter fun entry => entry.1 ≠ lease

structure Acquired where
  admitted : Bool
  inFlight : ℕ
  deriving DecidableEq

-- The script of an acquisition, run as one.
def acquire (store : Store) (key : Key) (now : ℚ) (expiry : ℚ) (maximum : ℕ) (lease : String) : Acquired × Store :=
  let set := store.leases key
  let entries := pruned set now
  if maximum ≤ entries.length then
    (⟨false, entries.length⟩, store.setLeases key ⟨entries, set.expiresAt⟩)
  else
    (⟨true, entries.length + 1⟩,
      store.setLeases key ⟨without lease entries ++ [(lease, expiry)], store.clock + (⌈expiry - now⌉ + 1)⟩)

def Store.remove (store : Store) (key : Key) (lease : String) : Store :=
  store.setLeases key { store.leases key with entries := without lease (store.leases key).entries }

-- Keys whose time has come are gone.
def Store.tick (store : Store) (later : ℚ) : Store :=
  { store with
    clock := max store.clock later
    leases := fun key =>
      if (store.leases key).expiresAt ≤ max store.clock later then ⟨[], (store.leases key).expiresAt⟩
      else store.leases key }

end Store

section Calls

-- The slot a call was given, the maximum it was admitted under, and when its key goes unless acquired again.
structure Slot where
  key : Key
  maximum : ℕ
  expiry : ℚ
  deadline : ℚ
  deriving DecidableEq

structure LimitRejected where
  check : Check
  retryAfter : ℚ
  inFlight : ℕ
  deriving DecidableEq

inductive Outcome where
  | rejected (rejection : LimitRejected)
  | unavailable
  | ended
  deriving DecidableEq

-- A call is checked, works, and gives its slots back key by key; one that is refused, or whose checks broke off, gives
-- back those it has so far, and the latter then works without.
inductive Stage where
  | checking (todo : List Check)
  | working
  | leaving (keys : List Key) (outcome : Outcome)
  | dead
  deriving DecidableEq

-- One admission. `faulty` is set where the store did not answer one of its commands or its process died, and `lost`
-- has the keys on which nobody gives its lease back.
structure Call where
  lease : String
  now : ℚ
  connected : Bool
  checks : List Check
  checked : List Check
  held : List Slot
  stage : Stage
  unavailable : Bool
  faulty : Bool
  lost : List Key
  deriving DecidableEq

-- Whether the store answers a command; unanswered, it may have run all the same.
inductive Answered where
  | yes
  | notRun
  | lost
  deriving DecidableEq

variable (leaseSeconds : ℚ)

def Call.expiry (call : Call) : ℚ := call.now + leaseSeconds

-- A check at the store: why it refuses the call, where it does.
def perform (store : Store) (call : Call) : Check → Option LimitRejected × Store
  | .rate key rpm =>
      let (answer, bucket) := evaluate (perMinute rpm) (store.rates key) call.now
      (if answer.allowed then none else some ⟨.rate key rpm, max answer.retryAfter (1 / 1000), 0⟩,
        store.setRate key bucket)
  | .concurrency key maximum =>
      let (acquired, store) := acquire store key call.now (call.expiry leaseSeconds) maximum call.lease
      (if acquired.admitted then none else some ⟨.concurrency key maximum, 1, acquired.inFlight⟩, store)

def heldKeys (call : Call) : List Key := call.held.map Slot.key

def slotOf (store : Store) (call : Call) : Check → Option Slot
  | .rate _ _ => none
  | .concurrency key maximum =>
      some ⟨key, maximum, call.expiry leaseSeconds, store.clock + (⌈call.expiry leaseSeconds - call.now⌉ + 1)⟩

def passed (store : Store) (call : Call) (check : Check) (todo : List Check) : Call :=
  { call with
    checked := call.checked ++ [check]
    held := call.held ++ (slotOf leaseSeconds store call check).toList
    stage := .checking todo }

-- The checks broke off: the slots so far are given back, and the keys on which a lease was left are nobody's.
def brokenOff (call : Call) (left : List Key) : Call :=
  { call with stage := .leaving (heldKeys call) .unavailable, faulty := true, lost := call.lost ++ left }

-- The next command of an admission; an exception breaks the checks off.
def checkNext (store : Store) (call : Call) (check : Check) (todo : List Check) (answered : Answered) : Store × Call :=
  match answered with
  | .notRun => (store, brokenOff call [])
  | .lost =>
      match perform leaseSeconds store call check with
      | (none, after) => (after, brokenOff call check.slotKey.toList)
      | (some _, after) => (after, brokenOff call [])
  | .yes =>
      match perform leaseSeconds store call check with
      | (none, after) => (after, passed leaseSeconds store call check todo)
      | (some rejection, after) =>
          (after, { call with
            checked := call.checked ++ [check]
            stage := .leaving (heldKeys call) (.rejected rejection) })

def leaveNext (store : Store) (call : Call) (key : Key) (rest : List Key) (outcome : Outcome) (answered : Answered) :
    Store × Call :=
  (if answered = .notRun then store else store.remove key call.lease,
    { call with
      stage := .leaving rest outcome
      faulty := call.faulty || answered ≠ .yes
      lost := call.lost ++ if answered = .notRun then [key] else [] })

def Call.command (store : Store) (call : Call) (answered : Answered) : Store × Call :=
  match call.stage with
  | .checking [] => (store, { call with stage := .working })
  | .checking (check :: todo) => checkNext leaseSeconds store call check todo answered
  | .leaving (key :: rest) outcome => leaveNext store call key rest outcome answered
  | .leaving [] .unavailable => (store, { call with stage := .working, held := [], unavailable := true })
  | _ => (store, call)

-- The work is over; a store that cannot be reached keeps the slots until they expire.
def Call.finish (call : Call) (connected : Bool) : Call :=
  if call.stage = .working then
    { call with
      stage := .leaving (if connected then heldKeys call else []) .ended
      faulty := call.faulty || !(connected || call.held.isEmpty)
      lost := call.lost ++ if connected then [] else heldKeys call }
  else call

-- The keys on which a call is still to give its lease back.
def Call.owes (call : Call) : List Key :=
  match call.stage with
  | .leaving keys _ => keys
  | .dead => []
  | _ => heldKeys call

-- The process of a call is gone.
def Call.die (call : Call) : Call := { call with stage := .dead, faulty := true, lost := call.lost ++ call.owes }

-- The key an acquisition ran on, where the next command is one that ran.
def Call.reading (call : Call) (answered : Answered) : Option (Key × ℚ) :=
  match call.stage with
  | .checking (.concurrency key _ :: _) => if answered = .notRun then none else some (key, call.now)
  | _ => none

end Calls

section System

-- All the calls there have been, and the readings that acquisitions ran with.
structure System where
  store : Store
  calls : List Call
  readings : List (Key × ℚ)

def newSystem (clock : ℚ) : System := ⟨⟨fun _ => ⟨[], clock⟩, fun _ => none, clock⟩, [], []⟩

inductive Step where
  | tick (later : ℚ)
  | admission (lease : String) (tenantId : String) (provider : Option String) (model : String) (limits : List Limit)
      (now : ℚ) (connected : Bool)
  | command (lease : String) (answered : Answered)
  | finish (lease : String) (connected : Bool)
  | die (lease : String)

variable (normal : String → String) (leaseSeconds : ℚ) (system : System)

-- Where no limit applies the store is not asked; where it cannot be reached the call works without a slot.
def newCall (lease : String) (tenantId : String) (limits : List Limit) (now : ℚ) (connected : Bool) : Call where
  lease := lease
  now := now
  connected := connected
  checks := limits.flatMap (checksOf tenantId)
  checked := []
  held := []
  stage := if connected = true ∨ limits = [] then .checking (limits.flatMap (checksOf tenantId)) else .working
  unavailable := !(connected || limits.isEmpty)
  faulty := false
  lost := []

def System.update (lease : String) (change : Call → Call) : System :=
  { system with calls := system.calls.map fun call => if call.lease = lease then change call else call }

def System.command (call : Call) (answered : Answered) : System :=
  let (store, after) := call.command leaseSeconds system.store answered
  { store
    calls := system.calls.map fun other => if other.lease = call.lease then after else other
    readings := system.readings ++ (call.reading answered).toList }

-- A lease id is used once.
def System.step : Step → System
  | .tick later => { system with store := system.store.tick later }
  | .admission lease tenantId provider model limits now connected =>
      if lease ∈ system.calls.map Call.lease then system
      else
        { system with
          calls := system.calls ++
            [newCall lease tenantId (applicable normal provider model limits) now connected] }
  | .command lease answered =>
      match system.calls.find? (·.lease = lease) with
      | none => system
      | some call => system.command leaseSeconds call answered
  | .finish lease connected => system.update lease fun call => call.finish connected
  | .die lease => system.update lease Call.die

def System.run (steps : List Step) : System := steps.foldl (System.step normal leaseSeconds) system

end System

section Claims

variable (system : System)

-- No reading brought to the key has reached the slot's expiry, and the key was not left alone until it went.
def System.live (slot : Slot) : Bool :=
  (system.readings.all fun reading => reading.1 ≠ slot.key || decide (reading.2 < slot.expiry)) &&
    decide (system.store.clock < slot.deadline)

def Call.inFlight (call : Call) : Bool :=
  match call.stage with
  | .checking _ => true
  | .working => true
  | _ => false

def System.hasLease (key : Key) (lease : String) : Prop :=
  ∃ entry ∈ (system.store.leases key).entries, entry.1 = lease

end Claims

end AgenticOrg.Governance.ModelGatewayLimits
