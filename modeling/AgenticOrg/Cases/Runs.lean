import AgenticOrg.Cases.Investigation

namespace AgenticOrg.Cases

section Operations

variable (case : Case)

def withDispositions (records : List (String × String)) : Case :=
  { case with
    agentRecords := case.agentRecords ++ records.map fun record => ⟨.screeningDisposition, record.1, record.2⟩ }

-- The records of the disposition runs, or what one of them raised; the case is to be awaiting a decision.
def disposeScreeningHits (records : Except Fault (List (String × String))) : Except Raised Case := do
  if case.state ≠ .awaitingDecision then .error (.refused .transitionNotAllowed)
  else
    let kept ← raisedFault records
    return recordUpdate (withDispositions case kept)

-- A decision that was verified, by its outcome.
def decideCase (verified : Except CaseError String) : Except CaseError Case := do
  if case.state ≠ .awaitingDecision then .error .transitionNotAllowed
  else
    let outcome ← verified
    transition case .decided ("decision_" ++ outcome)

-- Each is one call; the last is a change of its documents, as when its passages are forgotten.
inductive Operation where
  | investigate (callees : Callees) (reason : String) (keepStateOnFailure : Bool) (updates : ℕ)
  | dispose (records : Except Fault (List (String × String)))
  | decide (verified : Except CaseError String)
  | withdraw
  | update

-- Whether the operation is a decision.
def Operation.decides : Operation → Bool
  | .decide _ => true
  | _ => false

-- What raises is rolled back.
def orKept {ε : Type} (result : Except ε Case) : Case := result.toOption.getD case

def step : Operation → Case
  | .investigate callees reason keepStateOnFailure updates =>
      (investigateCase callees case reason keepStateOnFailure updates).1
  | .dispose records => orKept case (disposeScreeningHits case records)
  | .decide verified => orKept case (decideCase case verified)
  | .withdraw => orKept case (transition case .withdrawn "withdrawn")
  | .update => recordUpdate case

def run (operations : List Operation) : Case := operations.foldl step case

end Operations

section Events

variable (case : Case)

-- The versions at which the case came to await a decision, in their order.
def Case.arrivals : List ℕ :=
  (case.transitions.filter fun entry => entry.target = .awaitingDecision).map Transition.version

def Case.eventsAt (version : ℕ) : List EventType :=
  (case.outbox.filter fun event => event.version = version).map PushEvent.type

def Case.arrivalEvents : List (List EventType) := case.arrivals.map case.eventsAt

def ANNOUNCED : List CaseState := [.awaitingDecision, .decided, .withdrawn, .failed]

-- The first is told as a completed case, each later one as an updated case.
def InOrder (events : List (List EventType)) : Prop :=
  (∀ told ∈ events.take 1, told = [.completed]) ∧ ∀ told ∈ events.drop 1, told = [.updated]

-- Every change has its own version, and an announced one its one event.
structure Recorded : Prop where
  versioned : Versioned case
  one : ∀ entry ∈ case.transitions, entry.target ∈ ANNOUNCED → (case.eventsAt entry.version).length = 1
  ids : (case.outbox.map PushEvent.version).Nodup
  versions : (case.transitions.map Transition.version).Nodup

structure Announced : Prop extends Recorded case where
  inOrder : InOrder case.arrivalEvents

end Events

end AgenticOrg.Cases
