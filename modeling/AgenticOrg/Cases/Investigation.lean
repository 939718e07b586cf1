import AgenticOrg.Cases.Lifecycle
import AgenticOrg.Lib.Fallible
import Mathlib.Logic.Function.Iterate

namespace AgenticOrg.Cases

section Callees

-- What a callee may raise. `interrupted` is no `Exception`, so nothing here catches it.
inductive Fault where
  | policyLoad
  | evidenceService
  | other
  | interrupted
  deriving DecidableEq

structure UnderwritingOutcome where
  completed : Bool
  failureReason : String
  memo : Option Memo
  excerpts : List String
  deriving DecidableEq

-- What the callees of one investigation return or raise, where they are called.
structure Callees where
  -- whether the policies hold the case's own
  policies : Except Fault Bool
  provider : Except Fault Unit
  underwriter : Except Fault UnderwritingOutcome
  -- whether there is an evidence sink
  evidenceService : Except Fault Bool
  evidenceRecords : Except Fault Unit
  evidencePost : Except Fault Unit
  tenantKey : Except Fault Unit
  storeExcerpts : Except Fault Unit

end Callees

section Investigating

variable (callees : Callees)

-- Only a refused policy set counts as a missing policy.
def policyFound : Except Fault Bool :=
  match callees.policies with
  | .error .policyLoad => .ok false
  | result => result

-- Any `Exception` of it is a failure of the run.
def caught {α : Type} (result : Except Fault α) : Except Fault (Option α) :=
  match result with
  | .ok value => .ok (some value)
  | .error .interrupted => .error .interrupted
  | .error _ => .ok none

def recordRunEvidence : Except Fault Unit := do
  match ← caught callees.evidenceService with
  | some true => do
      callees.evidenceRecords
      match callees.evidencePost with
      | .error .evidenceService => .ok ()
      | result => result
  | _ => .ok ()

def failureOf : Option UnderwritingOutcome → String
  | none => "investigation_error"
  | some outcome => if outcome.completed then "" else outcome.failureReason

-- The run with no case locked: its outcome, where there is one, and why it failed, where it did.
def underwrite : Except Fault (Option UnderwritingOutcome × String) := do
  if ← policyFound callees then
    match ← caught callees.provider with
    | none => .ok (none, "provider_unavailable")
    | some () => do
        let outcome ← caught callees.underwriter
        if outcome.isSome then recordRunEvidence callees
        return (outcome, failureOf outcome)
  else return (none, "policy_not_configured")

inductive Raised where
  | fault (fault : Fault)
  | refused (error : CaseError)
  deriving DecidableEq

def statusText (outcome : UnderwritingOutcome) : String := if outcome.completed then "completed" else "failed"

def caseRecord (outcome : UnderwritingOutcome) : AgentRecord :=
  ⟨.businessUnderwriter, statusText outcome, outcome.failureReason⟩

def withRecord (case : Case) (outcome : Option UnderwritingOutcome) : Case :=
  { case with agentRecords := case.agentRecords ++ (outcome.map caseRecord).toList }

def failureReasonOf (failure : String) : String :=
  clipReason (if failure = "" then "investigation_failed" else failure)

-- The memo of an outcome, where it is to be saved.
def savedMemo (outcome : Option UnderwritingOutcome) (failure : String) : Option Memo :=
  if failure = "" then outcome.bind UnderwritingOutcome.memo else none

def raisedCase {α : Type} : Except CaseError α → Except Raised α
  | .ok value => .ok value
  | .error error => .error (.refused error)

def raisedFault {α : Type} : Except Fault α → Except Raised α
  | .ok value => .ok value
  | .error fault => .error (.fault fault)

-- The key is asked for only where there are passages to encrypt.
def keyNeeded (outcome : Option UnderwritingOutcome) : Bool :=
  outcome.any fun outcome => !outcome.excerpts.isEmpty

def tenantKey (outcome : Option UnderwritingOutcome) : Except Raised Unit :=
  if keyNeeded outcome then raisedFault callees.tenantKey else .ok ()

def storedMemo (case : Case) (outcome : Option UnderwritingOutcome) (memo : Memo) : Except Raised Case := do
  raisedFault callees.storeExcerpts
  raisedCase (transition { withRecord case outcome with failureReason := none, memo := some memo }
    .awaitingDecision "memo_ready")

def storedFailure (case : Case) (outcome : Option UnderwritingOutcome) (reason : String)
    (keepStateOnFailure : Bool) : Except Raised Case :=
  if keepStateOnFailure ∧ case.memo.isSome = true then
    raisedCase (transition (withRecord case outcome) .awaitingDecision
      (clipReason ("re_evaluation_failed:" ++ reason)))
  else
    raisedCase (transition { withRecord case outcome with failureReason := some reason } .failed reason)

def storedResult (case : Case) (outcome : Option UnderwritingOutcome) (failure : String)
    (keepStateOnFailure : Bool) : Except Raised Case :=
  match savedMemo outcome failure with
  | some memo => storedMemo callees case outcome memo
  | none => storedFailure case outcome (failureReasonOf failure) keepStateOnFailure

-- The write transaction: what it raises rolls it back.
def storeInvestigation (case : Case) (startedVersion : ℕ) (outcome : Option UnderwritingOutcome) (failure : String)
    (keepStateOnFailure : Bool) : Except Raised Case := do
  tenantKey callees outcome
  if case.version ≠ startedVersion then .error (.refused .versionConflict)
  else storedResult callees case outcome failure keepStateOnFailure

-- The run and what is made of it; the case may be updated by others while the agent runs.
def runAndStore (current : Case) (startedVersion : ℕ) (keepStateOnFailure : Bool) : Except Raised Case := do
  let ran ← raisedFault (underwrite callees)
  storeInvestigation callees current startedVersion ran.1 ran.2 keepStateOnFailure

-- What is stored when the call ends, and what it raises.
def leftAs (current : Case) : Except Raised Case → Case × Option Raised
  | .error raised => (current, some raised)
  | .ok stored => (stored, none)

def investigateCase (case : Case) (reason : String) (keepStateOnFailure : Bool) (updates : ℕ) :
    Case × Option Raised :=
  match transition case .inProgress reason with
  | .error error => (case, some (.refused error))
  | .ok started =>
      leftAs (recordUpdate^[updates] started)
        (runAndStore callees (recordUpdate^[updates] started) started.version
          (keepStateOnFailure && case.state = .awaitingDecision))

end Investigating

end AgenticOrg.Cases
