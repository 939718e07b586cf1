import Mathlib.Data.List.Nodup

namespace AgenticOrg.Cases

section States

inductive CaseState where
  | submitted
  | inProgress
  | awaitingDecision
  | decided
  | withdrawn
  | failed
  deriving DecidableEq

def TRANSITIONS : CaseState → List CaseState
  | .submitted => [.inProgress, .withdrawn]
  | .inProgress => [.awaitingDecision, .failed]
  | .awaitingDecision => [.decided, .withdrawn, .inProgress]
  | .failed => [.inProgress, .withdrawn]
  | .decided => []
  | .withdrawn => []

inductive Agent where
  | businessUnderwriter
  | screeningDisposition
  deriving DecidableEq

-- What is kept of an agent run.
structure AgentRecord where
  agent : Agent
  status : String
  failureReason : String
  deriving DecidableEq

structure Memo where
  subject : String
  policyResult : String
  deriving DecidableEq

inductive EventType where
  | completed
  | updated
  | decided
  deriving DecidableEq

-- An event of one case; its id is a digest of the case's version and the type.
structure PushEvent where
  version : ℕ
  type : EventType
  deriving DecidableEq

structure Transition where
  version : ℕ
  target : CaseState
  reason : String
  deriving DecidableEq

structure Case where
  state : CaseState
  version : ℕ
  memo : Option Memo
  failureReason : Option String
  agentRecords : List AgentRecord
  transitions : List Transition
  outbox : List PushEvent
  deriving DecidableEq

-- A case as it is submitted.
def newCase : Case where
  state := .submitted
  version := 1
  memo := none
  failureReason := none
  agentRecords := []
  transitions := [⟨1, .submitted, "case_submitted"⟩]
  outbox := []

end States

section Changes

def Case.investigations (case : Case) : ℕ :=
  (case.agentRecords.filter fun record => record.agent = .businessUnderwriter).length

def eventTypeFor (case : Case) : CaseState → Option EventType
  | .awaitingDecision => some (if case.investigations ≤ 1 then .completed else .updated)
  | .decided => some .decided
  | .withdrawn => some .updated
  | .failed => some .updated
  | _ => none

-- For an enabled endpoint; an event whose id is queued already is not queued again.
def enqueue (case : Case) (type : EventType) : Case :=
  if ⟨case.version, type⟩ ∈ case.outbox then case
  else { case with outbox := case.outbox ++ [⟨case.version, type⟩] }

inductive CaseError where
  | transitionNotAllowed
  | versionConflict
  | decisionInvalid
  deriving DecidableEq

def clipReason (reason : String) : String := String.ofList (reason.toList.take 128)

def moved (case : Case) (target : CaseState) (reason : String) : Case :=
  { case with
    state := target
    version := case.version + 1
    transitions := case.transitions ++ [⟨case.version + 1, target, clipReason reason⟩] }

-- The case in its new state, with the event of the change queued in the same transaction.
def transition (case : Case) (target : CaseState) (reason : String) : Except CaseError Case :=
  if target ∈ TRANSITIONS case.state then
    .ok (match eventTypeFor (moved case target reason) target with
      | some type => enqueue (moved case target reason) type
      | none => moved case target reason)
  else .error .transitionNotAllowed

-- A change of its documents: a new version without a new state.
def recordUpdate (case : Case) : Case := enqueue { case with version := case.version + 1 } .updated

end Changes

section Lemmas

variable (case : Case) (target : CaseState) (reason : String)

-- Every version the case has had is behind it.
structure Versioned (case : Case) : Prop where
  transitions : ∀ entry ∈ case.transitions, entry.version ≤ case.version
  outbox : ∀ event ∈ case.outbox, event.version ≤ case.version

def newEvent (case : Case) (target : CaseState) : List PushEvent :=
  (eventTypeFor case target).toList.map fun type => ⟨case.version + 1, type⟩

-- An accepted transition: the new state under the next version, with its one event.
theorem transition_ok (after : Case) (hv : Versioned case) (h : transition case target reason = .ok after) :
    target ∈ TRANSITIONS case.state ∧
      after = { case with
        state := target
        version := case.version + 1
        transitions := case.transitions ++ [⟨case.version + 1, target, clipReason reason⟩]
        outbox := case.outbox ++ newEvent case target } := by
  unfold transition at h
  split at h
  · rename_i hallowed
    refine ⟨hallowed, ?_⟩
    have hnew : ∀ type, (⟨case.version + 1, type⟩ : PushEvent) ∉ case.outbox := by
      intro type hin
      have hle : case.version + 1 ≤ case.version := hv.outbox _ hin
      omega
    have hsame : eventTypeFor (moved case target reason) target = eventTypeFor case target := by
      cases target <;> rfl
    rw [hsame] at h
    unfold newEvent
    cases heq : eventTypeFor case target with
    | none =>
        rw [heq] at h
        cases h
        simp [moved]
    | some type =>
        rw [heq] at h
        cases h
        exact if_neg (hnew type)
  · cases h

theorem transition_allowed (h : target ∈ TRANSITIONS case.state) :
    ∃ after, transition case target reason = .ok after := ⟨_, if_pos h⟩

theorem transition_refused (h : target ∉ TRANSITIONS case.state) :
    transition case target reason = .error .transitionNotAllowed := if_neg h

theorem recordUpdate_eq (hv : Versioned case) :
    recordUpdate case = { case with
      version := case.version + 1
      outbox := case.outbox ++ [⟨case.version + 1, .updated⟩] } := by
  unfold recordUpdate enqueue
  refine if_neg fun hin => ?_
  have hle : case.version + 1 ≤ case.version := hv.outbox _ hin
  omega

theorem newCase_versioned : Versioned newCase :=
  ⟨by decide, by decide⟩

theorem Versioned.transition (hv : Versioned case) (after : Case)
    (h : Cases.transition case target reason = .ok after) : Versioned after := by
  obtain ⟨_, rfl⟩ := transition_ok case target reason after hv h
  refine ⟨fun entry hentry => ?_, fun event hevent => ?_⟩
  · rcases List.mem_append.mp hentry with hold | hnew
    · exact Nat.le_succ_of_le (hv.transitions entry hold)
    · obtain rfl := List.mem_singleton.mp hnew
      exact Nat.le_refl _
  · rcases List.mem_append.mp hevent with hold | hnew
    · exact Nat.le_succ_of_le (hv.outbox event hold)
    · obtain ⟨type, _, rfl⟩ := List.mem_map.mp hnew
      exact Nat.le_refl _

theorem Versioned.recordUpdate (hv : Versioned case) : Versioned (recordUpdate case) := by
  rw [recordUpdate_eq case hv]
  refine ⟨fun entry hentry => Nat.le_succ_of_le (hv.transitions entry hentry), fun event hevent => ?_⟩
  rcases List.mem_append.mp hevent with hold | hnew
  · exact Nat.le_succ_of_le (hv.outbox event hold)
  · obtain rfl := List.mem_singleton.mp hnew
    exact Nat.le_refl _

end Lemmas

end AgenticOrg.Cases
