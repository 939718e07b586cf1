import AgenticOrg.Cases.Runs
import AgenticOrg.Lib.Json.Canonical

namespace AgenticOrg.Cases

open JsonText (Value)

section Answers

variable {δ : Type}

-- What Python makes of texts and values.
structure DecisionPlatform (δ : Type) where
  blank : String → Bool
  str : Value δ → String
  isZero : δ → Bool

-- The decision service refused or could not answer, or its client raised something else.
structure ServiceError where
  reason : String
  detail : String
  deriving DecidableEq

inductive ServiceFault where
  | refused (error : ServiceError)
  | raised
  deriving DecidableEq

-- Where a service call stops.
abbrev Served (α : Type) : Type := Except ServiceFault α

def responseInvalid {α : Type} (detail : String) : Served α :=
  .error (.refused ⟨"decision_service_response_invalid", detail⟩)

def member? (name : String) : Value δ → Option (Value δ)
  | .obj members => members.lookup name
  | _ => none

def isNull : Value δ → Bool
  | .null => true
  | _ => false

def isObject : Value δ → Bool
  | .obj _ => true
  | _ => false

def isTrue : Value δ → Bool
  | .bool value => value
  | _ => false

def textOf : Value δ → Option String
  | .str text => some text
  | _ => none

def itemsOf : Value δ → Option (List (Value δ))
  | .arr items => some items
  | _ => none

variable (platform : DecisionPlatform δ)

def truthy : Value δ → Bool
  | .null => false
  | .bool value => value
  | .int n => n ≠ 0
  | .decimal d => !platform.isZero d
  | .str text => text ≠ ""
  | .arr items => !items.isEmpty
  | .obj members => !members.isEmpty

-- What stands for a member that is there and truthy.
def given? (name : String) (payload : Value δ) : Option (Value δ) :=
  (member? name payload).filter (truthy platform)

def isFilled (value : Value δ) : Bool := (textOf value).any (!platform.blank ·)

-- A missing text is a refusal, never a default.
def requiredText (field : String) (value : Option (Value δ)) : Served String :=
  match (value.bind textOf).filter (!platform.blank ·) with
  | some text => .ok text
  | none => responseInvalid (field ++ " is missing")

def requiredCount (field : String) (value : Option (Value δ)) : Served ℤ :=
  match value with
  | some (.int n) => if n < 1 then responseInvalid (field ++ " is missing") else .ok n
  | _ => responseInvalid (field ++ " is missing")

end Answers

section Requests

variable {δ : Type} (platform : DecisionPlatform δ)

structure Approval where
  approver : String
  approverAuth : String
  dwellMs : Option ℤ
  dwellSource : String
  position : ℤ
  issuedAt : String
  consumedAt : Option String
  deriving DecidableEq

def dwellOf : Option (Value δ) → Served (Option ℤ)
  | none => .ok none
  | some .null => .ok none
  | some (.int n) => if n < 0 then responseInvalid "dwellMs is not a duration" else .ok (some n)
  | some _ => responseInvalid "dwellMs is not a duration"

def approval (entry : Value δ) : Served Approval := do
  let dwellMs ← dwellOf (member? "dwellMs" entry)
  let approver ← requiredText platform "approval sub" (member? "sub" entry)
  let approverAuth ← requiredText platform "approval approverAuth" (member? "approverAuth" entry)
  let dwellSource ← requiredText platform "approval dwellSource" (member? "dwellSource" entry)
  let position ← requiredCount "approval position" (member? "position" entry)
  let issuedAt ← requiredText platform "approval issuedAt" (member? "issuedAt" entry)
  return ⟨approver, approverAuth, dwellMs, dwellSource, position, issuedAt,
    (given? platform "consumedAt" entry).map platform.str⟩

-- A request that names an agent or a grant is not this platform's to consume.
def platformOwnedReadiness (payload : Value δ) : Served (Option Bool) :=
  if ["agentId", "grantId"].any fun key => (member? key payload).any (!isNull ·) then
    .error (.refused ⟨"decision_invalid", "wrong_agent"⟩)
  else
    match member? "decisionGrantsReady" payload with
    | none => .ok none
    | some (.bool ready) => .ok (some ready)
    | some _ => responseInvalid "decisionGrantsReady is not a boolean"

structure DecisionRequestView where
  requestId : String
  status : String
  approvalPage : String
  actionHash : String
  caseVersion : String
  approvalsRequired : ℤ
  approvals : List Approval
  expiresAt : String
  issuerGrantsReady : Option Bool
  deriving DecidableEq

def approvalsOf (payload : Value δ) : Served (List Approval) :=
  match given? platform "approvals" payload with
  | none => .ok []
  | some (.arr entries) => do
      let approvals ← (entries.filter isObject).mapM (approval platform)
      if approvals.length ≠ entries.length then responseInvalid "an approval is not an object" else return approvals
  | some _ => responseInvalid "approvals is not a list"

def actionPresent (payload : Value δ) : Served Unit :=
  if (given? platform "action" payload).any isObject then .ok () else responseInvalid "action is missing"

-- The answer to a new request, parsed strictly.
def view (platformOwned : Bool) (payload : Value δ) : Served DecisionRequestView := do
  let issuerReady ← if platformOwned then platformOwnedReadiness payload else .ok none
  let approvals ← approvalsOf platform payload
  actionPresent platform payload
  let requestId ← requiredText platform "requestId" (member? "requestId" payload)
  let status ← requiredText platform "status" (member? "status" payload)
  let approvalPage ← requiredText platform "approvalPage" (member? "approvalPage" payload)
  let actionHash ← requiredText platform "actionHash" (member? "actionHash" payload)
  let caseVersion ← requiredText platform "caseVersion" (member? "caseVersion" payload)
  let approvalsRequired ← requiredCount "approvalsRequired" (member? "approvalsRequired" payload)
  let expiresAt ← requiredText platform "expiresAt" (member? "expiresAt" payload)
  return ⟨requestId, status, approvalPage, actionHash, caseVersion, approvalsRequired, approvals, expiresAt,
    issuerReady⟩

end Requests

section Consumptions

variable {δ : Type} (platform : DecisionPlatform δ)

-- What the issuer recorded when it consumed the grants for one action: each approver with the grant.
structure ConsumedDecision where
  requestId : String
  approvers : List (String × String)
  actionHash : String
  deriving DecidableEq

-- The grant ids an answer says were consumed.
def consumedIds (payload : Value δ) : Served (List String) :=
  match (member? "jtis" payload).bind itemsOf with
  | none => responseInvalid "decision grant ids are invalid"
  | some items =>
      if items = [] ∨ items.any (!isFilled platform ·) = true ∨ ¬(items.filterMap textOf).Nodup then
        responseInvalid "decision grant ids are invalid"
      else .ok (items.filterMap textOf)

def approverPair (entry : Value δ) : Served (String × String) := do
  let subject ← requiredText platform "consumption sub" (member? "sub" entry)
  let grant ← requiredText platform "consumption jti" (member? "jti" entry)
  return (subject, grant)

def isText (text : String) : Value δ → Bool
  | .str value => value = text
  | _ => false

-- The receipt of a request consumed by its id.
def consumedRequest (payload : Value δ) (requestId : String) : Served ConsumedDecision := do
  if !(member? "consumed" payload).any isTrue then responseInvalid "the consumption was not confirmed"
  else if !(member? "requestId" payload).any (isText requestId) then
    responseInvalid "the consumption is for another request"
  else
    let jtis ← consumedIds platform payload
    match (member? "approvers" payload).bind itemsOf with
    | none => responseInvalid "the approvers are invalid"
    | some entries =>
        if entries = [] ∨ entries.any (!isObject ·) = true then responseInvalid "the approvers are invalid"
        else
          let pairs ← entries.mapM (approverPair platform)
          if ¬(pairs.map Prod.snd).Nodup ∨ ¬(pairs.map Prod.snd ⊆ jtis ∧ jtis ⊆ pairs.map Prod.snd) then
            responseInvalid "the approvers' decision grants are not the consumed ones"
          else
            let actionHash ← requiredText platform "actionHash" (member? "actionHash" payload)
            return ⟨requestId, pairs, actionHash⟩

-- The grants of an approver in the issuer's record of the request.
def matchesOf (approvals : List (Value δ)) (subject : String) : Served (List String) :=
  let own := approvals.filter fun entry => isObject entry && (member? "sub" entry).any (isText subject)
  if own.any (fun entry => !(member? "jti" entry).any (isFilled platform)) then
    responseInvalid "the approver's decision grant is invalid"
  else .ok ((own.filterMap fun entry => (member? "jti" entry).bind textOf).dedup)

def grantOfApprover (approvals : List (Value δ)) (subject : String) : Served String := do
  match ← matchesOf platform approvals subject with
  | [grant] => return grant
  | _ => responseInvalid "the approver's decision grant is ambiguous"

def grantIdsByApprover (record : Served (Value δ)) (subjects : List String) (consumed : List String) :
    Served (List String) := do
  let payload ← record
  match (member? "approvals" payload).bind itemsOf with
  | none => responseInvalid "the request has no approvals"
  | some approvals =>
      let resolved ← subjects.mapM (grantOfApprover platform approvals)
      if ¬resolved.Nodup ∨ ¬(resolved ⊆ consumed ∧ consumed ⊆ resolved) then
        responseInvalid "the resolved decision grants are not the consumed ones"
      else return resolved

-- The grant an answer names on an approver, empty where it names none.
def namedGrant (entry : Value δ) : Served String :=
  match member? "jti" entry with
  | none => .ok ""
  | some .null => .ok ""
  | some (.str grant) => .ok (if platform.blank grant then "" else grant)
  | some _ => responseInvalid "an approver decision grant id is invalid"

def presentedIds (payload : Value δ) : Served (List String) :=
  match given? platform "jtis" payload with
  | none => .ok []
  | some (.arr items) =>
      if items.any (!isFilled platform ·) then responseInvalid "decision grant ids are invalid"
      else .ok (items.filterMap textOf)
  | some _ => responseInvalid "decision grant ids are invalid"

-- The approvers of an answer; a number or a boolean cannot be gone through, which raises.
def presentedApprovers (payload : Value δ) : Served (List (Value δ)) :=
  match given? platform "approvers" payload with
  | none => .ok []
  | some (.arr entries) =>
      if entries.any (!isObject ·) then responseInvalid "an approver is not an object" else .ok entries
  | some (.int _) => .error .raised
  | some (.decimal _) => .error .raised
  | some (.bool _) => .error .raised
  | some _ => responseInvalid "an approver is not an object"

-- Where the answer does not name the grant of each approver, the issuer's record of the request does.
def grantIds (record : Served (Value δ)) (subjects : List String) (named : List String) (consumed : List String) :
    Served (List String) :=
  if named.all (· ≠ "") then .ok named else grantIdsByApprover platform record subjects consumed

-- The receipt of grants that were presented.
def consumedGrants (payload : Value δ) (record : Served (Value δ)) : Served ConsumedDecision := do
  let jtis ← presentedIds platform payload
  let entries ← presentedApprovers platform payload
  if entries = [] then responseInvalid "no approver was returned"
  else
    let subjects ← entries.mapM fun entry => requiredText platform "consumption sub" (member? "sub" entry)
    let named ← entries.mapM (namedGrant platform)
    let grants ← grantIds platform record subjects named jtis
    return ⟨((given? platform "requestId" payload).map platform.str).getD "", subjects.zip grants,
      ((given? platform "actionHash" payload).map platform.str).getD ""⟩

end Consumptions

section Verifying

variable {δ : Type} (platform : DecisionPlatform δ)

-- The action a decision grant is bound to, qualified by tenant.
structure SemanticAction where
  caseId : String
  action : String
  decision : String
  subject : String
  tenant : String
  deriving DecidableEq

-- A request for a decision, as the case keeps it.
structure DecisionRecord where
  requestId : String
  outcome : String
  caseVersion : String
  approvalPage : String
  approvalsRequired : ℤ
  actionHash : String
  deriving DecidableEq

structure RecordedDecision where
  outcome : String
  approvers : List (String × String)
  deriving DecidableEq

-- What the issuer answers to a consumption, and to a later look at the request.
structure IssuerAnswers (δ : Type) where
  consumption : Served (Value δ)
  request : Served (Value δ)

-- A consumption at the issuer, by its request's id or with the grants.
structure Consumption (δ : Type) where
  requestId : Option String
  grants : List String
  action : SemanticAction
  caseVersion : String
  answers : IssuerAnswers δ

-- What its answer comes to.
def Consumption.receipt (consumption : Consumption δ) : Served ConsumedDecision := do
  let payload ← consumption.answers.consumption
  match consumption.requestId with
  | some requestId => consumedRequest platform payload requestId
  | none => consumedGrants platform payload consumption.answers.request

-- A request for a decision that the issuer was asked for at a version of the case.
structure Asking where
  outcome : String
  caseVersion : String
  deriving DecidableEq

structure GovernedCase (δ : Type) where
  caseRef : String
  tenantId : String
  case : Case
  decisionRequests : List DecisionRecord
  decision : Option RecordedDecision
  asking : List Asking
  consumptions : List (Consumption δ)

def newGovernedCase (caseRef : String) (tenantId : String) : GovernedCase δ :=
  ⟨caseRef, tenantId, newCase, [], none, [], []⟩

variable (governed : GovernedCase δ)

-- The subject is set with the memo.
def semanticAction (outcome : String) : SemanticAction where
  caseId := governed.caseRef
  action := "case_decision"
  decision := outcome
  subject := governed.case.memo.elim ":" Memo.subject
  tenant := governed.tenantId

def versionText : String := toString governed.case.version

-- How many approvals the request needs, from the case's own record of it.
def recordedApprovalsRequired (requestId : String) : Served ℤ :=
  match governed.decisionRequests.find? (·.requestId = requestId) with
  | none => .error (.refused ⟨"decision_request_not_found", "not recorded on this case"⟩)
  | some record =>
      if 1 ≤ record.approvalsRequired then .ok record.approvalsRequired
      else
        .error (.refused ⟨"decision_request_not_found", "the case's record of the request states no approval count"⟩)

def holdToRecordedApprovals (consumed : ConsumedDecision) (required : ℤ) : Served Unit :=
  let subjects := consumed.approvers.map Prod.fst
  if (subjects.length : ℤ) ≠ required ∨ ¬subjects.Nodup then
    responseInvalid s!"{subjects.length} approvers, {subjects.dedup.length} distinct; the request needed {required}"
  else .ok ()

inductive Verifier where
  | requireDecisionGrant
  | service (consumeByRequestId : Bool)
  deriving DecidableEq

-- What a caller asks to be recorded.
structure DecisionInput where
  outcome : String
  grants : List String
  decisionRequestId : Option String
  deriving DecidableEq

structure DecisionCheck where
  allowed : Bool
  reason : String
  approvers : List (String × String)
  deriving DecidableEq

def refusedCheck (reason : String) : DecisionCheck := ⟨false, reason, []⟩

def isRequestId (requestId : String) : Bool :=
  requestId ≠ "" && decide (requestId.length ≤ 128) && requestId.toList.all fun c =>
    ('A' ≤ c && c ≤ 'Z') || ('a' ≤ c && c ≤ 'z') || ('0' ≤ c && c ≤ '9') || c = '_' || c = '-'

-- Why a request is not consumed by its id, before the issuer is called.
def consumeRefusal (consumeByRequestId : Bool) (requestId : String) : Option ServiceError :=
  if !consumeByRequestId then some ⟨"decision_service_not_configured", "consumption by request id is off"⟩
  else if !isRequestId requestId then some ⟨"decision_request_not_found", "not a decision request id"⟩
  else none

-- A check by request id: what is sent, and what comes of it.
def verifyByRequest (consumeByRequestId : Bool) (input : DecisionInput) (requestId : String)
    (answers : IssuerAnswers δ) : List (Consumption δ) × Served ConsumedDecision :=
  match recordedApprovalsRequired governed requestId with
  | .error fault => ([], .error fault)
  | .ok required =>
      match consumeRefusal consumeByRequestId requestId with
      | some error => ([], .error (.refused error))
      | none =>
          let consumption : Consumption δ :=
            ⟨some requestId, [], semanticAction governed input.outcome, versionText governed, answers⟩
          ([consumption], do
            let consumed ← consumption.receipt platform
            holdToRecordedApprovals consumed required
            return consumed)

def verifyByGrants (input : DecisionInput) (answers : IssuerAnswers δ) :
    List (Consumption δ) × Served ConsumedDecision :=
  let consumption : Consumption δ :=
    ⟨none, input.grants, semanticAction governed input.outcome, versionText governed, answers⟩
  ([consumption], consumption.receipt platform)

-- A refusal of the service is a refused check; anything else it raises is raised.
def checkOf : Served ConsumedDecision → Option DecisionCheck
  | .ok consumed => some ⟨true, "", consumed.approvers⟩
  | .error (.refused error) =>
      some (refusedCheck (if error.reason = "decision_invalid" then error.detail else error.reason))
  | .error .raised => none

def verify (verifier : Verifier) (input : DecisionInput) (answers : IssuerAnswers δ) :
    List (Consumption δ) × Option DecisionCheck :=
  match verifier with
  | .requireDecisionGrant => ([], some (refusedCheck "decision_required"))
  | .service consumeByRequestId =>
      match input.decisionRequestId.filter (· ≠ "") with
      | some requestId =>
          if input.grants ≠ [] then ([], some (refusedCheck "decision_invalid"))
          else (verifyByRequest platform governed consumeByRequestId input requestId answers).map id checkOf
      | none =>
          if input.grants = [] then ([], some (refusedCheck "decision_required"))
          else (verifyByGrants platform governed input answers).map id checkOf

end Verifying

section Recording

variable {δ : Type} (platform : DecisionPlatform δ) (governed : GovernedCase δ)

def DECISION_OUTCOMES : List String := ["approve", "decline"]

structure DecisionRefusal where
  reason : String
  detail : String
  deriving DecidableEq

-- The approvers a check lets record.
def approvedBy : Option DecisionCheck → Except DecisionRefusal (List (String × String))
  | none => .error ⟨"decision_invalid", "verification_unavailable"⟩
  | some check =>
      if !check.allowed || check.approvers.isEmpty then
        .error ⟨if check.reason = "" then "decision_required" else check.reason, ""⟩
      else .ok check.approvers

-- The case with its decision, where its document is valid with these approvers.
def decided (outcome : String) (documentValid : List (String × String) → Bool) (check : Option DecisionCheck) :
    Except DecisionRefusal (GovernedCase δ) := do
  let approvers ← approvedBy check
  if !documentValid approvers then .error ⟨"decision_document_invalid", ""⟩
  else
    match transition governed.case .decided ("decision_" ++ outcome) with
    | .error _ => .error ⟨"transition_not_allowed", ""⟩
    | .ok case => return { governed with case, decision := some ⟨outcome, approvers⟩ }

-- The row is locked throughout; what raises is rolled back, and what was sent to the issuer stays sent.
def recordDecision (verifier : Verifier) (input : DecisionInput) (answers : IssuerAnswers δ)
    (documentValid : List (String × String) → Bool) : GovernedCase δ × Option DecisionRefusal :=
  if input.outcome ∉ DECISION_OUTCOMES then (governed, some ⟨"decision_outcome_invalid", input.outcome⟩)
  else if governed.case.state ≠ .awaitingDecision then (governed, some ⟨"transition_not_allowed", ""⟩)
  else
    let checked := verify platform governed verifier input answers
    let sent := governed.consumptions ++ checked.1
    match decided governed input.outcome documentValid checked.2 with
    | .error refusal => ({ governed with consumptions := sent }, some refusal)
    | .ok recorded => ({ recorded with consumptions := sent }, none)

-- A decision is asked for: the case is read and the issuer called, with no row locked.
def askDecision (outcome : String) : GovernedCase δ :=
  if governed.case.state = .awaitingDecision ∧ governed.case.memo.isSome = true then
    { governed with asking := governed.asking ++ [⟨outcome, versionText governed⟩] }
  else governed

-- The issuer's answer is recorded unless the case has changed; its version stays as it is.
def answerAsking (asked : Asking) (platformOwned : Bool) (answer : Served (Value δ)) : GovernedCase δ :=
  if asked ∉ governed.asking then governed
  else
    let answered := { governed with asking := governed.asking.erase asked }
    match answer >>= view platform platformOwned with
    | .error _ => answered
    | .ok request =>
        if versionText governed ≠ asked.caseVersion then answered
        else
          { answered with
            decisionRequests := governed.decisionRequests.filter (·.requestId ≠ request.requestId) ++
              [⟨request.requestId, asked.outcome, asked.caseVersion, request.approvalPage,
                request.approvalsRequired, request.actionHash⟩] }

inductive GovernedStep (δ : Type) where
  | operate (operation : Operation)
  | ask (outcome : String)
  | answer (asked : Asking) (platformOwned : Bool) (answer : Served (Value δ))
  | decide (verifier : Verifier) (input : DecisionInput) (answers : IssuerAnswers δ)
      (documentValid : List (String × String) → Bool)

-- A decision is a step of its own, and no operation.
def GovernedCase.step : GovernedStep δ → GovernedCase δ
  | .operate operation =>
      if operation.decides = true then governed else { governed with case := Cases.step governed.case operation }
  | .ask outcome => askDecision governed outcome
  | .answer asked platformOwned answer => answerAsking platform governed asked platformOwned answer
  | .decide verifier input answers documentValid =>
      (recordDecision platform governed verifier input answers documentValid).1

def GovernedCase.run (steps : List (GovernedStep δ)) : GovernedCase δ :=
  steps.foldl (GovernedCase.step platform) governed

-- A case from its submission on.
def governedRun (caseRef : String) (tenantId : String) (steps : List (GovernedStep δ)) : GovernedCase δ :=
  (newGovernedCase caseRef tenantId).run platform steps

end Recording

section Justifying

variable {δ : Type} (platform : DecisionPlatform δ) (governed : GovernedCase δ)

-- The listed entries name the approver with the grant.
def Names (key : String) (payload : Value δ) (pair : String × String) : Prop :=
  ∃ entries, member? key payload = some (.arr entries) ∧
    ∃ entry ∈ entries, member? "sub" entry = some (.str pair.1) ∧ member? "jti" entry = some (.str pair.2)

-- The approver and the grant are named by the answer to the consumption or, where it leaves the grant out, by the
-- issuer's record of the request.
def Issued (answers : IssuerAnswers δ) (payload : Value δ) (byRequest : Bool) (pair : String × String) : Prop :=
  Names "approvers" payload pair ∨
    byRequest = false ∧ ∃ record, answers.request = .ok record ∧ Names "approvals" record pair

-- The issuer confirmed the consumption of this very request, with as many approvers as the case's record of it
-- asks for, no person and no grant twice.
structure ByRequest (payload : Value δ) (requestId : String) (approvers : List (String × String)) : Prop where
  confirmed : member? "consumed" payload = some (.bool true)
  request : member? "requestId" payload = some (.str requestId)
  approvalsRequired : recordedApprovalsRequired governed requestId = .ok (approvers.length : ℤ)
  people : (approvers.map Prod.fst).Nodup
  grants : (approvers.map Prod.snd).Nodup

-- What stands behind a recorded decision: a consumption for this action at the version the case was decided at.
structure Backed (decision : RecordedDecision) (consumption : Consumption δ) (payload : Value δ) : Prop where
  sent : consumption ∈ governed.consumptions
  answered : consumption.answers.consumption = .ok payload
  outcome : decision.outcome ∈ DECISION_OUTCOMES
  action : consumption.action = semanticAction governed decision.outcome
  version : ∃ entry ∈ governed.case.transitions, entry.target = .decided ∧
    ∃ version, entry.version = version + 1 ∧ consumption.caseVersion = toString version
  approvers : decision.approvers ≠ []
  filled : ∀ pair ∈ decision.approvers, platform.blank pair.1 = false ∧ platform.blank pair.2 = false
  issued : ∀ pair ∈ decision.approvers, Issued consumption.answers payload consumption.requestId.isSome pair
  byRequest : ∀ requestId ∈ consumption.requestId, ByRequest governed payload requestId decision.approvers

def Justified (decision : RecordedDecision) : Prop :=
  ∃ consumption payload, Backed platform governed decision consumption payload

end Justifying

end AgenticOrg.Cases
