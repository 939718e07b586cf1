import AgenticOrg.Commerce.Arbiter
import AgenticOrg.Lib.Table

namespace AgenticOrg.Commerce.Arbiter

open JsonText (Value)
open Tables

section Rows

-- A row of `commerce_arbiter_decisions`; its tenant is the UUID of the decision's.
structure DecisionRow where
  decision : Decision
  tenantId : String
  consumedAt : Option ℤ
  grantexGrantJti : Option String
  grantexRecordedAt : Option ℤ
  deriving DecidableEq

def DecisionRow.consumedBy (row : DecisionRow) (moment : ℤ) : DecisionRow := { row with consumedAt := some moment }

def DecisionRow.granted (row : DecisionRow) (jti : String) (recordedAt : ℤ) : DecisionRow :=
  { row with grantexGrantJti := some jti, grantexRecordedAt := some recordedAt }

instance decisionKeyed : Keyed DecisionRow String := ⟨fun row => row.decision.decisionId⟩

theorem key_consumedBy (moment : ℤ) (row : DecisionRow) : Keyed.key (row.consumedBy moment) = Keyed.key row := rfl

theorem key_granted (jti : String) (recordedAt : ℤ) (row : DecisionRow) :
    Keyed.key (row.granted jti recordedAt) = Keyed.key row := rfl

-- A row that the arbiter or an executor adds to the commerce ledger.
inductive LedgerEvent where
  | decided (decision : Decision) (tenantId : String)
  | countersigned (decision : Decision) (tenantId : String) (jti : String)
  | consumed (decisionId : String) (tenantId : String) (action : String) (payloadHash : String) (moment : ℤ)
  deriving DecidableEq

structure ArbiterStore where
  decisions : Table DecisionRow
  ledger : List LedgerEvent
  deriving DecidableEq

def emptyStore : ArbiterStore := ⟨Table.empty, []⟩

-- Inserted unless its id is taken; sealed either way.
def persistDecision (store : ArbiterStore) (decision : Decision) (tenantId : String) : ArbiterStore where
  decisions := (store.decisions.insert? ⟨decision, tenantId, none, none, none⟩).getD store.decisions
  ledger := store.ledger ++ [.decided decision tenantId]

def getDecision (store : ArbiterStore) (tenantId : String) (decisionId : String) : Option DecisionRow :=
  (store.decisions.find? decisionId).filter (·.tenantId = tenantId)

end Rows

section Consuming

structure Request where
  tenantId : String
  decisionId : Option String
  payloadHash : String
  action : String
  now : ℤ
  requireGrantexGrant : Bool
  deriving DecidableEq

-- The rows that the UPDATE of `require_allow_decision` matches.
def DecisionRow.consumable (row : DecisionRow) (tenantId : String) (request : Request) : Bool :=
  row.tenantId = tenantId && row.decision.action = request.action &&
    row.decision.payloadHash = request.payloadHash && row.decision.outcome = .allow && row.consumedAt = none &&
    request.now < row.decision.expiresAt && (!request.requireGrantexGrant || row.grantexGrantJti.isSome)

inductive RefusalCode where
  | decisionIdMissing
  | decisionNotFound
  | decisionNotAllow
  | decisionActionMismatch
  | decisionPayloadMismatch
  | decisionExpired
  | decisionConsumed
  | grantexGrantMissing
  deriving DecidableEq

def refusalFor (row : Option DecisionRow) (request : Request) : RefusalCode :=
  match row with
  | none => .decisionNotFound
  | some row =>
      if row.decision.outcome ≠ .allow then .decisionNotAllow
      else if row.decision.action ≠ request.action then .decisionActionMismatch
      else if row.decision.payloadHash ≠ request.payloadHash then .decisionPayloadMismatch
      else if row.consumedAt ≠ none then .decisionConsumed
      else if row.decision.expiresAt ≤ request.now then .decisionExpired
      else if request.requireGrantexGrant && row.grantexGrantJti = none then .grantexGrantMissing
      else .decisionConsumed

-- The conditional UPDATE: one row is consumed, or none.
def consume (store : ArbiterStore) (tenantId : String) (decisionId : String) (request : Request) :
    Option ArbiterStore :=
  match store.decisions.find? decisionId with
  | none => none
  | some row =>
      if row.consumable tenantId request then
        some
          { decisions := store.decisions.modify decisionId (·.consumedBy request.now) (key_consumedBy request.now)
            ledger := store.ledger ++
              [.consumed decisionId tenantId request.action request.payloadHash request.now] }
      else none

end Consuming

section Grants

variable {δ : Type}

def CLOCK_SKEW : ℤ := 60 * 1000000

def DECISION_GRANT_AUDIENCE : String := "urn:grantex:decision"

def POLICY_ARBITER : String := "policy_arbiter"

-- What the verification of a token against Grantex's keys comes to.
inductive TokenCheck (δ : Type) where
  | unavailable
  | invalid
  | verified (claims : Value δ)

-- What posting a decision to Grantex comes to; the token is the one that the answer holds.
inductive GrantexAnswer (δ : Type) where
  | notConfigured
  | unreachable
  | answered (status : ℕ) (body : Value δ) (token : TokenCheck δ)

def memberIs (name : String) (text : String) (value : Value δ) : Bool := (member? name value).any (isText text)

def audiences (claims : Value δ) : List (Value δ) :=
  match member? "aud" claims with
  | some (.arr items) => items
  | some audience => [audience]
  | none => []

def textOf : Value δ → Option String
  | .str text => some text
  | _ => none

def intOf : Value δ → Option ℤ
  | .int value => some value
  | _ => none

def isNull : Value δ → Bool
  | .null => true
  | _ => false

def subjectIs (claims : Value δ) : Option String → Bool
  | some buyer => memberIs "sub" buyer claims
  | none => (member? "sub" claims).all isNull

def claimText (name : String) (claims : Value δ) : Option String := filled ((member? name claims).bind textOf)

-- The seconds that `datetime.fromtimestamp` reads.
def MIN_TIMESTAMP : ℤ := -62135596800

def MAX_TIMESTAMP : ℤ := 253402300799

-- Why the claims do not bind the decision; nothing when the expiry is no date, which raises.
def checkGrantClaims (claims : Value δ) (decision : Decision) (issuer : String) (now : ℤ) : Option (Option String) :=
  let checks : List (Bool × String) :=
    [(issuer ≠ "" && memberIs "iss" issuer claims, "issuer_mismatch"),
      ((audiences claims).any (isText DECISION_GRANT_AUDIENCE), "audience_mismatch"),
      (memberIs "approver_auth" POLICY_ARBITER claims, "approver_auth_not_policy_arbiter"),
      (memberIs "action_hash" decision.payloadHash claims, "action_hash_mismatch"),
      (memberIs "decision_request" decision.decisionId claims, "decision_request_mismatch"),
      (subjectIs claims decision.buyerAgentId, "subject_mismatch"),
      ((member? "acr" claims).isNone, "human_acr_present"),
      ((claimText "jti" claims).isSome, "jti_missing"),
      (((member? "exp" claims).bind intOf).isSome, "exp_missing")]
  match checks.find? (!·.1) with
  | some check => some (some check.2)
  | none =>
      let exp := ((member? "exp" claims).bind intOf).getD 0
      if exp < MIN_TIMESTAMP ∨ MAX_TIMESTAMP < exp then none
      else
        let expires := exp * 1000000
        if expires ≤ now then some (some "grant_expired")
        else if decision.decidedAt + DECISION_TTL + CLOCK_SKEW < expires then
          some (some "grant_lifetime_exceeds_decision")
        else some none

inductive CountersignStatus where
  | granted
  | recorded
  | skipped
  | unavailable
  | invalid
  | conflict
  deriving DecidableEq

structure Countersignature where
  status : CountersignStatus
  reason : String
  jti : Option String
  exp : Option ℤ
  deriving DecidableEq

def outcomeText : Outcome → String
  | .allow => "allow"
  | .refuse => "refuse"

def isTrue : Value δ → Bool
  | .bool value => value
  | _ => false

-- What an allow's answer comes to.
def grantOf (decision : Decision) (issuer : String) (body : Value δ) (token : TokenCheck δ) (moment : ℤ) :
    Option Countersignature :=
  match token with
  | .unavailable => some ⟨.unavailable, "grantex_jwks_unavailable", none, none⟩
  | .invalid => some ⟨.invalid, "grant_signature_invalid", none, none⟩
  | .verified claims =>
      match checkGrantClaims claims decision issuer moment with
      | none => none
      | some (some problem) => some ⟨.invalid, problem, none, none⟩
      | some none =>
          if memberIs "jti" ((claimText "jti" claims).getD "") body then
            some ⟨.granted, "grant_verified", claimText "jti" claims, (member? "exp" claims).bind intOf⟩
          else some ⟨.invalid, "jti_mismatch", none, none⟩

-- What becomes of a decision's countersignature; nothing when it raises.
def countersignature (decision : Decision) (issuer : String) (postEnabled : Bool) (answer : GrantexAnswer δ)
    (moment : ℤ) : Option Countersignature :=
  if !postEnabled then some ⟨.skipped, "post_disabled", none, none⟩
  else if !given decision.buyerAgentId then some ⟨.skipped, "buyer_agent_missing", none, none⟩
  else
    match answer with
    | .notConfigured => some ⟨.unavailable, "grantex_not_configured", none, none⟩
    | .unreachable => some ⟨.unavailable, "grantex_unreachable", none, none⟩
    | .answered status body token =>
        if status = 409 then some ⟨.conflict, "decision_id_reused_with_another_body", none, none⟩
        else if status ≠ 200 ∧ status ≠ 201 then some ⟨.unavailable, "grantex_http_" ++ toString status, none, none⟩
        else if !memberIs "decision_id" decision.decisionId body ||
            !memberIs "outcome" (outcomeText decision.outcome) body then
          some ⟨.invalid, "answer_does_not_name_this_decision", none, none⟩
        else if decision.outcome = .refuse then
          if !(member? "recorded" body).any isTrue || (member? "decision_grant" body).isSome then
            some ⟨.invalid, "refusal_answer_malformed", none, none⟩
          else some ⟨.recorded, "refusal_recorded", none, none⟩
        else grantOf decision issuer body token moment

-- The grant a decision is given, by its id.
def grantJti (decision : Decision) (issuer : String) (postEnabled : Bool) (answer : GrantexAnswer δ) (moment : ℤ) :
    Option String :=
  ((countersignature decision issuer postEnabled answer moment).filter (·.status = .granted)).bind (·.jti)

-- The rows that the UPDATE of `attach_grant` matches: a grant is attached once, to an allow of the tenant.
def DecisionRow.attachable (row : DecisionRow) (tenantId : String) : Bool :=
  row.tenantId = tenantId && row.decision.outcome = .allow && row.grantexGrantJti = none

def attachGrant (store : ArbiterStore) (decision : Decision) (tenantId : String) (jti : String) (recordedAt : ℤ) :
    ArbiterStore :=
  match store.decisions.find? decision.decisionId with
  | none => store
  | some row =>
      if row.attachable tenantId then
        { decisions := store.decisions.modify decision.decisionId (·.granted (clip 255 jti) recordedAt)
            (key_granted (clip 255 jti) recordedAt)
          ledger := store.ledger ++ [.countersigned decision tenantId jti] }
      else store

end Grants

section Runs

variable {δ : Type} (platform : Platform δ) (issuer : String)

-- A transaction: a decision is made and written, its grant is asked for, or an executor presents one.
inductive ArbiterStep (δ : Type) where
  | persist (action : String) (context : ArbiterContext δ)
  | countersign (action : String) (context : ArbiterContext δ) (postEnabled : Bool) (answer : GrantexAnswer δ) (moment : ℤ)
  | consume (request : Request)

-- The store once the decision is consumed, or why it is not: no code where the tenant is no UUID, which
-- raises. A refused request reads the row again, which another transaction may have changed by then.
def requireAllowDecision (store : ArbiterStore) (reread : ArbiterStore) (request : Request) :
    Except (Option RefusalCode) ArbiterStore :=
  match filled request.decisionId, platform.uuid request.tenantId with
  | none, _ => .error (some .decisionIdMissing)
  | some _, none => .error none
  | some decisionId, some tenantId =>
      match consume store tenantId decisionId request with
      | some consumed => .ok consumed
      | none => .error (some (refusalFor (getDecision reread tenantId decisionId) request))

def ArbiterStore.step (store : ArbiterStore) : ArbiterStep δ → ArbiterStore
  | .persist action context =>
      match platform.uuid context.tenantId with
      | none => store
      | some tenantId => persistDecision store (decide platform action context) tenantId
  | .countersign action context postEnabled answer moment =>
      match grantJti (decide platform action context) issuer postEnabled answer moment,
          platform.uuid context.tenantId with
      | some jti, some tenantId => attachGrant store (decide platform action context) tenantId jti moment
      | _, _ => store
  | .consume request =>
      match requireAllowDecision platform store store request with
      | .ok consumed => consumed
      | .error _ => store

def ArbiterStore.run (store : ArbiterStore) (steps : List (ArbiterStep δ)) : ArbiterStore :=
  steps.foldl (ArbiterStore.step platform issuer) store

end Runs

end AgenticOrg.Commerce.Arbiter
