import Mathlib.Data.List.Dedup
import Mathlib.Data.List.Infix
import Mathlib.Data.List.Sort
import AgenticOrg.Lib.Delimited
import AgenticOrg.Lib.Json.Canonical

namespace AgenticOrg.Commerce.Arbiter

open JsonText (Value)

section Evidence

variable {δ : Type}

-- Python's texts, and the hashes: of the canonical JSON of a payload and of a text. A UUID stands by
-- the text it is written as, whichever text of it was read.
structure Platform (δ : Type) where
  upper : String → String
  stripLower : String → String
  isoformat : ℤ → String
  uuid : String → Option String
  payloadHash : Value δ → String
  sha256 : String → String

-- Times are microseconds, amounts are minor units.
def MINUTE : ℤ := 60 * 1000000

def DECISION_TTL : ℤ := 10 * MINUTE

def POLICY_VERSION : String := "commerce-arbiter-v4"

structure MandateEvidence where
  ref : Option String
  hash : Option String
  expiresAt : Option ℤ
  deriving DecidableEq

structure ConsentEvidence where
  ref : Option String
  status : Option String
  deriving DecidableEq

structure PassportEvidence where
  ref : Option String
  maxAmountMinorUnits : Option ℤ
  currency : Option String
  expiresAt : Option ℤ
  deriving DecidableEq

structure AfaEvidence where
  debitKind : String
  amountMinorUnits : Option ℤ
  currency : Option String
  purpose : Option String
  limitMinorUnits : ℤ
  higherLimitMinorUnits : ℤ
  evidenceRef : Option String
  deriving DecidableEq

structure RefundEvidence where
  orderId : String
  currency : String
  capturedMinorUnits : ℤ
  refundedMinorUnits : ℤ
  deriving DecidableEq

structure ArtifactEvidence where
  artifactId : String
  family : String
  tenantId : Option String
  merchantId : Option String
  sellerAgentId : Option String
  buyerAgentId : Option String
  verifierResultRef : Option String
  expiresAt : Option ℤ
  freshnessStatus : Option String
  revocationStatus : Option String
  deriving DecidableEq

structure MerchantLimits where
  maxOrderAmountMinorUnits : Option ℤ
  currencyAllowlist : List String
  maxQuantityPerOrder : Option ℤ
  notPresentMaxOrderAmountMinorUnits : Option ℤ
  notPresentMaxQuantityPerOrder : Option ℤ
  maxDailyAmountMinorUnits : Option ℤ
  deriving DecidableEq

structure ArbiterContext (δ : Type) where
  tenantId : String
  merchantId : String
  sellerAgentId : String
  buyerAgentId : Option String
  now : ℤ
  payload : Value δ
  amountMinorUnits : Option ℤ
  currency : Option String
  quantity : Option ℤ
  mandate : Option MandateEvidence
  consent : Option ConsentEvidence
  passport : Option PassportEvidence
  artifacts : List ArtifactEvidence
  merchantLimits : Option MerchantLimits
  authorityVerificationRef : Option String
  requireVerifiedAuthority : Bool
  afa : Option AfaEvidence
  refund : Option RefundEvidence
  mandateHashes : List (String × Option String)
  mandateJtis : List (String × Option String)
  presence : Option String
  intentMaxAmountMinorUnits : Option ℤ
  intentCurrency : Option String
  dailyCommittedAmountMinorUnits : Option ℤ

-- A text that is there and not empty.
def given (text : Option String) : Bool := text.any (· ≠ "")

def filled (text : Option String) : Option String := text.filter (· ≠ "")

-- What follows `prefix` in `text`, nothing where it does not begin so.
def after? (start : String) (text : List Char) : Option String :=
  if start.toList.isPrefixOf text then some (String.ofList (text.drop start.length)) else none

def within (part : String) (text : String) : Bool := decide (part.toList <:+: text.toList)

def ArtifactEvidence.payloadHash (artifact : ArtifactEvidence) : Option String :=
  filled ((Delimited.parts ';' (artifact.verifierResultRef.getD "")).findSome? (after? "payload_hash="))

def ArbiterContext.buyerAuthoritySource (context : ArbiterContext δ) : String :=
  if given context.authorityVerificationRef then "server_verified" else "caller_asserted"

end Evidence

section Rules

variable {δ : Type} (platform : Platform δ)

def ruleMandatePresentUnexpired (context : ArbiterContext δ) : Bool × String :=
  match context.mandate with
  | none => (false, "mandate_missing")
  | some mandate =>
      if !given mandate.ref || !given mandate.hash then (false, "mandate_missing")
      else
        match mandate.expiresAt with
        | none => (false, "mandate_expiry_missing")
        | some expires =>
            if expires ≤ context.now then (false, "mandate_expired") else (true, "mandate_present_unexpired")

def ACTIVE_CONSENT_STATUSES : List String := ["active", "granted"]

def clip (length : ℕ) (text : String) : String := String.ofList (text.toList.take length)

def ruleConsentActive (context : ArbiterContext δ) : Bool × String :=
  match context.consent with
  | none => (false, "consent_missing")
  | some consent =>
      if !given consent.ref || !given consent.status then (false, "consent_missing")
      else
        let status := platform.stripLower (consent.status.getD "")
        if status ∉ ACTIVE_CONSENT_STATUSES then
          (false, "consent_" ++ (if clip 32 status = "" then "unknown" else clip 32 status))
        else (true, "consent_active")

def rulePassportAmountCap (context : ArbiterContext δ) : Bool × String :=
  match context.passport with
  | none => (false, "passport_missing")
  | some passport =>
      if !given passport.ref then (false, "passport_missing")
      else
        match passport.maxAmountMinorUnits, filled passport.currency with
        | some cap, some currency =>
            match passport.expiresAt with
            | none => (false, "passport_expiry_missing")
            | some expires =>
                if expires ≤ context.now then (false, "passport_expired")
                else
                  match context.amountMinorUnits, filled context.currency with
                  | some amount, some spent =>
                      if platform.upper currency ≠ platform.upper spent then (false, "passport_currency_mismatch")
                      else if amount > cap then (false, "passport_amount_cap_exceeded")
                      else (true, "within_passport_amount_cap")
                  | _, _ => (false, "order_amount_missing")
        | _, _ => (false, "passport_cap_missing")

def VERIFICATION_REF_PROFILE : String := "oacp-mandate-v1"

def isHex64 (text : String) : Bool :=
  text.length = 64 && text.toList.all fun c => ('a' ≤ c && c ≤ 'f') || ('0' ≤ c && c ≤ '9')

def isAlphanumeric (c : Char) : Bool := ('A' ≤ c && c ≤ 'Z') || ('a' ≤ c && c ≤ 'z') || ('0' ≤ c && c ≤ '9')

-- Letters, digits and `_.:@/-`, a letter or a digit first, 256 characters at most.
def isReference (text : String) : Bool :=
  text.toList.head?.any isAlphanumeric && decide (text.length ≤ 256) &&
    text.toList.all fun c => isAlphanumeric c || "_.:@/-".toList.contains c

structure VerificationRef where
  jti : String
  mandateHash : String
  verifiedAt : String
  deriving DecidableEq

-- A field of the reference, which is not empty.
def refField (name : String) (part : List Char) : Option String := filled (after? (name ++ "=") part)

def parseVerificationRef (ref : String) : Option VerificationRef :=
  match Delimited.parts ';' ref with
  | [profile, jti, mandateHash, verifiedAt] =>
      if String.ofList profile ≠ VERIFICATION_REF_PROFILE then none
      else
        match refField "jti" jti, refField "mandate_hash" mandateHash, refField "verified_at" verifiedAt with
        | some jti, some mandateHash, some verifiedAt =>
            if isHex64 mandateHash && isReference jti then some ⟨jti, mandateHash, verifiedAt⟩ else none
        | _, _, _ => none
  | _ => none

-- The verifier produced the reference for this mandate.
def refNamesMandate (ref : VerificationRef) (mandate : MandateEvidence) : Bool :=
  some ref.jti = mandate.ref && some ref.mandateHash = mandate.hash

def ruleBuyerAuthorityVerified (context : ArbiterContext δ) : Bool × String :=
  if given context.authorityVerificationRef then
    match parseVerificationRef (context.authorityVerificationRef.getD ""), context.mandate with
    | some ref, some mandate =>
        if refNamesMandate ref mandate then (true, "buyer_authority_server_verified")
        else (false, "buyer_authority_ref_invalid")
    | _, _ => (false, "buyer_authority_ref_invalid")
  else if context.requireVerifiedAuthority then (false, "buyer_authority_caller_asserted")
  else (true, "buyer_authority_caller_asserted_accepted")

def COMMITMENT_FAMILIES : List String :=
  ["catalog_snapshot", "price", "inventory", "policy", "mandate_capability", "protocol_adapter"]

-- The families of artifacts an action needs.
def REQUIRED_ARTIFACT_FAMILIES : List (String × List String) :=
  [("purchase_handoff", COMMITMENT_FAMILIES), ("pos_handoff", COMMITMENT_FAMILIES),
    ("session_complete", COMMITMENT_FAMILIES), ("mandate_request", ["policy", "mandate_capability"]),
    ("payment_handoff", COMMITMENT_FAMILIES.filter (· ≠ "mandate_capability"))]

def artifactInScope (artifact : ArtifactEvidence) (context : ArbiterContext δ) : Bool :=
  artifact.tenantId = some context.tenantId && artifact.merchantId = some context.merchantId &&
    artifact.sellerAgentId = some context.sellerAgentId &&
    (artifact.buyerAgentId = none || artifact.buyerAgentId = context.buyerAgentId)

def VERIFIER_REF_PREFIX : String := "oacp-artifact-jws-v1;"

def artifactVerified (artifact : ArtifactEvidence) : Bool :=
  let ref := artifact.verifierResultRef.getD ""
  VERIFIER_REF_PREFIX.toList.isPrefixOf ref.toList && within ";kid=oacp-" ref && within ";status=valid" ref

def artifactProblem (artifact : ArtifactEvidence) (context : ArbiterContext δ) : Option String :=
  if !artifactVerified artifact then some "unverified"
  else if artifact.revocationStatus = some "revoked" then some "revoked"
  else if artifact.revocationStatus ≠ some "fresh" then some "revocation_unknown"
  else if !artifact.expiresAt.any (context.now < ·) then some "expired"
  else if artifact.freshnessStatus ≠ some "fresh" then some "stale"
  else none

-- The most decisive problem is reported.
def PROBLEM_ORDER : List String := ["revoked", "unverified", "revocation_unknown", "expired", "stale"]

def familyProblem (context : ArbiterContext δ) (family : String) : Option String :=
  let candidates := context.artifacts.filter fun artifact => artifact.family = family && artifactInScope artifact context
  if candidates = [] then some ("artifact_missing:" ++ family)
  else
    let problems := candidates.map fun artifact => artifactProblem artifact context
    if none ∈ problems then none
    else (PROBLEM_ORDER.find? fun problem => some problem ∈ problems).map fun problem =>
      "artifact_" ++ problem ++ ":" ++ family

def ruleOacpArtifactsValid (context : ArbiterContext δ) (action : String) : Bool × String :=
  match REQUIRED_ARTIFACT_FAMILIES.lookup action with
  | none => (false, "action_unknown")
  | some required =>
      match required.findSome? (familyProblem context) with
      | some reason => (false, reason)
      | none => (true, "oacp_artifacts_verified_fresh_unrevoked")

-- The day's orders with this one are more than the merchant's cap on a day.
def exceedsDaily (limits : MerchantLimits) (committed : Option ℤ) (amount : ℤ) : Bool :=
  match limits.maxDailyAmountMinorUnits, committed with
  | some cap, some committed => committed + amount > cap
  | _, _ => false

def ruleMerchantLimits (context : ArbiterContext δ) : Bool × String :=
  match context.merchantLimits with
  | none => (false, "merchant_limits_missing")
  | some limits =>
      match limits.maxOrderAmountMinorUnits, limits.maxQuantityPerOrder with
      | some cap, some quantityCap =>
          if limits.currencyAllowlist = [] then (false, "merchant_limits_missing")
          else
            match context.amountMinorUnits, filled context.currency, context.quantity with
            | some amount, some currency, some quantity =>
                if platform.upper currency ∉ limits.currencyAllowlist.map platform.upper then
                  (false, "currency_not_allowed")
                else if quantity > quantityCap then (false, "quantity_cap_exceeded")
                else if amount > cap then (false, "order_amount_cap_exceeded")
                else if exceedsDaily limits context.dailyCommittedAmountMinorUnits amount then
                  (false, "daily_amount_cap_exceeded")
                else (true, "within_merchant_limits")
            | _, _, _ => (false, "order_amount_missing")
      | _, _ => (false, "merchant_limits_missing")

def ruleHandoffMerchantLimits (context : ArbiterContext δ) : Bool × String :=
  if context.merchantLimits = none then (true, "merchant_limits_not_configured")
  else ruleMerchantLimits platform context

def PRESENCE_HUMAN_PRESENT : String := "human_present"

def PRESENCE_HUMAN_NOT_PRESENT : String := "human_not_present"

-- A cap that is not set lets everything through.
def exceeds (cap : Option ℤ) (value : ℤ) : Bool := cap.any (value > ·)

def ruleHumanNotPresentLimits (context : ArbiterContext δ) : Bool × String :=
  match context.presence with
  | none => (true, "presence_unverified")
  | some presence =>
      if presence = PRESENCE_HUMAN_PRESENT then (true, "human_present")
      else if presence ≠ PRESENCE_HUMAN_NOT_PRESENT then (false, "presence_unknown")
      else
        match context.merchantLimits.bind (·.notPresentMaxOrderAmountMinorUnits) with
        | none => (false, "not_present_limits_missing")
        | some cap =>
            match context.amountMinorUnits, filled context.currency, context.quantity with
            | some amount, some currency, some quantity =>
                match context.intentMaxAmountMinorUnits, filled context.intentCurrency with
                | some intentCap, some intentCurrency =>
                    if platform.upper intentCurrency ≠ platform.upper currency then (false, "intent_currency_mismatch")
                    else if amount > intentCap then (false, "intent_cap_below_total")
                    else if amount > cap then (false, "not_present_amount_cap_exceeded")
                    else if exceeds (context.merchantLimits.bind (·.notPresentMaxQuantityPerOrder)) quantity then
                      (false, "not_present_quantity_cap_exceeded")
                    else (true, "within_not_present_limits")
                | _, _ => (false, "intent_cap_missing")
            | _, _, _ => (false, "order_amount_missing")

def INSTRUMENT_UPI_AUTOPAY : String := "upi_autopay"

def CURRENCY_INR : String := "INR"

def HIGHER_LIMIT_PURPOSES : List String := ["insurance_premium", "mutual_fund_subscription", "credit_card_bill"]

structure AfaRequirement where
  required : Bool
  basis : String
  deriving DecidableEq

def AfaEvidence.limit (afa : AfaEvidence) : ℤ :=
  if (filled afa.purpose).getD "general" ∈ HIGHER_LIMIT_PURPOSES then afa.higherLimitMinorUnits else afa.limitMinorUnits

def afaRequirement (afa : AfaEvidence) : AfaRequirement :=
  if afa.debitKind = "registration" then ⟨true, "rbi_em26_registration_and_first_debit"⟩
  else if afa.debitKind ≠ "subsequent" then ⟨true, "debit_kind_unknown"⟩
  else
    match afa.amountMinorUnits with
    | none => ⟨true, "amount_or_currency_unknown"⟩
    | some amount =>
        if platform.upper (afa.currency.getD "") ≠ CURRENCY_INR then ⟨true, "amount_or_currency_unknown"⟩
        else if amount > afa.limit then ⟨true, "rbi_em26_s8_above_limit"⟩
        else ⟨false, "rbi_em26_s8_within_limit"⟩

def member? (name : String) : Value δ → Option (Value δ)
  | .obj members => members.lookup name
  | _ => none

def isText (text : String) : Value δ → Bool
  | .str value => value = text
  | _ => false

def elements : Value δ → List (Value δ)
  | .arr items => items
  | _ => []

def paysByUpi (payload : Value δ) : Bool :=
  ((member? "payment" payload).elim [] elements).any fun item =>
    (member? "type" item).any (isText INSTRUMENT_UPI_AUTOPAY)

def ruleAfaEvidencePresent (context : ArbiterContext δ) : Bool × String :=
  match context.afa with
  | none => if paysByUpi context.payload then (false, "afa_input_missing") else (true, "afa_not_applicable")
  | some afa =>
      let requirement := afaRequirement platform afa
      if !requirement.required && decide (context.presence ≠ some PRESENCE_HUMAN_NOT_PRESENT) then
        (true, "afa_not_required:" ++ requirement.basis)
      else if given afa.evidenceRef then (true, "afa_evidence_present")
      else (false, "afa_evidence_missing")

def ruleRefundWithinCaptured (context : ArbiterContext δ) : Bool × String :=
  match context.refund with
  | none => (false, "refund_input_missing")
  | some refund =>
      match context.amountMinorUnits with
      | none => (false, "refund_amount_invalid")
      | some amount =>
          if amount < 1 then (false, "refund_amount_invalid")
          else
            match filled context.currency with
            | none => (false, "refund_currency_mismatch")
            | some currency =>
                if platform.upper currency ≠ platform.upper refund.currency then (false, "refund_currency_mismatch")
                else if refund.capturedMinorUnits < 1 then (false, "order_not_captured")
                else if refund.refundedMinorUnits + amount > refund.capturedMinorUnits then
                  (false, "refund_exceeds_captured")
                else (true, "refund_within_captured")

end Rules

section Decisions

variable {δ : Type} (platform : Platform δ)

inductive Rule where
  | mandate
  | consent
  | passport
  | authorityVerified
  | artifacts
  | merchantLimits
  | notPresent
  | afa
  | refund
  | handoffLimits
  deriving DecidableEq

def Rule.name : Rule → String
  | .mandate => "mandate_present_unexpired"
  | .consent => "consent_active"
  | .passport => "passport_amount_cap"
  | .authorityVerified => "buyer_authority_verified"
  | .artifacts => "oacp_artifacts_valid"
  | .merchantLimits => "merchant_limits"
  | .notPresent => "human_not_present_limits"
  | .afa => "afa_evidence_present"
  | .refund => "refund_within_captured"
  | .handoffLimits => "handoff_merchant_limits"

def RULE_ORDER : List Rule :=
  [.mandate, .consent, .passport, .authorityVerified, .artifacts, .merchantLimits, .notPresent]

def RULES_BY_ACTION : List (String × List Rule) :=
  [("purchase_handoff", RULE_ORDER), ("pos_handoff", RULE_ORDER), ("session_complete", RULE_ORDER ++ [.afa]),
    ("mandate_request", RULE_ORDER.filter (· ≠ .mandate)), ("refund", [.refund]),
    ("payment_handoff", [.artifacts, .handoffLimits])]

def Rule.evaluate (rule : Rule) (context : ArbiterContext δ) (action : String) : Bool × String :=
  match rule with
  | .mandate => ruleMandatePresentUnexpired context
  | .consent => ruleConsentActive platform context
  | .passport => rulePassportAmountCap platform context
  | .authorityVerified => ruleBuyerAuthorityVerified context
  | .artifacts => ruleOacpArtifactsValid context action
  | .merchantLimits => ruleMerchantLimits platform context
  | .notPresent => ruleHumanNotPresentLimits platform context
  | .afa => ruleAfaEvidencePresent platform context
  | .refund => ruleRefundWithinCaptured platform context
  | .handoffLimits => ruleHandoffMerchantLimits platform context

structure RuleResult where
  rule : String
  passed : Bool
  reason : String
  deriving DecidableEq

inductive Outcome where
  | allow
  | refuse
  deriving DecidableEq

-- What Grantex is told of the evidence.
structure EvidenceSummary where
  mandateRef : Option String
  mandateHash : Option String
  consentRef : Option String
  consentStatus : Option String
  passportRef : Option String
  artifactIds : List String
  deriving DecidableEq

structure DecisionExtra where
  buyerAuthoritySource : String
  mandateHashes : List (String × Option String)
  mandateJtis : List (String × Option String)
  presence : Option String
  authorityVerificationRef : Option String
  deriving DecidableEq

structure Decision where
  decisionId : String
  tenantId : String
  merchantId : String
  sellerAgentId : String
  buyerAgentId : Option String
  action : String
  outcome : Outcome
  rulesEvaluated : List String
  failingRule : Option String
  ruleResults : List RuleResult
  evidence : EvidenceSummary
  evidenceHashes : List String
  payloadHash : String
  policyVersion : String
  decidedAt : ℤ
  expiresAt : ℤ
  reason : String
  extra : DecisionExtra
  deriving DecidableEq

def Decision.allowed (decision : Decision) : Bool := decision.outcome = .allow

def sortedSet (texts : List String) : List String := texts.dedup.insertionSort (· ≤ ·)

def evidenceSummary (context : ArbiterContext δ) : EvidenceSummary where
  mandateRef := context.mandate.bind (·.ref)
  mandateHash := context.mandate.bind (·.hash)
  consentRef := context.consent.bind (·.ref)
  consentStatus := context.consent.bind (·.status)
  passportRef := context.passport.bind (·.ref)
  artifactIds := sortedSet (context.artifacts.map (·.artifactId))

-- A label and what stands behind it, where the reference is given.
def labelled (ref : Option String) (label : String) (shown : String → String) : List String :=
  if given ref then [label ++ shown (ref.getD "")] else []

def evidenceHashes (context : ArbiterContext δ) : List String :=
  sortedSet
    (labelled (context.mandate.bind (·.hash)) "mandate:" id ++
      (context.artifacts.flatMap fun artifact =>
        labelled artifact.payloadHash ("artifact:" ++ artifact.artifactId ++ ":") id) ++
      labelled (context.consent.bind (·.ref)) "consent:" (fun ref =>
        platform.sha256 (ref ++ "|" ++ (context.consent.bind (·.status)).getD "")) ++
      labelled (context.passport.bind (·.ref)) "passport:" platform.sha256 ++
      labelled (context.afa.bind (·.evidenceRef)) "afa:" platform.sha256)

def MANDATE_KINDS : List String := ["intent", "cart", "payment"]

def mandateJtis (context : ArbiterContext δ) : List (String × Option String) :=
  MANDATE_KINDS.map fun kind =>
    (kind, (filled ((context.mandateJtis.lookup kind).getD none)).map (clip 255))

def mandateHashes (context : ArbiterContext δ) : List (String × Option String) :=
  MANDATE_KINDS.map fun kind => (kind, ((context.mandateHashes.lookup kind).getD none).filter isHex64)

def textValue : Option String → Value δ
  | none => .null
  | some text => .str text

-- What the id of a decision is the hash of.
def decisionMaterial (context : ArbiterContext δ) (action : String) (payloadHash : String) : Value δ :=
  .obj
    [("policy_version", .str POLICY_VERSION), ("tenant_id", .str context.tenantId),
      ("merchant_id", .str context.merchantId), ("seller_agent_id", .str context.sellerAgentId),
      ("buyer_agent_id", textValue context.buyerAgentId), ("action", .str action),
      ("payload_hash", .str payloadHash),
      ("evidence_hashes", .arr ((evidenceHashes platform context).map .str)),
      ("buyer_authority_source", .str context.buyerAuthoritySource),
      ("require_verified_authority", .bool context.requireVerifiedAuthority),
      ("presence", textValue context.presence), ("now", .str (platform.isoformat context.now))]

def decisionIdFor (context : ArbiterContext δ) (action : String) (payloadHash : String) : String :=
  "arbdec_" ++ clip 40 (platform.payloadHash (decisionMaterial platform context action payloadHash))

def ruleResults (action : String) (context : ArbiterContext δ) : List RuleResult :=
  match RULES_BY_ACTION.lookup action with
  | none => [⟨"action_supported", false, "action_unknown"⟩]
  | some rules =>
      rules.map fun rule =>
        ⟨rule.name, (rule.evaluate platform context action).1, (rule.evaluate platform context action).2⟩

def decide (action : String) (context : ArbiterContext δ) : Decision :=
  let payloadHash := platform.payloadHash context.payload
  let results := ruleResults platform action context
  let failing := results.find? fun result => !result.passed
  { decisionId := decisionIdFor platform context action payloadHash
    tenantId := context.tenantId
    merchantId := context.merchantId
    sellerAgentId := context.sellerAgentId
    buyerAgentId := context.buyerAgentId
    action
    outcome := if failing.isSome then .refuse else .allow
    rulesEvaluated := results.map (·.rule)
    failingRule := failing.map (·.rule)
    ruleResults := results
    evidence := evidenceSummary context
    evidenceHashes := evidenceHashes platform context
    payloadHash
    policyVersion := POLICY_VERSION
    decidedAt := context.now
    expiresAt := context.now + DECISION_TTL
    reason := failing.elim "all_rules_passed" (·.reason)
    extra :=
      { buyerAuthoritySource := context.buyerAuthoritySource
        mandateHashes := mandateHashes context
        mandateJtis := mandateJtis context
        presence := context.presence
        authorityVerificationRef := context.authorityVerificationRef } }

end Decisions

end AgenticOrg.Commerce.Arbiter
