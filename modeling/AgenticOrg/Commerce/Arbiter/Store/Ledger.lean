import AgenticOrg.Commerce.Arbiter.Theorems
import AgenticOrg.Commerce.Arbiter.Store.Theorems

namespace AgenticOrg.Commerce.Arbiter

open History
open JsonText (Value)
open Tables

section Covers

variable {δ : Type} (platform : Platform δ)

def PURCHASE_ACTIONS : List String := ["purchase_handoff", "pos_handoff", "session_complete"]

-- What an allowed purchase is held against: evidence that has not expired, and every cap on its amount; the day's cap
-- only where the context says what was committed that day.
structure PurchaseCovered (context : ArbiterContext δ) (amount : ℤ) : Prop where
  stated : context.amountMinorUnits = some amount
  mandate : ∃ mandate ∈ context.mandate, ∃ expires ∈ mandate.expiresAt, context.now < expires
  passport : ∃ passport ∈ context.passport, ∃ cap ∈ passport.maxAmountMinorUnits, amount ≤ cap ∧
    ∃ expires ∈ passport.expiresAt, context.now < expires
  order : ∃ limits ∈ context.merchantLimits, ∃ cap ∈ limits.maxOrderAmountMinorUnits, amount ≤ cap
  day : ∀ limits ∈ context.merchantLimits, ∀ cap ∈ limits.maxDailyAmountMinorUnits,
    ∀ committed ∈ context.dailyCommittedAmountMinorUnits, committed + amount ≤ cap
  notPresent : context.presence = some PRESENCE_HUMAN_NOT_PRESENT →
    (∃ cap ∈ context.intentMaxAmountMinorUnits, amount ≤ cap) ∧
      ∃ limits ∈ context.merchantLimits, ∃ cap ∈ limits.notPresentMaxOrderAmountMinorUnits, amount ≤ cap
  artifacts : ∀ family ∈ COMMITMENT_FAMILIES, ∃ artifact ∈ context.artifacts, artifact.family = family ∧
    artifactInScope artifact context = true ∧ artifactProblem artifact context = none

-- An allowed refund leaves the order at what was captured of it.
structure RefundCovered (context : ArbiterContext δ) (amount : ℤ) : Prop where
  stated : context.amountMinorUnits = some amount
  positive : 1 ≤ amount
  captured : ∃ refund ∈ context.refund, refund.refundedMinorUnits + amount ≤ refund.capturedMinorUnits

structure Covered (action : String) (context : ArbiterContext δ) : Prop where
  purchase : action ∈ PURCHASE_ACTIONS → ∃ amount, PurchaseCovered context amount
  refund : action = "refund" → ∃ amount, RefundCovered context amount

variable {platform}

theorem purchase_rules {action : String} {context : ArbiterContext δ} (haction : action ∈ PURCHASE_ACTIONS)
    (h : (decide platform action context).allowed = true) :
    ∀ rule ∈ RULE_ORDER, (rule.evaluate platform context action).1 = true := by
  obtain ⟨rules, hrules, hall⟩ := (decide_allowed platform context action).mp h
  intro rule hrule
  refine hall rule ?_
  rw [PURCHASE_ACTIONS, List.mem_cons, List.mem_cons, List.mem_singleton] at haction
  rcases haction with rfl | rfl | rfl
  · obtain rfl : RULE_ORDER = rules := Option.some.inj hrules
    exact hrule
  · obtain rfl : RULE_ORDER = rules := Option.some.inj hrules
    exact hrule
  · obtain rfl : RULE_ORDER ++ [Rule.afa] = rules := Option.some.inj hrules
    exact List.mem_append_left _ hrule

theorem purchaseCovered_of_allowed {action : String} {context : ArbiterContext δ}
    (haction : action ∈ PURCHASE_ACTIONS) (h : (decide platform action context).allowed = true) :
    ∃ amount, PurchaseCovered context amount := by
  have hrules := purchase_rules haction h
  have hmandate := (ruleMandatePresentUnexpired_passed context).mp (hrules .mandate (by simp [RULE_ORDER]))
  have hpassport := (rulePassportAmountCap_passed platform context).mp (hrules .passport (by simp [RULE_ORDER]))
  have hartifacts := (ruleOacpArtifactsValid_passed context action).mp (hrules .artifacts (by simp [RULE_ORDER]))
  have hlimits := (ruleMerchantLimits_passed platform context).mp (hrules .merchantLimits (by simp [RULE_ORDER]))
  have hpresence := (ruleHumanNotPresentLimits_passed platform context).mp
    (hrules .notPresent (by simp [RULE_ORDER]))
  obtain ⟨mandate, deadline, hm, _, _, hdeadline, hbefore⟩ := hmandate
  obtain ⟨passport, cap, _, expires, amount, _, hp, _, hcap, _, hexpires, hlate, hamount, _, _, hle⟩ := hpassport
  obtain ⟨limits, orderCap, _, ordered, _, _, hl, horder, _, hordered, _, _, _, _, hmost, hday⟩ := hlimits
  obtain rfl : amount = ordered := Option.some.inj (hamount.symm.trans hordered)
  obtain ⟨required, hrequired, hfamilies⟩ := hartifacts
  obtain rfl : COMMITMENT_FAMILIES = required := by
    rw [PURCHASE_ACTIONS, List.mem_cons, List.mem_cons, List.mem_singleton] at haction
    rcases haction with rfl | rfl | rfl <;> exact Option.some.inj hrequired
  refine ⟨amount,
    { stated := hamount
      mandate := ⟨mandate, hm, deadline, hdeadline, hbefore⟩
      passport := ⟨passport, hp, cap, hcap, hle, expires, hexpires, hlate⟩
      order := ⟨limits, hl, orderCap, horder, hmost⟩
      day := ?_
      notPresent := ?_
      artifacts := fun family hfamily => (familyProblem_none context family).mp (hfamilies family hfamily) }⟩
  · intro found hfound dayCap hdayCap committed hcommitted
    obtain rfl : limits = found := Option.some.inj (hl.symm.trans hfound)
    rw [Option.mem_def] at hdayCap hcommitted
    simp only [exceedsDaily, hdayCap, hcommitted, gt_iff_lt, decide_eq_false_iff_not, not_lt] at hday
    exact hday
  · intro hnotPresent
    rcases hpresence with hnone | hpresent | ⟨found, notPresentCap, spent, _, _, intentCap, _, _, hfound, hnotPresentCap,
      hspent, _, _, hintentCap, _, _, hintent, hmore, _⟩
    · rw [hnotPresent] at hnone
      cases hnone
    · rw [hnotPresent, Option.some.injEq, PRESENCE_HUMAN_NOT_PRESENT, PRESENCE_HUMAN_PRESENT] at hpresent
      exact absurd hpresent (by decide)
    · obtain rfl : amount = spent := Option.some.inj (hamount.symm.trans hspent)
      exact ⟨⟨intentCap, hintentCap, hintent⟩, found, hfound, notPresentCap, hnotPresentCap, hmore⟩

theorem covered_of_allowed {action : String} {context : ArbiterContext δ}
    (h : (decide platform action context).allowed = true) : Covered action context := by
  refine ⟨fun haction => purchaseCovered_of_allowed haction h, ?_⟩
  rintro rfl
  obtain ⟨rules, hrules, hall⟩ := (decide_allowed platform context "refund").mp h
  obtain rfl : [Rule.refund] = rules := Option.some.inj hrules
  obtain ⟨refund, amount, _, hrefund, hamount, hpositive, _, _, hle, _⟩ :=
    (ruleRefundWithinCaptured_passed platform context).mp (hall .refund List.mem_cons_self)
  exact ⟨amount, hamount, hpositive, refund, hrefund, hle⟩

end Covers

section Ledgers

variable {δ : Type} (platform : Platform δ)

-- A decision that is consumed was decided and sealed before, and was not consumed before.
def Backed (earlier : List LedgerEvent) : LedgerEvent → Prop
  | .consumed decisionId tenantId action payloadHash moment =>
      (∀ tenantId action payloadHash moment,
        LedgerEvent.consumed decisionId tenantId action payloadHash moment ∉ earlier) ∧
      ∃ context : ArbiterContext δ, .decided (decide platform action context) tenantId ∈ earlier ∧
        (decide platform action context).decisionId = decisionId ∧ platform.uuid context.tenantId = some tenantId ∧
        platform.payloadHash context.payload = payloadHash ∧ moment < context.now + DECISION_TTL ∧
        (decide platform action context).allowed = true ∧ Covered action context
  | _ => True

structure LedgerKept (store : ArbiterStore) : Prop where
  decided : ∀ decisionId row, store.decisions.find? decisionId = some row →
    .decided row.decision row.tenantId ∈ store.ledger ∧ ∃ action, ∃ context : ArbiterContext δ,
      decide platform action context = row.decision ∧ platform.uuid context.tenantId = some row.tenantId
  consumed : ∀ decisionId tenantId action payloadHash moment,
    .consumed decisionId tenantId action payloadHash moment ∈ store.ledger →
      ∃ row, store.decisions.find? decisionId = some row ∧ row.consumedAt ≠ none
  backed : Always (Backed platform) store.ledger

variable {platform} {store : ArbiterStore}

theorem LedgerKept.persist (h : LedgerKept platform store) (action : String) (context : ArbiterContext δ)
    (tenantId : String) (htenant : platform.uuid context.tenantId = some tenantId) :
    LedgerKept platform (persistDecision store (decide platform action context) tenantId) := by
  have hledger : (persistDecision store (decide platform action context) tenantId).ledger =
      store.ledger ++ [.decided (decide platform action context) tenantId] := rfl
  refine ⟨fun decisionId row hrow => ?_, fun decisionId tenant act payload moment hevent => ?_, ?_⟩
  · rw [find?_persistDecision] at hrow
    rw [hledger]
    rcases Option.or_eq_some_iff.mp hrow with hold | ⟨_, hnew⟩
    · obtain ⟨hdecided, hmade⟩ := h.decided decisionId row hold
      exact ⟨List.mem_append_left _ hdecided, hmade⟩
    · split_ifs at hnew with hid
      cases hnew
      exact ⟨by simp, action, context, rfl, htenant⟩
  · rw [hledger, List.mem_append, List.mem_singleton] at hevent
    obtain ⟨row, hrow, hspent⟩ := h.consumed decisionId tenant act payload moment
      (hevent.resolve_right LedgerEvent.noConfusion)
    refine ⟨row, ?_, hspent⟩
    rw [find?_persistDecision, hrow]
    rfl
  · rw [hledger, always_concat]
    exact ⟨h.backed, trivial⟩

theorem LedgerKept.attach (h : LedgerKept platform store) (decision : Decision) (tenantId : String) (jti : String)
    (recordedAt : ℤ) : LedgerKept platform (attachGrant store decision tenantId jti recordedAt) := by
  have hledger : ∃ events, (attachGrant store decision tenantId jti recordedAt).ledger = store.ledger ++ events ∧
      (events = [] ∨ events = [.countersigned decision tenantId jti]) := by
    rw [attachGrant]
    split
    · exact ⟨[], by simp⟩
    · split_ifs
      · exact ⟨_, rfl, .inr rfl⟩
      · exact ⟨[], by simp⟩
  obtain ⟨events, hevents, hshape⟩ := hledger
  refine ⟨fun decisionId row hrow => ?_, fun decisionId tenant action payload moment hevent => ?_, ?_⟩
  · rw [find?_attachGrant, Option.map_eq_some_iff] at hrow
    obtain ⟨old, hold, rfl⟩ := hrow
    obtain ⟨hdecided, hmade⟩ := h.decided decisionId old hold
    rw [hevents]
    split_ifs
    · exact ⟨List.mem_append_left _ hdecided, hmade⟩
    · exact ⟨List.mem_append_left _ hdecided, hmade⟩
  · rw [hevents, List.mem_append] at hevent
    have hevent := hevent.resolve_right fun hnew => by
      rcases hshape with rfl | rfl
      · cases hnew
      · exact LedgerEvent.noConfusion (List.mem_singleton.mp hnew)
    obtain ⟨row, hrow, hspent⟩ := h.consumed decisionId tenant action payload moment hevent
    refine ⟨_, (find?_attachGrant _ _ _ _ _ _).trans (congrArg _ hrow), ?_⟩
    dsimp only
    split_ifs
    · exact hspent
    · exact hspent
  · rw [hevents]
    rcases hshape with rfl | rfl
    · rw [List.append_nil]
      exact h.backed
    · rw [always_concat]
      exact ⟨h.backed, trivial⟩

theorem LedgerKept.consume (h : LedgerKept platform store) {store' : ArbiterStore} {tenantId : String}
    {decisionId : String} {request : Request} (hconsume : Arbiter.consume store tenantId decisionId request = some store') :
    LedgerKept platform store' := by
  obtain ⟨given, hgiven, hrow, hstore⟩ := (consume_eq_some _ _ _ _ _).mp hconsume
  rw [consumable_iff] at hrow
  obtain ⟨rfl, haction, hpayload, hallow, hunspent, hfresh, _⟩ := hrow
  have hkey := (Table.mem_of_find? _ _ _ hgiven).2
  change given.decision.decisionId = decisionId at hkey
  have hledger : store'.ledger = store.ledger ++
      [.consumed decisionId given.tenantId request.action request.payloadHash request.now] := by rw [hstore]
  refine ⟨fun other row hother => ?_, fun other tenant action payload moment hevent => ?_, ?_⟩
  · rw [find?_consume _ _ _ _ _ hconsume, Option.map_eq_some_iff] at hother
    obtain ⟨old, hold, rfl⟩ := hother
    obtain ⟨hdecided, hmade⟩ := h.decided other old hold
    rw [hledger]
    split_ifs
    · exact ⟨List.mem_append_left _ hdecided, hmade⟩
    · exact ⟨List.mem_append_left _ hdecided, hmade⟩
  · rw [hledger, List.mem_append, List.mem_singleton] at hevent
    rcases hevent with hevent | hevent
    · obtain ⟨row, hfound, hspent⟩ := h.consumed other tenant action payload moment hevent
      refine ⟨_, (find?_consume _ _ _ _ _ hconsume other).trans (congrArg _ hfound), ?_⟩
      dsimp only
      split_ifs
      · exact Option.some_ne_none _
      · exact hspent
    · cases hevent
      refine ⟨_, (find?_consume _ _ _ _ _ hconsume decisionId).trans (congrArg _ hgiven), ?_⟩
      dsimp only
      rw [if_pos rfl]
      exact Option.some_ne_none _
  · rw [hledger, always_concat]
    refine ⟨h.backed, fun tenant action payload moment hevent => ?_, ?_⟩
    · obtain ⟨row, hfound, hspent⟩ := h.consumed decisionId tenant action payload moment hevent
      obtain rfl : given = row := Option.some.inj (hgiven.symm.trans hfound)
      exact hspent hunspent
    · obtain ⟨hdecided, action, context, hdecision, htenant⟩ := h.decided decisionId given hgiven
      obtain rfl : action = request.action := by rw [← haction, ← hdecision]; rfl
      rw [← hdecision] at hdecided hkey hpayload hallow hfresh
      have hallowed : (decide platform request.action context).allowed = true := decide_eq_true hallow
      exact ⟨context, hdecided, hkey, htenant, hpayload, hfresh, hallowed, covered_of_allowed hallowed⟩

-- In every run, what the ledger says was consumed was allowed before, for that tenant, action and payload, within
-- its caps, and is consumed once.
theorem run_backed (issuer : String) (steps : List (ArbiterStep δ)) :
    LedgerKept platform (emptyStore.run platform issuer steps) := by
  induction steps using List.reverseRecOn with
  | nil =>
      refine ⟨fun decisionId row h => ?_, fun decisionId tenantId action payload moment h => ?_, always_nil _⟩
      · cases h
      · cases h
  | append_singleton steps step ih =>
      rw [run_append]
      cases step with
      | persist action context =>
          rw [ArbiterStore.step]
          cases htenant : platform.uuid context.tenantId with
          | none => exact ih
          | some tenantId => exact ih.persist action context tenantId htenant
      | countersign action context postEnabled answer moment =>
          rw [ArbiterStore.step]
          split
          · exact ih.attach _ _ _ _
          · exact ih
      | consume request =>
          rw [ArbiterStore.step]
          split
          · rename_i consumed hresult
            obtain ⟨decisionId, tenantId, _, _, hconsume⟩ := (requireAllowDecision_ok platform _ _ _ _).mp hresult
            exact ih.consume hconsume
          · exact ih

theorem consumed_backed (issuer : String) (steps : List (ArbiterStep δ)) :
    Always (Backed platform) (emptyStore.run platform issuer steps).ledger :=
  (run_backed issuer steps).backed

end Ledgers

section Grants

variable {δ : Type} (platform : Platform δ) (issuer : String)

-- The claims are Grantex's, for this decision on this payload and its buyer agent, and end with the decision.
structure GrantBinds (claims : Value δ) (decision : Decision) (moment : ℤ) : Prop where
  signer : issuer ≠ "" ∧ memberIs "iss" issuer claims = true
  audience : ∃ audience ∈ audiences claims, isText DECISION_GRANT_AUDIENCE audience = true
  policy : memberIs "approver_auth" POLICY_ARBITER claims = true
  payload : memberIs "action_hash" decision.payloadHash claims = true
  requested : memberIs "decision_request" decision.decisionId claims = true
  buyer : ∃ buyer, decision.buyerAgentId = some buyer ∧ buyer ≠ "" ∧ memberIs "sub" buyer claims = true
  expiry : ∃ exp, (member? "exp" claims).bind intOf = some exp ∧ moment < exp * 1000000 ∧
    exp * 1000000 ≤ decision.decidedAt + DECISION_TTL + CLOCK_SKEW

-- The decisions that a run makes.
def decided : ArbiterStep δ → Option (String × ArbiterContext δ)
  | .persist action context => some (action, context)
  | .countersign action context _ _ _ => some (action, context)
  | .consume _ => none

-- Two decisions of one id are made of the same material.
def CollisionFree (steps : List (ArbiterStep δ)) : Prop :=
  ∀ first ∈ steps.filterMap decided, ∀ second ∈ steps.filterMap decided,
    (decide platform first.1 first.2).decisionId = (decide platform second.1 second.2).decisionId →
      decisionMaterial platform first.2 first.1 (platform.payloadHash first.2.payload) =
        decisionMaterial platform second.2 second.1 (platform.payloadHash second.2.payload)

variable {platform issuer}

theorem GrantBinds.congr {claims : Value δ} {first second : Decision} {moment : ℤ}
    (h : GrantBinds issuer claims first moment) (hid : first.decisionId = second.decisionId)
    (hpayload : first.payloadHash = second.payloadHash) (hbuyer : first.buyerAgentId = second.buyerAgentId)
    (hdecided : first.decidedAt = second.decidedAt) : GrantBinds issuer claims second moment :=
  ⟨h.signer, h.audience, h.policy, hpayload ▸ h.payload, hid ▸ h.requested, hbuyer ▸ h.buyer, hdecided ▸ h.expiry⟩

end Grants

section Refusals

variable {δ : Type} {platform : Platform δ} {issuer : String}

theorem refusalFor_consumed (row : DecisionRow) (request : Request) :
    refusalFor (some row) request = .decisionConsumed ↔
      row.decision.outcome = .allow ∧ row.decision.action = request.action ∧
        row.decision.payloadHash = request.payloadHash ∧
        (row.consumedAt.isSome = true ∨ request.now < row.decision.expiresAt ∧
          (request.requireGrantexGrant = true → row.grantexGrantJti.isSome = true)) := by
  rw [refusalFor]
  by_cases hallow : row.decision.outcome = .allow
  · by_cases haction : row.decision.action = request.action
    · by_cases hpayload : row.decision.payloadHash = request.payloadHash
      · by_cases hspent : row.consumedAt = none
        · by_cases hlate : row.decision.expiresAt ≤ request.now
          · simp [hallow, haction, hpayload, hspent, hlate, not_lt.mpr hlate]
          · by_cases hgrant : row.grantexGrantJti = none
            · cases hdemanded : request.requireGrantexGrant <;>
                simp [hallow, haction, hpayload, hspent, hlate, not_le.mp hlate, hgrant]
            · have hsome := Option.isSome_iff_ne_none.mpr hgrant
              simp [hallow, haction, hpayload, hspent, hlate, not_le.mp hlate, hgrant, hsome]
        · simp [hallow, haction, hpayload, hspent, Option.isSome_iff_ne_none]
      · simp [hallow, haction, hpayload]
    · simp [hallow, haction]
  · simp [hallow]

-- A refused executor is told that its decision was used exactly when the row it reads again allows this action on
-- this payload and either was used by then, or became usable between the two statements.
theorem refused_as_consumed_iff (steps : List (ArbiterStep δ)) (store : ArbiterStore) (request : Request)
    (decisionId tenantId : String) (hid : filled request.decisionId = some decisionId)
    (huuid : platform.uuid request.tenantId = some tenantId)
    (hrefused : ¬∃ store', requireAllowDecision platform store store request = .ok store') :
    requireAllowDecision platform store (emptyStore.run platform issuer steps) request =
        .error (some .decisionConsumed) ↔
      ∃ context, FirstWritten platform steps decisionId tenantId request.action context ∧
        (decide platform request.action context).allowed = true ∧
        platform.payloadHash context.payload = request.payloadHash ∧
        (Happened (LetThrough platform issuer decisionId) steps ∨
          request.now < context.now + DECISION_TTL ∧ (request.requireGrantexGrant = true →
            Happened (GivenGrant platform issuer decisionId tenantId) steps)) := by
  have hall : AllRecorded platform issuer steps (emptyStore.run platform issuer steps) := run_allRecorded steps
  generalize emptyStore.run platform issuer steps = reread at hall
  have hnone : consume store tenantId decisionId request = none := by
    rw [Option.eq_none_iff_forall_ne_some]
    intro store' hconsume
    exact hrefused ⟨store', (requireAllowDecision_ok platform _ _ _ _).mpr ⟨decisionId, tenantId, hid, huuid, hconsume⟩⟩
  have hcode : requireAllowDecision platform store reread request =
      .error (some (refusalFor (getDecision reread tenantId decisionId) request)) := by
    rw [requireAllowDecision, hid, huuid]
    dsimp only
    rw [hnone]
  rw [hcode, Except.error.injEq, Option.some.injEq, getDecision]
  cases hrow : reread.decisions.find? decisionId with
  | none =>
      refine iff_of_false RefusalCode.noConfusion ?_
      rintro ⟨context, hwritten, _⟩
      obtain ⟨row, hfound, _⟩ := hall.row_of_written hwritten
      rw [hrow] at hfound
      cases hfound
  | some row =>
      obtain ⟨hspent, hgranted⟩ := hall.row_history hrow
      by_cases htenant : row.tenantId = tenantId
      · subst htenant
        rw [Option.filter_some, if_pos (decide_eq_true rfl), refusalFor_consumed]
        constructor
        · rintro ⟨hallow, haction, hpayload, husable⟩
          obtain ⟨action, context, hwritten, hdecision⟩ := hall.written_of_row hrow
          rw [← hdecision] at hallow haction hpayload husable hgranted
          obtain rfl : action = request.action := haction
          refine ⟨context, hwritten, decide_eq_true hallow, hpayload, husable.imp hspent.mp ?_⟩
          exact And.imp_right fun hgrant hdemanded => (hgranted hallow).mp (hgrant hdemanded)
        · rintro ⟨context, hwritten, hallowed, hpayload, husable⟩
          obtain ⟨other, hother, hdecision, _⟩ := hall.row_of_written hwritten
          obtain rfl : row = other := Option.some.inj (hrow.symm.trans hother)
          rw [hdecision] at hgranted ⊢
          have hallow : (decide platform request.action context).outcome = .allow := of_decide_eq_true hallowed
          refine ⟨hallow, rfl, hpayload, husable.imp hspent.mpr ?_⟩
          exact And.imp_right fun hgrant hdemanded => (hgranted hallow).mpr (hgrant hdemanded)
      · rw [Option.filter_some, if_neg (by simpa using htenant)]
        refine iff_of_false RefusalCode.noConfusion ?_
        rintro ⟨context, hwritten, _⟩
        obtain ⟨other, hother, _, hsame⟩ := hall.row_of_written hwritten
        obtain rfl : row = other := Option.some.inj (hrow.symm.trans hother)
        exact htenant hsame

end Refusals

section Sample

def sampleAnswer : GrantexAnswer Empty :=
  .answered 201 (.obj [("decision_id", .str "arbdec_a"), ("outcome", .str "allow"), ("jti", .str "grant")])
    (.verified (.obj
      [("iss", .str "grantex"), ("aud", .str "urn:grantex:decision"), ("approver_auth", .str "policy_arbiter"),
        ("action_hash", .str "a"), ("decision_request", .str "arbdec_a"), ("sub", .str "buyer"),
        ("jti", .str "grant"), ("exp", .int 60)]))

def sampleSteps : List (ArbiterStep Empty) :=
  [.persist "refund" sampleContext, .countersign "refund" sampleContext true sampleAnswer 1]

def sampleRequest : Request := ⟨"acme", some "arbdec_a", "a", "refund", 2, true⟩

-- The refund was made, and an executor comes with the same decision.
theorem refused_as_consumed_twice :
    ∃ context, FirstWritten samplePlatform (sampleSteps ++ [.consume sampleRequest]) "arbdec_a" "acme" "refund" context ∧
      (decide samplePlatform "refund" context).allowed = true ∧ samplePlatform.payloadHash context.payload = "a" ∧
      (Happened (LetThrough samplePlatform "grantex" "arbdec_a") (sampleSteps ++ [.consume sampleRequest]) ∨
        sampleRequest.now < context.now + DECISION_TTL ∧ (sampleRequest.requireGrantexGrant = true →
          Happened (GivenGrant samplePlatform "grantex" "arbdec_a" "acme") (sampleSteps ++ [.consume sampleRequest]))) := by
  have hcode : requireAllowDecision samplePlatform
      (emptyStore.run samplePlatform "grantex" (sampleSteps ++ [.consume sampleRequest]))
      (emptyStore.run samplePlatform "grantex" (sampleSteps ++ [.consume sampleRequest])) sampleRequest =
        .error (some .decisionConsumed) := rfl
  refine (refused_as_consumed_iff (sampleSteps ++ [.consume sampleRequest])
    (emptyStore.run samplePlatform "grantex" (sampleSteps ++ [.consume sampleRequest])) sampleRequest "arbdec_a" "acme"
    rfl rfl ?_).mp hcode
  rintro ⟨store, hstore⟩
  rw [hcode] at hstore
  cases hstore

end Sample

end AgenticOrg.Commerce.Arbiter
