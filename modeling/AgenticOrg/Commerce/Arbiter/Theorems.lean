import Mathlib.Data.Option.Basic
import AgenticOrg.Commerce.Arbiter

namespace AgenticOrg.Commerce.Arbiter

open JsonText (Value)

section Passing

variable {δ : Type} (platform : Platform δ) (context : ArbiterContext δ)

theorem ruleMandatePresentUnexpired_passed :
    (ruleMandatePresentUnexpired context).1 = true ↔
      ∃ mandate expires, context.mandate = some mandate ∧ given mandate.ref = true ∧ given mandate.hash = true ∧
        mandate.expiresAt = some expires ∧ context.now < expires := by
  rw [ruleMandatePresentUnexpired]
  cases hmandate : context.mandate with
  | none => simp
  | some mandate =>
      by_cases hmissing : (!given mandate.ref || !given mandate.hash) = true
      · simp only [hmissing, ite_true]
        simp only [Bool.or_eq_true, Bool.not_eq_true'] at hmissing
        rcases hmissing with h | h <;> simp [h]
      · cases hexpires : mandate.expiresAt with
        | none => simp [hmissing, hexpires]
        | some expires =>
            by_cases hlate : expires ≤ context.now
            · simp [hmissing, hlate, hexpires]
            · simp only [Bool.or_eq_true, Bool.not_eq_true', not_or, Bool.not_eq_false] at hmissing
              simp [hmissing, hlate, hexpires, not_le.mp hlate]

theorem filled_eq_some_iff (text : Option String) (value : String) :
    filled text = some value ↔ text = some value ∧ value ≠ "" := by
  rw [filled, Option.filter_eq_some_iff, decide_eq_true_eq]

theorem rulePassportAmountCap_passed :
    (rulePassportAmountCap platform context).1 = true ↔
      ∃ passport cap currency expires amount spent, context.passport = some passport ∧ given passport.ref = true ∧
        passport.maxAmountMinorUnits = some cap ∧ filled passport.currency = some currency ∧
        passport.expiresAt = some expires ∧ context.now < expires ∧ context.amountMinorUnits = some amount ∧
        filled context.currency = some spent ∧ platform.upper currency = platform.upper spent ∧ amount ≤ cap := by
  rw [rulePassportAmountCap]
  constructor
  · intro h
    cases hpassport : context.passport with
    | none => simp [hpassport] at h
    | some passport =>
        by_cases href : given passport.ref = true
        · simp only [hpassport, href, Bool.not_true, Bool.false_eq_true, if_false] at h
          split at h
          · rename_i cap currency hcap hcurrency
            split at h
            · cases h
            · rename_i expires hexpires
              split_ifs at h with hlate
              split at h
              · rename_i amount spent hamount hspent
                split_ifs at h with hsame hmore
                exact ⟨passport, cap, currency, expires, amount, spent, rfl, href, hcap, hcurrency, hexpires,
                  not_le.mp hlate, hamount, hspent, not_not.mp hsame, not_lt.mp hmore⟩
              · cases h
          · cases h
        · simp [hpassport, href] at h
  · rintro ⟨passport, cap, currency, expires, amount, spent, hpassport, href, hcap, hcurrency, hexpires, hlate, hamount,
      hspent, hsame, hle⟩
    simp [hpassport, href, hcap, hcurrency, hexpires, not_le.mpr hlate, hamount, hspent, hsame, not_lt.mpr hle]

theorem ruleBuyerAuthorityVerified_passed :
    (ruleBuyerAuthorityVerified context).1 = true ↔
      if given context.authorityVerificationRef then
        ∃ ref mandate, parseVerificationRef (context.authorityVerificationRef.getD "") = some ref ∧
          context.mandate = some mandate ∧ refNamesMandate ref mandate = true
      else context.requireVerifiedAuthority = false := by
  rw [ruleBuyerAuthorityVerified]
  by_cases hgiven : given context.authorityVerificationRef = true
  · rw [if_pos hgiven, if_pos hgiven]
    constructor
    · intro h
      split at h
      · rename_i ref mandate href hmandate
        split_ifs at h with hnames
        exact ⟨ref, mandate, href, hmandate, hnames⟩
      · cases h
    · rintro ⟨ref, mandate, href, hmandate, hnames⟩
      simp [href, hmandate, hnames]
  · rw [if_neg hgiven, if_neg hgiven]
    cases context.requireVerifiedAuthority <;> simp

theorem artifactProblem_none (artifact : ArtifactEvidence) :
    artifactProblem artifact context = none ↔
      artifactVerified artifact = true ∧ artifact.revocationStatus = some "fresh" ∧
        (∃ expires, artifact.expiresAt = some expires ∧ context.now < expires) ∧
        artifact.freshnessStatus = some "fresh" := by
  rw [artifactProblem]
  constructor
  · intro h
    split_ifs at h with hverified hrevoked hknown hexpired hfresh
    simp only [Bool.not_eq_true', Bool.not_eq_false, Option.any_eq_true, decide_eq_true_eq, not_not] at *
    exact ⟨hverified, hknown, hexpired, hfresh⟩
  · rintro ⟨hverified, hrevoked, ⟨expires, hexpires, hlater⟩, hfresh⟩
    simp [hverified, hrevoked, hexpires, hlater, hfresh]

theorem artifactProblem_mem (artifact : ArtifactEvidence) (problem : String)
    (h : artifactProblem artifact context = some problem) : problem ∈ PROBLEM_ORDER := by
  rw [artifactProblem] at h
  split_ifs at h <;> cases h <;> simp [PROBLEM_ORDER]

theorem familyProblem_none (family : String) :
    familyProblem context family = none ↔
      ∃ artifact ∈ context.artifacts, artifact.family = family ∧ artifactInScope artifact context = true ∧
        artifactProblem artifact context = none := by
  have hmem : ∀ artifact : ArtifactEvidence,
      artifact ∈ context.artifacts.filter (fun artifact =>
        artifact.family = family && artifactInScope artifact context) ↔
        artifact ∈ context.artifacts ∧ artifact.family = family ∧ artifactInScope artifact context = true := by
    intro artifact
    rw [List.mem_filter, Bool.and_eq_true, decide_eq_true_eq]
  rw [familyProblem]
  generalize context.artifacts.filter (fun artifact =>
    artifact.family = family && artifactInScope artifact context) = candidates at *
  by_cases hempty : candidates = []
  · rw [if_pos hempty]
    constructor
    · intro h
      cases h
    · rintro ⟨artifact, ha, hscope, hinScope, _⟩
      have hfound := (hmem artifact).mpr ⟨ha, hscope, hinScope⟩
      rw [hempty] at hfound
      cases hfound
  · rw [if_neg hempty]
    by_cases hnone : none ∈ candidates.map fun artifact => artifactProblem artifact context
    · refine ⟨fun _ => ?_, fun _ => if_pos hnone⟩
      obtain ⟨artifact, hfound, hproblem⟩ := List.mem_map.mp hnone
      obtain ⟨ha, hfamily, hscope⟩ := (hmem artifact).mp hfound
      exact ⟨artifact, ha, hfamily, hscope, hproblem⟩
    · refine iff_of_false ?_ ?_
      · -- the problem of the first candidate is one of those looked for
        obtain ⟨first, hfirst⟩ := List.exists_mem_of_ne_nil _ hempty
        obtain ⟨problem, hproblem⟩ : ∃ problem, artifactProblem first context = some problem := by
          refine Option.ne_none_iff_exists'.mp fun h => hnone ?_
          exact List.mem_map.mpr ⟨first, hfirst, h⟩
        rw [if_neg hnone, Option.map_eq_none_iff, List.find?_eq_none]
        intro h
        refine h problem (artifactProblem_mem context first problem hproblem) (decide_eq_true ?_)
        exact List.mem_map.mpr ⟨first, hfirst, hproblem⟩
      · rintro ⟨artifact, ha, hfamily, hscope, hproblem⟩
        exact hnone (List.mem_map.mpr ⟨artifact, (hmem artifact).mpr ⟨ha, hfamily, hscope⟩, hproblem⟩)

theorem ruleOacpArtifactsValid_passed (action : String) :
    (ruleOacpArtifactsValid context action).1 = true ↔
      ∃ required, REQUIRED_ARTIFACT_FAMILIES.lookup action = some required ∧
        ∀ family ∈ required, familyProblem context family = none := by
  rw [ruleOacpArtifactsValid]
  cases REQUIRED_ARTIFACT_FAMILIES.lookup action with
  | none => simp
  | some required =>
      cases hproblem : required.findSome? (familyProblem context) with
      | none =>
          simp only [hproblem]
          exact iff_of_true trivial ⟨required, rfl, List.findSome?_eq_none_iff.mp hproblem⟩
      | some reason =>
          obtain ⟨family, hfamily, hreason⟩ := List.exists_of_findSome?_eq_some hproblem
          simp only [hproblem]
          refine iff_of_false Bool.false_ne_true ?_
          rintro ⟨_, hrequired, hall⟩
          cases hrequired
          rw [hall family hfamily] at hreason
          cases hreason

theorem ruleMerchantLimits_passed :
    (ruleMerchantLimits platform context).1 = true ↔
      ∃ limits cap quantityCap amount currency quantity, context.merchantLimits = some limits ∧
        limits.maxOrderAmountMinorUnits = some cap ∧ limits.maxQuantityPerOrder = some quantityCap ∧
        context.amountMinorUnits = some amount ∧ filled context.currency = some currency ∧
        context.quantity = some quantity ∧
        platform.upper currency ∈ limits.currencyAllowlist.map platform.upper ∧ quantity ≤ quantityCap ∧
        amount ≤ cap ∧ exceedsDaily limits context.dailyCommittedAmountMinorUnits amount = false := by
  rw [ruleMerchantLimits]
  constructor
  · intro h
    cases hlimits : context.merchantLimits with
    | none => simp [hlimits] at h
    | some limits =>
        simp only [hlimits] at h
        split at h
        · rename_i cap quantityCap hcap hquantityCap
          split_ifs at h with hallowlist
          split at h
          · rename_i amount currency quantity hamount hcurrency hquantity
            split_ifs at h with hlisted hmany hmore hdaily
            exact ⟨limits, cap, quantityCap, amount, currency, quantity, rfl, hcap, hquantityCap, hamount, hcurrency,
              hquantity, hlisted, not_lt.mp hmany, not_lt.mp hmore, Bool.eq_false_iff.mpr hdaily⟩
          · cases h
        · cases h
  · rintro ⟨limits, cap, quantityCap, amount, currency, quantity, hlimits, hcap, hquantityCap, hamount, hcurrency,
      hquantity, hlisted, hmany, hmore, hdaily⟩
    have hallowlist : limits.currencyAllowlist ≠ [] := by
      intro h
      rw [h] at hlisted
      cases hlisted
    simp only [hlimits, hcap, hquantityCap, hallowlist, hamount, hcurrency, hquantity, hlisted, not_true_eq_false,
      if_false, gt_iff_lt, not_lt.mpr hmany, not_lt.mpr hmore, hdaily, Bool.false_eq_true]

theorem ruleHandoffMerchantLimits_passed :
    (ruleHandoffMerchantLimits platform context).1 = true ↔
      context.merchantLimits = none ∨ (ruleMerchantLimits platform context).1 = true := by
  rw [ruleHandoffMerchantLimits]
  by_cases hlimits : context.merchantLimits = none
  · simp [hlimits]
  · simp [hlimits]

theorem ruleHumanNotPresentLimits_passed :
    (ruleHumanNotPresentLimits platform context).1 = true ↔
      context.presence = none ∨ context.presence = some PRESENCE_HUMAN_PRESENT ∨
        ∃ limits cap amount currency quantity intentCap intentCurrency,
          context.presence = some PRESENCE_HUMAN_NOT_PRESENT ∧ context.merchantLimits = some limits ∧
          limits.notPresentMaxOrderAmountMinorUnits = some cap ∧ context.amountMinorUnits = some amount ∧
          filled context.currency = some currency ∧ context.quantity = some quantity ∧
          context.intentMaxAmountMinorUnits = some intentCap ∧ filled context.intentCurrency = some intentCurrency ∧
          platform.upper intentCurrency = platform.upper currency ∧ amount ≤ intentCap ∧ amount ≤ cap ∧
          exceeds limits.notPresentMaxQuantityPerOrder quantity = false := by
  rw [ruleHumanNotPresentLimits]
  cases hpresence : context.presence with
  | none => simp
  | some presence =>
      by_cases hpresent : presence = PRESENCE_HUMAN_PRESENT
      · simp [hpresent]
      · by_cases habsent : presence = PRESENCE_HUMAN_NOT_PRESENT
        · have hother : ¬some presence = some PRESENCE_HUMAN_PRESENT := fun h => hpresent (Option.some.inj h)
          dsimp only
          rw [if_neg hpresent, if_neg (not_not.mpr habsent)]
          constructor
          · intro h
            split at h
            · cases h
            · rename_i cap hcap
              obtain ⟨limits, hlimits, hcap⟩ := Option.bind_eq_some_iff.mp hcap
              split at h
              · rename_i amount currency quantity hamount hcurrency hquantity
                split at h
                · rename_i intentCap intentCurrency hintentCap hintentCurrency
                  rw [hlimits] at h
                  split_ifs at h with hsame hintent hmore hmany
                  exact .inr (.inr ⟨limits, cap, amount, currency, quantity, intentCap, intentCurrency,
                    congrArg some habsent, hlimits, hcap, hamount, hcurrency, hquantity, hintentCap, hintentCurrency,
                    not_not.mp hsame,
                    not_lt.mp hintent, not_lt.mp hmore, Bool.eq_false_iff.mpr hmany⟩)
                · cases h
              · cases h
          · rintro (h | h | ⟨limits, cap, amount, currency, quantity, intentCap, intentCurrency, _, hlimits, hcap,
              hamount, hcurrency, hquantity, hintentCap, hintentCurrency, hsame, hintent, hmore, hmany⟩)
            · cases h
            · exact absurd h hother
            · simp only [hlimits, Option.bind_some, hcap, hamount, hcurrency, hquantity, hintentCap, hintentCurrency,
                hsame, ne_eq, not_true_eq_false, if_false, gt_iff_lt, not_lt.mpr hintent, not_lt.mpr hmore, hmany,
                Bool.false_eq_true]
        · simp [hpresent, habsent]

theorem afaRequirement_required (afa : AfaEvidence) :
    (afaRequirement platform afa).required = false ↔
      afa.debitKind = "subsequent" ∧ ∃ amount, afa.amountMinorUnits = some amount ∧
        platform.upper (afa.currency.getD "") = CURRENCY_INR ∧ amount ≤ afa.limit := by
  rw [afaRequirement]
  by_cases hkind : afa.debitKind = "subsequent"
  · cases hamount : afa.amountMinorUnits with
    | none => simp [hkind]
    | some amount =>
        by_cases hinr : platform.upper (afa.currency.getD "") = CURRENCY_INR
        · by_cases hmore : amount > afa.limit
          · simp [hkind, hinr, hmore]
          · simp [hkind, hinr, hmore, not_lt.mp hmore]
        · simp [hkind, hinr]
  · by_cases hregistration : afa.debitKind = "registration"
    · simp [hregistration]
    · simp [hkind, hregistration]

theorem ruleAfaEvidencePresent_passed :
    (ruleAfaEvidencePresent platform context).1 = true ↔
      (context.afa = none ∧ paysByUpi context.payload = false) ∨
        ∃ afa, context.afa = some afa ∧ (given afa.evidenceRef = true ∨
          (afaRequirement platform afa).required = false ∧ context.presence ≠ some PRESENCE_HUMAN_NOT_PRESENT) := by
  rw [ruleAfaEvidencePresent]
  cases hafa : context.afa with
  | none => cases paysByUpi context.payload <;> simp
  | some afa =>
      by_cases hpresence : context.presence = some PRESENCE_HUMAN_NOT_PRESENT
      · by_cases hgiven : given afa.evidenceRef = true <;> simp [hpresence, hgiven]
      · by_cases hrequired : (afaRequirement platform afa).required = true
        · by_cases hgiven : given afa.evidenceRef = true <;> simp [hpresence, hgiven, hrequired]
        · simp [hpresence, hrequired]

theorem ruleRefundWithinCaptured_passed :
    (ruleRefundWithinCaptured platform context).1 = true ↔
      ∃ refund amount currency, context.refund = some refund ∧ context.amountMinorUnits = some amount ∧ 1 ≤ amount ∧
        filled context.currency = some currency ∧ platform.upper currency = platform.upper refund.currency ∧
        refund.refundedMinorUnits + amount ≤ refund.capturedMinorUnits ∧ 1 ≤ refund.capturedMinorUnits := by
  rw [ruleRefundWithinCaptured]
  constructor
  · intro h
    split at h
    · cases h
    · rename_i refund hrefund
      split at h
      · cases h
      · rename_i amount hamount
        by_cases hpositive : amount < 1
        · rw [if_pos hpositive] at h
          cases h
        · rw [if_neg hpositive] at h
          split at h
          · cases h
          · rename_i currency hcurrency
            split_ifs at h with hsame hcaptured hmore
            exact ⟨refund, amount, currency, hrefund, hamount, not_lt.mp hpositive, hcurrency,
              not_not.mp hsame, not_lt.mp hmore, not_lt.mp hcaptured⟩
  · rintro ⟨refund, amount, currency, hrefund, hamount, hpositive, hcurrency, hsame, hmore, hcaptured⟩
    simp only [hrefund, hamount, not_lt.mpr hpositive, if_false, hcurrency, hsame, ne_eq, not_true_eq_false,
      not_lt.mpr hcaptured, gt_iff_lt, not_lt.mpr hmore]

-- An action is allowed when it has rules and each of them passes.
theorem decide_allowed (action : String) :
    (decide platform action context).allowed = true ↔
      ∃ rules, RULES_BY_ACTION.lookup action = some rules ∧
        ∀ rule ∈ rules, (rule.evaluate platform context action).1 = true := by
  have hallowed : (decide platform action context).allowed = true ↔
      (ruleResults platform action context).find? (fun result => !result.passed) = none := by
    rw [Decision.allowed, decide]
    cases (ruleResults platform action context).find? (fun result => !result.passed) <;> simp
  rw [hallowed, List.find?_eq_none, ruleResults]
  cases RULES_BY_ACTION.lookup action with
  | none => simp
  | some rules => simp

end Passing

section Easing

variable {δ : Type}

-- What was stated is stated as no more.
def Lowered (before after : Option ℤ) : Prop := ∀ x ∈ before, ∃ y ∈ after, y ≤ x

def Raised (before after : Option ℤ) : Prop := ∀ x ∈ before, ∃ y ∈ after, x ≤ y

-- A cap that is not set lets everything through.
def Loosened (before after : Option ℤ) : Prop := ∀ y ∈ after, ∃ x ∈ before, x ≤ y

structure EasedMandate (before after : MandateEvidence) : Prop where
  ref : after.ref = before.ref
  hash : after.hash = before.hash
  expiresAt : Raised before.expiresAt after.expiresAt

structure EasedPassport (before after : PassportEvidence) : Prop where
  ref : after.ref = before.ref
  currency : after.currency = before.currency
  maxAmountMinorUnits : Raised before.maxAmountMinorUnits after.maxAmountMinorUnits
  expiresAt : Raised before.expiresAt after.expiresAt

-- The same artifact, or one like it that holds longer.
structure EasedArtifact (before after : ArtifactEvidence) : Prop where
  same : after = { before with artifactId := after.artifactId, expiresAt := after.expiresAt }
  expiresAt : Raised before.expiresAt after.expiresAt

structure EasedLimits (before after : MerchantLimits) : Prop where
  maxOrderAmountMinorUnits : Raised before.maxOrderAmountMinorUnits after.maxOrderAmountMinorUnits
  currencyAllowlist : before.currencyAllowlist ⊆ after.currencyAllowlist
  maxQuantityPerOrder : Raised before.maxQuantityPerOrder after.maxQuantityPerOrder
  notPresentMaxOrderAmountMinorUnits :
    Raised before.notPresentMaxOrderAmountMinorUnits after.notPresentMaxOrderAmountMinorUnits
  notPresentMaxQuantityPerOrder : Loosened before.notPresentMaxQuantityPerOrder after.notPresentMaxQuantityPerOrder
  maxDailyAmountMinorUnits : Loosened before.maxDailyAmountMinorUnits after.maxDailyAmountMinorUnits

structure EasedAfa (before after : AfaEvidence) : Prop where
  debitKind : after.debitKind = before.debitKind
  amountMinorUnits : Lowered before.amountMinorUnits after.amountMinorUnits
  currency : after.currency = before.currency
  purpose : after.purpose = before.purpose
  limitMinorUnits : before.limitMinorUnits ≤ after.limitMinorUnits
  higherLimitMinorUnits : before.higherLimitMinorUnits ≤ after.higherLimitMinorUnits
  evidenceRef : given before.evidenceRef = true → given after.evidenceRef = true

structure EasedRefund (before after : RefundEvidence) : Prop where
  currency : after.currency = before.currency
  capturedMinorUnits : before.capturedMinorUnits ≤ after.capturedMinorUnits
  refundedMinorUnits : after.refundedMinorUnits ≤ before.refundedMinorUnits

-- What is asked for is no more, it is asked no later, and what it is held against is no less.
structure Eased (before after : ArbiterContext δ) : Prop where
  tenantId : after.tenantId = before.tenantId
  merchantId : after.merchantId = before.merchantId
  sellerAgentId : after.sellerAgentId = before.sellerAgentId
  buyerAgentId : after.buyerAgentId = before.buyerAgentId
  now : after.now ≤ before.now
  payload : paysByUpi after.payload = true → paysByUpi before.payload = true
  amountMinorUnits : ∀ x ∈ before.amountMinorUnits, ∃ y ∈ after.amountMinorUnits, y ≤ x ∧ (1 ≤ x → 1 ≤ y)
  currency : after.currency = before.currency
  quantity : Lowered before.quantity after.quantity
  mandate : Option.Rel EasedMandate before.mandate after.mandate
  consent : after.consent = before.consent
  passport : Option.Rel EasedPassport before.passport after.passport
  artifacts : ∀ artifact ∈ before.artifacts, ∃ other ∈ after.artifacts, EasedArtifact artifact other
  merchantLimits : Option.Rel EasedLimits before.merchantLimits after.merchantLimits
  authorityVerificationRef : after.authorityVerificationRef = before.authorityVerificationRef
  requireVerifiedAuthority : after.requireVerifiedAuthority = true → before.requireVerifiedAuthority = true
  afa : Option.Rel EasedAfa before.afa after.afa
  refund : Option.Rel EasedRefund before.refund after.refund
  presence : after.presence = before.presence
  intentMaxAmountMinorUnits : Raised before.intentMaxAmountMinorUnits after.intentMaxAmountMinorUnits
  intentCurrency : after.intentCurrency = before.intentCurrency
  dailyCommittedAmountMinorUnits :
    ∀ y ∈ after.dailyCommittedAmountMinorUnits, ∃ x ∈ before.dailyCommittedAmountMinorUnits, y ≤ x

end Easing

section Kept

theorem exists_of_rel {α β : Type} {rel : α → β → Prop} {before : Option α} {after : Option β} {value : α}
    (hrel : Option.Rel rel before after) (h : before = some value) : ∃ other, after = some other ∧ rel value other := by
  rw [h] at hrel
  cases hrel with
  | some hvalue => exact ⟨_, rfl, hvalue⟩

theorem eq_none_of_rel {α β : Type} {rel : α → β → Prop} {before : Option α} {after : Option β}
    (hrel : Option.Rel rel before after) (h : before = none) : after = none := by
  rw [h] at hrel
  cases hrel
  rfl

theorem exceeds_eased {before after : Option ℤ} (hcap : Loosened before after) {high low : ℤ} (hle : low ≤ high)
    (h : exceeds before high = false) : exceeds after low = false := by
  cases hafter : after with
  | none => rfl
  | some cap =>
      obtain ⟨tighter, htighter, hcaps⟩ := hcap cap hafter
      rw [Option.mem_def] at htighter
      simp only [exceeds, htighter, Option.any_some, gt_iff_lt, decide_eq_false_iff_not, not_lt] at h ⊢
      omega

theorem exceedsDaily_eased {before after : MerchantLimits} (hlimits : EasedLimits before after)
    {committed committed' : Option ℤ} (hcommitted : ∀ y ∈ committed', ∃ x ∈ committed, y ≤ x) {high low : ℤ}
    (hle : low ≤ high) (h : exceedsDaily before committed high = false) :
    exceedsDaily after committed' low = false := by
  cases hafter : after.maxDailyAmountMinorUnits with
  | none => simp [exceedsDaily, hafter]
  | some cap =>
      obtain ⟨tighter, htighter, hcaps⟩ := hlimits.maxDailyAmountMinorUnits cap hafter
      cases htotal : committed' with
      | none => simp [exceedsDaily, hafter]
      | some total =>
          obtain ⟨larger, hlarger, htotals⟩ := hcommitted total htotal
          rw [Option.mem_def] at htighter hlarger
          simp only [exceedsDaily, htighter, hlarger, hafter, gt_iff_lt, decide_eq_false_iff_not, not_lt] at h ⊢
          omega

variable {δ : Type} (platform : Platform δ) {before after : ArbiterContext δ} (heased : Eased before after)

theorem afaRequirement_eased {before after : AfaEvidence} (heased : EasedAfa before after)
    (h : (afaRequirement platform before).required = false) : (afaRequirement platform after).required = false := by
  rw [afaRequirement_required] at *
  obtain ⟨hkind, amount, hamount, hinr, hle⟩ := h
  obtain ⟨lower, hlower, hamounts⟩ := heased.amountMinorUnits amount hamount
  have hlimits : before.limit ≤ after.limit := by
    rw [AfaEvidence.limit, AfaEvidence.limit, heased.purpose]
    split
    · exact heased.higherLimitMinorUnits
    · exact heased.limitMinorUnits
  exact ⟨heased.debitKind.trans hkind, lower, hlower, heased.currency ▸ hinr, by omega⟩

include heased

theorem ruleMandatePresentUnexpired_eased (h : (ruleMandatePresentUnexpired before).1 = true) :
    (ruleMandatePresentUnexpired after).1 = true := by
  rw [ruleMandatePresentUnexpired_passed] at *
  obtain ⟨mandate, expires, hmandate, href, hhash, hexpires, hlate⟩ := h
  obtain ⟨later, hlater, hsame⟩ := exists_of_rel heased.mandate hmandate
  obtain ⟨deadline, hdeadline, hle⟩ := hsame.expiresAt expires hexpires
  have hnow := heased.now
  exact ⟨later, deadline, hlater, hsame.ref ▸ href, hsame.hash ▸ hhash, hdeadline, by omega⟩

theorem ruleConsentActive_eased (h : (ruleConsentActive platform before).1 = true) :
    (ruleConsentActive platform after).1 = true := by
  rw [ruleConsentActive, heased.consent]
  exact h

theorem rulePassportAmountCap_eased (h : (rulePassportAmountCap platform before).1 = true) :
    (rulePassportAmountCap platform after).1 = true := by
  rw [rulePassportAmountCap_passed] at *
  obtain ⟨passport, cap, currency, expires, amount, spent, hpassport, href, hcap, hcurrency, hexpires, hlate, hamount,
    hspent, hsame, hle⟩ := h
  obtain ⟨wider, hwider, hrel⟩ := exists_of_rel heased.passport hpassport
  obtain ⟨larger, hlarger, hcaps⟩ := hrel.maxAmountMinorUnits cap hcap
  obtain ⟨deadline, hdeadline, hdeadlines⟩ := hrel.expiresAt expires hexpires
  obtain ⟨lower, hlower, hamounts, _⟩ := heased.amountMinorUnits amount hamount
  have hnow := heased.now
  exact ⟨wider, larger, currency, deadline, lower, spent, hwider, hrel.ref ▸ href, hlarger, hrel.currency ▸ hcurrency,
    hdeadline, by omega, hlower, heased.currency ▸ hspent, hsame, by omega⟩

theorem ruleBuyerAuthorityVerified_eased (h : (ruleBuyerAuthorityVerified before).1 = true) :
    (ruleBuyerAuthorityVerified after).1 = true := by
  rw [ruleBuyerAuthorityVerified_passed] at *
  rw [heased.authorityVerificationRef]
  by_cases hgiven : given before.authorityVerificationRef = true
  · rw [if_pos hgiven] at *
    obtain ⟨ref, mandate, href, hmandate, hnames⟩ := h
    obtain ⟨later, hlater, hsame⟩ := exists_of_rel heased.mandate hmandate
    refine ⟨ref, later, href, hlater, ?_⟩
    rw [refNamesMandate, hsame.ref, hsame.hash]
    exact hnames
  · rw [if_neg hgiven] at *
    rw [← Bool.not_eq_true]
    intro hrequired
    rw [heased.requireVerifiedAuthority hrequired] at h
    cases h

theorem artifactProblem_eased (artifact other : ArtifactEvidence) (hrel : EasedArtifact artifact other)
    (h : artifactProblem artifact before = none) : artifactProblem other after = none := by
  rw [artifactProblem_none] at *
  obtain ⟨hverified, hrevoked, ⟨expires, hexpires, hlate⟩, hfresh⟩ := h
  obtain ⟨deadline, hdeadline, hle⟩ := hrel.expiresAt expires hexpires
  have hnow := heased.now
  rw [hrel.same]
  exact ⟨hverified, hrevoked, ⟨deadline, hdeadline, by omega⟩, hfresh⟩

theorem artifactInScope_eased (artifact other : ArtifactEvidence) (hrel : EasedArtifact artifact other) :
    artifactInScope other after = artifactInScope artifact before := by
  rw [artifactInScope, heased.tenantId, heased.merchantId, heased.sellerAgentId, heased.buyerAgentId, hrel.same]
  rfl

theorem ruleOacpArtifactsValid_eased (action : String) (h : (ruleOacpArtifactsValid before action).1 = true) :
    (ruleOacpArtifactsValid after action).1 = true := by
  rw [ruleOacpArtifactsValid_passed] at *
  obtain ⟨required, hrequired, hall⟩ := h
  refine ⟨required, hrequired, fun family hfamily => ?_⟩
  obtain ⟨artifact, ha, hof, hscope, hproblem⟩ := (familyProblem_none before family).mp (hall family hfamily)
  rw [familyProblem_none]
  obtain ⟨other, ho, hrel⟩ := heased.artifacts artifact ha
  have hfamily : other.family = artifact.family := by rw [hrel.same]
  exact ⟨other, ho, hfamily.trans hof, (artifactInScope_eased heased artifact other hrel).trans hscope,
    artifactProblem_eased heased artifact other hrel hproblem⟩

theorem ruleMerchantLimits_eased (h : (ruleMerchantLimits platform before).1 = true) :
    (ruleMerchantLimits platform after).1 = true := by
  rw [ruleMerchantLimits_passed] at *
  obtain ⟨limits, cap, quantityCap, amount, currency, quantity, hlimits, hcap, hquantityCap, hamount, hcurrency,
    hquantity, hlisted, hmany, hmore, hdaily⟩ := h
  obtain ⟨wider, hwider, hrel⟩ := exists_of_rel heased.merchantLimits hlimits
  obtain ⟨larger, hlarger, hcaps⟩ := hrel.maxOrderAmountMinorUnits cap hcap
  obtain ⟨many, hmanyCap, hquantityCaps⟩ := hrel.maxQuantityPerOrder quantityCap hquantityCap
  obtain ⟨lower, hlower, hamounts, _⟩ := heased.amountMinorUnits amount hamount
  obtain ⟨fewer, hfewer, hquantities⟩ := heased.quantity quantity hquantity
  refine ⟨wider, larger, many, lower, currency, fewer, hwider, hlarger, hmanyCap, hlower, heased.currency ▸ hcurrency,
    hfewer, ?_, by omega, by omega, ?_⟩
  · exact List.map_subset _ hrel.currencyAllowlist hlisted
  · exact exceedsDaily_eased hrel heased.dailyCommittedAmountMinorUnits hamounts hdaily

theorem ruleHandoffMerchantLimits_eased (h : (ruleHandoffMerchantLimits platform before).1 = true) :
    (ruleHandoffMerchantLimits platform after).1 = true := by
  rw [ruleHandoffMerchantLimits_passed] at *
  exact h.imp (eq_none_of_rel heased.merchantLimits) (ruleMerchantLimits_eased platform heased)

theorem ruleHumanNotPresentLimits_eased (h : (ruleHumanNotPresentLimits platform before).1 = true) :
    (ruleHumanNotPresentLimits platform after).1 = true := by
  rw [ruleHumanNotPresentLimits_passed] at *
  rw [heased.presence, heased.currency, heased.intentCurrency]
  refine h.imp id (Or.imp id ?_)
  rintro ⟨limits, cap, amount, currency, quantity, intentCap, intentCurrency, hpresence, hlimits, hcap, hamount,
    hcurrency, hquantity, hintentCap, hintentCurrency, hsame, hintent, hmore, hmany⟩
  obtain ⟨wider, hwider, hrel⟩ := exists_of_rel heased.merchantLimits hlimits
  obtain ⟨larger, hlarger, hcaps⟩ := hrel.notPresentMaxOrderAmountMinorUnits cap hcap
  obtain ⟨lower, hlower, hamounts, _⟩ := heased.amountMinorUnits amount hamount
  obtain ⟨fewer, hfewer, hquantities⟩ := heased.quantity quantity hquantity
  obtain ⟨intended, hintended, hintents⟩ := heased.intentMaxAmountMinorUnits intentCap hintentCap
  exact ⟨wider, larger, lower, currency, fewer, intended, intentCurrency, hpresence, hwider, hlarger, hlower,
    hcurrency, hfewer, hintended, hintentCurrency, hsame, by omega, by omega,
    exceeds_eased hrel.notPresentMaxQuantityPerOrder hquantities hmany⟩

theorem ruleAfaEvidencePresent_eased (h : (ruleAfaEvidencePresent platform before).1 = true) :
    (ruleAfaEvidencePresent platform after).1 = true := by
  rw [ruleAfaEvidencePresent_passed] at *
  rw [heased.presence]
  rcases h with ⟨hnone, hupi⟩ | ⟨afa, hafa, hallowed⟩
  · refine .inl ⟨eq_none_of_rel heased.afa hnone, ?_⟩
    rw [← Bool.not_eq_true] at *
    exact fun hlater => hupi (heased.payload hlater)
  · obtain ⟨later, hlater, hrel⟩ := exists_of_rel heased.afa hafa
    refine .inr ⟨later, hlater, hallowed.imp hrel.evidenceRef (And.imp ?_ id)⟩
    exact afaRequirement_eased platform hrel

theorem ruleRefundWithinCaptured_eased (h : (ruleRefundWithinCaptured platform before).1 = true) :
    (ruleRefundWithinCaptured platform after).1 = true := by
  rw [ruleRefundWithinCaptured_passed] at *
  obtain ⟨refund, amount, currency, hrefund, hamount, hpositive, hcurrency, hsame, hmore, hcaptured⟩ := h
  obtain ⟨later, hlater, hrel⟩ := exists_of_rel heased.refund hrefund
  obtain ⟨lower, hlower, hamounts, hstays⟩ := heased.amountMinorUnits amount hamount
  have hcaptures := hrel.capturedMinorUnits
  have hrefunds := hrel.refundedMinorUnits
  exact ⟨later, lower, currency, hlater, hlower, hstays hpositive, heased.currency ▸ hcurrency, hrel.currency ▸ hsame,
    by omega, by omega⟩

theorem Rule.evaluate_eased (rule : Rule) (action : String) (h : (rule.evaluate platform before action).1 = true) :
    (rule.evaluate platform after action).1 = true := by
  cases rule with
  | mandate => exact ruleMandatePresentUnexpired_eased heased h
  | consent => exact ruleConsentActive_eased platform heased h
  | passport => exact rulePassportAmountCap_eased platform heased h
  | authorityVerified => exact ruleBuyerAuthorityVerified_eased heased h
  | artifacts => exact ruleOacpArtifactsValid_eased heased action h
  | merchantLimits => exact ruleMerchantLimits_eased platform heased h
  | notPresent => exact ruleHumanNotPresentLimits_eased platform heased h
  | afa => exact ruleAfaEvidencePresent_eased platform heased h
  | refund => exact ruleRefundWithinCaptured_eased platform heased h
  | handoffLimits => exact ruleHandoffMerchantLimits_eased platform heased h

-- What is allowed is still allowed when less is asked for, or what it is held against is eased.
theorem allowed_eased (action : String) (h : (decide platform action before).allowed = true) :
    (decide platform action after).allowed = true := by
  rw [decide_allowed] at *
  obtain ⟨rules, hrules, hall⟩ := h
  exact ⟨rules, hrules, fun rule hrule => rule.evaluate_eased platform heased action (hall rule hrule)⟩

end Kept

section Sample

-- A platform, an order of which 1000 was captured, and a refund of 400 of it.
def samplePlatform : Platform Empty where
  upper := id
  stripLower := id
  isoformat now := String.ofList (List.replicate now.toNat '+' ++ List.replicate (-now).toNat '-')
  uuid := some
  payloadHash _ := "a"
  sha256 := id

def sampleContext : ArbiterContext Empty where
  tenantId := "acme"
  merchantId := "shop"
  sellerAgentId := "seller"
  buyerAgentId := some "buyer"
  now := 0
  payload := .null
  amountMinorUnits := some 400
  currency := some "INR"
  quantity := none
  mandate := none
  consent := none
  passport := none
  artifacts := []
  merchantLimits := none
  authorityVerificationRef := none
  requireVerifiedAuthority := true
  afa := none
  refund := some ⟨"order", "INR", 1000, 0⟩
  mandateHashes := []
  mandateJtis := []
  presence := none
  intentMaxAmountMinorUnits := none
  intentCurrency := none
  dailyCommittedAmountMinorUnits := none

theorem sampleContext_allowed : (decide samplePlatform "refund" sampleContext).allowed = true := rfl

theorem allowed_eased_refund :
    (decide samplePlatform "refund" { sampleContext with amountMinorUnits := some 300, now := -1 }).allowed = true := by
  have heased : Eased sampleContext { sampleContext with amountMinorUnits := some 300, now := -1 } :=
    { tenantId := rfl
      merchantId := rfl
      sellerAgentId := rfl
      buyerAgentId := rfl
      now := by decide
      payload := id
      amountMinorUnits := by
        intro amount hamount
        obtain rfl : 400 = amount := Option.some.inj hamount
        exact ⟨300, rfl, by decide, fun _ => by decide⟩
      currency := rfl
      quantity := fun _ h => absurd h (Option.not_mem_none _)
      mandate := .none
      consent := rfl
      passport := .none
      artifacts := fun _ h => absurd h List.not_mem_nil
      merchantLimits := .none
      authorityVerificationRef := rfl
      requireVerifiedAuthority := id
      afa := .none
      refund := .some ⟨rfl, le_rfl, le_rfl⟩
      presence := rfl
      intentMaxAmountMinorUnits := fun _ h => absurd h (Option.not_mem_none _)
      intentCurrency := rfl
      dailyCommittedAmountMinorUnits := fun _ h => absurd h (Option.not_mem_none _) }
  exact allowed_eased samplePlatform heased "refund" sampleContext_allowed

end Sample

end AgenticOrg.Commerce.Arbiter
