import AgenticOrg.Cases.Decisions
import AgenticOrg.Cases.Runs.Changes
import Mathlib.Data.List.Dedup

namespace AgenticOrg.Cases

open JsonText (Value)

section Answers

variable {δ : Type} (platform : DecisionPlatform δ)

theorem responseInvalid_ne {α : Type} (detail : String) (value : α) : responseInvalid detail ≠ .ok value := by
  intro h
  cases h

theorem requiredText_ok (field text : String) (value : Option (Value δ)) :
    requiredText platform field value = .ok text ↔ value = some (.str text) ∧ platform.blank text = false := by
  unfold requiredText
  constructor
  · intro h
    split at h
    · rename_i found hfound
      cases h
      obtain ⟨hbind, hblank⟩ := Option.filter_eq_some_iff.mp hfound
      obtain ⟨value, rfl, htext⟩ := Option.bind_eq_some_iff.mp hbind
      refine ⟨?_, by simpa using hblank⟩
      cases value <;> simp [textOf] at htext ⊢
      exact htext
    · exact absurd h (responseInvalid_ne _ _)
  · rintro ⟨rfl, hblank⟩
    simp [textOf, Option.filter, hblank]

theorem isTrue_iff (value : Option (Value δ)) : value.any isTrue = true ↔ value = some (.bool true) := by
  cases value with
  | none => simp
  | some value => cases value <;> simp [isTrue]

theorem isText_iff (text : String) (value : Option (Value δ)) :
    value.any (isText text) = true ↔ value = some (.str text) := by
  cases value with
  | none => simp
  | some value => cases value <;> simp [isText]

theorem itemsOf_some (value : Option (Value δ)) (items : List (Value δ)) (h : value.bind itemsOf = some items) :
    value = some (.arr items) := by
  obtain ⟨value, rfl, hitems⟩ := Option.bind_eq_some_iff.mp h
  cases value <;> simp [itemsOf] at hitems ⊢
  exact hitems

theorem isFilled_text (value : Value δ) (h : isFilled platform value = true) :
    ∃ text, value = .str text ∧ platform.blank text = false := by
  unfold isFilled at h
  cases value <;> simp [textOf] at h ⊢
  exact h

end Answers

section Receipts

variable {δ : Type} (platform : DecisionPlatform δ) (payload : Value δ) (consumed : ConsumedDecision)

theorem approverPair_ok (entry : Value δ) (pair : String × String) (h : approverPair platform entry = .ok pair) :
    member? "sub" entry = some (.str pair.1) ∧ member? "jti" entry = some (.str pair.2) ∧
      platform.blank pair.1 = false ∧ platform.blank pair.2 = false := by
  unfold approverPair at h
  obtain ⟨subject, hsubject, h⟩ := (Fallible.bind_ok _ _ _).mp h
  obtain ⟨grant, hgrant, h⟩ := (Fallible.bind_ok _ _ _).mp h
  obtain rfl := (Fallible.pure_ok _ _).mp h
  obtain ⟨hsub, hs⟩ := (requiredText_ok platform _ _ _).mp hsubject
  obtain ⟨hjti, hg⟩ := (requiredText_ok platform _ _ _).mp hgrant
  exact ⟨hsub, hjti, hs, hg⟩

theorem consumedRequest_ok (requestId : String) (h : consumedRequest platform payload requestId = .ok consumed) :
    member? "consumed" payload = some (.bool true) ∧ member? "requestId" payload = some (.str requestId) ∧
      consumed.approvers ≠ [] ∧ (consumed.approvers.map Prod.snd).Nodup ∧
      ∀ pair ∈ consumed.approvers, (platform.blank pair.1 = false ∧ platform.blank pair.2 = false) ∧
        Names "approvers" payload pair := by
  unfold consumedRequest at h
  by_cases hc : (member? "consumed" payload).any isTrue = true
  · by_cases hr : (member? "requestId" payload).any (isText requestId) = true
    · rw [if_neg (by simp [hc]), if_neg (by simp [hr])] at h
      obtain ⟨jtis, _, h⟩ := (Fallible.bind_ok _ _ _).mp h
      cases hitems : (member? "approvers" payload).bind itemsOf with
      | none =>
          rw [hitems] at h
          exact absurd h (responseInvalid_ne _ _)
      | some entries =>
          rw [hitems] at h
          simp only [] at h
          by_cases hbad : entries = [] ∨ entries.any (!isObject ·) = true
          · rw [if_pos hbad] at h
            exact absurd h (responseInvalid_ne _ _)
          · rw [if_neg hbad] at h
            obtain ⟨pairs, hpairs, h⟩ := (Fallible.bind_ok _ _ _).mp h
            by_cases hspent : ¬(pairs.map Prod.snd).Nodup ∨ ¬(pairs.map Prod.snd ⊆ jtis ∧ jtis ⊆ pairs.map Prod.snd)
            · rw [if_pos hspent] at h
              exact absurd h (responseInvalid_ne _ _)
            · rw [if_neg hspent] at h
              obtain ⟨actionHash, _, h⟩ := (Fallible.bind_ok _ _ _).mp h
              obtain rfl := (Fallible.pure_ok _ _).mp h
              refine ⟨(isTrue_iff _).mp hc, (isText_iff _ _).mp hr, ?_, ?_, ?_⟩
              · intro hnil
                have hlength := Fallible.length_of_mapM_ok _ _ _ hpairs
                replace hnil : pairs = [] := hnil
                rw [hnil] at hlength
                exact hbad (.inl (List.eq_nil_of_length_eq_zero hlength.symm))
              · exact not_not.mp fun hno => hspent (.inl hno)
              · intro pair hpair
                obtain ⟨entry, hentry, hok⟩ := Fallible.mem_of_mapM_ok _ _ _ hpairs pair hpair
                obtain ⟨hsub, hjti, hs, hg⟩ := approverPair_ok platform entry pair hok
                exact ⟨⟨hs, hg⟩, entries, itemsOf_some _ _ hitems, entry, hentry, hsub, hjti⟩
    · rw [if_neg (by simp [hc]), if_pos (by simp [hr])] at h
      exact absurd h (responseInvalid_ne _ _)
  · rw [if_pos (by simp [hc])] at h
    exact absurd h (responseInvalid_ne _ _)

theorem grantOfApprover_ok (approvals : List (Value δ)) (subject grant : String)
    (h : grantOfApprover platform approvals subject = .ok grant) :
    platform.blank grant = false ∧
      ∃ entry ∈ approvals, member? "sub" entry = some (.str subject) ∧ member? "jti" entry = some (.str grant) := by
  unfold grantOfApprover at h
  obtain ⟨found, hfound, h⟩ := (Fallible.bind_ok _ _ _).mp h
  unfold matchesOf at hfound
  simp only [] at hfound
  split at hfound
  · exact absurd hfound (responseInvalid_ne _ _)
  · rename_i hfilled
    cases hfound
    split at h
    · rename_i single hsingle
      obtain rfl := (Fallible.pure_ok _ _).mp h
      have hmem : single ∈ [single] := List.mem_singleton_self _
      rw [← hsingle, List.mem_dedup] at hmem
      obtain ⟨entry, hentry, hjti⟩ := List.mem_filterMap.mp hmem
      obtain ⟨hin, hown⟩ := List.mem_filter.mp hentry
      rw [Bool.and_eq_true] at hown
      obtain ⟨value, hvalue, htext⟩ := Option.bind_eq_some_iff.mp hjti
      have hall : ¬(!(member? "jti" entry).any (isFilled platform)) = true := fun hbad =>
        hfilled (List.any_eq_true.mpr ⟨entry, hentry, hbad⟩)
      rw [hvalue] at hall
      replace hall : isFilled platform value = true := by simpa using hall
      obtain ⟨text, rfl, hblank⟩ := isFilled_text platform value hall
      obtain rfl : text = single := by simpa [textOf] using htext
      exact ⟨hblank, entry, hin, (isText_iff _ _).mp hown.2, hvalue⟩
    · exact absurd h (responseInvalid_ne _ _)

theorem namedGrant_ok (entry : Value δ) (grant : String) (h : namedGrant platform entry = .ok grant)
    (hne : grant ≠ "") : member? "jti" entry = some (.str grant) ∧ platform.blank grant = false := by
  unfold namedGrant at h
  split at h
  · cases h
    exact absurd rfl hne
  · cases h
    exact absurd rfl hne
  · rename_i named hnamed
    by_cases hblank : platform.blank named = true
    · rw [if_pos hblank] at h
      cases h
      exact absurd rfl hne
    · rw [if_neg hblank] at h
      cases h
      exact ⟨hnamed, Bool.eq_false_iff.mpr hblank⟩
  · exact absurd h (responseInvalid_ne _ _)

theorem grantIdsByApprover_ok (record : Served (Value δ)) (subjects jtis grants : List String)
    (h : grantIdsByApprover platform record subjects jtis = .ok grants) :
    ∃ found approvals, record = .ok found ∧ member? "approvals" found = some (.arr approvals) ∧
      subjects.mapM (grantOfApprover platform approvals) = .ok grants ∧ grants.Nodup ∧ grants ⊆ jtis ∧
        jtis ⊆ grants := by
  unfold grantIdsByApprover at h
  obtain ⟨found, hfound, h⟩ := (Fallible.bind_ok _ _ _).mp h
  cases hitems : (member? "approvals" found).bind itemsOf with
  | none =>
      rw [hitems] at h
      exact absurd h (responseInvalid_ne _ _)
  | some approvals =>
      rw [hitems] at h
      obtain ⟨resolved, hresolved, h⟩ := (Fallible.bind_ok _ _ _).mp h
      by_cases hbad : ¬resolved.Nodup ∨ ¬(resolved ⊆ jtis ∧ jtis ⊆ resolved)
      · rw [if_pos hbad] at h
        exact absurd h (responseInvalid_ne _ _)
      · rw [if_neg hbad] at h
        obtain rfl := (Fallible.pure_ok _ _).mp h
        obtain ⟨hnodup, hsame⟩ := not_or.mp hbad
        exact ⟨found, approvals, hfound, itemsOf_some _ _ hitems, hresolved, not_not.mp hnodup, not_not.mp hsame⟩

theorem presentedApprovers_ok (entries : List (Value δ)) (h : presentedApprovers platform payload = .ok entries) :
    entries = [] ∨ member? "approvers" payload = some (.arr entries) := by
  unfold presentedApprovers at h
  split at h
  · cases h
    exact .inl rfl
  · rename_i found hfound
    split at h
    · exact absurd h (responseInvalid_ne _ _)
    · cases h
      exact .inr (Option.filter_eq_some_iff.mp hfound).1
  · cases h
  · cases h
  · cases h
  · exact absurd h (responseInvalid_ne _ _)

theorem consumedGrants_ok (record : Served (Value δ)) (h : consumedGrants platform payload record = .ok consumed) :
    consumed.approvers ≠ [] ∧
      ∀ pair ∈ consumed.approvers, (platform.blank pair.1 = false ∧ platform.blank pair.2 = false) ∧
        (Names "approvers" payload pair ∨ ∃ found, record = .ok found ∧ Names "approvals" found pair) := by
  unfold consumedGrants at h
  obtain ⟨jtis, _, h⟩ := (Fallible.bind_ok _ _ _).mp h
  obtain ⟨entries, hentries, h⟩ := (Fallible.bind_ok _ _ _).mp h
  by_cases hnil : entries = []
  · rw [if_pos hnil] at h
    exact absurd h (responseInvalid_ne _ _)
  · rw [if_neg hnil] at h
    obtain ⟨subjects, hsubjects, h⟩ := (Fallible.bind_ok _ _ _).mp h
    obtain ⟨named, hnamed, h⟩ := (Fallible.bind_ok _ _ _).mp h
    obtain ⟨grants, hgrants, h⟩ := (Fallible.bind_ok _ _ _).mp h
    obtain rfl := (Fallible.pure_ok _ _).mp h
    have harray := (presentedApprovers_ok platform payload entries hentries).resolve_left hnil
    have hslength := Fallible.length_of_mapM_ok _ _ _ hsubjects
    unfold grantIds at hgrants
    by_cases hall : named.all (· ≠ "") = true
    · rw [if_pos hall] at hgrants
      cases hgrants
      have hnlength := Fallible.length_of_mapM_ok _ _ _ hnamed
      refine ⟨?_, ?_⟩
      · intro hzip
        replace hzip : subjects.zip named = [] := hzip
        have hlength := congrArg List.length hzip
        rw [List.length_zip, hslength, hnlength, Nat.min_self, List.length_nil] at hlength
        exact hnil (List.eq_nil_of_length_eq_zero hlength)
      · intro pair hpair
        obtain ⟨entry, hentry, hsub, hgrant⟩ := Fallible.mem_zip_of_mapM_ok _ _ _ _ _ hsubjects hnamed pair hpair
        obtain ⟨hs, hsblank⟩ := (requiredText_ok platform _ _ _).mp hsub
        have hne : pair.2 ≠ "" := by
          have hin := (List.of_mem_zip hpair).2
          simpa using List.all_eq_true.mp hall pair.2 hin
        obtain ⟨hg, hgblank⟩ := namedGrant_ok platform entry pair.2 hgrant hne
        exact ⟨⟨hsblank, hgblank⟩, .inl ⟨entries, harray, entry, hentry, hs, hg⟩⟩
    · rw [if_neg hall] at hgrants
      obtain ⟨found, approvals, hfound, happrovals, hresolved, _, _, _⟩ :=
        grantIdsByApprover_ok platform record subjects jtis grants hgrants
      have hglength := Fallible.length_of_mapM_ok _ _ _ hresolved
      refine ⟨?_, ?_⟩
      · intro hzip
        replace hzip : subjects.zip grants = [] := hzip
        have hlength := congrArg List.length hzip
        rw [List.length_zip, hglength, hslength, Nat.min_self, List.length_nil] at hlength
        exact hnil (List.eq_nil_of_length_eq_zero hlength)
      · intro pair hpair
        obtain ⟨hin, hgrant⟩ := Fallible.of_mem_zip_mapM_ok _ _ _ hresolved pair hpair
        obtain ⟨entry, _, hsub⟩ := Fallible.mem_of_mapM_ok _ _ _ hsubjects pair.1 hin
        obtain ⟨_, hsblank⟩ := (requiredText_ok platform _ _ _).mp hsub
        obtain ⟨hgblank, approval, happroval, hs, hg⟩ := grantOfApprover_ok platform approvals pair.1 pair.2 hgrant
        exact ⟨⟨hsblank, hgblank⟩, .inr ⟨found, hfound, approvals, happrovals, approval, happroval, hs, hg⟩⟩

end Receipts

section Consumptions

variable {δ : Type} (platform : DecisionPlatform δ) (governed : GovernedCase δ)

theorem versionText_inj (version other : ℕ) (h : toString version = toString other) : version = other := by
  have hdigits : Nat.toDigits 10 version = Nat.toDigits 10 other := String.ofList_injective h
  rw [← Nat.ofDigitChars_ten_toDigits (n := version), hdigits, Nat.ofDigitChars_ten_toDigits]

-- What a receipt says of its approvers.
theorem receipt_ok (consumption : Consumption δ) (consumed : ConsumedDecision)
    (h : consumption.receipt platform = .ok consumed) :
    ∃ payload, consumption.answers.consumption = .ok payload ∧
      (∀ pair ∈ consumed.approvers, (platform.blank pair.1 = false ∧ platform.blank pair.2 = false) ∧
        Issued consumption.answers payload consumption.requestId.isSome pair) ∧
      ∀ requestId ∈ consumption.requestId, member? "consumed" payload = some (.bool true) ∧
        member? "requestId" payload = some (.str requestId) ∧ (consumed.approvers.map Prod.snd).Nodup := by
  unfold Consumption.receipt at h
  obtain ⟨payload, hpayload, h⟩ := (Fallible.bind_ok _ _ _).mp h
  refine ⟨payload, hpayload, ?_⟩
  cases hid : consumption.requestId with
  | none =>
      rw [hid] at h
      obtain ⟨_, hpairs⟩ := consumedGrants_ok platform payload consumed _ h
      refine ⟨fun pair hpair => ?_, fun requestId hrequest => by cases hrequest⟩
      obtain ⟨hfilled, hnames⟩ := hpairs pair hpair
      exact ⟨hfilled, hnames.imp id fun hrecord => ⟨rfl, hrecord⟩⟩
  | some own =>
      rw [hid] at h
      obtain ⟨hconfirmed, hrequest, _, hgrants, hpairs⟩ := consumedRequest_ok platform payload consumed own h
      refine ⟨fun pair hpair => ?_, fun requestId hown => ?_⟩
      · obtain ⟨hfilled, hnames⟩ := hpairs pair hpair
        exact ⟨hfilled, .inl hnames⟩
      · obtain rfl := Option.mem_some_iff.mp hown
        exact ⟨hconfirmed, hrequest, hgrants⟩

theorem holdToRecordedApprovals_ok (consumed : ConsumedDecision) (required : ℤ)
    (h : holdToRecordedApprovals consumed required = .ok ()) :
    required = (consumed.approvers.length : ℤ) ∧ (consumed.approvers.map Prod.fst).Nodup := by
  unfold holdToRecordedApprovals at h
  simp only [List.length_map] at h
  split at h
  · exact absurd h (responseInvalid_ne _ _)
  · rename_i hheld
    obtain ⟨hlength, hnodup⟩ := not_or.mp hheld
    exact ⟨(not_not.mp hlength).symm, not_not.mp hnodup⟩

theorem checkOf_allowed (receipt : Served ConsumedDecision) (check : DecisionCheck) (h : checkOf receipt = some check)
    (hallowed : check.allowed = true) : ∃ consumed, receipt = .ok consumed ∧ check.approvers = consumed.approvers := by
  cases receipt with
  | ok consumed =>
      cases h
      exact ⟨consumed, rfl, rfl⟩
  | error fault =>
      cases fault with
      | raised => cases h
      | refused error =>
          cases h
          cases hallowed

-- A check that allows the decision: one consumption was sent, for this action at this version, and what its receipt
-- says is what is recorded.
structure Confirmed (input : DecisionInput) (sent : List (Consumption δ)) (approvers : List (String × String))
    (consumption : Consumption δ) (consumed : ConsumedDecision) : Prop where
  sent : sent = [consumption]
  receipt : consumption.receipt platform = .ok consumed
  recorded : approvers = consumed.approvers
  action : consumption.action = semanticAction governed input.outcome
  version : consumption.caseVersion = versionText governed
  held : ∀ requestId ∈ consumption.requestId,
    recordedApprovalsRequired governed requestId = .ok (approvers.length : ℤ) ∧ (approvers.map Prod.fst).Nodup

theorem verifyByRequest_confirmed (consumeByRequestId : Bool) (input : DecisionInput) (requestId : String)
    (answers : IssuerAnswers δ) (consumed : ConsumedDecision)
    (h : (verifyByRequest platform governed consumeByRequestId input requestId answers).2 = .ok consumed) :
    ∃ consumption, Confirmed platform governed input
      (verifyByRequest platform governed consumeByRequestId input requestId answers).1 consumed.approvers
      consumption consumed := by
  unfold verifyByRequest at h ⊢
  cases hrequired : recordedApprovalsRequired governed requestId with
  | error fault =>
      rw [hrequired] at h
      cases h
  | ok required =>
      rw [hrequired] at h
      cases hrefusal : consumeRefusal consumeByRequestId requestId with
      | some error =>
          rw [hrefusal] at h
          cases h
      | none =>
          rw [hrefusal] at h
          obtain ⟨receipt, hreceipt, h⟩ := (Fallible.bind_ok _ _ _).mp h
          obtain ⟨_, hheld, h⟩ := (Fallible.bind_ok _ _ _).mp h
          obtain rfl := (Fallible.pure_ok _ _).mp h
          obtain ⟨rfl, hpeople⟩ := holdToRecordedApprovals_ok receipt required hheld
          refine ⟨_, rfl, hreceipt, rfl, rfl, rfl, fun other hother => ?_⟩
          obtain rfl := Option.mem_some_iff.mp hother
          exact ⟨hrequired, hpeople⟩

theorem verify_confirmed (verifier : Verifier) (input : DecisionInput) (answers : IssuerAnswers δ)
    (check : DecisionCheck) (h : (verify platform governed verifier input answers).2 = some check)
    (hallowed : check.allowed = true) :
    ∃ consumption consumed, Confirmed platform governed input (verify platform governed verifier input answers).1
      check.approvers consumption consumed := by
  cases verifier with
  | requireDecisionGrant =>
      cases h
      cases hallowed
  | service consumeByRequestId =>
      unfold verify at h ⊢
      cases hid : input.decisionRequestId.filter (· ≠ "") with
      | some requestId =>
          simp only [hid] at h ⊢
          by_cases hgrants : input.grants ≠ []
          · rw [if_pos hgrants] at h
            cases h
            cases hallowed
          · rw [if_neg hgrants] at h ⊢
            obtain ⟨consumed, hok, happrovers⟩ := checkOf_allowed _ check h hallowed
            obtain ⟨consumption, hconfirmed⟩ :=
              verifyByRequest_confirmed platform governed consumeByRequestId input requestId answers consumed hok
            rw [happrovers]
            exact ⟨consumption, consumed, hconfirmed⟩
      | none =>
          simp only [hid] at h ⊢
          by_cases hgrants : input.grants = []
          · rw [if_pos hgrants] at h
            cases h
            cases hallowed
          · rw [if_neg hgrants] at h ⊢
            obtain ⟨consumed, hok, happrovers⟩ := checkOf_allowed _ check h hallowed
            exact ⟨_, consumed, rfl, hok, happrovers, rfl, rfl, fun other hother => by cases hother⟩

theorem approvedBy_ok (found : Option DecisionCheck) (approvers : List (String × String)) :
    approvedBy found = .ok approvers ↔
      ∃ check, found = some check ∧ check.allowed = true ∧ check.approvers ≠ [] ∧ check.approvers = approvers := by
  cases found with
  | none => simp [approvedBy]
  | some check =>
      rw [approvedBy]
      by_cases hrefused : (!check.allowed || check.approvers.isEmpty) = true
      · rw [if_pos hrefused]
        refine iff_of_false (fun h => by cases h) ?_
        rintro ⟨_, hsame, hallowed, hsome, _⟩
        cases hsame
        simp [hallowed, hsome] at hrefused
      · rw [if_neg hrefused, Except.ok.injEq]
        rw [Bool.or_eq_true, not_or] at hrefused
        have hallowed : check.allowed = true := by simpa using hrefused.1
        have hsome : check.approvers ≠ [] := by simpa using hrefused.2
        exact ⟨fun h => ⟨check, rfl, hallowed, hsome, h⟩, by rintro ⟨_, hsame, _, _, h⟩; cases hsame; exact h⟩

-- What is recorded once a check lets it be.
theorem decided_ok (outcome : String) (documentValid : List (String × String) → Bool) (found : Option DecisionCheck)
    (recorded : GovernedCase δ) (h : decided governed outcome documentValid found = .ok recorded) :
    ∃ approvers case, approvedBy found = .ok approvers ∧
      transition governed.case .decided ("decision_" ++ outcome) = .ok case ∧
      recorded = { governed with case, decision := some ⟨outcome, approvers⟩ } := by
  unfold decided at h
  obtain ⟨approvers, happroved, h⟩ := (Fallible.bind_ok _ _ _).mp h
  by_cases hvalid : (!documentValid approvers) = true
  · rw [if_pos hvalid] at h
    cases h
  · rw [if_neg hvalid] at h
    cases hcase : transition governed.case .decided ("decision_" ++ outcome) with
    | error error =>
        rw [hcase] at h
        cases h
    | ok case =>
        rw [hcase] at h
        cases h
        exact ⟨approvers, case, happroved, rfl, rfl⟩

-- A decision is recorded, or only the consumptions at the issuer are new.
theorem recordDecision_cases (verifier : Verifier) (input : DecisionInput) (answers : IssuerAnswers δ)
    (documentValid : List (String × String) → Bool) :
    (∃ sent, (recordDecision platform governed verifier input answers documentValid).1 =
      { governed with consumptions := governed.consumptions ++ sent }) ∨
    ∃ check case, governed.case.state = .awaitingDecision ∧ input.outcome ∈ DECISION_OUTCOMES ∧
      (verify platform governed verifier input answers).2 = some check ∧ check.allowed = true ∧ check.approvers ≠ [] ∧
      transition governed.case .decided ("decision_" ++ input.outcome) = .ok case ∧
      (recordDecision platform governed verifier input answers documentValid).1 =
        { governed with
          case
          decision := some ⟨input.outcome, check.approvers⟩
          consumptions := governed.consumptions ++ (verify platform governed verifier input answers).1 } := by
  have hsame : governed = { governed with consumptions := governed.consumptions ++ [] } := by
    rw [List.append_nil]
  unfold recordDecision
  by_cases houtcome : input.outcome ∉ DECISION_OUTCOMES
  · rw [if_pos houtcome]
    exact .inl ⟨[], hsame⟩
  · rw [if_neg houtcome]
    by_cases hstate : governed.case.state ≠ .awaitingDecision
    · rw [if_pos hstate]
      exact .inl ⟨[], hsame⟩
    · rw [if_neg hstate]
      simp only []
      cases hdecided : decided governed input.outcome documentValid
          (verify platform governed verifier input answers).2 with
      | error refusal => exact .inl ⟨_, rfl⟩
      | ok recorded =>
          obtain ⟨approvers, case, happroved, hcase, rfl⟩ := decided_ok governed _ _ _ _ hdecided
          obtain ⟨check, hcheck, hallowed, hsome, rfl⟩ := (approvedBy_ok _ _).mp happroved
          exact .inr ⟨check, case, not_not.mp hstate, not_not.mp houtcome, hcheck, hallowed, hsome, hcase, rfl⟩

end Consumptions

section Runs

variable {δ : Type} (platform : DecisionPlatform δ) (governed after : GovernedCase δ)

-- It was asked for at a version the case has had and, once it is decided, has no more.
def Asked (asked : Asking) : Prop :=
  ∃ version, asked.caseVersion = toString version ∧ version ≤ governed.case.version ∧
    (governed.case.state = .decided → version < governed.case.version)

structure Governed : Prop where
  lawful : Lawful governed.case
  agreed : governed.case.state = .decided ↔ governed.decision.isSome = true
  asked : ∀ asked ∈ governed.asking, Asked governed asked
  justified : ∀ decision ∈ governed.decision, Justified platform governed decision

-- What no step changes of a decided case.
structure Settled : Prop where
  caseRef : after.caseRef = governed.caseRef
  tenantId : after.tenantId = governed.tenantId
  state : after.case.state = .decided
  memo : after.case.memo = governed.case.memo
  transitions : after.case.transitions = governed.case.transitions
  decisionRequests : after.decisionRequests = governed.decisionRequests
  decision : after.decision = governed.decision
  consumptions : governed.consumptions ⊆ after.consumptions

theorem newGovernedCase_governed (caseRef tenantId : String) :
    Governed platform (newGovernedCase caseRef tenantId : GovernedCase δ) where
  lawful := newCase_lawful
  agreed := by simp [newGovernedCase, newCase]
  asked := by simp [newGovernedCase]
  justified := by simp [newGovernedCase]

theorem Asked.later (asked : Asking) (h : Asked governed asked) (hv : governed.case.version ≤ after.case.version)
    (hd : after.case.state = .decided → governed.case.state = .decided) : Asked after asked := by
  obtain ⟨version, htext, hle, hlt⟩ := h
  exact ⟨version, htext, Nat.le_trans hle hv, fun hstate => Nat.lt_of_lt_of_le (hlt (hd hstate)) hv⟩

theorem Settled.refl (hs : governed.case.state = .decided) : Settled governed governed :=
  ⟨rfl, rfl, hs, rfl, rfl, rfl, rfl, fun _ h => h⟩

theorem Settled.semanticAction (h : Settled governed after) (outcome : String) :
    semanticAction after outcome = semanticAction governed outcome := by
  unfold Cases.semanticAction
  rw [h.caseRef, h.tenantId, h.memo]

theorem Settled.justified (h : Settled governed after) (decision : RecordedDecision)
    (hj : Justified platform governed decision) : Justified platform after decision := by
  obtain ⟨consumption, payload, hb⟩ := hj
  refine ⟨consumption, payload, ?_⟩
  exact {
    sent := h.consumptions hb.sent
    answered := hb.answered
    outcome := hb.outcome
    action := by
      rw [h.semanticAction]
      exact hb.action
    version := by
      rw [h.transitions]
      exact hb.version
    approvers := hb.approvers
    filled := hb.filled
    issued := hb.issued
    byRequest := by
      intro requestId hrequest
      obtain ⟨hconfirmed, hid, hrequired, hpeople, hgrants⟩ := hb.byRequest requestId hrequest
      refine ⟨hconfirmed, hid, ?_, hpeople, hgrants⟩
      unfold recordedApprovalsRequired at hrequired ⊢
      rw [h.decisionRequests]
      exact hrequired }

theorem Governed.settled (hg : Governed platform governed) (h : Settled governed after)
    (hs : governed.case.state = .decided) (hl : Lawful after.case)
    (ha : ∀ asked ∈ after.asking, Asked after asked) : Governed platform after := by
  refine ⟨hl, ?_, ha, ?_⟩
  · rw [h.decision]
    exact ⟨fun _ => hg.agreed.mp hs, fun _ => h.state⟩
  · rw [h.decision]
    exact fun decision hdecision => h.justified platform governed after decision (hg.justified decision hdecision)

theorem Governed.undecided (hl : Lawful after.case) (hs : after.case.state ≠ .decided) (hd : after.decision = none)
    (ha : ∀ asked ∈ after.asking, Asked after asked) : Governed platform after := by
  refine ⟨hl, ?_, ha, ?_⟩
  · rw [hd]
    exact ⟨fun h => absurd h hs, fun h => by cases h⟩
  · rw [hd]
    exact fun decision hdecision => by cases hdecision

-- A step of a governed case: it stays governed and, once decided, settled.
def Steps : Prop := Governed platform after ∧ (governed.case.state = .decided → Settled governed after)

theorem Governed.decision_none (hg : Governed platform governed) (hs : governed.case.state ≠ .decided) :
    governed.decision = none :=
  Option.not_isSome_iff_eq_none.mp fun h => hs (hg.agreed.mpr h)

-- Only what was asked for, sent or recorded as a request is new, and no request once it is decided.
theorem steps_aside (hg : Governed platform governed) (hcase : after.case = governed.case)
    (hids : after.caseRef = governed.caseRef ∧ after.tenantId = governed.tenantId)
    (hdecision : after.decision = governed.decision) (hsent : governed.consumptions ⊆ after.consumptions)
    (hrequests : governed.case.state = .decided → after.decisionRequests = governed.decisionRequests)
    (ha : ∀ asked ∈ after.asking, Asked after asked) : Steps platform governed after := by
  have hsettled : governed.case.state = .decided → Settled governed after := fun hs =>
    ⟨hids.1, hids.2, hcase ▸ hs, by rw [hcase], by rw [hcase], hrequests hs, hdecision, hsent⟩
  refine ⟨?_, hsettled⟩
  have hl : Lawful after.case := hcase ▸ hg.lawful
  by_cases hs : governed.case.state = .decided
  · exact hg.settled platform governed after (hsettled hs) hs hl ha
  · refine Governed.undecided platform after hl (hcase ▸ hs) ?_ ha
    rw [hdecision]
    exact hg.decision_none platform governed hs

theorem operate_steps (hg : Governed platform governed) (operation : Operation) :
    Steps platform governed (governed.step platform (.operate operation)) := by
  unfold GovernedCase.step
  by_cases hd : operation.decides = true
  · simp only [hd, if_true]
    exact ⟨hg, fun hs => Settled.refl governed hs⟩
  · simp only [hd, Bool.false_eq_true, if_false]
    have hchanges : Changes (· ≠ .decided) governed.case (Cases.step governed.case operation) :=
      step_changes _ governed.case operation (fun _ h => h) (fun h => absurd h hd)
    have hl := hchanges.lawful _ _ _ hg.lawful
    have hv := hchanges.version_le _ _ _
    have hundecided : governed.case.state ≠ .decided → (Cases.step governed.case operation).state ≠ .decided :=
      fun hs => hchanges.undecided _ _ _ (fun h => h rfl) hs
    have ha : ∀ asked ∈ governed.asking,
        Asked { governed with case := Cases.step governed.case operation } asked := fun asked hasked =>
      (hg.asked asked hasked).later governed _ asked hv fun hs =>
        Classical.byContradiction fun hno => hundecided hno hs
    by_cases hs : governed.case.state = .decided
    · obtain ⟨hstate, hmemo, htransitions⟩ := hchanges.of_decided _ _ _ hg.lawful hs
      have hsettled : Settled governed { governed with case := Cases.step governed.case operation } :=
        ⟨rfl, rfl, hstate, hmemo, htransitions, rfl, rfl, fun _ h => h⟩
      exact ⟨hg.settled platform governed _ hsettled hs hl ha, fun _ => hsettled⟩
    · exact ⟨Governed.undecided platform _ hl (hundecided hs) (hg.decision_none platform governed hs) ha,
        fun h => absurd h hs⟩

theorem ask_steps (hg : Governed platform governed) (outcome : String) :
    Steps platform governed (askDecision governed outcome) := by
  unfold askDecision
  by_cases hopen : governed.case.state = .awaitingDecision ∧ governed.case.memo.isSome = true
  · rw [if_pos hopen]
    refine steps_aside platform governed _ hg rfl ⟨rfl, rfl⟩ rfl (fun _ h => h) (fun _ => rfl) fun asked hasked => ?_
    rcases List.mem_append.mp hasked with hold | hnew
    · exact (hg.asked asked hold).later governed _ asked (Nat.le_refl _) id
    · obtain rfl := List.mem_singleton.mp hnew
      refine ⟨governed.case.version, rfl, Nat.le_refl _, fun hs => ?_⟩
      replace hs : governed.case.state = .decided := hs
      rw [hopen.1] at hs
      cases hs
  · rw [if_neg hopen]
    exact ⟨hg, fun hs => Settled.refl governed hs⟩

-- What a decided case was asked for is of a version it has no more, so no answer changes its requests.
theorem answer_steps (hg : Governed platform governed) (asked : Asking) (platformOwned : Bool)
    (answer : Served (Value δ)) : Steps platform governed (answerAsking platform governed asked platformOwned answer) := by
  unfold answerAsking
  by_cases hnone : asked ∉ governed.asking
  · rw [if_pos hnone]
    exact ⟨hg, fun hs => Settled.refl governed hs⟩
  · rw [if_neg hnone]
    have ha : ∀ other ∈ governed.asking.erase asked, Asked governed other :=
      fun other hother => hg.asked other (List.mem_of_mem_erase hother)
    simp only []
    cases answer >>= view platform platformOwned with
    | error fault => exact steps_aside platform governed _ hg rfl ⟨rfl, rfl⟩ rfl (fun _ h => h) (fun _ => rfl) ha
    | ok request =>
        simp only []
        by_cases hchanged : versionText governed ≠ asked.caseVersion
        · rw [if_pos hchanged]
          exact steps_aside platform governed _ hg rfl ⟨rfl, rfl⟩ rfl (fun _ h => h) (fun _ => rfl) ha
        · rw [if_neg hchanged]
          refine steps_aside platform governed _ hg rfl ⟨rfl, rfl⟩ rfl (fun _ h => h) (fun hs => ?_) ha
          obtain ⟨version, htext, _, hlt⟩ := hg.asked asked (not_not.mp hnone)
          have hsame := versionText_inj governed.case.version version ((not_not.mp hchanged).trans htext)
          have hearlier := hlt hs
          omega

theorem decide_steps (hg : Governed platform governed) (verifier : Verifier) (input : DecisionInput)
    (answers : IssuerAnswers δ) (documentValid : List (String × String) → Bool) :
    Steps platform governed (recordDecision platform governed verifier input answers documentValid).1 := by
  rcases recordDecision_cases platform governed verifier input answers documentValid with
    ⟨sent, hafter⟩ | ⟨check, case, hstate, houtcome, hcheck, hallowed, happrovers, hcase, hafter⟩
  · rw [hafter]
    exact steps_aside platform governed _ hg rfl ⟨rfl, rfl⟩ rfl (List.subset_append_left _ _) (fun _ => rfl) hg.asked
  · rw [hafter]
    refine ⟨?_, fun hs => ?_⟩
    · obtain ⟨consumption, consumed, hconfirmed⟩ :=
        verify_confirmed platform governed verifier input answers check hcheck hallowed
      obtain ⟨payload, hpayload, hpairs, hrequest⟩ := receipt_ok platform consumption consumed hconfirmed.receipt
      obtain ⟨_, hmoved⟩ := transition_ok governed.case .decided _ case hg.lawful.versioned hcase
      have hmemo : case.memo = governed.case.memo := by rw [hmoved]
      have hversion : case.version = governed.case.version + 1 := by rw [hmoved]
      have hdecided : case.state = .decided := by rw [hmoved]
      refine ⟨moved_lawful governed.case case .decided _ hg.lawful (fun h => by cases h) hcase, ?_, ?_, ?_⟩
      · exact ⟨fun _ => rfl, fun _ => hdecided⟩
      · intro asked hasked
        obtain ⟨version, htext, hle, _⟩ := hg.asked asked hasked
        refine ⟨version, htext, ?_, fun _ => ?_⟩
        · show version ≤ case.version
          omega
        · show version < case.version
          omega
      · intro decision hdecision
        obtain rfl := Option.mem_some_iff.mp hdecision
        refine ⟨consumption, payload, ?_⟩
        exact {
          sent := by
            rw [hconfirmed.sent]
            exact List.mem_append_right _ (List.mem_singleton_self _)
          answered := hpayload
          outcome := houtcome
          action := by
            rw [hconfirmed.action]
            unfold Cases.semanticAction
            simp only [hmemo]
          version := by
            refine ⟨⟨governed.case.version + 1, .decided, clipReason ("decision_" ++ input.outcome)⟩, ?_, rfl,
              governed.case.version, rfl, hconfirmed.version⟩
            rw [hmoved]
            exact List.mem_append_right _ (List.mem_singleton_self _)
          approvers := happrovers
          filled := fun pair hpair => (hpairs pair (hconfirmed.recorded ▸ hpair)).1
          issued := fun pair hpair => (hpairs pair (hconfirmed.recorded ▸ hpair)).2
          byRequest := by
            intro requestId hid
            obtain ⟨hyes, hown, hgrants⟩ := hrequest requestId hid
            obtain ⟨hrequired, hpeople⟩ := hconfirmed.held requestId hid
            exact ⟨hyes, hown, hrequired, hpeople, hconfirmed.recorded ▸ hgrants⟩ }
    · rw [hstate] at hs
      cases hs

theorem step_steps (hg : Governed platform governed) (step : GovernedStep δ) :
    Steps platform governed (governed.step platform step) := by
  cases step with
  | operate operation => exact operate_steps platform governed hg operation
  | ask outcome => exact ask_steps platform governed hg outcome
  | answer asked platformOwned answer => exact answer_steps platform governed hg asked platformOwned answer
  | decide verifier input answers documentValid =>
      exact decide_steps platform governed hg verifier input answers documentValid

theorem run_governed (hg : Governed platform governed) (steps : List (GovernedStep δ)) :
    Governed platform (governed.run platform steps) := by
  induction steps generalizing governed with
  | nil => exact hg
  | cons step steps ih => exact ih _ (step_steps platform governed hg step).1

theorem run_settled (hg : Governed platform governed) (hs : governed.case.state = .decided)
    (steps : List (GovernedStep δ)) :
    (governed.run platform steps).decision = governed.decision ∧ (governed.run platform steps).case.state = .decided := by
  induction steps generalizing governed with
  | nil => exact ⟨rfl, hs⟩
  | cons step steps ih =>
      obtain ⟨hafter, hsettled⟩ := step_steps platform governed hg step
      obtain ⟨hdecision, hstate⟩ := ih _ hafter (hsettled hs).state
      exact ⟨hdecision.trans (hsettled hs).decision, hstate⟩

theorem governed_append (steps more : List (GovernedStep δ)) :
    governed.run platform (steps ++ more) = (governed.run platform steps).run platform more := List.foldl_append

-- A case is decided exactly where a decision is recorded; it is never changed again, and what stands behind it
-- can be shown at every later time.
theorem decided_justified (caseRef tenantId : String) (steps more : List (GovernedStep δ)) :
    ((governedRun platform caseRef tenantId steps).case.state = .decided ↔
      (governedRun platform caseRef tenantId steps).decision.isSome = true) ∧
    ∀ decision ∈ (governedRun platform caseRef tenantId steps).decision,
      (governedRun platform caseRef tenantId (steps ++ more)).case.state = .decided ∧
      (governedRun platform caseRef tenantId (steps ++ more)).decision = some decision ∧
      Justified platform (governedRun platform caseRef tenantId (steps ++ more)) decision := by
  have hg := run_governed platform _ (newGovernedCase_governed platform caseRef tenantId) steps
  refine ⟨hg.agreed, fun decision hdecision => ?_⟩
  have hs := hg.agreed.mpr (Option.isSome_iff_exists.mpr ⟨decision, hdecision⟩)
  rw [governedRun, governed_append]
  obtain ⟨hsame, hstate⟩ := run_settled platform _ hg hs more
  have hlater := run_governed platform _ hg more
  have hfound := hsame.trans (Option.mem_def.mp hdecision)
  exact ⟨hstate, hfound, hlater.justified decision hfound⟩

end Runs

section Refinement

variable {δ : Type} (platform : DecisionPlatform δ) (governed : GovernedCase δ)

theorem decide_refines (verifier : Verifier) (input : DecisionInput) (answers : IssuerAnswers δ)
    (documentValid : List (String × String) → Bool) : ∃ operations,
      (recordDecision platform governed verifier input answers documentValid).1.case =
        Cases.run governed.case operations := by
  rcases recordDecision_cases platform governed verifier input answers documentValid with
    ⟨sent, hafter⟩ | ⟨check, case, hstate, houtcome, hcheck, hallowed, happrovers, hcase, hafter⟩
  · rw [hafter]
    exact ⟨[], rfl⟩
  · rw [hafter]
    refine ⟨[.decide (.ok input.outcome)], ?_⟩
    have hdecided : decideCase governed.case (.ok input.outcome) = .ok case := by
      unfold decideCase
      rw [if_neg (not_not.mpr hstate)]
      exact hcase
    show case = orKept governed.case (decideCase governed.case (.ok input.outcome))
    rw [hdecided]
    rfl

theorem step_refines (step : GovernedStep δ) :
    ∃ operations, (governed.step platform step).case = Cases.run governed.case operations := by
  cases step with
  | operate operation =>
      unfold GovernedCase.step
      by_cases hd : operation.decides = true
      · simp only [hd, if_true]
        exact ⟨[], rfl⟩
      · simp only [hd, Bool.false_eq_true, if_false]
        exact ⟨[operation], rfl⟩
  | ask outcome =>
      refine ⟨[], ?_⟩
      show (askDecision governed outcome).case = governed.case
      unfold askDecision
      split
      · rfl
      · rfl
  | answer asked platformOwned answer =>
      refine ⟨[], ?_⟩
      show (answerAsking platform governed asked platformOwned answer).case = governed.case
      unfold answerAsking
      split
      · rfl
      · simp only []
        split
        · rfl
        · split
          · rfl
          · rfl
  | decide verifier input answers documentValid =>
      exact decide_refines platform governed verifier input answers documentValid

-- Seen without the issuer, a governed case runs as its operations do, where a verified decision is given.
theorem run_refines (steps : List (GovernedStep δ)) :
    ∃ operations, (governed.run platform steps).case = Cases.run governed.case operations := by
  induction steps generalizing governed with
  | nil => exact ⟨[], rfl⟩
  | cons step steps ih =>
      obtain ⟨first, hfirst⟩ := step_refines platform governed step
      obtain ⟨rest, hrest⟩ := ih (governed.step platform step)
      refine ⟨first ++ rest, ?_⟩
      rw [run_append, ← hfirst]
      exact hrest

-- Its log is a path of transitions from submitted, and nothing follows a decision or a withdrawal.
theorem governed_lawful (caseRef tenantId : String) (steps more : List (GovernedStep δ)) :
    (∃ operations, (governedRun platform caseRef tenantId steps).case = Cases.run newCase operations) ∧
    Lawful (governedRun platform caseRef tenantId steps).case ∧
    (TRANSITIONS (governedRun platform caseRef tenantId steps).case.state = [] →
      (governedRun platform caseRef tenantId (steps ++ more)).case.state =
        (governedRun platform caseRef tenantId steps).case.state ∧
      (governedRun platform caseRef tenantId (steps ++ more)).case.transitions =
        (governedRun platform caseRef tenantId steps).case.transitions) := by
  obtain ⟨operations, hrun⟩ := run_refines platform (newGovernedCase caseRef tenantId) steps
  have hl : Lawful (governedRun platform caseRef tenantId steps).case := by
    rw [governedRun, hrun]
    exact run_lawful operations
  refine ⟨⟨operations, hrun⟩, hl, fun hfinal => ?_⟩
  obtain ⟨later, hlater⟩ := run_refines platform (governedRun platform caseRef tenantId steps) more
  rw [governedRun, governed_append, ← governedRun, hlater]
  exact (run_changes _ later).final _ _ _ hl hfinal

end Refinement

end AgenticOrg.Cases
