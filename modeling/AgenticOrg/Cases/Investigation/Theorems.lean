import AgenticOrg.Cases.Investigation

namespace AgenticOrg.Cases

section Updates

variable (case : Case)

theorem recordUpdate_kept : (recordUpdate case).state = case.state ∧ (recordUpdate case).memo = case.memo ∧
    (recordUpdate case).version = case.version + 1 := by
  unfold recordUpdate enqueue
  split
  · exact ⟨rfl, rfl, rfl⟩
  · exact ⟨rfl, rfl, rfl⟩

theorem updated_kept (updates : ℕ) :
    (recordUpdate^[updates] case).state = case.state ∧ (recordUpdate^[updates] case).memo = case.memo ∧
      (recordUpdate^[updates] case).version = case.version + updates := by
  induction updates with
  | zero => exact ⟨rfl, rfl, rfl⟩
  | succ updates ih =>
      obtain ⟨hs, hm, hv⟩ := ih
      obtain ⟨hs', hm', hv'⟩ := recordUpdate_kept (recordUpdate^[updates] case)
      rw [Function.iterate_succ_apply']
      exact ⟨hs'.trans hs, hm'.trans hm, by omega⟩

-- A transition changes the state and keeps what the case says.
theorem transition_kept (target : CaseState) (reason : String) (after : Case)
    (h : transition case target reason = .ok after) :
    after.state = target ∧ after.memo = case.memo ∧ after.failureReason = case.failureReason ∧
      case.version < after.version := by
  unfold transition at h
  split at h
  · cases h
    split
    · unfold enqueue
      split
      · exact ⟨rfl, rfl, rfl, Nat.lt_succ_self _⟩
      · exact ⟨rfl, rfl, rfl, Nat.lt_succ_self _⟩
    · exact ⟨rfl, rfl, rfl, Nat.lt_succ_self _⟩
  · cases h

theorem clipReason_ne (reason : String) (h : reason ≠ "") : clipReason reason ≠ "" := by
  intro he
  have hlist : reason.toList.take 128 = [] := by
    rw [← String.toList_ofList (l := reason.toList.take 128)]
    exact congrArg String.toList he
  rcases List.take_eq_nil_iff.mp hlist with hz | hn
  · omega
  · exact h (String.toList_eq_nil_iff.mp hn)

theorem failureReasonOf_ne (failure : String) : failureReasonOf failure ≠ "" := by
  unfold failureReasonOf
  refine clipReason_ne _ ?_
  split
  · decide
  · assumption

end Updates

section Stages

variable (callees : Callees)

theorem policyFound_ok (found : Bool) : policyFound callees = .ok found ↔
    callees.policies = .ok found ∨ callees.policies = .error .policyLoad ∧ found = false := by
  unfold policyFound
  split
  · rename_i h
    rw [h]
    constructor
    · intro hf
      exact .inr ⟨rfl, (Except.ok.inj hf).symm⟩
    · rintro (hf | ⟨_, rfl⟩)
      · cases hf
      · rfl
  · rename_i h
    exact ⟨.inl, fun hf => hf.resolve_right fun hf => h hf.1⟩

theorem caught_ok {α : Type} (result : Except Fault α) (value : Option α) : caught result = .ok value ↔
    (∃ found, result = .ok found ∧ value = some found) ∨
      ∃ fault, result = .error fault ∧ fault ≠ .interrupted ∧ value = none := by
  cases result with
  | ok found => simp [caught, eq_comm]
  | error fault => cases fault <;> simp [caught, eq_comm]

-- Nothing of the evidence is raised to the run: the sink's own failures only are.
structure EvidenceContained : Prop where
  service : callees.evidenceService ≠ .error .interrupted
  records : callees.evidenceService = .ok true → callees.evidenceRecords = .ok ()
  post : callees.evidenceService = .ok true →
    ∀ fault, callees.evidencePost = .error fault → fault = .evidenceService

theorem recordRunEvidence_ok : recordRunEvidence callees = .ok () ↔ EvidenceContained callees := by
  unfold recordRunEvidence
  rw [Fallible.bind_ok]
  constructor
  · rintro ⟨service, hs, h⟩
    rcases (caught_ok _ _).mp hs with ⟨sink, hsink, rfl⟩ | ⟨fault, hf, hne, rfl⟩
    · cases sink with
      | false => exact ⟨by simp [hsink], by simp [hsink], by simp [hsink]⟩
      | true =>
          obtain ⟨_, hr, hp⟩ := (Fallible.bind_ok _ _ _).mp h
          refine ⟨by simp [hsink], fun _ => hr, fun _ fault hfault => ?_⟩
          rw [hfault] at hp
          cases fault with
          | evidenceService => rfl
          | policyLoad => cases hp
          | other => cases hp
          | interrupted => cases hp
    · exact ⟨by simp [hf, hne], by simp [hf], by simp [hf]⟩
  · rintro ⟨hs, hr, hp⟩
    cases hservice : callees.evidenceService with
    | error fault =>
        refine ⟨none, (caught_ok _ _).mpr (.inr ⟨fault, rfl, ?_, rfl⟩), rfl⟩
        rintro rfl
        exact hs hservice
    | ok sink =>
        refine ⟨some sink, rfl, ?_⟩
        cases sink with
        | false => rfl
        | true =>
            refine (Fallible.bind_ok _ _ _).mpr ⟨(), hr hservice, ?_⟩
            cases hpost : callees.evidencePost with
            | ok _ => rfl
            | error fault => rw [hp hservice fault hpost]

-- The run reached the agent, which returned this outcome.
structure Ran (outcome : UnderwritingOutcome) : Prop where
  policies : callees.policies = .ok true
  provider : callees.provider = .ok ()
  underwriter : callees.underwriter = .ok outcome

-- Each stage of the run raises only what the run turns into a failure of the case.
structure RunContained : Prop where
  policies : ∀ fault, callees.policies = .error fault → fault = .policyLoad
  provider : callees.policies = .ok true → callees.provider ≠ .error .interrupted
  underwriter : callees.policies = .ok true → callees.provider = .ok () →
    callees.underwriter ≠ .error .interrupted
  evidence : ∀ outcome, Ran callees outcome → EvidenceContained callees

-- What a run ends with: the outcome of the agent, or why there is none.
theorem underwrite_ok (outcome : Option UnderwritingOutcome) (failure : String)
    (h : underwrite callees = .ok (outcome, failure)) :
    RunContained callees ∧ ((∃ found, outcome = some found ∧ Ran callees found ∧ failure = failureOf (some found)) ∨
      outcome = none ∧ failure ≠ "" ∧ ∀ found, ¬Ran callees found) := by
  unfold underwrite at h
  obtain ⟨found, hp, h⟩ := (Fallible.bind_ok _ _ _).mp h
  have hpolicies : ∀ fault, callees.policies = .error fault → fault = .policyLoad := by
    intro fault hfault
    rcases (policyFound_ok _ _).mp hp with hok | ⟨herr, _⟩
    · rw [hfault] at hok
      cases hok
    · rw [hfault] at herr
      exact Except.error.inj herr
  cases found with
  | false =>
      have hnot : callees.policies ≠ .ok true := by
        rcases (policyFound_ok _ _).mp hp with hok | ⟨herr, _⟩
        · rw [hok]
          decide
        · rw [herr]
          decide
      cases h
      exact ⟨⟨hpolicies, fun h => absurd h hnot, fun h => absurd h hnot, fun _ h => absurd h.policies hnot⟩,
        .inr ⟨rfl, by decide, fun _ h => hnot h.policies⟩⟩
  | true =>
      have htrue : callees.policies = .ok true := by
        rcases (policyFound_ok _ _).mp hp with hok | ⟨_, hfalse⟩
        · exact hok
        · cases hfalse
      obtain ⟨provider, hprovider, h⟩ := (Fallible.bind_ok _ _ _).mp h
      rcases (caught_ok _ _).mp hprovider with ⟨_, hok, rfl⟩ | ⟨fault, herr, hne, rfl⟩
      · obtain ⟨result, hresult, h⟩ := (Fallible.bind_ok _ _ _).mp h
        rcases (caught_ok _ _).mp hresult with ⟨found, hfound, rfl⟩ | ⟨fault, herr, hne, rfl⟩
        · obtain ⟨_, hevidence, h⟩ := (Fallible.bind_ok _ _ _).mp h
          cases h
          exact ⟨⟨hpolicies, by simp [hok], by simp [hfound], fun _ _ => (recordRunEvidence_ok callees).mp hevidence⟩,
            .inl ⟨found, rfl, ⟨htrue, hok, hfound⟩, rfl⟩⟩
        · have hnot : ∀ found, ¬Ran callees found := fun found hran => by
            rw [hran.underwriter] at herr
            cases herr
          cases h
          exact ⟨⟨hpolicies, by simp [hok], by simp [herr, hne], fun found hran => absurd hran (hnot found)⟩,
            .inr ⟨rfl, by decide, hnot⟩⟩
      · have hnot : callees.provider ≠ .ok () := by simp [herr]
        cases h
        exact ⟨⟨hpolicies, by simp [herr, hne], fun _ h => absurd h hnot, fun _ h => absurd h.provider hnot⟩,
          .inr ⟨rfl, by decide, fun _ h => hnot h.provider⟩⟩

theorem underwrite_contained (h : RunContained callees) : ∃ result, underwrite callees = .ok result := by
  unfold underwrite
  have hnone : callees.policies ≠ .ok true → policyFound callees = .ok false := by
    intro hne
    rw [policyFound_ok]
    cases hp : callees.policies with
    | error fault =>
        rw [h.policies fault hp]
        exact .inr ⟨rfl, rfl⟩
    | ok found => cases found with
      | false => exact .inl rfl
      | true => exact absurd hp hne
  by_cases hp : callees.policies = .ok true
  · rw [(policyFound_ok callees true).mpr (.inl hp), Fallible.ok_bind, if_pos rfl]
    cases hprovider : callees.provider with
    | error fault =>
        refine ⟨(none, "provider_unavailable"), ?_⟩
        rw [(caught_ok _ none).mpr (.inr ⟨fault, rfl, fun he => h.provider hp (he ▸ hprovider), rfl⟩)]
        rfl
    | ok _ =>
        cases hrun : callees.underwriter with
        | error fault =>
            refine ⟨(none, failureOf none), ?_⟩
            rw [(caught_ok (.error fault) none).mpr
              (.inr ⟨fault, rfl, fun he => h.underwriter hp hprovider (he ▸ hrun), rfl⟩)]
            rfl
        | ok found =>
            refine ⟨(some found, failureOf (some found)), ?_⟩
            have hevidence := (recordRunEvidence_ok callees).mpr (h.evidence found ⟨hp, hprovider, hrun⟩)
            show (recordRunEvidence callees >>= fun _ => _) = _
            rw [hevidence]
            rfl
  · rw [hnone hp]
    exact ⟨_, rfl⟩

end Stages

end AgenticOrg.Cases
