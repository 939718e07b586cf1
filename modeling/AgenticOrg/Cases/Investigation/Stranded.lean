import AgenticOrg.Cases.Investigation.Theorems

namespace AgenticOrg.Cases

section Storing

variable (callees : Callees) (case : Case)

-- Neither the tenant's key nor the passages' encryption fails where it is asked for.
structure StoreContained (outcome : Option UnderwritingOutcome) (failure : String) : Prop where
  tenantKey : keyNeeded outcome = true → callees.tenantKey = .ok ()
  storeExcerpts : savedMemo outcome failure ≠ none → callees.storeExcerpts = .ok ()

theorem raisedFault_ok {α : Type} (result : Except Fault α) (value : α) :
    raisedFault result = .ok value ↔ result = .ok value := by
  cases result with
  | ok found => simp [raisedFault]
  | error fault => simp [raisedFault]

theorem raisedCase_ok {α : Type} (result : Except CaseError α) (value : α) :
    raisedCase result = .ok value ↔ result = .ok value := by
  cases result with
  | ok found => simp [raisedCase]
  | error error => simp [raisedCase]

theorem tenantKey_ok (outcome : Option UnderwritingOutcome) :
    tenantKey callees outcome = .ok () ↔ (keyNeeded outcome = true → callees.tenantKey = .ok ()) := by
  unfold tenantKey
  split
  · rename_i h
    rw [raisedFault_ok]
    exact ⟨fun hk _ => hk, fun hk => hk h⟩
  · rename_i h
    exact ⟨fun _ hn => absurd hn h, fun _ => rfl⟩

theorem savedMemo_none (failure : String) : savedMemo none failure = none := by
  unfold savedMemo
  split
  · rfl
  · rfl

theorem storeContained_none (failure : String) : StoreContained callees none failure := by
  refine ⟨fun h => ?_, fun h => absurd (savedMemo_none failure) h⟩
  cases h

-- Where the case is no longer in progress: failed with its reason, or awaiting a decision with a memo.
theorem storedFailure_ended (outcome : Option UnderwritingOutcome) (reason : String) (keep : Bool)
    (hstate : case.state = .inProgress) : ∃ stored, storedFailure case outcome reason keep = .ok stored ∧
      (stored.state = .failed ∧ stored.failureReason = some reason ∨
        keep = true ∧ stored.state = .awaitingDecision ∧ stored.memo = case.memo ∧ case.memo.isSome = true) := by
  have hallowed : ∀ target ∈ TRANSITIONS .inProgress, target ∈ TRANSITIONS case.state := by
    rw [hstate]
    exact fun _ h => h
  unfold storedFailure
  split
  · rename_i hkeep
    obtain ⟨stored, hs⟩ := transition_allowed (withRecord case outcome) .awaitingDecision
      (clipReason ("re_evaluation_failed:" ++ reason)) (hallowed _ (by decide))
    obtain ⟨hstored, hmemo, _, _⟩ := transition_kept _ _ _ _ hs
    exact ⟨stored, (raisedCase_ok _ _).mpr hs, .inr ⟨hkeep.1, hstored, hmemo, hkeep.2⟩⟩
  · obtain ⟨stored, hs⟩ := transition_allowed
      { withRecord case outcome with failureReason := some reason } .failed reason (hallowed _ (by decide))
    obtain ⟨hstored, _, hreason, _⟩ := transition_kept _ _ _ _ hs
    exact ⟨stored, (raisedCase_ok _ _).mpr hs, .inl ⟨hstored, hreason⟩⟩

theorem storedMemo_ended (outcome : Option UnderwritingOutcome) (memo : Memo) (hstate : case.state = .inProgress)
    (h : callees.storeExcerpts = .ok ()) : ∃ stored, storedMemo callees case outcome memo = .ok stored ∧
      stored.state = .awaitingDecision ∧ stored.memo = some memo := by
  obtain ⟨stored, hs⟩ := transition_allowed
    { withRecord case outcome with failureReason := none, memo := some memo } .awaitingDecision "memo_ready"
    (show _ ∈ TRANSITIONS case.state by rw [hstate]; decide)
  obtain ⟨hstored, hmemo, _, _⟩ := transition_kept _ _ _ _ hs
  refine ⟨stored, (Fallible.bind_ok _ _ _).mpr ⟨(), (raisedFault_ok _ _).mpr h, ?_⟩, hstored, hmemo⟩
  exact (raisedCase_ok _ _).mpr hs

-- What the write transaction needs to commit.
theorem storeInvestigation_needs (version : ℕ) (outcome : Option UnderwritingOutcome) (failure : String)
    (keep : Bool) (stored : Case) (h : storeInvestigation callees case version outcome failure keep = .ok stored) :
    StoreContained callees outcome failure ∧ case.version = version := by
  obtain ⟨_, hkey, h⟩ := (Fallible.bind_ok _ _ _).mp h
  by_cases hv : case.version = version
  · rw [if_neg (not_not.mpr hv)] at h
    refine ⟨⟨(tenantKey_ok callees outcome).mp hkey, fun hmemo => ?_⟩, hv⟩
    unfold storedResult at h
    obtain ⟨memo, hm⟩ := Option.ne_none_iff_exists'.mp hmemo
    rw [hm] at h
    obtain ⟨_, hstore, _⟩ := (Fallible.bind_ok _ _ _).mp h
    exact (raisedFault_ok _ _).mp hstore
  · rw [if_pos hv] at h
    cases h

-- Whatever commits has taken the case out of progress.
theorem storeInvestigation_ended (outcome : Option UnderwritingOutcome) (failure : String) (keep : Bool)
    (hstate : case.state = .inProgress) (h : StoreContained callees outcome failure) :
    ∃ stored, storeInvestigation callees case case.version outcome failure keep = .ok stored ∧
      (stored.state = .failed ∧ stored.failureReason = some (failureReasonOf failure) ∨
        keep = true ∧ stored.state = .awaitingDecision ∧ stored.memo = case.memo ∧ case.memo.isSome = true ∨
        ∃ memo, savedMemo outcome failure = some memo ∧ stored.state = .awaitingDecision ∧
          stored.memo = some memo) := by
  have hresult : storeInvestigation callees case case.version outcome failure keep =
      storedResult callees case outcome failure keep := by
    unfold storeInvestigation
    rw [(tenantKey_ok callees outcome).mpr h.tenantKey, Fallible.ok_bind, if_neg (not_not.mpr rfl)]
  rw [hresult]
  unfold storedResult
  cases hm : savedMemo outcome failure with
  | none =>
      obtain ⟨stored, hs, hended⟩ := storedFailure_ended case outcome (failureReasonOf failure) keep hstate
      exact ⟨stored, hs, hended.imp_right .inl⟩
  | some memo =>
      obtain ⟨stored, hs, hstored, hmemo⟩ := storedMemo_ended callees case outcome memo hstate
        (h.storeExcerpts (by rw [hm]; exact Option.some_ne_none memo))
      exact ⟨stored, hs, .inr (.inr ⟨memo, rfl, hstored, hmemo⟩)⟩

end Storing

section Ends

variable (callees : Callees) (case : Case) (reason : String) (keepStateOnFailure : Bool) (updates : ℕ)

-- The call has not left the case in progress: it is failed with a reason, or awaits a decision with the memo of
-- this run, or with its own where a failed re-query keeps the state.
def Ended (after : Case) : Prop :=
  (after.state = .failed ∧ ∃ reason, after.failureReason = some reason ∧ reason ≠ "") ∨
    (after.state = .awaitingDecision ∧ after.memo.isSome = true ∧
      ((∃ outcome, callees.underwriter = .ok outcome ∧ after.memo = outcome.memo) ∨
        keepStateOnFailure = true ∧ case.state = .awaitingDecision ∧ after.memo = case.memo))

-- No stage raises past the handlers there are, and no one else changes the case while the agent runs.
structure Contained : Prop where
  run : RunContained callees
  store : ∀ outcome, Ran callees outcome → StoreContained callees (some outcome) (failureOf (some outcome))
  updates : updates = 0

theorem Ended.moved (after : Case) (h : Ended callees case keepStateOnFailure after) :
    after.state ≠ .inProgress := by
  rcases h with ⟨hstate, _⟩ | ⟨hstate, _⟩
  · rw [hstate]
    decide
  · rw [hstate]
    decide

-- The memo a run saves is the one its agent handed off.
theorem saved_of_run (outcome : Option UnderwritingOutcome) (failure : String) (memo : Memo)
    (hrun : underwrite callees = .ok (outcome, failure)) (hsaved : savedMemo outcome failure = some memo) :
    ∃ found, callees.underwriter = .ok found ∧ some memo = found.memo := by
  obtain ⟨_, ⟨found, rfl, hran, _⟩ | ⟨rfl, _, _⟩⟩ := underwrite_ok callees outcome failure hrun
  · refine ⟨found, hran.underwriter, ?_⟩
    unfold savedMemo at hsaved
    split at hsaved
    · exact hsaved.symm
    · cases hsaved
  · rw [savedMemo_none] at hsaved
    cases hsaved

-- Where every stage is contained, the case is stored, and out of progress.
theorem runAndStore_contained (started : Case) (keep : Bool) (hstate : started.state = .inProgress)
    (h : Contained callees updates) :
    ∃ stored, runAndStore callees (recordUpdate^[updates] started) started.version keep = .ok stored ∧
      ((stored.state = .failed ∧ ∃ reason, stored.failureReason = some reason ∧ reason ≠ "") ∨
        (keep = true ∧ stored.state = .awaitingDecision ∧ stored.memo = started.memo ∧ started.memo.isSome = true) ∨
        (stored.state = .awaitingDecision ∧ stored.memo.isSome = true ∧
          ∃ found, callees.underwriter = .ok found ∧ stored.memo = found.memo)) := by
  obtain ⟨⟨outcome, failure⟩, hrun⟩ := underwrite_contained callees h.run
  obtain ⟨_, hends⟩ := underwrite_ok callees outcome failure hrun
  have hstore : StoreContained callees outcome failure := by
    rcases hends with ⟨found, rfl, hran, rfl⟩ | ⟨rfl, _, _⟩
    · exact h.store found hran
    · exact storeContained_none callees failure
  obtain ⟨stored, hs, hended⟩ := storeInvestigation_ended callees started outcome failure keep hstate hstore
  rw [h.updates]
  refine ⟨stored, (Fallible.bind_ok _ _ _).mpr ⟨(outcome, failure), (raisedFault_ok _ _).mpr hrun, hs⟩, ?_⟩
  rcases hended with ⟨hfailed, hreason⟩ | hkept | ⟨memo, hsaved, hawaiting, hnew⟩
  · exact .inl ⟨hfailed, _, hreason, failureReasonOf_ne failure⟩
  · exact .inr (.inl hkept)
  · obtain ⟨found, hfound, hmemo⟩ := saved_of_run callees outcome failure memo hrun hsaved
    exact .inr (.inr ⟨hawaiting, by rw [hnew]; rfl, found, hfound, hnew.trans hmemo⟩)

theorem investigateCase_contained (hallowed : CaseState.inProgress ∈ TRANSITIONS case.state)
    (h : Contained callees updates) :
    Ended callees case keepStateOnFailure (investigateCase callees case reason keepStateOnFailure updates).1 := by
  obtain ⟨started, hstarted⟩ := transition_allowed case .inProgress reason hallowed
  obtain ⟨hstate, hmemo, _, _⟩ := transition_kept _ _ _ _ hstarted
  obtain ⟨stored, hs, hended⟩ := runAndStore_contained callees updates started
    (keepStateOnFailure && case.state = .awaitingDecision) hstate h
  have hcall : investigateCase callees case reason keepStateOnFailure updates = (stored, none) := by
    unfold investigateCase
    rw [hstarted]
    exact congrArg (leftAs (recordUpdate^[updates] started)) hs
  rw [hcall]
  rcases hended with hfailed | ⟨hkeep, hawaiting, hkept, hsome⟩ | ⟨hawaiting, hsome, hfound⟩
  · exact .inl hfailed
  · obtain ⟨hk, hwas⟩ := Bool.and_eq_true_iff.mp hkeep
    exact .inr ⟨hawaiting, hkept ▸ hsome, .inr ⟨hk, of_decide_eq_true hwas, hkept.trans hmemo⟩⟩
  · exact .inr ⟨hawaiting, hsome, .inl hfound⟩

-- What is stored needs every stage to be contained.
theorem runAndStore_needs (started : Case) (keep : Bool) (stored : Case)
    (h : runAndStore callees (recordUpdate^[updates] started) started.version keep = .ok stored) :
    Contained callees updates := by
  obtain ⟨⟨outcome, failure⟩, hrun, hs⟩ := (Fallible.bind_ok _ _ _).mp h
  obtain ⟨hcontained, hsame⟩ := storeInvestigation_needs _ _ _ _ _ _ _ hs
  obtain ⟨hrunned, hends⟩ := underwrite_ok callees outcome failure ((raisedFault_ok _ _).mp hrun)
  obtain ⟨_, _, hversion⟩ := updated_kept started updates
  refine ⟨hrunned, fun found hran => ?_, by omega⟩
  rcases hends with ⟨other, rfl, hother, rfl⟩ | ⟨_, _, hnot⟩
  · have he : other = found := Except.ok.inj (hother.underwriter.symm.trans hran.underwriter)
    exact he ▸ hcontained
  · exact absurd hran (hnot found)

-- A call that raises past its handlers leaves the case where it started it.
theorem investigateCase_stranded (hallowed : CaseState.inProgress ∈ TRANSITIONS case.state)
    (h : ¬Contained callees updates) :
    (investigateCase callees case reason keepStateOnFailure updates).1.state = .inProgress := by
  obtain ⟨started, hstarted⟩ := transition_allowed case .inProgress reason hallowed
  obtain ⟨hstate, _, _, _⟩ := transition_kept _ _ _ _ hstarted
  obtain ⟨hupdated, _, _⟩ := updated_kept started updates
  unfold investigateCase
  rw [hstarted]
  cases hcall : runAndStore callees (recordUpdate^[updates] started) started.version
    (keepStateOnFailure && case.state = .awaitingDecision) with
  | error raised =>
      show (leftAs (recordUpdate^[updates] started) (runAndStore ..)).1.state = _
      rw [hcall]
      exact hupdated.trans hstate
  | ok stored => exact absurd (runAndStore_needs callees updates started _ stored hcall) h

theorem investigation_ends_iff (hallowed : CaseState.inProgress ∈ TRANSITIONS case.state) :
    Ended callees case keepStateOnFailure (investigateCase callees case reason keepStateOnFailure updates).1 ↔
      Contained callees updates := by
  constructor
  · intro hended
    by_contra hnot
    exact hended.moved callees case keepStateOnFailure _
      (investigateCase_stranded callees case reason keepStateOnFailure updates hallowed hnot)
  · exact investigateCase_contained callees case reason keepStateOnFailure updates hallowed

-- A completed run of a filing with one passage; the tenant's row says whether its key resolves.
def filedRun (tenantKey : Except Fault Unit) : Callees where
  policies := .ok true
  provider := .ok ()
  underwriter := .ok ⟨true, "", some ⟨"Acme Ltd", "tier_1"⟩, ["Registered office: 1 High Street."]⟩
  evidenceService := .ok false
  evidenceRecords := .ok ()
  evidencePost := .ok ()
  tenantKey := tenantKey
  storeExcerpts := .ok ()

theorem filedRun_ended : Ended (filedRun (.ok ())) newCase false
    (investigateCase (filedRun (.ok ())) newCase "investigation_started" false 0).1 := by
  refine (investigation_ends_iff (filedRun (.ok ())) newCase "investigation_started" false 0 (by decide)).mpr
    ⟨⟨fun fault h => ?_, by decide, fun _ _ => by decide, fun _ _ => ⟨by decide, fun _ => rfl, fun h => ?_⟩⟩,
      fun _ _ => ⟨fun _ => rfl, fun _ => rfl⟩, rfl⟩
  · cases h
  · cases h

-- A key that cannot be resolved strands the case: it can be neither investigated again nor withdrawn.
theorem filedRun_stranded :
    ¬Ended (filedRun (.error .other)) newCase false
      (investigateCase (filedRun (.error .other)) newCase "investigation_started" false 0).1 ∧
      (investigateCase (filedRun (.error .other)) newCase "investigation_started" false 0).1.state = .inProgress ∧
      CaseState.inProgress ∉ TRANSITIONS .inProgress ∧ CaseState.withdrawn ∉ TRANSITIONS .inProgress := by
  have hstate : (investigateCase (filedRun (.error .other)) newCase "investigation_started" false 0).1.state =
      .inProgress := by decide +kernel
  exact ⟨fun h => h.moved _ _ _ _ hstate, hstate, by decide, by decide⟩

end Ends

end AgenticOrg.Cases
