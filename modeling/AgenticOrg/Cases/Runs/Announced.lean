import AgenticOrg.Cases.Runs.Theorems

namespace AgenticOrg.Cases

section Invariant

variable (case after : Case)

-- A case that awaits a decision has arrived there with a memo, and one that has arrived was investigated.
structure Kept : Prop where
  recorded : Recorded case
  awaiting : case.state = .awaitingDecision → case.arrivals ≠ [] ∧ case.memo.isSome = true
  investigated : case.arrivals ≠ [] → 1 ≤ case.investigations

theorem newCase_kept : Kept newCase :=
  ⟨⟨newCase_versioned, by decide, by decide, by decide⟩, by decide, by decide⟩

-- A change that is no arrival.
structure Silent : Prop where
  recorded : Recorded after
  arrivals : after.arrivals = case.arrivals
  arrivalEvents : after.arrivalEvents = case.arrivalEvents
  investigations : case.investigations ≤ after.investigations
  awaiting : after.state = .awaitingDecision → case.state = .awaitingDecision ∧ after.memo = case.memo

theorem Silent.kept (hk : Kept case) (h : Silent case after) : Kept after := by
  refine ⟨h.recorded, fun hstate => ?_, fun harrived => ?_⟩
  · obtain ⟨hcase, hmemo⟩ := h.awaiting hstate
    rw [h.arrivals, hmemo]
    exact hk.awaiting hcase
  · rw [h.arrivals] at harrived
    exact Nat.le_trans (hk.investigated harrived) h.investigations

theorem Silent.refl (hr : Recorded case) : Silent case case :=
  ⟨hr, rfl, rfl, Nat.le_refl _, fun h => ⟨h, rfl⟩⟩

theorem Silent.trans (third : Case) (h : Silent case after) (h' : Silent after third) : Silent case third := by
  refine ⟨h'.recorded, h'.arrivals.trans h.arrivals, h'.arrivalEvents.trans h.arrivalEvents,
    Nat.le_trans h.investigations h'.investigations, fun hstate => ?_⟩
  obtain ⟨hafter, hmemo⟩ := h'.awaiting hstate
  obtain ⟨hcase, hm⟩ := h.awaiting hafter
  exact ⟨hcase, hmemo.trans hm⟩

theorem recordUpdate_silent (hr : Recorded case) : Silent case (recordUpdate case) := by
  have hc := recordUpdate_changed case "" hr.versioned
  have ha := arrivals_changed case _ none _ _ hc
  have he := arrivalEvents_changed case _ none _ _ hr.versioned hc
  rw [if_neg (Option.some_ne_none _).symm, List.append_nil] at ha he
  obtain ⟨hstate, hmemo, _⟩ := recordUpdate_kept case
  refine ⟨hr.changed case _ none _ _ hc (fun _ h => by cases h), ha, he, ?_, fun h => ⟨hstate ▸ h, hmemo⟩⟩
  rw [recordUpdate_eq case hr.versioned]
  exact Nat.le_refl _

theorem updates_silent (hr : Recorded case) (updates : ℕ) : Silent case (recordUpdate^[updates] case) := by
  induction updates with
  | zero => exact Silent.refl case hr
  | succ updates ih =>
      rw [Function.iterate_succ_apply']
      exact ih.trans _ _ _ (recordUpdate_silent _ ih.recorded)

theorem announcedTarget (target : CaseState) : target ∈ ANNOUNCED → (eventTypeFor case target).isSome = true := by
  cases target with
  | submitted => exact fun h => absurd h (by decide)
  | inProgress => exact fun h => absurd h (by decide)
  | awaitingDecision => exact fun _ => rfl
  | decided => exact fun _ => rfl
  | withdrawn => exact fun _ => rfl
  | failed => exact fun _ => rfl

theorem transition_recorded (target : CaseState) (reason : String) (hr : Recorded case)
    (h : transition case target reason = .ok after) : Recorded after :=
  hr.changed case after _ reason _ (transition_changed case after reason target hr.versioned h) (by
    intro state hstate
    cases hstate
    exact announcedTarget case target)

-- A transition into any other state is no arrival.
theorem transition_silent (target : CaseState) (reason : String) (hr : Recorded case)
    (h : transition case target reason = .ok after) (ht : target ≠ .awaitingDecision) : Silent case after := by
  have hc := transition_changed case after reason target hr.versioned h
  have ha := arrivals_changed case _ _ _ _ hc
  have he := arrivalEvents_changed case _ _ _ _ hr.versioned hc
  rw [if_neg (fun hs => ht (Option.some.inj hs)), List.append_nil] at ha he
  obtain ⟨hstate, _, _, _⟩ := transition_kept _ _ _ _ h
  refine ⟨transition_recorded case after target reason hr h, ha, he, ?_, fun hs => absurd (hstate ▸ hs) ht⟩
  obtain ⟨_, rfl⟩ := transition_ok case target reason after hr.versioned h
  exact Nat.le_refl _

def arrivalType (investigations : ℕ) : EventType := if investigations ≤ 1 then .completed else .updated

-- An arrival is told by the number of the agent's runs that are recorded.
theorem transition_arrived (reason : String) (hr : Recorded case)
    (h : transition case .awaitingDecision reason = .ok after) :
    after.arrivalEvents = case.arrivalEvents ++ [[arrivalType case.investigations]] ∧ after.arrivals ≠ [] ∧
      after.investigations = case.investigations := by
  have hc := transition_changed case after reason _ hr.versioned h
  have ha := arrivals_changed case _ _ _ _ hc
  have he := arrivalEvents_changed case _ _ _ _ hr.versioned hc
  rw [if_pos rfl] at ha he
  refine ⟨he, by rw [ha]; exact List.append_ne_nil_of_right_ne_nil _ (List.cons_ne_nil _ _), ?_⟩
  obtain ⟨_, rfl⟩ := transition_ok case .awaitingDecision reason after hr.versioned h
  rfl

theorem withRecord_investigations (outcome : Option UnderwritingOutcome) :
    (withRecord case outcome).investigations = case.investigations + outcome.toList.length := by
  unfold Case.investigations withRecord
  rw [List.filter_append, List.length_append]
  cases outcome with
  | none => rfl
  | some outcome => rfl

end Invariant

section Steps

variable (case : Case) (callees : Callees) (reason : String) (keepStateOnFailure : Bool) (updates : ℕ)

-- Where the case is moved and its call commits: no run was recorded before the first memo, and a kept re-query
-- that has no outcome finds more than one run recorded.
def TellsOf : Prop :=
  CaseState.inProgress ∈ TRANSITIONS case.state → Contained callees updates →
    (case.arrivals = [] →
      (∃ outcome, Ran callees outcome ∧ savedMemo (some outcome) (failureOf (some outcome)) ≠ none) →
        case.investigations = 0) ∧
    (keepStateOnFailure = true → case.state = .awaitingDecision → (∀ outcome, ¬Ran callees outcome) →
      case.investigations ≠ 1)

def Tells : Operation → Prop
  | .investigate callees _ keepStateOnFailure updates => TellsOf case callees keepStateOnFailure updates
  | _ => True

-- What a step does to the invariant and to the order of what is told.
structure Stepped (after : Case) (tells : Prop) : Prop where
  kept : Kept after
  inOrder : InOrder after.arrivalEvents ↔ InOrder case.arrivalEvents ∧ tells

theorem Silent.stepped (after : Case) (hk : Kept case) (h : Silent case after) (tells : Prop) (ht : tells) :
    Stepped case after tells := by
  refine ⟨h.kept case after hk, ?_⟩
  rw [h.arrivalEvents]
  exact ⟨fun hi => ⟨hi, ht⟩, fun hi => hi.1⟩

theorem Stepped.congr (after : Case) (tells tells' : Prop) (h : Stepped case after tells) (ht : tells ↔ tells') :
    Stepped case after tells' :=
  ⟨h.kept, h.inOrder.trans (and_congr_right fun _ => ht)⟩

theorem arrivalType_eq (investigations : ℕ) (events : List (List EventType)) :
    [arrivalType investigations] = (if events = [] then [.completed] else [.updated]) ↔
      (investigations ≤ 1 ↔ events = []) := by
  unfold arrivalType
  by_cases hi : investigations ≤ 1
  · by_cases he : events = []
    · simp [hi, he]
    · simp [hi, he]
  · by_cases he : events = []
    · simp [hi, he]
    · simp [hi, he]

-- A case that arrives, from the case as it is to be stored.
theorem arrived_stepped (base stored : Case) (hb : Silent case base) (hmemo : base.memo.isSome = true)
    (hone : 1 ≤ base.investigations) (h : transition base .awaitingDecision reason = .ok stored) :
    Stepped case stored (base.investigations ≤ 1 ↔ case.arrivals = []) := by
  obtain ⟨hevents, harrived, hcount⟩ := transition_arrived base stored reason hb.recorded h
  obtain ⟨_, hm, _, _⟩ := transition_kept _ _ _ _ h
  refine ⟨⟨transition_recorded base stored _ reason hb.recorded h, fun _ => ⟨harrived, hm ▸ hmemo⟩,
    fun _ => hcount ▸ hone⟩, ?_⟩
  rw [hevents, hb.arrivalEvents, inOrder_append, arrivalType_eq, Case.arrivalEvents, List.map_eq_nil_iff]

-- What is filled in before the case is moved on.
theorem filled_silent (started base : Case) (hs : Silent case started) (hstate : started.state = .inProgress)
    (hb : base.state = started.state ∧ base.version = started.version ∧ base.transitions = started.transitions ∧
      base.outbox = started.outbox) (hi : started.investigations ≤ base.investigations) : Silent case base := by
  obtain ⟨hbs, hbv, hbt, hbo⟩ := hb
  have hsame : Silent started base := by
    obtain ⟨⟨hv, ho⟩, hone, hids, hversions⟩ := hs.recorded
    have hevents : base.eventsAt = started.eventsAt := by
      unfold Case.eventsAt
      rw [hbo]
    refine ⟨⟨⟨?_, ?_⟩, ?_, ?_, ?_⟩, ?_, ?_, hi, fun h => ?_⟩
    · rw [hbt, hbv]
      exact hv
    · rw [hbo, hbv]
      exact ho
    · rw [hbt, hevents]
      exact hone
    · rw [hbo]
      exact hids
    · rw [hbt]
      exact hversions
    · unfold Case.arrivals
      rw [hbt]
    · unfold Case.arrivalEvents Case.arrivals
      rw [hbt, hevents]
    · rw [hbs, hstate] at h
      cases h
  exact hs.trans case started base hsame

variable (started stored : Case) (outcome : Option UnderwritingOutcome) (failure : String)

-- The three ways a run is stored, each from the case as it is filled in.
theorem storedResult_cases (keep : Bool) (h : storedResult callees started outcome failure keep = .ok stored) :
    (∃ memo, savedMemo outcome failure = some memo ∧
      transition { withRecord started outcome with failureReason := none, memo := some memo }
        .awaitingDecision "memo_ready" = .ok stored) ∨
    (savedMemo outcome failure = none ∧ keep = true ∧ started.memo.isSome = true ∧
      ∃ reason, transition (withRecord started outcome) .awaitingDecision reason = .ok stored) ∨
    (savedMemo outcome failure = none ∧ ¬(keep = true ∧ started.memo.isSome = true) ∧
      ∃ reason, transition { withRecord started outcome with failureReason := some reason } .failed reason =
        .ok stored) := by
  unfold storedResult at h
  cases hm : savedMemo outcome failure with
  | some memo =>
      rw [hm] at h
      obtain ⟨_, _, h⟩ := (Fallible.bind_ok _ _ _).mp h
      exact .inl ⟨memo, rfl, (raisedCase_ok _ _).mp h⟩
  | none =>
      rw [hm] at h
      replace h : storedFailure started outcome (failureReasonOf failure) keep = .ok stored := h
      unfold storedFailure at h
      by_cases hkeep : keep = true ∧ started.memo.isSome = true
      · rw [if_pos hkeep, raisedCase_ok] at h
        exact .inr (.inl ⟨rfl, hkeep.1, hkeep.2, _, h⟩)
      · rw [if_neg hkeep, raisedCase_ok] at h
        exact .inr (.inr ⟨rfl, hkeep, _, h⟩)

-- What the condition comes to for each way a run ends.
theorem tellsOf_memo (found : UnderwritingOutcome) (hk : Kept case)
    (hallowed : CaseState.inProgress ∈ TRANSITIONS case.state) (hc : Contained callees updates)
    (hran : Ran callees found) (hsaved : savedMemo (some found) (failureOf (some found)) ≠ none) :
    (case.investigations + 1 ≤ 1 ↔ case.arrivals = []) ↔ TellsOf case callees keepStateOnFailure updates := by
  constructor
  · intro h _ _
    refine ⟨fun harrived _ => ?_, fun _ _ hnone => absurd hran (hnone found)⟩
    have hle := h.mpr harrived
    omega
  · intro h
    obtain ⟨hfirst, _⟩ := h hallowed hc
    constructor
    · intro hle
      by_contra harrived
      have hone := hk.investigated harrived
      omega
    · intro harrived
      have hzero := hfirst harrived ⟨found, hran, hsaved⟩
      omega

theorem tellsOf_kept (hk : Kept case) (hstate : case.state = .awaitingDecision)
    (hallowed : CaseState.inProgress ∈ TRANSITIONS case.state) (hc : Contained callees updates)
    (hkeep : keepStateOnFailure = true) (count : ℕ) (hcount : count = case.investigations + outcome.toList.length)
    (houtcome : outcome = none ↔ ∀ found, ¬Ran callees found) :
    (count ≤ 1 ↔ case.arrivals = []) ↔ TellsOf case callees keepStateOnFailure updates := by
  obtain ⟨harrived, _⟩ := hk.awaiting hstate
  have hone := hk.investigated harrived
  constructor
  · intro h _ _
    refine ⟨fun hempty => absurd hempty harrived, fun _ _ hnone hinvestigations => harrived (h.mp ?_)⟩
    rw [hcount, houtcome.mpr hnone, hinvestigations]
    exact Nat.le_refl _
  · intro h
    obtain ⟨_, hsecond⟩ := h hallowed hc
    refine ⟨fun hle => ?_, fun hempty => absurd hempty harrived⟩
    cases houtcome' : outcome with
    | none =>
        rw [houtcome'] at hcount
        have hlength : (none : Option UnderwritingOutcome).toList.length = 0 := rfl
        have hne := hsecond hkeep hstate (houtcome.mp houtcome')
        omega
    | some found =>
        rw [houtcome'] at hcount
        have hlength : (some found).toList.length = 1 := rfl
        omega

theorem tellsOf_failed (failed : savedMemo outcome failure = none)
    (hnot : ¬(keepStateOnFailure = true ∧ case.state = .awaitingDecision))
    (hran : ∀ found, Ran callees found → outcome = some found ∧ failure = failureOf (some found)) :
    TellsOf case callees keepStateOnFailure updates := by
  intro _ _
  refine ⟨fun _ hfound => ?_, fun hkeep hstate => absurd ⟨hkeep, hstate⟩ hnot⟩
  obtain ⟨found, hfound, hsaved⟩ := hfound
  obtain ⟨rfl, rfl⟩ := hran found hfound
  exact absurd failed hsaved

theorem stored_stepped (hk : Kept case) (hc : Contained callees updates)
    (hstarted : transition case .inProgress reason = .ok started)
    (hrun : underwrite callees = .ok (outcome, failure))
    (hstored : storedResult callees started outcome failure
      (keepStateOnFailure && case.state = .awaitingDecision) = .ok stored) :
    Stepped case stored (TellsOf case callees keepStateOnFailure updates) := by
  have hs := transition_silent case started .inProgress reason hk.recorded hstarted (by decide)
  obtain ⟨hstate, hmemo, _, _⟩ := transition_kept _ _ _ _ hstarted
  obtain ⟨hallowed, hsame⟩ := transition_ok case .inProgress reason started hk.recorded.versioned hstarted
  have hcount : (withRecord started outcome).investigations = case.investigations + outcome.toList.length := by
    rw [withRecord_investigations, hsame]
    rfl
  have hinvestigations : started.investigations ≤ (withRecord started outcome).investigations := by
    rw [withRecord_investigations]
    exact Nat.le_add_right _ _
  obtain ⟨_, hends⟩ := underwrite_ok callees outcome failure hrun
  rcases storedResult_cases callees started stored outcome failure _ hstored with
    ⟨memo, hsaved, h⟩ | ⟨hsaved, hkeep, hsome, why, h⟩ | ⟨hsaved, hkeep, why, h⟩
  · rcases hends with ⟨found, rfl, hran, rfl⟩ | ⟨rfl, _, _⟩
    · have hb := filled_silent case started { withRecord started (some found) with failureReason := none, memo := some memo }
        hs hstate ⟨rfl, rfl, rfl, rfl⟩ hinvestigations
      refine (arrived_stepped case "memo_ready" _ stored hb rfl (hcount ▸ Nat.le_add_left _ _) h).congr _ _ _ _ ?_
      have htells := tellsOf_memo case callees keepStateOnFailure updates found hk hallowed hc hran
        (by rw [hsaved]; exact Option.some_ne_none memo)
      exact hcount ▸ htells
    · rw [savedMemo_none] at hsaved
      cases hsaved
  · obtain ⟨hkept, hwas⟩ := Bool.and_eq_true_iff.mp hkeep
    have hawaiting := of_decide_eq_true hwas
    have hone := hk.investigated (hk.awaiting hawaiting).1
    have hb := filled_silent case started (withRecord started outcome) hs hstate ⟨rfl, rfl, rfl, rfl⟩ hinvestigations
    refine (arrived_stepped case why _ stored hb hsome (hcount ▸ Nat.le_add_right_of_le hone) h).congr _ _ _ _ ?_
    refine tellsOf_kept case callees keepStateOnFailure updates outcome hk hawaiting hallowed hc hkept _ hcount ?_
    rcases hends with ⟨found, rfl, hran, _⟩ | ⟨rfl, _, hnone⟩
    · exact ⟨fun h => absurd h (Option.some_ne_none found), fun h => absurd hran (h found)⟩
    · exact ⟨fun _ => hnone, fun _ => rfl⟩
  · have hb := filled_silent case started { withRecord started outcome with failureReason := some why }
      hs hstate ⟨rfl, rfl, rfl, rfl⟩ hinvestigations
    have hsilent := hb.trans case _ stored (transition_silent _ stored .failed why hb.recorded h (by decide))
    refine hsilent.stepped case stored hk _ (tellsOf_failed case callees keepStateOnFailure updates outcome failure
      hsaved (fun hboth => hkeep ⟨?_, ?_⟩) fun found hran => ?_)
    · rw [hboth.1, hboth.2]
      rfl
    · rw [hmemo]
      exact (hk.awaiting hboth.2).2
    · rcases hends with ⟨other, rfl, hother, rfl⟩ | ⟨_, _, hnone⟩
      · have he : other = found := Except.ok.inj (hother.underwriter.symm.trans hran.underwriter)
        exact ⟨congrArg some he, by rw [he]⟩
      · exact absurd hran (hnone found)

theorem investigate_stepped (hk : Kept case) :
    Stepped case (investigateCase callees case reason keepStateOnFailure updates).1
      (TellsOf case callees keepStateOnFailure updates) := by
  by_cases hallowed : CaseState.inProgress ∈ TRANSITIONS case.state
  · obtain ⟨started, hstarted⟩ := transition_allowed case .inProgress reason hallowed
    have hs := transition_silent case started .inProgress reason hk.recorded hstarted (by decide)
    unfold investigateCase
    rw [hstarted]
    show Stepped case (leftAs _ (runAndStore ..)).1 _
    cases hcall : runAndStore callees (recordUpdate^[updates] started) started.version
      (keepStateOnFailure && case.state = .awaitingDecision) with
    | error raised =>
        have hnot : ¬Contained callees updates := by
          intro hc
          obtain ⟨hstate, _, _, _⟩ := transition_kept _ _ _ _ hstarted
          obtain ⟨stored, hstored, _⟩ := runAndStore_contained callees updates started
            (keepStateOnFailure && case.state = .awaitingDecision) hstate hc
          rw [hcall] at hstored
          cases hstored
        exact (hs.trans _ _ _ (updates_silent started hs.recorded updates)).stepped case _ hk _
          fun _ hc => absurd hc hnot
    | ok stored =>
        have hc := runAndStore_needs callees updates started _ stored hcall
        rw [hc.updates] at hcall
        obtain ⟨⟨outcome, failure⟩, hrun, h⟩ := (Fallible.bind_ok _ _ _).mp hcall
        obtain ⟨_, _, h⟩ := (Fallible.bind_ok _ _ _).mp h
        replace h : storedResult callees started outcome failure
          (keepStateOnFailure && case.state = .awaitingDecision) = .ok stored :=
          (if_neg (not_not.mpr rfl)).symm.trans h
        exact stored_stepped case callees reason keepStateOnFailure updates started stored outcome failure hk hc
          hstarted ((raisedFault_ok _ _).mp hrun) h
  · unfold investigateCase
    rw [transition_refused case .inProgress reason hallowed]
    exact (Silent.refl case hk.recorded).stepped case _ hk _ fun h => absurd h hallowed

theorem transitioned_stepped (target : CaseState) (hk : Kept case) (ht : target ≠ .awaitingDecision) :
    Stepped case (orKept case (transition case target reason)) True := by
  cases h : transition case target reason with
  | error error => exact (Silent.refl case hk.recorded).stepped case _ hk _ trivial
  | ok after => exact (transition_silent case after target reason hk.recorded h ht).stepped case _ hk _ trivial

theorem withDispositions_silent (records : List (String × String)) (hr : Recorded case) :
    Silent case (withDispositions case records) := by
  refine ⟨⟨⟨hr.versioned.transitions, hr.versioned.outbox⟩, hr.one, hr.ids, hr.versions⟩, rfl, rfl, ?_,
    fun h => ⟨h, rfl⟩⟩
  unfold Case.investigations withDispositions
  rw [List.filter_append, List.length_append]
  exact Nat.le_add_right _ _

theorem step_stepped (operation : Operation) (hk : Kept case) :
    Stepped case (step case operation) (Tells case operation) := by
  have hsame := (Silent.refl case hk.recorded).stepped case _ hk True trivial
  cases operation with
  | investigate callees reason keepStateOnFailure updates =>
      exact investigate_stepped case callees reason keepStateOnFailure updates hk
  | withdraw => exact transitioned_stepped case "withdrawn" .withdrawn hk (by decide)
  | update => exact (recordUpdate_silent case hk.recorded).stepped case _ hk _ trivial
  | decide verified =>
      show Stepped case (orKept case (decideCase case verified)) True
      unfold decideCase
      split
      · exact hsame
      · cases verified with
        | error error => exact hsame
        | ok outcome => exact transitioned_stepped case ("decision_" ++ outcome) .decided hk (by decide)
  | dispose records =>
      show Stepped case (orKept case (disposeScreeningHits case records)) True
      unfold disposeScreeningHits
      split
      · exact hsame
      · cases records with
        | error fault => exact hsame
        | ok records =>
            have hb := withDispositions_silent case records hk.recorded
            exact (hb.trans case _ _ (recordUpdate_silent _ hb.recorded)).stepped case _ hk _ trivial

end Steps

section Runs

-- Each step of the run tells its arrival as it should.
def TellsAll : Case → List Operation → Prop
  | _, [] => True
  | case, operation :: operations => Tells case operation ∧ TellsAll (step case operation) operations

theorem run_inOrder (case : Case) (operations : List Operation) (hk : Kept case) :
    Kept (run case operations) ∧
      (InOrder (run case operations).arrivalEvents ↔ InOrder case.arrivalEvents ∧ TellsAll case operations) := by
  induction operations generalizing case with
  | nil => exact ⟨hk, (and_iff_left trivial).symm⟩
  | cons operation operations ih =>
      obtain ⟨hkept, horder⟩ := step_stepped case operation hk
      obtain ⟨hrun, hall⟩ := ih (step case operation) hkept
      exact ⟨hrun, hall.trans ((and_congr_left' horder).trans and_assoc)⟩

theorem run_announced_iff (operations : List Operation) :
    Announced (run newCase operations) ↔ TellsAll newCase operations := by
  obtain ⟨hk, horder⟩ := run_inOrder newCase operations newCase_kept
  have hnew : InOrder newCase.arrivalEvents := ⟨by decide, by decide⟩
  exact ⟨fun h => (horder.mp h.inOrder).2, fun h => ⟨hk.recorded, horder.mpr ⟨hnew, h⟩⟩⟩

-- A run of the agent that hands off no memo.
def failedRun : Callees :=
  { filedRun (.ok ()) with underwriter := .ok ⟨false, "provider_timeout", none, []⟩ }

-- A failed run is recorded, so the case that arrives after it is told as an updated one; a re-query that fails
-- before its agent runs records nothing, so the case is told as completed once more.
theorem runs_mistold :
    ¬Announced (run newCase [.investigate failedRun "investigation_started" false 0,
      .investigate (filedRun (.ok ())) "investigation_started" false 0]) ∧
    ¬Announced (run newCase [.investigate (filedRun (.ok ())) "investigation_started" false 0,
      .investigate { filedRun (.ok ()) with provider := .error .other } "provider_event" true 0]) := by
  constructor
  · intro h
    have hfirst := h.inOrder.1
    revert hfirst
    decide +kernel
  · intro h
    have hlater := h.inOrder.2
    revert hlater
    decide +kernel

end Runs

end AgenticOrg.Cases
