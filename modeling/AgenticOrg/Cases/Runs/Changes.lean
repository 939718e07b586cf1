import AgenticOrg.Cases.Runs.Announced
import Mathlib.Logic.Relation
import Mathlib.Data.List.Chain

namespace AgenticOrg.Cases

section Changes

-- One write of a case's row: what it holds, a new version of its documents, or a transition to one of the targets.
inductive Change (targets : CaseState → Prop) (case : Case) : Case → Prop
  | fill (after : Case) (hopen : case.state ≠ .decided)
      (hkept : after.state = case.state ∧ after.version = case.version ∧ after.transitions = case.transitions ∧
        after.outbox = case.outbox)
      (hmemo : case.memo.isSome = true → after.memo.isSome = true) : Change targets case after
  | update : Change targets case (recordUpdate case)
  | move (target : CaseState) (reason : String) (after : Case) (ht : targets target)
      (hmemo : target = .awaitingDecision → case.memo.isSome = true)
      (h : transition case target reason = .ok after) : Change targets case after

abbrev Changes (targets : CaseState → Prop) : Case → Case → Prop := Relation.ReflTransGen (Change targets)

variable (targets : CaseState → Prop) (case after : Case)

theorem Change.versioned (hv : Versioned case) (h : Change targets case after) : Versioned after := by
  cases h with
  | fill after hopen hkept hmemo =>
      obtain ⟨_, hversion, htransitions, houtbox⟩ := hkept
      refine ⟨?_, ?_⟩
      · rw [htransitions, hversion]
        exact hv.transitions
      · rw [houtbox, hversion]
        exact hv.outbox
  | update => exact hv.recordUpdate
  | move target reason after ht hmemo h => exact hv.transition case target reason after h

theorem Change.version_le (h : Change targets case after) : case.version ≤ after.version := by
  cases h with
  | fill after hopen hkept hmemo => exact Nat.le_of_eq hkept.2.1.symm
  | update =>
      obtain ⟨_, _, hversion⟩ := recordUpdate_kept case
      omega
  | move target reason after ht hmemo h =>
      obtain ⟨_, _, _, hversion⟩ := transition_kept _ _ _ _ h
      exact Nat.le_of_lt hversion

-- A decided case has its documents updated, and nothing else.
theorem Change.of_decided (hs : case.state = .decided) (h : Change targets case after) :
    after = recordUpdate case := by
  cases h with
  | fill after hopen hkept hmemo => exact absurd hs hopen
  | update => rfl
  | move target reason after ht hmemo h =>
      have hnone : target ∉ TRANSITIONS case.state := by
        rw [hs]
        exact List.not_mem_nil
      rw [transition_refused case target reason hnone] at h
      cases h

theorem Change.undecided (hno : ¬targets .decided) (hs : case.state ≠ .decided) (h : Change targets case after) :
    after.state ≠ .decided := by
  cases h with
  | fill after hopen hkept hmemo =>
      rw [hkept.1]
      exact hs
  | update =>
      obtain ⟨hstate, _, _⟩ := recordUpdate_kept case
      rw [hstate]
      exact hs
  | move target reason after ht hmemo h =>
      obtain ⟨hstate, _, _, _⟩ := transition_kept _ _ _ _ h
      rw [hstate]
      intro hdecided
      exact hno (hdecided ▸ ht)

-- Where no transition is allowed any more, the state and the transitions stay.
theorem Change.final (hv : Versioned case) (hfinal : TRANSITIONS case.state = []) (h : Change targets case after) :
    after.state = case.state ∧ after.transitions = case.transitions := by
  cases h with
  | fill after hopen hkept hmemo => exact ⟨hkept.1, hkept.2.2.1⟩
  | update =>
      rw [recordUpdate_eq case hv]
      exact ⟨rfl, rfl⟩
  | move target reason after ht hmemo h =>
      have hnone : target ∉ TRANSITIONS case.state := by
        rw [hfinal]
        exact List.not_mem_nil
      rw [transition_refused case target reason hnone] at h
      cases h

-- The log of the transitions is a path from submitted to the state the case is in, a version after another, and
-- nothing awaits a decision or has one without a memo.
structure Lawful : Prop where
  versioned : Versioned case
  first : (case.transitions.map Transition.target).head? = some .submitted
  path : (case.transitions.map Transition.target).IsChain fun source target => target ∈ TRANSITIONS source
  last : (case.transitions.map Transition.target).getLast? = some case.state
  increasing : (case.transitions.map Transition.version).Pairwise (· < ·)
  memo : case.state = .awaitingDecision ∨ case.state = .decided → case.memo.isSome = true

theorem newCase_lawful : Lawful newCase where
  versioned := newCase_versioned
  first := rfl
  path := by simp [newCase]
  last := rfl
  increasing := by simp [newCase]
  memo := by
    intro h
    rcases h with h | h
    · cases h
    · cases h

-- Only a case that awaits a decision is decided.
theorem decided_source (source : CaseState) (h : CaseState.decided ∈ TRANSITIONS source) :
    source = .awaitingDecision := by
  cases source <;> simp [TRANSITIONS] at h ⊢

theorem moved_lawful (target : CaseState) (reason : String) (hl : Lawful case)
    (hmemo : target = .awaitingDecision → case.memo.isSome = true)
    (h : transition case target reason = .ok after) : Lawful after := by
  obtain ⟨hallowed, rfl⟩ := transition_ok case target reason after hl.versioned h
  refine ⟨hl.versioned.transition case target reason _ h, ?_, ?_, ?_, ?_, ?_⟩
  · have hfirst := hl.first
    simp only [List.map_append, List.head?_append, hfirst]
    rfl
  · simp only [List.map_append, List.map_cons, List.map_nil]
    refine List.IsChain.append hl.path (List.IsChain.singleton _) ?_
    intro source hsource next hnext
    rw [hl.last] at hsource
    obtain rfl := Option.mem_some_iff.mp hsource
    obtain rfl := Option.mem_some_iff.mp hnext
    exact hallowed
  · simp
  · simp only [List.map_append, List.map_cons, List.map_nil]
    refine List.pairwise_append.mpr ⟨hl.increasing, List.pairwise_singleton _ _, ?_⟩
    intro version hversion next hnext
    obtain ⟨entry, hentry, rfl⟩ := List.mem_map.mp hversion
    obtain rfl := List.mem_singleton.mp hnext
    exact Nat.lt_succ_of_le (hl.versioned.transitions entry hentry)
  · rintro (hawaiting | hdecided)
    · exact hmemo hawaiting
    · replace hdecided : target = .decided := hdecided
      rw [hdecided] at hallowed
      exact hl.memo (.inl (decided_source _ hallowed))

theorem Change.lawful (hl : Lawful case) (h : Change targets case after) : Lawful after := by
  have hv := h.versioned targets case after hl.versioned
  cases h with
  | fill after hopen hkept hmemo =>
      obtain ⟨hstate, _, htransitions, _⟩ := hkept
      refine ⟨hv, ?_, ?_, ?_, ?_, ?_⟩
      · rw [htransitions]
        exact hl.first
      · rw [htransitions]
        exact hl.path
      · rw [htransitions, hstate]
        exact hl.last
      · rw [htransitions]
        exact hl.increasing
      · rw [hstate]
        exact fun h => hmemo (hl.memo h)
  | update =>
      rw [recordUpdate_eq case hl.versioned] at hv ⊢
      exact ⟨hv, hl.first, hl.path, hl.last, hl.increasing, hl.memo⟩
  | move target reason after ht hmemo h => exact moved_lawful case after target reason hl hmemo h

theorem Changes.lawful (hl : Lawful case) (h : Changes targets case after) : Lawful after := by
  induction h with
  | refl => exact hl
  | tail hbefore hchange ih => exact hchange.lawful targets _ _ ih

theorem Changes.version_le (h : Changes targets case after) : case.version ≤ after.version := by
  induction h with
  | refl => exact Nat.le_refl _
  | tail hbefore hchange ih => exact Nat.le_trans ih (hchange.version_le targets _ _)

theorem Changes.undecided (hno : ¬targets .decided) (hs : case.state ≠ .decided) (h : Changes targets case after) :
    after.state ≠ .decided := by
  induction h with
  | refl => exact hs
  | tail hbefore hchange ih => exact hchange.undecided targets _ _ hno ih

theorem Changes.final (hl : Lawful case) (hfinal : TRANSITIONS case.state = []) (h : Changes targets case after) :
    after.state = case.state ∧ after.transitions = case.transitions := by
  induction h with
  | refl => exact ⟨rfl, rfl⟩
  | @tail between later hbefore hchange ih =>
      obtain ⟨hstate, htransitions⟩ := ih
      have hlawful := Changes.lawful targets case between hl hbefore
      obtain ⟨hs, ht⟩ := hchange.final targets between later hlawful.versioned (hstate ▸ hfinal)
      exact ⟨hs.trans hstate, ht.trans htransitions⟩

-- What stays of a decided case.
theorem Changes.of_decided (hl : Lawful case) (hs : case.state = .decided) (h : Changes targets case after) :
    after.state = .decided ∧ after.memo = case.memo ∧ after.transitions = case.transitions := by
  induction h with
  | refl => exact ⟨hs, rfl, rfl⟩
  | @tail between later hbefore hchange ih =>
      obtain ⟨hstate, hmemo, htransitions⟩ := ih
      have hlawful := Changes.lawful targets case between hl hbefore
      rw [hchange.of_decided targets between later hstate, recordUpdate_eq between hlawful.versioned]
      exact ⟨hstate, hmemo, htransitions⟩

end Changes

section Operations

variable (targets : CaseState → Prop) (case : Case)

theorem updates_changes (updates : ℕ) : Changes targets case (recordUpdate^[updates] case) := by
  induction updates with
  | zero => exact .refl
  | succ updates ih =>
      rw [Function.iterate_succ_apply']
      exact ih.tail .update

theorem moved_changes (target : CaseState) (reason : String) (ht : targets target) (hne : target ≠ .awaitingDecision) :
    Changes targets case (orKept case (transition case target reason)) := by
  cases h : transition case target reason with
  | error error => exact .refl
  | ok after => exact .single (.move target reason after ht (fun heq => absurd heq hne) h)

theorem investigate_changes (callees : Callees) (reason : String) (keepStateOnFailure : Bool) (updates : ℕ)
    (hp : targets .inProgress) (ha : targets .awaitingDecision) (hf : targets .failed) :
    Changes targets case (investigateCase callees case reason keepStateOnFailure updates).1 := by
  unfold investigateCase
  cases hstarted : transition case .inProgress reason with
  | error error => exact .refl
  | ok started =>
      obtain ⟨hstate, _, _, _⟩ := transition_kept _ _ _ _ hstarted
      obtain ⟨hcurrent, _, _⟩ := updated_kept started updates
      have hbefore : Changes targets case (recordUpdate^[updates] started) :=
        (Relation.ReflTransGen.single (Change.move .inProgress reason started hp (fun heq => by cases heq) hstarted)).trans
          (updates_changes targets started updates)
      simp only []
      cases hran : runAndStore callees (recordUpdate^[updates] started) started.version
          (keepStateOnFailure && case.state = .awaitingDecision) with
      | error raised => exact hbefore
      | ok stored =>
          generalize recordUpdate^[updates] started = current at hbefore hran hcurrent
          have hopen : current.state ≠ .decided := by
            rw [hcurrent, hstate]
            decide
          unfold runAndStore at hran
          obtain ⟨ran, _, hran⟩ := (Fallible.bind_ok _ _ _).mp hran
          unfold storeInvestigation at hran
          obtain ⟨_, _, hran⟩ := (Fallible.bind_ok _ _ _).mp hran
          split at hran
          · cases hran
          · rcases storedResult_cases callees current stored ran.1 ran.2 _ hran with
              ⟨memo, _, h⟩ | ⟨_, _, hmemo, reason, h⟩ | ⟨_, _, reason, h⟩
            · refine Relation.ReflTransGen.tail (hbefore.tail (.fill { withRecord current ran.1 with
                failureReason := none, memo := some memo } hopen ⟨rfl, rfl, rfl, rfl⟩ fun _ => rfl)) ?_
              exact .move _ _ stored ha (fun _ => rfl) h
            · refine Relation.ReflTransGen.tail
                (hbefore.tail (.fill (withRecord current ran.1) hopen ⟨rfl, rfl, rfl, rfl⟩ id)) ?_
              exact .move _ _ stored ha (fun _ => hmemo) h
            · refine Relation.ReflTransGen.tail (hbefore.tail (.fill { withRecord current ran.1 with
                failureReason := some reason } hopen ⟨rfl, rfl, rfl, rfl⟩ id)) ?_
              exact .move _ _ stored hf (fun heq => by cases heq) h

theorem dispose_changes (records : Except Fault (List (String × String))) :
    Changes targets case (orKept case (disposeScreeningHits case records)) := by
  cases h : disposeScreeningHits case records with
  | error raised => exact .refl
  | ok after =>
      unfold disposeScreeningHits at h
      split at h
      · cases h
      · rename_i hstate
        obtain ⟨kept, _, h⟩ := (Fallible.bind_ok _ _ _).mp h
        rw [Fallible.pure_ok] at h
        have hopen : case.state ≠ .decided := by
          rw [not_not.mp hstate]
          decide
        have hfill : Change targets case (withDispositions case kept) := .fill _ hopen ⟨rfl, rfl, rfl, rfl⟩ id
        show Changes targets case after
        rw [← h]
        exact (Relation.ReflTransGen.single hfill).tail .update

theorem decide_changes (verified : Except CaseError String) (ht : targets .decided) :
    Changes targets case (orKept case (decideCase case verified)) := by
  cases h : decideCase case verified with
  | error error => exact .refl
  | ok after =>
      unfold decideCase at h
      split at h
      · cases h
      · obtain ⟨outcome, _, h⟩ := (Fallible.bind_ok _ _ _).mp h
        exact .single (.move _ _ after ht (fun heq => by cases heq) h)

-- One operation is a run of such writes; only a decision moves the case to decided.
theorem step_changes (operation : Operation) (hopen : ∀ target ≠ .decided, targets target)
    (hd : operation.decides = true → targets .decided) : Changes targets case (step case operation) := by
  cases operation with
  | investigate callees reason keepStateOnFailure updates =>
      exact investigate_changes targets case callees reason keepStateOnFailure updates (hopen _ (by decide))
        (hopen _ (by decide)) (hopen _ (by decide))
  | dispose records => exact dispose_changes targets case records
  | decide verified => exact decide_changes targets case verified (hd rfl)
  | withdraw => exact moved_changes targets case .withdrawn "withdrawn" (hopen _ (by decide)) (by decide)
  | update => exact .single .update

theorem run_changes (operations : List Operation) : Changes (fun _ => True) case (run case operations) := by
  induction operations generalizing case with
  | nil => exact .refl
  | cons operation operations ih =>
      exact (step_changes _ case operation (fun _ _ => trivial) fun _ => trivial).trans (ih (step case operation))

theorem run_lawful (operations : List Operation) : Lawful (run newCase operations) :=
  (run_changes newCase operations).lawful _ _ _ newCase_lawful

theorem run_append (operations more : List Operation) :
    run case (operations ++ more) = run (run case operations) more := List.foldl_append

end Operations

end AgenticOrg.Cases
